import Rumprun.Xen.ReadStream

/-! # Readers and `xenbus_dev_restart`

A restart wakes every reader that sleeps, and no later read sleeps. But a reader decided to block
before it slept, and when it runs again only the queue is looked at: if there is no event in it, the
reader sleeps again. -/

namespace Rumprun.Xen
open Core Function

/-- `ERESTART`, or success with what was copied, or with all of nothing. -/
def ReadReturn.Restarts (ret : ReadReturn) : Prop :=
  ret.err = erestart ∨ ret.err = 0 ∧ (ret.call.resid < ret.call.orgResid ∨ ret.call.orgResid = 0)

namespace ReadPlace

def Awake : ReadPlace → Prop
  | .outside => True
  | .asleep _ woken => woken = true

/-- A reader sleeps only with something left to read. -/
def Room : ReadPlace → Prop
  | .outside => True
  | .asleep call _ => call.resid ≠ 0 ∧ call.resid ≤ call.orgResid

end ReadPlace

def ReadEvent.reader {Thread : Type} : ReadEvent Thread → Option Thread
  | .read t _ _ _ => some t
  | .resume t _ => some t
  | .event _ => none
  | .restart => none

namespace XbRead
variable {Thread : Type} {s m r : XbRead Thread} {mem : Nat → Bool} {msg : EventMsg}
  {call : ReadCall} {ev : EventMsg} {rest : List EventMsg} {memory : Bool} {resid after taken : Nat}
  {ret : ReadReturn} {stop : Stop} {e : ReadEvent Thread} {good : Prop} {t : Thread}

/-! ## Steps inside of a read -/

/-- No reader has come to a return or to sleep in between. -/
structure SameReaders (s m : XbRead Thread) : Prop where
  place : m.place = s.place
  returns : m.returns = s.returns
  wantRestart : m.wantRestart = s.wantRestart

theorem SameReaders.trans (first : s.SameReaders m) (second : m.SameReaders r) : s.SameReaders r where
  place := second.place.trans first.place
  returns := second.returns.trans first.returns
  wantRestart := second.wantRestart.trans first.wantRestart

theorem takeEvent_sameReaders (ev : EventMsg) (rest : List EventMsg) (memory : Bool) :
    s.SameReaders (s.takeEvent ev rest memory) := by
  rw [takeEvent]
  split <;> exact ⟨rfl, rfl, rfl⟩

theorem copyOut_sameReaders (copied : s.copyOut msg resid = .ok (m, after)) :
    s.SameReaders m ∧ m.queuedEnomem = s.queuedEnomem ∧
      after = resid - min resid (msg.bytes.length - s.rmsgDone) := by
  rw [copyOut_eq (copyOut_within copied), Except.ok.injEq, Prod.mk.injEq, afterCopy] at copied
  rw [← copied.1, ← copied.2]
  split <;> exact ⟨⟨rfl, rfl, rfl⟩, rfl, rfl⟩

/-- A message that a copy begins at its end or beyond it fails the assertion on `rmsg_done`. -/
theorem copyOut_bind_ok_iff {loop : XbRead Thread → Nat → Except Stop (XbRead Thread)}
    (is : s.rmsg = some msg) (ends : ∀ m after, m.Cursor → after ≤ resid → ∃ r, loop m after = .ok r) :
    (∃ r, (s.copyOut msg resid >>= fun result => loop result.1 result.2) = .ok r) ↔
      s.rmsgDone ≤ msg.bytes.length := by
  constructor
  · rintro ⟨r, ran⟩
    obtain ⟨result, copied, -⟩ := bind_eq_ok ran
    exact copyOut_within copied
  · intro within
    have copied := copyOut_eq within resid
    obtain ⟨r, ran⟩ := ends _ _ (copyOut_conserves is copied).2 (Nat.sub_le ..)
    exact ⟨r, by rw [copied, ok_bind, ran]⟩

/-- After a restart no reader is left sleeping, and the read of the thread that ran has returned. -/
def Unblocked (s : XbRead Thread) (e : ReadEvent Thread) (r : XbRead Thread) : Prop :=
  r.wantRestart = true → (∀ t, (r.place t).Awake) ∧
    ∀ t, e.reader = some t → r.place t = .outside ∧ ∃ ret, r.returns = s.returns ++ [ret] ∧ ret.Restarts

structure RestartInv (s : XbRead Thread) : Prop where
  room : ∀ t, (s.place t).Room
  awake : s.wantRestart = true → ∀ t, (s.place t).Awake

theorem restartInv_init : (init : XbRead Thread).RestartInv := ⟨fun _ => trivial, fun _ _ => trivial⟩

theorem wakeUp_awake (s : XbRead Thread) (t : Thread) : (s.wakeUp.place t).Awake := by
  simp only [wakeUp]
  cases s.place t with
  | outside => trivial
  | asleep call woken => rfl

theorem wakeUp_room (room : (s.place t).Room) : (s.wakeUp.place t).Room := by
  simp only [wakeUp]
  cases place : s.place t with
  | outside => trivial
  | asleep call woken =>
    rw [place] at room
    exact room

theorem wakeUp_unblocked (none_ : e.reader = none) (before : XbRead Thread) :
    Unblocked before e s.wakeUp :=
  fun _ => ⟨wakeUp_awake s, by simp [none_]⟩

/-! ## What a read comes to -/

variable [DecidableEq Thread]

structure Returned (t : Thread) (ret : ReadReturn) (s r : XbRead Thread) : Prop where
  place : r.place = update s.place t .outside
  returns : r.returns = s.returns ++ [ret]
  wantRestart : r.wantRestart = s.wantRestart

structure Slept (t : Thread) (call : ReadCall) (s r : XbRead Thread) : Prop where
  place : r.place = update s.place t (.asleep call false)
  wantRestart : r.wantRestart = s.wantRestart
  room : call.resid ≠ 0 ∧ call.resid ≤ call.orgResid

theorem SameReaders.returned (same : s.SameReaders m) (later : Returned t ret m r) :
    Returned t ret s r where
  place := by rw [later.place, same.place]
  returns := by rw [later.returns, same.returns]
  wantRestart := later.wantRestart.trans same.wantRestart

theorem SameReaders.slept (same : s.SameReaders m) (later : Slept t call m r) : Slept t call s r where
  place := by rw [later.place, same.place]
  wantRestart := later.wantRestart.trans same.wantRestart
  room := later.room

/-- The read returns, or it sleeps, but not after a restart; a want of memory is reported exactly if
nothing was copied before. -/
def Outcome (t : Thread) (s : XbRead Thread) (call : ReadCall) (r : XbRead Thread) : Prop :=
  (∃ ret, Returned t ret s r ∧ (s.queuedEnomem = true ∧ call.resid = call.orgResid → ret.err = enomem) ∧
    (s.wantRestart = true → ¬ (s.queuedEnomem = true ∧ call.resid = call.orgResid) → ret.Restarts)) ∨
  s.wantRestart = false ∧ ∃ call', Slept t call' s r

theorem Outcome.later (memory : s.queuedEnomem = false) (same : s.SameReaders m)
    (memory' : m.queuedEnomem = false) (outcome : Outcome t m { call with resid := after } r) :
    Outcome t s call r := by
  rcases outcome with ⟨ret, returned, -, restarts⟩ | ⟨want, call', slept⟩
  · refine .inl ⟨ret, same.returned returned, ?_, ?_⟩
    · intro both
      rw [memory] at both
      cases both.1
    · intro want _
      apply restarts (same.wantRestart.trans want)
      simp [memory']
  · exact .inr ⟨same.wantRestart.symm.trans want, call', same.slept slept⟩

theorem outcome_noMessage (memory : s.queuedEnomem = false) (same : s.SameReaders m)
    (bound : call.resid ≤ call.orgResid) :
    Outcome t s call (m.noMessage t call (s.errIfBlock call.nonblock)) := by
  refine .inl ⟨_, same.returned ⟨rfl, rfl, rfl⟩, ?_, ?_⟩
  · intro both
    rw [memory] at both
    cases both.1
  · intro want _
    by_cases some_ : call.resid ≠ call.orgResid
    · right
      simp only [if_pos some_, true_and]
      omega
    · left
      simp only [if_neg some_, errIfBlock, want, if_true]

theorem Reads.outcome (reads : Reads t mem taken s call r) :
    call.resid ≤ call.orgResid → Outcome t s call r := by
  induction reads with
  | enomemLater enomem some_ =>
    intro bound
    refine .inl ⟨_, ⟨rfl, rfl, rfl⟩, ?_, ?_⟩
    · intro both
      exact absurd both.2.symm some_
    · intro _ _
      right
      simp only [true_and]
      omega
  | enomemNow enomem nothing =>
    intro bound
    refine .inl ⟨_, ⟨rfl, rfl, rfl⟩, fun _ => rfl, ?_⟩
    intro _ not_
    exact absurd ⟨enomem, nothing.symm⟩ not_
  | full memory all =>
    intro bound
    refine .inl ⟨_, ⟨rfl, rfl, rfl⟩, ?_, ?_⟩
    · intro both
      rw [memory] at both
      cases both.1
    · intro _ _
      right
      simp only [true_and]
      omega
  | more memory room is copied later ih =>
    intro bound
    obtain ⟨same, enomem, after⟩ := copyOut_sameReaders copied
    exact .later memory same (enomem.trans memory) (ih (by simp only; omega))
  | nothing memory room no queue fails =>
    intro bound
    exact outcome_noMessage memory ⟨rfl, rfl, rfl⟩ bound
  | blocks memory room no queue waits =>
    intro bound
    refine .inr ⟨?_, _, rfl, rfl, room, bound⟩
    by_contra want
    rw [errIfBlock, if_pos (Bool.not_eq_false _ ▸ want)] at waits
    cases waits
  | drops memory room no queue took =>
    intro bound
    exact outcome_noMessage memory (takeEvent_sameReaders _ _ _) bound
  | takes memory room no queue took copied later ih =>
    intro bound
    obtain ⟨same, enomem, after⟩ := copyOut_sameReaders copied
    obtain ⟨-, -, is⟩ := takeEvent_some took
    rw [is] at enomem
    exact .later memory ((takeEvent_sameReaders _ _ _).trans same) (enomem.trans memory) (ih (by simp only; omega))

/-- A reader that has copied nothing gets no message for the event, or nothing of it and then the
report of an earlier want of memory. -/
def Starves (s : XbRead Thread) (memory : Bool) (call : ReadCall) (ev : EventMsg) : Prop :=
  call.resid = call.orgResid ∧
    ((ev.watch && !memory) = true ∨ s.queuedEnomem = true ∧ s.rmsgDone = ev.bytes.length)

theorem not_restarts_enomem (err : ret.err = enomem) : ¬ ret.Restarts := by
  rw [ReadReturn.Restarts, err]
  simp [enomem, erestart]

theorem wakeReader_outcome (room : call.resid ≠ 0 ∧ call.resid ≤ call.orgResid)
    (ran : s.wakeReader t mem call = .ok r) :
    (s.replies = [] ∨ s.wantRestart = false) ∧ (∃ call', Slept t call' s r) ∨
      ∃ ev rest ret, s.replies = ev :: rest ∧ Returned t ret s r ∧
        (s.wantRestart = true → (ret.Restarts ↔ ¬ s.Starves (mem 0) call ev)) := by
  rcases wakeReader_cases ran with
    ⟨empty, rfl⟩ | ⟨ev, rest, queue, ⟨took, rfl⟩ | ⟨msg, m, after, took, copied, reads⟩⟩
  · exact .inl ⟨.inl empty, call, rfl, rfl, room⟩
  · refine .inr ⟨ev, rest, _, queue, (takeEvent_sameReaders ev rest _).returned ⟨rfl, rfl, rfl⟩, ?_⟩
    intro _
    have copied : call.resid < call.orgResid ∨ call.orgResid = 0 ↔ call.resid ≠ call.orgResid := by
      omega
    simp [ReadReturn.Restarts, Starves, takeEvent_none took, erestart, copied]
  · obtain ⟨kept, rfl, is⟩ := takeEvent_some took
    have enomem : (s.takeEvent msg rest (mem 0)).queuedEnomem = s.queuedEnomem := by rw [is]
    have within := copyOut_within copied
    obtain ⟨same, enomem', left⟩ := copyOut_sameReaders copied
    rw [takeEvent_rmsgDone] at within left
    have readers := (takeEvent_sameReaders msg rest (mem 0)).trans same
    have none_ : after = call.orgResid ↔
        call.resid = call.orgResid ∧ s.rmsgDone = msg.bytes.length := by omega
    rcases reads.outcome (by simp only; omega) with
      ⟨ret, returned, starved, restarts⟩ | ⟨want, call', slept⟩
    · refine .inr ⟨msg, rest, ret, queue, readers.returned returned, ?_⟩
      intro want
      by_cases both : s.queuedEnomem = true ∧ after = call.orgResid
      · have starves : s.Starves (mem 0) call msg :=
          ⟨(none_.mp both.2).1, .inr ⟨both.1, (none_.mp both.2).2⟩⟩
        have err := starved ⟨enomem'.trans (enomem.trans both.1), both.2⟩
        exact iff_of_false (not_restarts_enomem err) (not_not.mpr starves)
      · refine iff_of_true (restarts (readers.wantRestart.trans want) ?_) ?_
        · rw [enomem', enomem]
          exact both
        · rintro ⟨nothing, drops | ⟨queued, done⟩⟩
          · rw [kept] at drops
            cases drops
          · exact both ⟨queued, none_.mpr ⟨nothing, done⟩⟩
    · exact .inl ⟨.inr (readers.wantRestart.symm.trans want), call', readers.slept slept⟩

/-! ## Where a read can stop -/

/-- The message that is taken off the queue, if there is memory for it. -/
def nextMessage (s : XbRead Thread) (memory : Bool) : Option EventMsg :=
  s.replies.head?.filter fun ev => !(ev.watch && !memory)

/-- The message that the reader copies out of first. -/
def firstCopied (s : XbRead Thread) : ReadEvent Thread → Option EventMsg
  | .read _ size _ mem =>
    if s.queuedEnomem = true ∨ size = 0 then none else s.rmsg.or (s.nextMessage (mem 0))
  | .resume t mem =>
    match s.place t with
    | .asleep _ _ => s.nextMessage (mem 0)
    | .outside => none
  | _ => none

/-- `rmsg_done` is not beyond the message. -/
def Within (s : XbRead Thread) (first : Option EventMsg) : Prop :=
  ∀ msg ∈ first, s.rmsgDone ≤ msg.bytes.length

omit [DecidableEq Thread] in
theorem within_nextMessage_nil (queue : s.replies = []) : s.Within (s.nextMessage memory) := by
  simp [Within, nextMessage, queue]

omit [DecidableEq Thread] in
theorem nextMessage_cons (queue : s.replies = ev :: rest) :
    s.nextMessage memory = if (ev.watch && !memory) = true then none else some ev := by
  rw [nextMessage, queue, List.head?_cons, Option.filter_some]
  cases ev.watch && !memory with
  | true | false => rfl

theorem afterEvent_ok_iff {err : Int} {loop : XbRead Thread → ReadCall → Except Stop (XbRead Thread)}
    (queue : s.replies = ev :: rest)
    (ends : ∀ m after, m.Cursor → after ≤ call.resid → ∃ r, loop m { call with resid := after } = .ok r) :
    (∃ r, (s.takeEvent ev rest memory).afterEvent t call err loop = .ok r) ↔
      s.Within (s.nextMessage memory) := by
  rw [afterEvent]
  cases took : (s.takeEvent ev rest memory).rmsg with
  | none =>
    rw [nextMessage_cons queue, if_pos (takeEvent_none took)]
    exact iff_of_true ⟨_, rfl⟩ (by simp [Within])
  | some msg =>
    obtain ⟨kept, rfl, -⟩ := takeEvent_some took
    rw [copyOut_bind_ok_iff took ends, takeEvent_rmsgDone, nextMessage_cons queue, kept]
    simp [Within]

theorem step_ok_iff (s : XbRead Thread) (e : ReadEvent Thread) :
    (∃ r, s.step e = .ok r) ↔ s.Within (s.firstCopied e) := by
  cases e with
  | read t size nonblock mem =>
    -- After the first turn the place is one in the message, and the loop goes on to its end.
    have ends (taken : Nat) (m : XbRead Thread) (after : Nat) (cursor : m.Cursor) (less : after ≤ size) :
        ∃ r, m.readLoop t mem (size + 1) taken ⟨size, after, nonblock⟩ = .ok r :=
      readLoop_returns _ taken m _ (Nat.lt_succ_of_le less) cursor
    rw [step, readLoop, firstCopied]
    by_cases enomem : s.queuedEnomem = true
    · simp [enomem, Within]
    · by_cases all : size = 0
      · simp [enomem, all, Within]
      · rw [if_neg enomem, if_neg all, if_neg (not_or.mpr ⟨enomem, all⟩)]
        cases is : s.rmsg with
        | some msg =>
          simp only [Within, Option.some_or, Option.mem_def, Option.some.injEq, forall_eq']
          exact copyOut_bind_ok_iff is (ends 0)
        | none =>
          cases queue : s.replies with
          | nil =>
            refine iff_of_true ?_ (within_nextMessage_nil queue)
            simp only
            split <;> exact ⟨_, rfl⟩
          | cons ev rest => exact afterEvent_ok_iff queue (ends 1)
  | resume t mem =>
    simp only [step, firstCopied]
    cases s.place t with
    | outside => simp [Within]
    | asleep call woken =>
      simp only [wakeReader]
      cases queue : s.replies with
      | nil => exact iff_of_true ⟨_, rfl⟩ (within_nextMessage_nil queue)
      | cons ev rest =>
        apply afterEvent_ok_iff queue
        intro m after cursor less
        exact readLoop_returns _ 1 m _ (by simp) cursor
  | event | restart => simp [step, firstCopied, Within]

/-! ## Every run -/

/-- The reader runs again, and there is no event for it. -/
def StaysBehind (s : XbRead Thread) : ReadEvent Thread → Prop
  | .resume _ _ => s.replies = []
  | _ => False

/-- The reader has copied nothing, and returns nothing for want of memory. -/
def Starved (s : XbRead Thread) : ReadEvent Thread → Prop
  | .read _ _ _ _ => s.queuedEnomem = true
  | .resume t mem =>
    match s.place t, s.replies with
    | .asleep call _, ev :: _ => s.Starves (mem 0) call ev
    | _, _ => False
  | _ => False

/-- `rmsg_done` is not beyond the message that is copied first, and after a restart the reader of the
step does not stay behind. -/
def Serves (s : XbRead Thread) (e : ReadEvent Thread) : Prop :=
  s.Within (s.firstCopied e) ∧ (s.wantRestart = true → ¬ s.StaysBehind e ∧ ¬ s.Starved e)

instance decidableStaysBehind (s : XbRead Thread) : ∀ e, Decidable (s.StaysBehind e) := by
  intro event
  induction event using ReadEvent.casesOn <;> dsimp only [StaysBehind] <;> infer_instance

instance decidableStarves (s : XbRead Thread) (memory : Bool) (call : ReadCall) (ev : EventMsg) :
    Decidable (s.Starves memory call ev) := instDecidableAnd

instance decidableStarved (s : XbRead Thread) : ∀ e, Decidable (s.Starved e) := by
  intro event
  induction event using ReadEvent.casesOn with
  | resume t mem =>
    dsimp only [Starved]
    induction s.place t using ReadPlace.casesOn <;> induction s.replies using List.casesOn <;>
      dsimp only <;> infer_instance
  | _ => dsimp only [Starved]; infer_instance

instance decidableServes (s : XbRead Thread) (e : ReadEvent Thread) : Decidable (s.Serves e) :=
  inferInstanceAs (Decidable ((∀ msg ∈ s.firstCopied e, s.rmsgDone ≤ msg.bytes.length) ∧ _))

theorem RestartInv.room_update {place : ReadPlace} (inv : s.RestartInv)
    (is : r.place = update s.place t place) (room : place.Room) : ∀ u, (r.place u).Room := by
  rw [is]
  exact (forall_update_iff s.place fun _ place => place.Room).mpr
    ⟨room, fun u _ => inv.room u⟩

theorem Returned.unblocked_iff (returned : Returned t ret s r) (inv : s.RestartInv)
    (reader : e.reader = some t) (restarts : s.wantRestart = true → (ret.Restarts ↔ good)) :
    Unblocked s e r ↔ (s.wantRestart = true → good) := by
  rw [Unblocked, returned.wantRestart]
  refine forall_congr' fun want => ?_
  rw [← restarts want]
  constructor
  · rintro ⟨-, served⟩
    obtain ⟨-, other, returns, restarts⟩ := served t reader
    rw [returned.returns] at returns
    cases List.append_cancel_left returns
    exact restarts
  · intro restarts
    rw [returned.place]
    constructor
    · exact (forall_update_iff s.place fun _ place => place.Awake).mpr
        ⟨trivial, fun u _ => inv.awake want u⟩
    · intro u is
      cases Option.some.inj (reader.symm.trans is)
      exact ⟨update_self .., ret, returned.returns, restarts⟩

theorem Slept.unblocked_iff (slept : Slept t call s r) (bad : s.wantRestart = true → ¬ good) :
    Unblocked s e r ↔ (s.wantRestart = true → good) := by
  rw [Unblocked, slept.wantRestart]
  refine forall_congr' fun want => iff_of_false ?_ (bad want)
  rintro ⟨awake, -⟩
  have asleep := awake t
  rw [slept.place, update_self] at asleep
  cases asleep

theorem RestartInv.unblocked_iff (inv : s.RestartInv) (allowed : s.Admits e)
    (stepped : s.step e = .ok r) :
    (Unblocked s e r ↔ (s.wantRestart = true → ¬ s.StaysBehind e ∧ ¬ s.Starved e)) ∧
      ∀ u, (r.place u).Room := by
  cases e with
  | read t size nonblock mem =>
    rcases (reads_of_readLoop _ _ _ _ stepped).outcome (le_refl size) with
      ⟨ret, returned, starved, restarts⟩ | ⟨no, call', slept⟩
    · refine ⟨returned.unblocked_iff inv rfl ?_, inv.room_update returned.place trivial⟩
      intro want
      simp only [StaysBehind, Starved, not_false_eq_true, true_and]
      by_cases enomem : s.queuedEnomem = true
      · exact iff_of_false (not_restarts_enomem (starved ⟨enomem, rfl⟩)) (not_not.mpr enomem)
      · exact iff_of_true (restarts want fun both => enomem both.1) enomem
    · refine ⟨slept.unblocked_iff ?_, inv.room_update slept.place slept.room⟩
      intro want
      rw [no] at want
      cases want
  | resume t mem =>
    obtain ⟨call, place⟩ := allowed
    have room := inv.room t
    simp only [step, place] at stepped
    rw [place] at room
    rcases wakeReader_outcome room stepped with
      ⟨cause, call', slept⟩ | ⟨ev, rest, ret, queue, returned, restarts⟩
    · refine ⟨slept.unblocked_iff ?_, inv.room_update slept.place slept.room⟩
      rintro want ⟨served, -⟩
      rcases cause with empty | no
      · exact served empty
      · rw [no] at want
        cases want
    · refine ⟨returned.unblocked_iff inv rfl ?_, inv.room_update returned.place trivial⟩
      intro want
      rw [restarts want]
      simp [StaysBehind, Starved, place, queue]
  | event | restart =>
    cases stepped
    refine ⟨iff_of_true (wakeUp_unblocked rfl s) fun _ => ⟨not_false, not_false⟩, ?_⟩
    exact fun u => wakeUp_room (inv.room u)

/-- After a restart every reader is woken, and returns when it runs, if and only if no step copies
from beyond the end of a message, and after a restart no reader is woken to an empty queue or to a
want of memory. -/
theorem restart_unblocks (ops : List (ReadEvent Thread))
    (allowed : StepRuns.Admissible Admits step ops init) :
    StepRuns.Each Unblocked step ops (init : XbRead Thread) ↔
      StepRuns.Admissible (fun s e => s.Admits e ∧ s.Serves e) step ops init := by
  apply StepRuns.each_iff RestartInv
  · rintro s e inv allowed ⟨within, serves⟩
    obtain ⟨r, stepped⟩ := (s.step_ok_iff e).mpr within
    obtain ⟨iff, room⟩ := inv.unblocked_iff allowed stepped
    have unblocked := iff.mpr serves
    exact ⟨r, stepped, unblocked, room, fun want => (unblocked want).1⟩
  · intro s e r inv allowed broken stepped unblocked
    exact broken ⟨(s.step_ok_iff e).mp ⟨r, stepped⟩, (inv.unblocked_iff allowed stepped).1.mp unblocked⟩
  · exact restartInv_init
  · exact allowed

theorem restart_unblocks_event :
    StepRuns.Each Unblocked step
      [.read true 20 false (fun _ => true), .restart, .event (blankMessage 1),
        .resume true (fun _ => true), .read false 20 false (fun _ => true)] (init : XbRead Bool) := by
  apply (restart_unblocks _ ?_).mpr
  · decide
  · decide

/-- One reader sleeps, and the restart wakes it to an empty queue: it sleeps again, and nothing but
an event will wake it. -/
theorem restart_unblocks_not_empty :
    ∃ final, StepRuns.run step
        [.read true 20 false (fun _ => true), .restart, .resume true (fun _ => true)]
        (init : XbRead Bool) = .ok final ∧ final.wantRestart = true ∧ final.returns = [] ∧
      final.place true = .asleep { orgResid := 20, resid := 20, nonblock := false } false :=
  ⟨_, rfl, rfl, rfl, rfl⟩

end XbRead
end Rumprun.Xen
