import Rumprun.Xen.XenbusRead

/-! # The stream of messages that the readers get

A reader that slept assigns the message being read whatever it is by then; this loses the rest of a
message that another reader has begun. So does an event for whose message there is no memory. -/

namespace Rumprun.Xen
open Core List
namespace XbRead
variable {Thread : Type} {s r : XbRead Thread} {ev other : EventMsg} {rest : List EventMsg}
  {resid n : Nat} {e : ReadEvent Thread}

/-! ## What is still to be read -/

/-- What is left of the message being read. -/
def left (s : XbRead Thread) : List UInt8 :=
  match s.rmsg with
  | none => []
  | some msg => msg.bytes.drop s.rmsgDone

def queued (s : XbRead Thread) : List UInt8 := (s.replies.map EventMsg.bytes).flatten

/-- All bytes, in the order in which they are copied. -/
def stream (s : XbRead Thread) : List UInt8 := s.copied ++ s.left ++ s.queued

/-- Nothing is lost, added or put out of order. -/
def Streams (s : XbRead Thread) : Prop := s.arrived.flatten = s.stream

theorem Streams.copied_prefix (streams : s.Streams) : s.copied <+: s.arrived.flatten := by
  rw [streams, stream, append_assoc]
  exact prefix_append _ _

/-- `rmsg_done` is a place in the message being read. -/
def Cursor (s : XbRead Thread) : Prop :=
  match s.rmsg with
  | none => s.rmsgDone = 0
  | some msg => s.rmsgDone < msg.bytes.length

theorem Cursor.done_zero (cursor : s.Cursor) (no : s.rmsg = none) : s.rmsgDone = 0 := by
  rw [Cursor, no] at cursor
  exact cursor

theorem Cursor.done_lt (cursor : s.Cursor) {msg : EventMsg} (is : s.rmsg = some msg) :
    s.rmsgDone < msg.bytes.length := by
  rw [Cursor, is] at cursor
  exact cursor

theorem left_none (no : s.rmsg = none) : s.left = [] := by
  rw [left, no]

theorem left_some {msg : EventMsg} (is : s.rmsg = some msg) : s.left = msg.bytes.drop s.rmsgDone := by
  rw [left, is]

theorem queued_cons (queue : s.replies = ev :: rest) :
    s.queued = ev.bytes ++ (rest.map EventMsg.bytes).flatten := by
  rw [queued, queue, map_cons, flatten_cons]

/-- From the one state to the other no byte is lost, unless an event was dropped. -/
structure Conserves (s r : XbRead Thread) : Prop where
  arrived : r.arrived = s.arrived
  dropped : s.dropped ≤ r.dropped
  kept : r.dropped = s.dropped → r.stream = s.stream
  lost : s.dropped < r.dropped → r.stream.length < s.stream.length

theorem Conserves.of_same (arrived : r.arrived = s.arrived) (dropped : r.dropped = s.dropped)
    (stream : r.stream = s.stream) : s.Conserves r where
  arrived := arrived
  dropped := le_of_eq dropped.symm
  kept := fun _ => stream
  lost := fun less => absurd dropped (ne_of_gt less)

theorem Conserves.length_le (conserves : s.Conserves r) : r.stream.length ≤ s.stream.length := by
  rcases Nat.lt_or_eq_of_le conserves.dropped with less | same
  · exact le_of_lt (conserves.lost less)
  · rw [conserves.kept same.symm]

theorem Conserves.trans {m : XbRead Thread} (first : s.Conserves m) (second : m.Conserves r) :
    s.Conserves r where
  arrived := second.arrived.trans first.arrived
  dropped := first.dropped.trans second.dropped
  kept := by
    intro same
    have firstLe := first.dropped
    have secondLe := second.dropped
    rw [second.kept (by omega), first.kept (by omega)]
  lost := by
    intro less
    rcases Nat.lt_or_eq_of_le first.dropped with drops | same
    · exact lt_of_le_of_lt second.length_le (first.lost drops)
    · rw [← first.kept same.symm]
      exact second.lost (by omega)

variable {t : Thread} {mem : Nat → Bool} {msg : EventMsg} {call : ReadCall}

/-! ## The pieces of a read -/

/-- A message of which not more was read than there is. -/
def afterCopy (s : XbRead Thread) (msg : EventMsg) (n : Nat) : XbRead Thread :=
  if s.rmsgDone + n = msg.bytes.length then
    { s with copied := s.copied ++ (msg.bytes.drop s.rmsgDone).take n, rmsg := none, rmsgDone := 0 }
  else
    { s with copied := s.copied ++ (msg.bytes.drop s.rmsgDone).take n, rmsgDone := s.rmsgDone + n }

theorem copyOut_eq (within : s.rmsgDone ≤ msg.bytes.length) (resid : Nat) :
    s.copyOut msg resid =
      .ok (s.afterCopy msg (min resid (msg.bytes.length - s.rmsgDone)),
        resid - min resid (msg.bytes.length - s.rmsgDone)) := by
  have header := msg.header
  have some_ : msg.bytes.length > 0 := by
    rw [sockmsgSize] at header
    omega
  rw [copyOut, kassert_bind (decide_eq_true msg.sane), kassert_bind (decide_eq_true some_),
    kassert_bind (decide_eq_true within), afterCopy]
  by_cases ends : s.rmsgDone + min resid (msg.bytes.length - s.rmsgDone) = msg.bytes.length
  · simp only [if_pos ends]
  · simp only [if_neg ends]

theorem copyOut_within {result : XbRead Thread × Nat} (ran : s.copyOut msg resid = .ok result) :
    s.rmsgDone ≤ msg.bytes.length := by
  obtain ⟨-, ran⟩ := kassert_bind_ok ran
  obtain ⟨-, ran⟩ := kassert_bind_ok ran
  obtain ⟨within, -⟩ := kassert_bind_ok ran
  exact of_decide_eq_true within

theorem afterCopy_conserves (is : s.rmsg = some msg) : s.Conserves (s.afterCopy msg n) := by
  rw [afterCopy]
  by_cases ends : s.rmsgDone + n = msg.bytes.length
  · rw [if_pos ends]
    refine .of_same rfl rfl ?_
    have all : (msg.bytes.drop s.rmsgDone).take n = msg.bytes.drop s.rmsgDone := by
      apply take_of_length_le
      rw [length_drop]
      omega
    simp [stream, left, queued, is, all]
  · rw [if_neg ends]
    refine .of_same rfl rfl ?_
    have cut : (msg.bytes.drop s.rmsgDone).take n ++ msg.bytes.drop (s.rmsgDone + n) =
        msg.bytes.drop s.rmsgDone := by
      rw [← drop_drop]
      exact take_append_drop n _
    simp only [stream, left, queued, is, append_assoc]
    rw [← append_assoc _ _ (flatten _), cut]

theorem afterCopy_cursor (is : s.rmsg = some msg) (within : s.rmsgDone + n ≤ msg.bytes.length) :
    (s.afterCopy msg n).Cursor := by
  rw [afterCopy]
  by_cases ends : s.rmsgDone + n = msg.bytes.length
  · rw [if_pos ends]
    rfl
  · rw [if_neg ends, Cursor]
    simp only [is]
    omega

theorem copyOut_conserves {after : Nat} (is : s.rmsg = some msg)
    (ran : s.copyOut msg resid = .ok (r, after)) : s.Conserves r ∧ r.Cursor := by
  have within := copyOut_within ran
  rw [copyOut_eq within, Except.ok.injEq, Prod.mk.injEq] at ran
  rw [← ran.1]
  have ends : s.rmsgDone + min resid (msg.bytes.length - s.rmsgDone) ≤ msg.bytes.length := by omega
  exact ⟨afterCopy_conserves is, afterCopy_cursor is ends⟩

theorem takeEvent_conserves (cursor : s.Cursor) (no : s.rmsg = none)
    (queue : s.replies = ev :: rest) (mem : Bool) :
    s.Conserves (s.takeEvent ev rest mem) ∧ (s.takeEvent ev rest mem).Cursor := by
  have done := cursor.done_zero no
  have header := ev.header
  have some_ : 0 < ev.bytes.length := by
    rw [sockmsgSize] at header
    omega
  rw [takeEvent]
  by_cases fails : (ev.watch && !mem) = true
  · rw [if_pos fails]
    refine ⟨⟨rfl, Nat.le_succ _, ?_, ?_⟩, done⟩
    · intro same
      exact absurd same (Nat.succ_ne_self _)
    · intro _
      simp only [stream, left_none no, queued_cons queue, length_append]
      simp only [left, queued, length_nil]
      omega
  · rw [if_neg fails]
    refine ⟨.of_same rfl rfl ?_, ?_⟩
    · simp only [stream, left_none no, queued_cons queue]
      simp [left, queued, done]
    · show s.rmsgDone < ev.bytes.length
      rw [done]
      exact some_

theorem takeEvent_loses (cursor : s.Cursor) (is : s.rmsg = some other)
    (queue : s.replies = ev :: rest) (mem : Bool) :
    (s.takeEvent ev rest mem).arrived = s.arrived ∧
      (s.takeEvent ev rest mem).stream.length < s.stream.length := by
  have rest_ := cursor.done_lt is
  have before : s.stream.length =
      s.copied.length + (other.bytes.length - s.rmsgDone) +
        (ev.bytes.length + (rest.map EventMsg.bytes).flatten.length) := by
    simp only [stream, left_some is, queued_cons queue, length_append, length_drop]
  rw [takeEvent, before]
  by_cases fails : (ev.watch && !mem) = true
  · rw [if_pos fails]
    refine ⟨rfl, ?_⟩
    simp only [stream, left, queued, length_append, length_nil]
    omega
  · rw [if_neg fails]
    refine ⟨rfl, ?_⟩
    simp only [stream, left, queued, length_append, length_drop]
    omega

theorem takeEvent_rmsgDone (ev : EventMsg) (rest : List EventMsg) (mem : Bool) :
    (s.takeEvent ev rest mem).rmsgDone = s.rmsgDone := by
  rw [takeEvent]
  split <;> rfl

theorem takeEvent_none {memory : Bool} (took : (s.takeEvent ev rest memory).rmsg = none) :
    (ev.watch && !memory) = true := by
  by_contra kept
  rw [takeEvent, if_neg kept] at took
  cases took

theorem takeEvent_some {memory : Bool} (took : (s.takeEvent ev rest memory).rmsg = some msg) :
    (ev.watch && !memory) = false ∧ msg = ev ∧
      s.takeEvent ev rest memory = { s with replies := rest, rmsg := some ev } := by
  rw [takeEvent] at took ⊢
  by_cases fails : (ev.watch && !memory) = true
  · rw [if_pos fails] at took
    cases took
  · rw [if_neg fails] at took ⊢
    exact ⟨Bool.eq_false_iff.mpr fails, (Option.some.inj took).symm, rfl⟩

/-- A copy takes as much from what is asked for as from what is left of the message. -/
theorem copyOut_left {after : Nat} (is : s.rmsg = some msg)
    (ran : s.copyOut msg resid = .ok (r, after)) :
    r.dropped = s.dropped ∧ r.queuedEnomem = s.queuedEnomem ∧ r.replies = s.replies ∧
      after - r.left.length = resid - s.left.length := by
  rw [copyOut_eq (copyOut_within ran), Except.ok.injEq, Prod.mk.injEq, afterCopy] at ran
  rw [← ran.1, ← ran.2, left_some is, length_drop]
  split
  · refine ⟨rfl, rfl, rfl, ?_⟩
    rw [left_none rfl, length_nil]
    omega
  · refine ⟨rfl, rfl, rfl, ?_⟩
    simp only [left, is, length_drop]
    omega

theorem takeEvent_copyOut_left {after : Nat} {memory : Bool} (done : s.rmsgDone = 0)
    (took : (s.takeEvent ev rest memory).rmsg = some msg)
    (ran : (s.takeEvent ev rest memory).copyOut msg resid = .ok (r, after)) :
    (ev.watch && !memory) = false ∧ r.dropped = s.dropped ∧ r.queuedEnomem = s.queuedEnomem ∧
      r.replies = rest ∧ after - r.left.length = resid - ev.bytes.length := by
  obtain ⟨dropped, enomem, replies, less⟩ := copyOut_left took ran
  obtain ⟨kept, rfl, is⟩ := takeEvent_some took
  rw [is] at dropped enomem replies less
  simp only [left, done, drop_zero] at less
  exact ⟨kept, dropped, enomem, replies, less⟩

theorem copyOut_lt (room : resid ≠ 0) (is : s.rmsg = some msg)
    (within : s.rmsgDone < msg.bytes.length) :
    ∃ m after, s.copyOut msg resid = .ok (m, after) ∧ after < resid ∧ m.Cursor := by
  have copied := copyOut_eq (le_of_lt within) resid
  exact ⟨_, _, copied, by omega, (copyOut_conserves is copied).2⟩

structure StreamInv (s : XbRead Thread) : Prop where
  streams : s.Streams
  cursor : s.Cursor

theorem streamInv_init : (init : XbRead Thread).StreamInv := ⟨rfl, rfl⟩

theorem StreamInv.conserved (inv : s.StreamInv) (conserves : s.Conserves r)
    (same : r.dropped = s.dropped) (cursor : r.Cursor) : r.StreamInv where
  streams := by
    rw [Streams, conserves.arrived, conserves.kept same]
    exact inv.streams
  cursor := cursor

theorem StreamInv.shrunk (inv : s.StreamInv) (same : r.arrived = s.arrived)
    (less : r.stream.length < s.stream.length) : ¬ r.Streams := by
  intro streams
  have before := congrArg length inv.streams
  have after := congrArg length streams
  rw [same] at after
  omega

theorem StreamInv.queueEvent (inv : s.StreamInv) (ev : EventMsg) :
    StreamInv { s with replies := s.replies ++ [ev], arrived := s.arrived ++ [ev.bytes] }.wakeUp where
  streams := by
    have streams := inv.streams
    simp only [Streams, stream, left, queued] at streams
    simp [Streams, stream, left, queued, wakeUp, streams]
  cursor := inv.cursor

variable [DecidableEq Thread]

/-! ## A whole read -/

/-- The loop of a read without the bound on its turns: one case for each way through its body. -/
inductive Reads (t : Thread) (mem : Nat → Bool) :
    Nat → XbRead Thread → ReadCall → XbRead Thread → Prop
  | enomemLater {taken : Nat} {s : XbRead Thread} {call : ReadCall} (enomem : s.queuedEnomem = true)
      (some_ : call.orgResid ≠ call.resid) : Reads t mem taken s call (s.return_ t call 0)
  | enomemNow {taken : Nat} {s : XbRead Thread} {call : ReadCall} (enomem : s.queuedEnomem = true)
      (nothing : call.orgResid = call.resid) :
      Reads t mem taken s call (return_ { s with queuedEnomem := false } t call Xen.enomem)
  | full {taken : Nat} {s : XbRead Thread} {call : ReadCall} (memory : s.queuedEnomem = false)
      (all : call.resid = 0) : Reads t mem taken s call (s.return_ t call 0)
  | more {taken after : Nat} {s m r : XbRead Thread} {call : ReadCall} {msg : EventMsg}
      (memory : s.queuedEnomem = false) (room : call.resid ≠ 0) (is : s.rmsg = some msg)
      (copied : s.copyOut msg call.resid = .ok (m, after))
      (later : Reads t mem taken m { call with resid := after } r) : Reads t mem taken s call r
  | nothing {taken : Nat} {s : XbRead Thread} {call : ReadCall} (memory : s.queuedEnomem = false)
      (room : call.resid ≠ 0) (no : s.rmsg = none) (queue : s.replies = [])
      (fails : s.errIfBlock call.nonblock ≠ 0) :
      Reads t mem taken s call (s.noMessage t call (s.errIfBlock call.nonblock))
  | blocks {taken : Nat} {s : XbRead Thread} {call : ReadCall} (memory : s.queuedEnomem = false)
      (room : call.resid ≠ 0) (no : s.rmsg = none) (queue : s.replies = [])
      (waits : s.errIfBlock call.nonblock = 0) : Reads t mem taken s call (s.sleep t call)
  | drops {taken : Nat} {s : XbRead Thread} {call : ReadCall} {ev : EventMsg} {rest : List EventMsg}
      (memory : s.queuedEnomem = false) (room : call.resid ≠ 0) (no : s.rmsg = none)
      (queue : s.replies = ev :: rest) (took : (s.takeEvent ev rest (mem taken)).rmsg = none) :
      Reads t mem taken s call
        ((s.takeEvent ev rest (mem taken)).noMessage t call (s.errIfBlock call.nonblock))
  | takes {taken after : Nat} {s m r : XbRead Thread} {call : ReadCall} {ev msg : EventMsg}
      {rest : List EventMsg} (memory : s.queuedEnomem = false) (room : call.resid ≠ 0)
      (no : s.rmsg = none) (queue : s.replies = ev :: rest)
      (took : (s.takeEvent ev rest (mem taken)).rmsg = some msg)
      (copied : (s.takeEvent ev rest (mem taken)).copyOut msg call.resid = .ok (m, after))
      (later : Reads t mem (taken + 1) m { call with resid := after } r) : Reads t mem taken s call r

theorem reads_of_readLoop : ∀ (turns taken : Nat) (s : XbRead Thread) (call : ReadCall),
    s.readLoop t mem turns taken call = .ok r → Reads t mem taken s call r := by
  intro turns
  induction turns with
  | zero => intro taken s call ran; cases ran
  | succ turns ih =>
    intro taken s call ran
    rw [readLoop] at ran
    by_cases enomem : s.queuedEnomem = true
    · rw [if_pos enomem] at ran
      by_cases some_ : call.orgResid ≠ call.resid
      · rw [if_pos some_] at ran
        cases ran
        exact .enomemLater enomem some_
      · rw [if_neg some_] at ran
        cases ran
        exact .enomemNow enomem (not_not.mp some_)
    · rw [if_neg enomem] at ran
      have memory := Bool.eq_false_iff.mpr enomem
      by_cases all : call.resid = 0
      · rw [if_pos all] at ran
        cases ran
        exact .full memory all
      · rw [if_neg all] at ran
        cases is : s.rmsg with
        | some msg =>
          simp only [is] at ran
          obtain ⟨⟨m, after⟩, copied, ran⟩ := bind_eq_ok ran
          exact .more memory all is copied (ih taken m _ ran)
        | none =>
          simp only [is] at ran
          cases queue : s.replies with
          | nil =>
            simp only [queue] at ran
            by_cases fails : s.errIfBlock call.nonblock ≠ 0
            · rw [if_pos fails] at ran
              cases ran
              exact .nothing memory all is queue fails
            · rw [if_neg fails] at ran
              cases ran
              exact .blocks memory all is queue (not_not.mp fails)
          | cons ev rest =>
            simp only [queue] at ran
            rw [afterEvent] at ran
            cases took : (s.takeEvent ev rest (mem taken)).rmsg with
            | none =>
              simp only [took] at ran
              cases ran
              exact .drops memory all is queue took
            | some msg =>
              simp only [took] at ran
              obtain ⟨⟨m, after⟩, copied, ran⟩ := bind_eq_ok ran
              exact .takes memory all is queue took copied (ih (taken + 1) m _ ran)

theorem return_conserves (err : Int) : s.Conserves (s.return_ t call err) := .of_same rfl rfl rfl

theorem Reads.conserves {taken : Nat} (reads : Reads t mem taken s call r) :
    s.Cursor → s.Conserves r ∧ r.Cursor := by
  induction reads with
  | enomemLater | full => intro cursor; exact ⟨return_conserves 0, cursor⟩
  | enomemNow | blocks => intro cursor; exact ⟨.of_same rfl rfl rfl, cursor⟩
  | more memory room is copied later ih =>
    intro cursor
    obtain ⟨first, cursor⟩ := copyOut_conserves is copied
    obtain ⟨second, cursor⟩ := ih cursor
    exact ⟨first.trans second, cursor⟩
  | nothing memory room no queue fails => intro cursor; exact ⟨return_conserves _, cursor⟩
  | drops memory room no queue took =>
    intro cursor
    obtain ⟨first, cursor⟩ := takeEvent_conserves cursor no queue _
    exact ⟨first.trans (return_conserves _), cursor⟩
  | takes memory room no queue took copied later ih =>
    intro cursor
    obtain ⟨first, -⟩ := takeEvent_conserves cursor no queue _
    obtain ⟨second, cursor⟩ := copyOut_conserves took copied
    obtain ⟨third, cursor⟩ := ih cursor
    exact ⟨(first.trans second).trans third, cursor⟩

/-! ## The events for which there is no memory -/

/-- A read of `resid` bytes that begins with the first of the messages comes to an event for whose
message there is no memory. -/
def Lacks (mem : Nat → Bool) : Nat → List EventMsg → Nat → Prop
  | _, [], _ => False
  | taken, ev :: rest, resid =>
    resid ≠ 0 ∧ ((ev.watch && !mem taken) = true ∨ Lacks mem (taken + 1) rest (resid - ev.bytes.length))

instance decidableLacks (mem : Nat → Bool) : ∀ taken queue resid, Decidable (Lacks mem taken queue resid)
  | _, [], _ => instDecidableFalse
  | taken, ev :: rest, resid =>
    have := decidableLacks mem (taken + 1) rest (resid - ev.bytes.length)
    inferInstanceAs (Decidable (resid ≠ 0 ∧ (_ = true ∨ _)))

theorem not_lacks_zero (taken : Nat) (queue : List EventMsg) : ¬ Lacks mem taken queue 0 := by
  cases queue with
  | nil => exact id
  | cons ev rest => exact fun lacks => lacks.1 rfl

theorem Reads.dropped_iff {taken : Nat} (reads : Reads t mem taken s call r) :
    s.Cursor → (s.dropped < r.dropped ↔
      s.queuedEnomem = false ∧ Lacks mem taken s.replies (call.resid - s.left.length)) := by
  induction reads with
  | enomemLater enomem | enomemNow enomem =>
    intro _
    simp [enomem, return_]
  | full memory all =>
    intro _
    simp [return_, all, not_lacks_zero]
  | nothing memory room no queue | blocks memory room no queue =>
    intro _
    simp [noMessage, return_, sleep, queue, Lacks]
  | more memory room is copied later ih =>
    intro _
    obtain ⟨dropped, enomem, replies, less⟩ := copyOut_left is copied
    rw [← dropped, ← enomem, ← replies, ← less]
    exact ih (copyOut_conserves is copied).2
  | drops memory room no queue took =>
    intro _
    have fails := takeEvent_none took
    simp [noMessage, return_, takeEvent, fails, memory, queue, Lacks, left_none no, room]
  | takes memory room no queue took copied later ih =>
    intro cursor
    obtain ⟨kept, dropped, enomem, replies, less⟩ :=
      takeEvent_copyOut_left (cursor.done_zero no) took copied
    have later := ih (copyOut_conserves took copied).2
    rw [dropped, enomem, replies, less] at later
    rw [later, queue, Lacks, left_none no, length_nil, Nat.sub_zero, kept]
    simp [room]

/-! ## A read ends -/

theorem readLoop_returns : ∀ (turns taken : Nat) (s : XbRead Thread) (call : ReadCall),
    call.resid < turns → s.Cursor → ∃ r, s.readLoop t mem turns taken call = .ok r := by
  intro turns
  induction turns with
  | zero => intro taken s call enough; exact absurd enough (Nat.not_lt_zero _)
  | succ turns ih =>
    intro taken s call enough cursor
    rw [readLoop]
    by_cases enomem : s.queuedEnomem = true
    · rw [if_pos enomem]
      split <;> exact ⟨_, rfl⟩
    · rw [if_neg enomem]
      by_cases all : call.resid = 0
      · rw [if_pos all]
        exact ⟨_, rfl⟩
      · rw [if_neg all]
        cases is : s.rmsg with
        | some msg =>
          obtain ⟨m, after, copied, less, cursor⟩ := copyOut_lt all is (cursor.done_lt is)
          simp only [copied]
          exact ih taken m { call with resid := after } (by simp only; omega) cursor
        | none =>
          cases queue : s.replies with
          | nil =>
            simp only
            split <;> exact ⟨_, rfl⟩
          | cons ev rest =>
            obtain ⟨-, cursor⟩ := takeEvent_conserves cursor is queue (mem taken)
            simp only [afterEvent]
            cases took : (s.takeEvent ev rest (mem taken)).rmsg with
            | none => exact ⟨_, rfl⟩
            | some msg =>
              obtain ⟨m, after, copied, less, cursor⟩ := copyOut_lt all took (cursor.done_lt took)
              simp only [copied]
              exact ih (taken + 1) m { call with resid := after } (by simp only; omega) cursor

/-! ## A reader that slept -/

theorem wakeReader_cases (ran : s.wakeReader t mem call = .ok r) :
    (s.replies = [] ∧ r = s.sleep t call) ∨
      ∃ ev rest, s.replies = ev :: rest ∧
        (((s.takeEvent ev rest (mem 0)).rmsg = none ∧
            r = (s.takeEvent ev rest (mem 0)).noMessage t call 0) ∨
          ∃ msg m after, (s.takeEvent ev rest (mem 0)).rmsg = some msg ∧
            (s.takeEvent ev rest (mem 0)).copyOut msg call.resid = .ok (m, after) ∧
            Reads t mem 1 m { call with resid := after } r) := by
  rw [wakeReader] at ran
  cases queue : s.replies with
  | nil =>
    simp only [queue] at ran
    cases ran
    exact .inl ⟨rfl, rfl⟩
  | cons ev rest =>
    simp only [queue, afterEvent] at ran
    refine .inr ⟨ev, rest, rfl, ?_⟩
    cases took : (s.takeEvent ev rest (mem 0)).rmsg with
    | none =>
      simp only [took] at ran
      cases ran
      exact .inl ⟨rfl, rfl⟩
    | some msg =>
      simp only [took] at ran
      obtain ⟨⟨m, after⟩, copied, ran⟩ := bind_eq_ok ran
      exact .inr ⟨msg, m, after, rfl, copied, reads_of_readLoop _ _ _ _ ran⟩

theorem wakeReader_conserves (cursor : s.Cursor) (no : s.replies ≠ [] → s.rmsg = none)
    (ran : s.wakeReader t mem call = .ok r) : s.Conserves r ∧ r.Cursor := by
  rcases wakeReader_cases ran with
    ⟨-, rfl⟩ | ⟨ev, rest, queue, ⟨took, rfl⟩ | ⟨msg, m, after, took, copied, reads⟩⟩
  · exact ⟨.of_same rfl rfl rfl, cursor⟩
  · obtain ⟨first, cursor⟩ := takeEvent_conserves cursor (no (by simp [queue])) queue (mem 0)
    exact ⟨first.trans (return_conserves _), cursor⟩
  · obtain ⟨first, -⟩ := takeEvent_conserves cursor (no (by simp [queue])) queue (mem 0)
    obtain ⟨second, cursor⟩ := copyOut_conserves took copied
    obtain ⟨third, cursor⟩ := reads.conserves cursor
    exact ⟨(first.trans second).trans third, cursor⟩

theorem wakeReader_loses (cursor : s.Cursor) (is : s.rmsg = some other) (some_ : s.replies ≠ [])
    (ran : s.wakeReader t mem call = .ok r) :
    r.arrived = s.arrived ∧ r.stream.length < s.stream.length := by
  rcases wakeReader_cases ran with
    ⟨empty, -⟩ | ⟨ev, rest, queue, ⟨took, rfl⟩ | ⟨msg, m, after, took, copied, reads⟩⟩
  · exact absurd empty some_
  · exact takeEvent_loses cursor is queue (mem 0)
  · obtain ⟨same, loses⟩ := takeEvent_loses cursor is queue (mem 0)
    obtain ⟨second, cursor⟩ := copyOut_conserves took copied
    have later := second.trans (reads.conserves cursor).1
    exact ⟨later.arrived.trans same, lt_of_le_of_lt later.length_le loses⟩

theorem wakeReader_returns (cursor : s.Cursor) (no : s.replies ≠ [] → s.rmsg = none) :
    ∃ r, s.wakeReader t mem call = .ok r := by
  rw [wakeReader]
  cases queue : s.replies with
  | nil => exact ⟨_, rfl⟩
  | cons ev rest =>
    obtain ⟨-, cursor⟩ := takeEvent_conserves cursor (no (by simp [queue])) queue (mem 0)
    simp only [afterEvent]
    cases took : (s.takeEvent ev rest (mem 0)).rmsg with
    | none => exact ⟨_, rfl⟩
    | some msg =>
      have copied := copyOut_eq (le_of_lt (cursor.done_lt took)) call.resid
      simp only [copied]
      exact readLoop_returns _ 1 _ _ (by simp) (copyOut_conserves took copied).2

/-! ## Every run -/

/-- A reader that slept takes an event while another reader has begun a message. -/
def Replaces (s : XbRead Thread) : ReadEvent Thread → Prop
  | .resume _ _ => s.replies ≠ [] ∧ s.rmsg ≠ none
  | _ => False

/-- The step takes an event for whose message there is no memory. -/
def Drops (s : XbRead Thread) : ReadEvent Thread → Prop
  | .read _ size _ mem => s.queuedEnomem = false ∧ Lacks mem 0 s.replies (size - s.left.length)
  | .resume t mem =>
    match s.place t, s.replies with
    | .asleep call _, ev :: rest =>
      (ev.watch && !mem 0) = true ∨
        s.queuedEnomem = false ∧ Lacks mem 1 rest (call.resid - ev.bytes.length)
    | _, _ => False
  | _ => False

def Whole (s : XbRead Thread) (e : ReadEvent Thread) : Prop := ¬ s.Replaces e ∧ ¬ s.Drops e

instance decidableReplaces (s : XbRead Thread) : ∀ e, Decidable (s.Replaces e) := by
  intro event
  unfold Replaces
  split <;> infer_instance

instance decidableDrops (s : XbRead Thread) : ∀ e, Decidable (s.Drops e) := by
  intro event
  unfold Drops
  repeat' split
  all_goals infer_instance

instance decidableWhole (s : XbRead Thread) (e : ReadEvent Thread) : Decidable (s.Whole e) :=
  instDecidableAnd

theorem wakeReader_dropped_iff (cursor : s.Cursor) (no : s.replies ≠ [] → s.rmsg = none)
    (ran : s.wakeReader t mem call = .ok r) :
    s.dropped < r.dropped ↔ ∃ ev rest, s.replies = ev :: rest ∧ ((ev.watch && !mem 0) = true ∨
      s.queuedEnomem = false ∧ Lacks mem 1 rest (call.resid - ev.bytes.length)) := by
  rcases wakeReader_cases ran with
    ⟨empty, rfl⟩ | ⟨ev, rest, queue, ⟨took, rfl⟩ | ⟨msg, m, after, took, copied, reads⟩⟩
  · simp [sleep, empty]
  · have fails := takeEvent_none took
    simp only [queue, cons.injEq, noMessage, return_, takeEvent, fails, if_true]
    exact iff_of_true (Nat.lt_succ_self _) ⟨ev, rest, ⟨rfl, rfl⟩, .inl fails⟩
  · have done := cursor.done_zero (no (by simp [queue]))
    obtain ⟨kept, dropped, enomem, replies, less⟩ := takeEvent_copyOut_left done took copied
    have later := reads.dropped_iff (copyOut_conserves took copied).2
    rw [dropped, enomem, replies, less] at later
    rw [later, queue]
    simp only [cons.injEq, ↓existsAndEq, kept]
    simp

theorem drops_iff (cursor : s.Cursor) (alone : ¬ s.Replaces e) (stepped : s.step e = .ok r) :
    s.Drops e ↔ s.dropped < r.dropped := by
  cases e with
  | read t size nonblock mem => exact ((reads_of_readLoop _ _ _ _ stepped).dropped_iff cursor).symm
  | resume t mem =>
    cases place : s.place t with
    | outside =>
      simp only [XbRead.step, place] at stepped
      cases stepped
      simp [Drops, place]
    | asleep call woken =>
      simp only [XbRead.step, place] at stepped
      have no : s.replies ≠ [] → s.rmsg = none := by
        intro some_
        by_contra begun
        exact alone ⟨some_, begun⟩
      rw [wakeReader_dropped_iff cursor no stepped]
      cases queue : s.replies with
      | nil | cons => simp [Drops, place, queue]
  | event | restart =>
    cases stepped
    exact iff_of_false not_false (lt_irrefl _)

theorem Whole.same (whole : s.Whole e) (cursor : s.Cursor) (stepped : s.step e = .ok r)
    (conserves : s.Conserves r) : r.dropped = s.dropped := by
  have drops := mt (drops_iff cursor whole.1 stepped).mpr whole.2
  exact le_antisymm (not_lt.mp drops) conserves.dropped

theorem StreamInv.step (inv : s.StreamInv) (whole : s.Whole e) :
    ∃ r, s.step e = .ok r ∧ r.StreamInv := by
  cases e with
  | read t size nonblock mem =>
    obtain ⟨r, ran⟩ : ∃ r, s.step (.read t size nonblock mem) = .ok r :=
      readLoop_returns (size + 2) 0 s _ (by simp) inv.cursor
    obtain ⟨conserves, cursor⟩ := (reads_of_readLoop _ _ _ _ ran).conserves inv.cursor
    exact ⟨r, ran, inv.conserved conserves (whole.same inv.cursor ran conserves) cursor⟩
  | resume t mem =>
    cases place : s.place t with
    | outside => exact ⟨s, by simp only [XbRead.step, place], inv⟩
    | asleep call woken =>
      have no : s.replies ≠ [] → s.rmsg = none := by
        intro some_
        by_contra begun
        exact whole.1 ⟨some_, begun⟩
      obtain ⟨r, ran⟩ : ∃ r, s.wakeReader t mem call = .ok r := wakeReader_returns inv.cursor no
      have stepped : s.step (.resume t mem) = .ok r := by simp only [XbRead.step, place, ran]
      obtain ⟨conserves, cursor⟩ := wakeReader_conserves inv.cursor no ran
      exact ⟨r, stepped, inv.conserved conserves (whole.same inv.cursor stepped conserves) cursor⟩
  | event ev => exact ⟨_, rfl, inv.queueEvent ev⟩
  | restart => exact ⟨_, rfl, inv.streams, inv.cursor⟩

theorem StreamInv.loses (inv : s.StreamInv) (allowed : s.Admits e) (broken : ¬ s.Whole e)
    (stepped : s.step e = .ok r) : ¬ r.Streams := by
  -- A step that takes up no message in the place of another one loses what it drops.
  have dropping (conserves : s.Conserves r) (alone : ¬ s.Replaces e) : ¬ r.Streams := by
    have drops : s.Drops e := by
      by_contra keeps
      exact broken ⟨alone, keeps⟩
    exact inv.shrunk conserves.arrived (conserves.lost ((drops_iff inv.cursor alone stepped).mp drops))
  cases e with
  | read t size nonblock mem =>
    exact dropping ((reads_of_readLoop _ _ _ _ stepped).conserves inv.cursor).1 not_false
  | resume t mem =>
    obtain ⟨call, place⟩ := allowed
    have ran : s.wakeReader t mem call = .ok r := by simpa only [XbRead.step, place] using stepped
    by_cases both : s.replies ≠ [] ∧ s.rmsg ≠ none
    · obtain ⟨other, is⟩ := Option.ne_none_iff_exists'.mp both.2
      obtain ⟨same, less⟩ := wakeReader_loses inv.cursor is both.1 ran
      exact inv.shrunk same less
    · have no : s.replies ≠ [] → s.rmsg = none := by
        intro some_
        by_contra begun
        exact both ⟨some_, begun⟩
      exact dropping (wakeReader_conserves inv.cursor no ran).1 both
  | event | restart => exact absurd ⟨not_false, not_false⟩ broken

/-- What the readers get is, in every state of a run, the beginning of the messages in the order of
the queue, with nothing lost between, if and only if no step of it loses a message. -/
theorem read_stream (ops : List (ReadEvent Thread))
    (allowed : StepRuns.Admissible Admits step ops init) :
    StepRuns.Throughout (fun s : XbRead Thread => s.copied <+: s.arrived.flatten ∧ s.Streams) step ops
        init ↔ StepRuns.Admissible (fun s e => s.Admits e ∧ s.Whole e) step ops init := by
  apply StepRuns.throughout_iff StreamInv
  · intro s inv
    exact ⟨inv.streams.copied_prefix, inv.streams⟩
  · intro s e inv _ whole
    exact inv.step whole
  · intro s e r inv allowed broken stepped holds
    exact inv.loses allowed broken stepped holds.2
  · exact streamInv_init
  · exact allowed

/-- A message of sixteen bytes, for the runs below. -/
def blankMessage (byte : UInt8) : EventMsg where
  bytes := List.replicate sockmsgSize byte
  watch := false
  header := by simp
  sane := by simp [sockmsgSize, bufferSize, xenstorePayloadMax]

/-- One reader, with more than one message. -/
def readTwice : List (ReadEvent Bool) :=
  [.read true 20 false (fun _ => true), .event (blankMessage 1), .event (blankMessage 2),
    .resume true (fun _ => true), .read true 12 false (fun _ => true)]

theorem read_stream_readTwice : StepRuns.Throughout
    (fun s : XbRead Bool => s.copied <+: s.arrived.flatten ∧ s.Streams) step readTwice init := by
  apply (read_stream readTwice ?_).mpr
  · decide
  · decide

/-- Two readers sleep. The first one to run again begins a message; the other one goes on in the
next message at the place where the first one stopped. -/
theorem read_stream_torn :
    ∃ final, StepRuns.run step
        [.read true 12 false (fun _ => true), .read false 4 false (fun _ => true),
          .event (blankMessage 1), .resume false (fun _ => true), .event (blankMessage 2),
          .resume true (fun _ => true)] (init : XbRead Bool) = .ok final ∧
      final.dropped = 0 ∧ ¬ final.copied <+: final.arrived.flatten :=
  ⟨_, rfl, rfl, by decide⟩

end XbRead
end Rumprun.Xen
