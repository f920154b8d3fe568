import Rumprun.Rumpuser.CvReacquire
import Rumprun.Rumpuser.ReleasedWaiters

/-! # Signals and the waits they end

Every wait on the condition variable gets a ticket when it is queued. The log says
which tickets a signal or a broadcast has chosen, and what `wait` returned for a ticket.
`wait` decides by `onlist` whether it was signalled, so that a thread whose timeout has
run out can still be chosen until it goes on. -/

namespace Rumprun.Rumpuser
open Core Scheduler Function WaitSys List

structure CvAnswer where
  ticket : Nat
  result : Nat
  deriving DecidableEq, Repr

structure CvLog where
  /-- The number of waits that have been queued, and each thread's last ticket. -/
  tickets : Nat
  ticket : Tid → Nat
  chosen : List Nat
  answers : List CvAnswer

namespace CvLog

def empty : CvLog := { tickets := 0, ticket := fun _ => 0, chosen := [], answers := [] }

def start (log : CvLog) (t : Tid) : CvLog :=
  { log with tickets := log.tickets + 1, ticket := update log.ticket t log.tickets }

def choose (log : CvLog) (threads : List Tid) : CvLog :=
  { log with chosen := (threads.map log.ticket).reverse ++ log.chosen }

def answer (log : CvLog) (t : Tid) (result : Nat) : CvLog :=
  { log with answers := { ticket := log.ticket t, result := result } :: log.answers }

/-- A signal chooses the first of the queue and a broadcast all of it. -/
def note (log : CvLog) (s : MtxSys) : MtxEvent → CvLog
  | .cvWait .waitNowrap => log.start s.current
  | .cvSignal => log.choose ((s.queues.head .cv).take 1)
  | .cvBroadcast => log.choose (s.queues.head .cv)
  | .resume _ =>
    match s.phase s.current with
    | .cvUnsched _ => log.start s.current
    | .cvWaiting _ =>
      match s.queues.waitReturn with
      | .ok (_, result) => log.answer s.current result
      | .error _ => log
    | _ => log
  | _ => log

end CvLog

structure CvSys where
  mtx : MtxSys
  log : CvLog

/-- The thread is in `rumpuser_cv_wait`, `rumpuser_cv_wait_nowrap` or `rumpuser_cv_timedwait`. -/
def MtxPhase.inCv : MtxPhase → Bool
  | .cvUnsched _ => true
  | .cvWaiting _ => true
  | .cvSched _ _ => true
  | .cvRelocked _ _ => true
  | _ => false

theorem MtxPhase.head_eq_cv {phase : MtxPhase} (is : phase.head = some .cv) :
    ∃ call, phase = .cvWaiting call := by
  cases phase with
  | cvWaiting call => exact ⟨call, rfl⟩
  | outside | enterUnsched | enterWaiting | enterSched | cvUnsched | cvSched
  | cvRelocked => cases is

namespace CvSys

def step (curlwp : Tid → Nat) (c : CvSys) (event : MtxEvent) : Except Stop CvSys := do
  return { mtx := ← c.mtx.step curlwp event, log := c.log.note c.mtx event }

/-- Calls are made by the running thread, one at a time. -/
def Admits (c : CvSys) : MtxEvent → Prop
  | .resume _ => c.mtx.Runs ∧ c.mtx.phase c.mtx.current ≠ .outside
  | .sched event => c.mtx.queues.sys.Admits event ∧ c.mtx.queues.GoesOn event
  | _ => c.mtx.Runs ∧ c.mtx.phase c.mtx.current = .outside

instance decidableAdmits (c : CvSys) : ∀ event, Decidable (c.Admits event) := by
  intro event
  induction event using MtxEvent.casesOn <;> dsimp only [Admits] <;> infer_instance

def init (kmutex spin : Bool) (sys : System) : CvSys :=
  { mtx := MtxSys.init kmutex spin sys, log := CvLog.empty }

end CvSys

/-! ## The log and the queue -/

structure CvLogInv (q : WaitSys MtxHead) (log : CvLog) : Prop where
  order : (q.head .cv).Pairwise fun t u => log.ticket t < log.ticket u
  chosenOnce : log.chosen.Nodup
  answeredOnce : (log.answers.map CvAnswer.ticket).Nodup
  answered : ∀ entry ∈ log.answers, entry.result = 0 ↔ entry.ticket ∈ log.chosen
  chosenOld : ∀ ticket ∈ log.chosen, ticket < log.tickets
  answeredOld : ∀ entry ∈ log.answers, entry.ticket < log.tickets
  /-- The waits in progress have their own tickets, which nobody has returned with. -/
  old : ∀ t, q.waiting t = some .cv → log.ticket t < log.tickets
  distinct : ∀ t u, q.waiting t = some .cv → q.waiting u = some .cv →
    log.ticket t = log.ticket u → t = u
  unanswered : ∀ t, q.waiting t = some .cv → ∀ entry ∈ log.answers, entry.ticket ≠ log.ticket t
  pending : ∀ t, q.waiting t = some .cv → (log.ticket t ∈ log.chosen ↔ q.onlist t = false)
  outstanding : ∀ ticket ∈ log.chosen, (∃ entry ∈ log.answers, entry.ticket = ticket) ∨
    ∃ t, q.waiting t = some .cv ∧ log.ticket t = ticket

/-- The queue of the condition variable and its waits are as before. -/
structure SameCv (q next : WaitSys MtxHead) : Prop where
  head : next.head .cv = q.head .cv
  waiting : ∀ t, next.waiting t = some .cv ↔ q.waiting t = some .cv
  onlist : ∀ t, q.waiting t = some .cv → next.onlist t = q.onlist t

namespace CvLogInv
variable {q next : WaitSys MtxHead} {log : CvLog}

theorem empty (sys : System) : CvLogInv (init sys) CvLog.empty where
  order := List.Pairwise.nil
  chosenOnce := nodup_nil
  answeredOnce := nodup_nil
  answered := by simp [CvLog.empty]
  chosenOld := by simp [CvLog.empty]
  answeredOld := by simp [CvLog.empty]
  old := by simp [init]
  distinct := by simp [init]
  unanswered := by simp [init]
  pending := by simp [init]
  outstanding := by simp [CvLog.empty]

section
variable (inv : CvLogInv q log)
include inv

theorem same (same : SameCv q next) : CvLogInv next log where
  order := by rw [same.head]; exact inv.order
  chosenOnce := inv.chosenOnce
  answeredOnce := inv.answeredOnce
  answered := inv.answered
  chosenOld := inv.chosenOld
  answeredOld := inv.answeredOld
  old := fun t waits => inv.old t ((same.waiting t).mp waits)
  distinct := fun t u waits waits' =>
    inv.distinct t u ((same.waiting t).mp waits) ((same.waiting u).mp waits')
  unanswered := fun t waits => inv.unanswered t ((same.waiting t).mp waits)
  pending := by
    intro t waits
    have was := (same.waiting t).mp waits
    rw [same.onlist t was]
    exact inv.pending t was
  outstanding := by
    intro ticket mem
    rcases inv.outstanding ticket mem with answered | ⟨t, waits, is⟩
    · exact .inl answered
    · exact .inr ⟨t, (same.waiting t).mpr waits, is⟩

theorem start (wait : WaitInv q) (idle : q.waiting q.current = none)
    (head : next.head .cv = q.head .cv ++ [q.current])
    (onlist : next.onlist = update q.onlist q.current true)
    (waiting : next.waiting = update q.waiting q.current (some .cv)) :
    CvLogInv next (log.start q.current) := by
  have other : ∀ {t}, q.waiting t = some .cv → t ≠ q.current := by
    intro t waits here
    simp [here, idle] at waits
  have ticket : ∀ {t}, t ≠ q.current → (log.start q.current).ticket t = log.ticket t := by
    intro t apart
    exact update_of_ne apart ..
  have mine : (log.start q.current).ticket q.current = log.tickets := update_self ..
  -- a thread that waits is the current one, or waited before
  have waited : ∀ {t}, next.waiting t = some .cv →
      t = q.current ∨ t ≠ q.current ∧ q.waiting t = some .cv := by
    intro t waits
    by_cases here : t = q.current
    · exact .inl here
    · rw [waiting, update_of_ne here] at waits
      exact .inr ⟨here, waits⟩
  have queued : ∀ {t}, t ∈ q.head .cv → q.waiting t = some .cv :=
    fun mem => ((wait.mem_iff .cv _).mp mem).1
  refine ⟨?_, inv.chosenOnce, inv.answeredOnce, inv.answered, ?_, ?_, ?_, ?_, ?_, ?_, ?_⟩
  · rw [head, pairwise_append]
    refine ⟨?_, pairwise_singleton _ _, ?_⟩
    · apply List.Pairwise.imp_of_mem _ inv.order
      intro t u inT inU less
      rw [ticket (other (queued inT)), ticket (other (queued inU))]
      exact less
    · intro t inT u isCur
      rw [mem_singleton.mp isCur, mine, ticket (other (queued inT))]
      exact inv.old t (queued inT)
  · intro k mem
    exact Nat.lt_succ_of_lt (inv.chosenOld k mem)
  · intro entry mem
    exact Nat.lt_succ_of_lt (inv.answeredOld entry mem)
  · intro t waits
    rcases waited waits with here | ⟨apart, was⟩
    · rw [here, mine]
      exact Nat.lt_succ_self _
    · rw [ticket apart]
      exact Nat.lt_succ_of_lt (inv.old t was)
  · intro t u waits waits' same
    rcases waited waits with here | ⟨apart, was⟩
    · rcases waited waits' with here' | ⟨apart', was'⟩
      · exact here.trans here'.symm
      · rw [here, mine, ticket apart'] at same
        exact absurd same (inv.old u was').ne'
    · rcases waited waits' with here' | ⟨apart', was'⟩
      · rw [here', mine, ticket apart] at same
        exact absurd same (inv.old t was).ne
      · rw [ticket apart, ticket apart'] at same
        exact inv.distinct t u was was' same
  · intro t waits entry mem
    rcases waited waits with here | ⟨apart, was⟩
    · rw [here, mine]
      exact (inv.answeredOld entry mem).ne
    · rw [ticket apart]
      exact inv.unanswered t was entry mem
  · intro t waits
    rcases waited waits with here | ⟨apart, was⟩
    · rw [here, mine, onlist, update_self]
      apply iff_of_false
      · intro mem
        exact absurd (inv.chosenOld _ mem) (lt_irrefl _)
      · simp
    · rw [ticket apart, onlist, update_of_ne apart]
      exact inv.pending t was
  · intro k mem
    rcases inv.outstanding k mem with answered | ⟨t, waits, is⟩
    · exact .inl answered
    · refine .inr ⟨t, ?_, (ticket (other waits)).trans is⟩
      rw [waiting, update_of_ne (other waits)]
      exact waits

theorem answer {result : Nat} (waits : q.waiting q.current = some .cv)
    (code : result = if q.onlist q.current = true then etimedout else 0)
    (head : (next.head .cv).Sublist (q.head .cv)) (onlist : next.onlist = q.onlist)
    (waiting : next.waiting = update q.waiting q.current none) :
    CvLogInv next (log.answer q.current result) := by
  have waited : ∀ {t}, next.waiting t = some .cv → t ≠ q.current ∧ q.waiting t = some .cv := by
    intro t still
    rw [waiting, update_apply] at still
    split at still
    · cases still
    · next apart => exact ⟨apart, still⟩
  have zero : result = 0 ↔ log.ticket q.current ∈ log.chosen := by
    rw [inv.pending _ waits, code]
    cases q.onlist q.current with
    | true => simp [etimedout]
    | false => simp
  refine ⟨inv.order.sublist head, inv.chosenOnce, ?_, ?_, inv.chosenOld, ?_, ?_, ?_, ?_, ?_, ?_⟩
  · simp only [CvLog.answer, map_cons, nodup_cons]
    refine ⟨?_, inv.answeredOnce⟩
    intro mem
    obtain ⟨entry, old, is⟩ := mem_map.mp mem
    exact inv.unanswered _ waits entry old is
  · intro entry mem
    rcases mem_cons.mp mem with is | old
    · rw [is]
      exact zero
    · exact inv.answered entry old
  · intro entry mem
    rcases mem_cons.mp mem with is | old
    · rw [is]
      exact inv.old _ waits
    · exact inv.answeredOld entry old
  · intro t still
    exact inv.old t (waited still).2
  · intro t u still still'
    exact inv.distinct t u (waited still).2 (waited still').2
  · intro t still entry mem
    rcases mem_cons.mp mem with is | old
    · rw [is]
      intro same
      exact (waited still).1 (inv.distinct _ _ waits (waited still).2 same).symm
    · exact inv.unanswered t (waited still).2 entry old
  · intro t still
    rw [onlist]
    exact inv.pending t (waited still).2
  · intro k mem
    rcases inv.outstanding k mem with ⟨entry, old, is⟩ | ⟨t, still, is⟩
    · exact .inl ⟨entry, mem_cons_of_mem _ old, is⟩
    · by_cases here : t = q.current
      · refine .inl ⟨_, mem_cons_self, ?_⟩
        rw [← is, here]
      · refine .inr ⟨t, ?_, is⟩
        rw [waiting, update_of_ne here]
        exact still

theorem choose_cons (wait : WaitInv q) {who : Tid} {rest : List Tid}
    (first : q.head .cv = who :: rest) (ran : q.wakeupOne .cv = .ok next) :
    CvLogInv next (log.choose [who]) := by
  obtain ⟨waiting, head, onlist⟩ := wakeupOne_frame ran
  obtain ⟨waits, listed⟩ := (wait.mem_iff .cv who).mp (by simp [first])
  have mem : ∀ {k}, k ∈ (log.choose [who]).chosen ↔ k = log.ticket who ∨ k ∈ log.chosen := by
    simp [CvLog.choose]
  have unchosen : log.ticket who ∉ log.chosen := by
    rw [inv.pending who waits, listed]
    simp
  refine ⟨?_, ?_, inv.answeredOnce, ?_, ?_, inv.answeredOld, ?_, ?_, ?_, ?_, ?_⟩
  · have order := inv.order
    rw [first, pairwise_cons] at order
    rw [head, update_self, first]
    exact order.2
  · simp only [CvLog.choose, map_cons, map_nil, reverse_singleton, singleton_append, nodup_cons]
    exact ⟨unchosen, inv.chosenOnce⟩
  · intro entry old
    rw [mem, inv.answered entry old]
    constructor
    · exact .inr
    · exact fun is => is.resolve_left (inv.unanswered who waits entry old)
  · intro k is
    rcases mem.mp is with is | old
    · rw [is]
      exact inv.old who waits
    · exact inv.chosenOld k old
  · intro t still
    rw [waiting] at still
    exact inv.old t still
  · intro t u still still'
    rw [waiting] at still still'
    exact inv.distinct t u still still'
  · intro t still
    rw [waiting] at still
    exact inv.unanswered t still
  · intro t still
    rw [waiting] at still
    rw [mem, onlist, first]
    by_cases here : who = t
    · subst here
      simp [CvLog.choose]
    · simp only [head?_cons, Option.some.injEq, here, if_false]
      rw [← inv.pending t still]
      constructor
      · rintro (same | old)
        · exact absurd (inv.distinct t who still waits same).symm here
        · exact old
      · exact .inr
  · intro k is
    rcases mem.mp is with is | old
    · refine .inr ⟨who, ?_, is.symm⟩
      rw [waiting]
      exact waits
    · rw [waiting]
      exact inv.outstanding k old

theorem signal (wait : WaitInv q) (ran : q.wakeupOne .cv = .ok next) :
    CvLogInv next (log.choose ((q.head .cv).take 1)) := by
  cases first : q.head .cv with
  | nil =>
    rw [wakeupOne, first] at ran
    cases ran
    exact inv
  | cons who rest => exact inv.choose_cons wait first ran

end

theorem wakeupLoop (fuel : Nat) :
    ∀ {q next : WaitSys MtxHead} {log : CvLog}, CvLogInv q log → WaitInv q →
      WaitSys.wakeupLoop .cv fuel q = .ok next → CvLogInv next (log.choose (q.head .cv)) := by
  induction fuel with
  | zero =>
    intro q next log inv wait ran
    cases first : q.head .cv with
    | nil =>
      rw [WaitSys.wakeupLoop, first] at ran
      cases ran
      exact inv
    | cons who rest => rw [WaitSys.wakeupLoop, first] at ran; cases ran
  | succ fuel ih =>
    intro q next log inv wait ran
    cases first : q.head .cv with
    | nil =>
      rw [WaitSys.wakeupLoop, first] at ran
      cases ran
      exact inv
    | cons who rest =>
      rw [WaitSys.wakeupLoop, first] at ran
      obtain ⟨one, oneRan, ran⟩ := bind_eq_ok ran
      obtain ⟨after, -⟩ := of_ok (wait.wakeupOne .cv) oneRan
      have rest' : one.head .cv = rest := by
        rw [(wakeupOne_frame oneRan).2.1, update_self, first]
        rfl
      have looped := ih (inv.choose_cons wait first oneRan) after ran
      rw [rest'] at looped
      simpa [CvLog.choose] using looped

end CvLogInv
end Rumprun.Rumpuser
