import Rumprun.Rumpuser.CvReacquire
import Rumprun.Rumpuser.ReleasedWaiters

/-! # The mutex loses no wakeup

`rumpuser_mutex_exit` wakes one waiter and leaves the mutex free, so that any thread
may take it before the woken one runs, which then waits again. -/

namespace Rumprun.Rumpuser
open Core Scheduler StepRuns Function MtxSys

/-- `rumpuser_mutex_enter`, `rumpuser_mutex_tryenter`, `rumpuser_mutex_exit`, and what goes on
between them. -/
def MtxEvent.ofMutex : MtxEvent → Bool
  | .enter => true
  | .tryenter => true
  | .exit => true
  | .resume _ => true
  | .sched _ => true
  | _ => false

def MtxPhase.ofMutex : MtxPhase → Bool
  | .outside => true
  | .enterUnsched => true
  | .enterWaiting => true
  | .enterSched => true
  | _ => false

theorem MtxPhase.head_eq_mtx {phase : MtxPhase} (is : phase.head = some .mtx) :
    phase = .enterWaiting := by
  cases phase with
  | enterWaiting => rfl
  | outside | enterUnsched | enterSched | cvUnsched | cvWaiting | cvSched | cvRelocked => cases is

namespace MtxSys

def AdmitsMutex (s : MtxSys) (event : MtxEvent) : Prop := s.Admits event ∧ event.ofMutex = true

instance decidableAdmitsMutex (s : MtxSys) (event : MtxEvent) : Decidable (s.AdmitsMutex event) :=
  inferInstanceAs (Decidable (_ ∧ _))

/-- `wakeup_one` has taken the thread off the mutex's list, and it has not tried again yet. -/
structure Pending (s : MtxSys) (t : Tid) : Prop where
  waits : s.phase t = .enterWaiting
  dequeued : s.queues.onlist t = false

/-- The event is the thread's own next `rumpuser_mutex_tryenter`. -/
def Retries (curlwp : Tid → Nat) (s : MtxSys) (t : Tid) (event : MtxEvent) : Prop :=
  t = s.current ∧ ∃ monotonic, event = .resume monotonic ∧
    ∃ queues result, s.queues.waitReturn = .ok (queues, result) ∧
      s.step curlwp event = { s with queues := queues }.mutexRetry curlwp

end MtxSys

structure MutexKept (curlwp : Tid → Nat) (s : MtxSys) : Prop where
  owned : MtxOwned s.mtx s.owners
  woken : s.mtx.v = 0 → s.queues.head .mtx ≠ [] → ∃ t, s.Pending t
  ready : ∀ t, s.Pending t → s.queues.sys.Ready t
  retries : ∀ t, s.Pending t → ∀ event next, s.AdmitsMutex event →
    s.step curlwp event = .ok next → next.Pending t ∨ s.Retries curlwp t event

/-! ## What the pieces of the lock change -/

namespace MtxSys
variable {s next : MtxSys} {curlwp : Tid → Nat} {result : Int} {phase : MtxPhase}

theorem mutexTryenter_taken (ran : s.mutexTryenter curlwp = .ok (next, result)) :
    next.mtx.v ≠ 0 ∧ next.queues = s.queues ∧ next.phase = s.phase := by
  rw [mutexTryenter] at ran
  split at ran
  · cases ran
  · split at ran
    · next busy =>
        cases ran
        exact ⟨busy, rfl, rfl⟩
    · cases ran
      exact ⟨Int.one_ne_zero, rfl, rfl⟩

/-- The state after a piece of `rumpuser_mutex_enter`, which has called `tryenter`. -/
structure Tried (s next : MtxSys) : Prop where
  taken : next.mtx.v ≠ 0
  others : ∀ t, t ≠ s.current → next.phase t = s.phase t
  dequeued : ∀ t, t ≠ s.current → next.queues.onlist t = s.queues.onlist t
  plain : (∀ t, (s.phase t).ofMutex = true) → ∀ t, (next.phase t).ofMutex = true
  released : next.queues.Released

theorem Tried.pending (tried : s.Tried next) {t : Tid} (was : s.Pending t) (other : t ≠ s.current) :
    next.Pending t :=
  ⟨(tried.others t other).trans was.waits, (tried.dequeued t other).trans was.dequeued⟩

theorem plain_update (is : phase.ofMutex = true) (plain : ∀ t, (s.phase t).ofMutex = true)
    (u t : Tid) : (update s.phase u phase t).ofMutex = true := by
  rw [update_apply]
  split
  · exact is
  · exact plain t

theorem mutexTryenter_setPhase (released : s.queues.Released)
    (ran : s.mutexTryenter curlwp = .ok (next, result)) (is : phase.ofMutex = true) :
    s.Tried (next.setPhase phase) := by
  obtain ⟨taken, queues, phases⟩ := mutexTryenter_taken ran
  have current : next.current = s.current := by simp [MtxSys.current, queues]
  refine ⟨taken, ?_, ?_, ?_, ?_⟩
  · intro t other
    simp [setPhase, current, phases, other]
  · intro t _
    simp [setPhase, queues]
  · intro plain t
    simp only [setPhase, phases]
    exact plain_update is plain _ t
  · simp only [setPhase, queues]
    exact released

theorem mutexTryenter_tried (released : s.queues.Released)
    (ran : s.mutexTryenter curlwp = .ok (next, result)) : s.Tried next := by
  obtain ⟨taken, queues, phases⟩ := mutexTryenter_taken ran
  refine ⟨taken, by simp [phases], by simp [queues], by simp [phases], ?_⟩
  rw [queues]
  exact released

theorem mutexEnter_tried (released : s.queues.Released) (ran : s.mutexEnter curlwp = .ok next) :
    s.Tried next := by
  rw [mutexEnter] at ran
  obtain ⟨⟨after, result⟩, tried, ran⟩ := bind_eq_ok ran
  cases ran
  split
  · exact mutexTryenter_setPhase released tried rfl
  · exact mutexTryenter_tried released tried

theorem mutexRetry_tried (core : MtxCore s) (runs : s.Runs) (released : s.queues.Released)
    (ran : s.mutexRetry curlwp = .ok next) : s.Tried next := by
  rw [mutexRetry] at ran
  obtain ⟨⟨after, result⟩, tried, ran⟩ := bind_eq_ok ran
  dsimp only at ran
  split at ran
  · obtain ⟨taken, queues, phases⟩ := mutexTryenter_taken tried
    obtain ⟨sched, started, -, -⟩ := core.wait.waitStart .mtx inftime 0 runs core.idle
    have current : after.current = s.current := by simp [MtxSys.current, queues]
    rw [sleepOn, queues, started] at ran
    cases ran
    refine ⟨taken, ?_, ?_, ?_, released.waitStart core.wait runs started⟩
    · intro t other
      simp [current, phases, other]
    · intro t other
      exact update_of_ne other ..
    · intro plain t
      simp only [phases]
      exact plain_update rfl plain _ t
  · cases ran
    exact mutexTryenter_setPhase released tried rfl

end MtxSys

/-! ## The steps -/

structure LockInv (s : MtxSys) : Prop where
  inv : MtxInv s
  plain : ∀ t, (s.phase t).ofMutex = true
  released : s.queues.Released
  woken : s.mtx.v = 0 → s.queues.head .mtx ≠ [] → ∃ t, s.Pending t

namespace LockInv
variable {s next : MtxSys} {curlwp : Tid → Nat}

section
variable (lock : LockInv s)
include lock

theorem ready {t : Tid} (pending : s.Pending t) : s.queues.sys.Ready t := by
  have waits : s.queues.waiting t = some .mtx := by
    rw [lock.inv.waits, pending.waits]
    rfl
  exact (lock.released t .mtx waits pending.dequeued).ready lock.inv.wait.sys.core

theorem findsFree {event : MtxEvent} (plain : event.ofMutex = true) : s.FindsFree event := by
  intro reacquires
  cases event with
  | resume monotonic =>
    have phase := lock.plain s.current
    rw [MtxSys.Reacquires] at reacquires
    cases at_ : s.phase s.current with
    | outside | enterUnsched | enterWaiting
    | enterSched => rw [at_] at reacquires; exact reacquires.elim
    | cvUnsched | cvWaiting | cvSched | cvRelocked => rw [at_] at phase; cases phase
  | enterNowrap | cvWait | cvSignal | cvBroadcast => cases plain
  | enter | tryenter | exit | sched => exact reacquires.elim

theorem of_tried (after : MtxInv next) (tried : s.Tried next) : LockInv next :=
  ⟨after, tried.plain lock.plain, tried.released, fun free => absurd free tried.taken⟩

theorem exit (after : MtxInv next) (outside : s.phase s.current = .outside)
    (ran : s.mutexExit = .ok next) : LockInv next ∧ ∀ t, s.Pending t → next.Pending t := by
  have idle : s.queues.waiting s.queues.current = none := by
    rw [lock.inv.waits]
    exact congrArg MtxPhase.head outside
  rw [mutexExit] at ran
  obtain ⟨-, -, ran⟩ := bind_eq_ok ran
  obtain ⟨queues, wakes, ran⟩ := bind_eq_ok ran
  have released := lock.released.wakeupOne lock.inv.wait idle wakes
  cases ran
  cases first : s.queues.head .mtx with
  | nil =>
    rw [WaitSys.wakeupOne, first] at wakes
    cases wakes
    refine ⟨⟨after, lock.plain, released, ?_⟩, fun t was => ⟨was.waits, was.dequeued⟩⟩
    intro _ some
    exact absurd first some
  | cons who rest =>
    obtain ⟨wakes', -, -⟩ := lock.inv.wait.wakeupOne_cons first
    rw [wakes] at wakes'
    cases Except.ok.inj wakes'
    refine ⟨⟨after, lock.plain, released, ?_⟩, ?_⟩
    · intro _ _
      have waits := ((lock.inv.wait.mem_iff .mtx who).mp (by simp [first])).1
      rw [lock.inv.waits] at waits
      exact ⟨who, MtxPhase.head_eq_mtx waits, update_self ..⟩
    · intro t was
      refine ⟨was.waits, ?_⟩
      simp [update_apply, was.dequeued]

theorem sched {event : Event} (allowed : s.Admits (.sched event)) (after : MtxInv next)
    (ran : s.step curlwp (.sched event) = .ok next) :
    LockInv next ∧ ∀ t, s.Pending t → next.Pending t := by
  rw [MtxSys.step] at ran
  obtain ⟨queues, moved, ran⟩ := bind_eq_ok ran
  have released := lock.released.sched lock.inv.wait allowed.1 allowed.2 moved
  obtain ⟨sys, -, moved', -⟩ := lock.inv.wait.sched allowed.1 allowed.2
  rw [moved] at moved'
  cases Except.ok.inj moved'
  cases ran
  have pending : ∀ t, s.Pending t → MtxSys.Pending { s with queues := { s.queues with sys := sys } } t :=
    fun t was => ⟨was.waits, was.dequeued⟩
  refine ⟨⟨after, lock.plain, released, ?_⟩, pending⟩
  intro free some
  obtain ⟨t, was⟩ := lock.woken free some
  exact ⟨t, pending t was⟩

theorem resume (runs : s.Runs) {monotonic : Int} (going : s.phase s.current ≠ .outside)
    (after : MtxInv next) (ran : s.resume curlwp monotonic = .ok next) :
    LockInv next ∧ ∀ t, s.Pending t → t ≠ s.current → next.Pending t := by
  have plain := lock.plain s.current
  rw [MtxSys.resume] at ran
  cases phase : s.phase s.current with
  | outside => exact absurd phase going
  | enterUnsched =>
    rw [phase] at ran
    have tried := mutexRetry_tried (lock.inv.core (by rw [phase]; rfl)) runs
      lock.released ran
    refine ⟨lock.of_tried after tried, fun t was other => ?_⟩
    exact tried.pending was other
  | enterWaiting =>
    rw [phase] at ran
    obtain ⟨⟨queues, result⟩, returned, ran⟩ := bind_eq_ok ran
    have waits : s.queues.waiting s.current = some .mtx := by
      rw [lock.inv.waits, phase]
      rfl
    obtain ⟨queues', result', returned', core, current, sys⟩ := lock.inv.waitReturn waits
    rw [returned] at returned'
    cases Except.ok.inj returned'
    have stillRuns : MtxSys.Runs { s with queues := queues } := by
      rw [MtxSys.Runs, MtxSys.current, current, sys]
      exact runs
    have tried := mutexRetry_tried core stillRuns (lock.released.waitReturn returned) ran
    refine ⟨⟨after, tried.plain lock.plain, tried.released, fun free => absurd free tried.taken⟩, ?_⟩
    intro t was other
    have other' : t ≠ queues.current := by
      rw [current]
      exact other
    refine ⟨(tried.others t other').trans was.waits, (tried.dequeued t other').trans ?_⟩
    rw [(WaitSys.waitReturn_frame returned).2.1]
    exact was.dequeued
  | enterSched =>
    rw [phase] at ran
    cases ran
    have pending : ∀ t, s.Pending t → (s.setPhase .outside).Pending t := by
      intro t was
      refine ⟨?_, was.dequeued⟩
      have other : t ≠ s.current := by
        intro here
        have there := was.waits
        rw [here, phase] at there
        cases there
      simp [setPhase, other, was.waits]
    refine ⟨⟨after, ?_, lock.released, ?_⟩, fun t was _ => pending t was⟩
    · intro t
      exact plain_update rfl lock.plain _ t
    · intro free some
      obtain ⟨t, was⟩ := lock.woken free some
      exact ⟨t, pending t was⟩
  | cvUnsched | cvWaiting | cvSched | cvRelocked => rw [phase] at plain; cases plain

theorem step {event : MtxEvent} (allowed : s.AdmitsMutex event) :
    ∃ next, s.step curlwp event = .ok next ∧ LockInv next ∧
      ∀ t, s.Pending t → next.Pending t ∨ s.Retries curlwp t event := by
  obtain ⟨allowed, ofMutex⟩ := allowed
  obtain ⟨next, stepped, after⟩ := lock.inv.step curlwp allowed (lock.findsFree ofMutex)
  have outsider : s.phase s.current = .outside → ∀ t, s.Pending t → t ≠ s.current := by
    intro outside t was here
    have there := was.waits
    rw [here, outside] at there
    cases there
  refine ⟨next, stepped, ?_⟩
  cases event with
  | enter =>
    have tried := mutexEnter_tried lock.released stepped
    refine ⟨lock.of_tried after tried, fun t was => .inl ?_⟩
    exact tried.pending was (outsider allowed.2.1 t was)
  | tryenter =>
    rw [MtxSys.step] at stepped
    obtain ⟨pair, ran, rfl⟩ := map_eq_ok stepped
    have tried := mutexTryenter_tried lock.released ran
    refine ⟨lock.of_tried after tried, fun t was => .inl ?_⟩
    exact tried.pending was (outsider allowed.2.1 t was)
  | exit =>
    obtain ⟨kept, pending⟩ := lock.exit after allowed.2.1 stepped
    exact ⟨kept, fun t was => .inl (pending t was)⟩
  | resume monotonic =>
    obtain ⟨kept, pending⟩ := lock.resume allowed.1 allowed.2 after stepped
    refine ⟨kept, fun t was => ?_⟩
    by_cases here : t = s.current
    · subst here
      have waits : s.queues.waiting s.current = some .mtx := by
        rw [lock.inv.waits, was.waits]
        rfl
      obtain ⟨queues, result, returned, -⟩ := lock.inv.waitReturn waits
      refine .inr ⟨rfl, monotonic, rfl, queues, result, returned, ?_⟩
      rw [MtxSys.step, MtxSys.resume, was.waits]
      dsimp only
      rw [returned, ok_bind]
    · exact .inl (pending t was here)
  | sched event =>
    obtain ⟨kept, pending⟩ := lock.sched allowed after stepped
    exact ⟨kept, fun t was => .inl (pending t was)⟩
  | enterNowrap | cvWait | cvSignal | cvBroadcast => cases ofMutex

theorem kept : MutexKept curlwp s where
  owned := lock.inv.owned
  woken := lock.woken
  ready := fun _ was => lock.ready was
  retries := by
    intro t was event next allowed stepped
    obtain ⟨-, pending⟩ := of_ok (lock.step allowed) stepped
    exact pending t was

end

theorem init (kmutex spin : Bool) (main stack tlsarea : Nat) :
    LockInv (init kmutex spin (System.mainOnly main stack tlsarea)) where
  inv := MtxInv.init kmutex spin main stack tlsarea
  plain := fun _ => rfl
  released := WaitSys.Released.init _
  woken := fun _ some => absurd rfl some

end LockInv

/-- Runs of enters, tryenters and exits, with any
wakes from elsewhere, go on without a halt; there is one owner at most, which the mutex names;
and while the mutex is free and the list of waiters is not empty, a thread taken off that list is
ready to run and tries again before it does anything else. -/
theorem mutex_excludes_and_wakes (curlwp : Tid → Nat) (kmutex spin : Bool)
    (main stack stackSize tlsarea : Nat) (stacked : stack ≠ 0) :
    ∃ boot, System.start main stack stackSize tlsarea = .ok boot ∧
      ∀ events, Admissible MtxSys.AdmitsMutex (MtxSys.step curlwp) events
          (MtxSys.init kmutex spin boot) →
        ∃ final, run (MtxSys.step curlwp) events (MtxSys.init kmutex spin boot) = .ok final ∧
          MutexKept curlwp final := by
  refine ⟨_, System.start_eq main stackSize tlsarea stacked, ?_⟩
  intro events allowed
  have preserved : ∀ (s : MtxSys) (event : MtxEvent), LockInv s → s.AdmitsMutex event →
      ∃ next, s.step curlwp event = .ok next ∧ LockInv next := by
    intro s event lock admitted
    obtain ⟨next, stepped, after, -⟩ := lock.step admitted
    exact ⟨next, stepped, after⟩
  obtain ⟨final, ran, lock⟩ :=
    run_invariant preserved events _ (LockInv.init kmutex spin main stack tlsarea) allowed
  exact ⟨final, ran, lock.kept⟩

def twoWaitersRun : List MtxEvent :=
  [.sched (.call (.create 2 false 0 0 0x9000 0x20)),
    .sched (.call (.create 3 false 0 0 0xa000 0x30)), .enter, .sched (.call .yield),
    .sched (.turn 100), .enter, .resume 100, .sched (.call .block),
    .sched (.turn 200), .enter, .resume 200, .sched (.call .block),
    .sched (.turn 300), .sched .advance, .exit]

theorem mutex_excludes_and_wakes_two :
    ∃ boot final, System.start 1 0x8000 0x1000 0x10 = .ok boot ∧
      run (MtxSys.step (· + 1)) twoWaitersRun (MtxSys.init false false boot) = .ok final ∧
      MutexKept (· + 1) final ∧ final.mtx.v = 0 ∧ final.queues.head .mtx = [3] ∧
      final.queues.sys.sched.queue .runq = [2] := by
  obtain ⟨boot, booted, runs⟩ :=
    mutex_excludes_and_wakes (· + 1) false false 1 0x8000 0x1000 0x10 (by decide)
  have evaluated : ∀ sys ∈ (System.start 1 0x8000 0x1000 0x10).toOption,
      Admissible MtxSys.AdmitsMutex (MtxSys.step (· + 1)) twoWaitersRun
        (init false false sys) ∧
      ∃ final ∈ (run (MtxSys.step (· + 1)) twoWaitersRun
          (init false false sys)).toOption,
        final.mtx.v = 0 ∧ final.queues.head .mtx = [3] ∧
          final.queues.sys.sched.queue .runq = [2] := by
    decide +kernel
  obtain ⟨allowed, final, reached, woken⟩ := evaluated boot (by rw [booted]; rfl)
  obtain ⟨final', ran, kept⟩ := runs twoWaitersRun allowed
  rw [eq_ok_of_mem reached] at ran
  cases ran
  exact ⟨boot, final, booted, eq_ok_of_mem reached, kept, woken⟩

end Rumprun.Rumpuser
