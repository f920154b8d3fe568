import Rumprun.Rumpuser.Mutex

/-! # Waits and the mutex they return with

A thread that comes back from `wait` in one of the condition variable's waits
enters the mutex with `rumpuser_mutex_enter_nowrap`, which does not wait for it.
That works when nobody owns the mutex at that time. Otherwise it halts. -/

namespace Rumprun.Rumpuser
open Core Scheduler StepRuns Function MtxSys System List
variable {s : MtxSys}

/-- Another thread enters the mutex while the main thread waits, signals it, and yields with the
mutex still held; the main thread comes back from `wait`. -/
def ownedResumeRun : List MtxEvent :=
  [.sched (.call (.create 2 false 0 0 0x9000 0x20)), .enter, .cvWait .wait, .resume 0,
    .sched (.call .block), .sched (.turn 100), .enter, .cvSignal, .sched (.call .yield),
    .sched (.turn 200), .sched .advance, .resume 200]

theorem cv_wait_halts :
    ∃ boot ∈ (System.start 1 0x8000 0x1000 0x10).toOption,
      Admissible MtxSys.Admits (MtxSys.step (· + 1)) ownedResumeRun (MtxSys.init false false boot) ∧
      run (MtxSys.step (· + 1)) ownedResumeRun (MtxSys.init false false boot) =
        .error (.halt "rumpuser mutex error") := by
  have evaluated : ∃ boot ∈ (start 1 0x8000 0x1000 0x10).toOption,
      Admissible MtxSys.Admits (MtxSys.step (· + 1)) ownedResumeRun
        (init false false boot) ∧
      faultOf (run (MtxSys.step (· + 1)) ownedResumeRun (init false false boot)) =
        some (.halt "rumpuser mutex error") := by
    decide +kernel
  obtain ⟨boot, booted, allowed, halted⟩ := evaluated
  exact ⟨boot, booted, allowed, eq_error_of_faultOf halted⟩

/-! ## The invariant -/

/-- The words of the mutex name its owner, and there is one at most. -/
def MtxOwned (mtx : Mtx) (owners : List Tid) : Prop :=
  (mtx.v = 0 ∧ mtx.o = 0 ∧ mtx.bmkO = none ∧ owners = []) ∨
    ∃ t, mtx.v = 1 ∧ mtx.bmkO = some t ∧ owners = [t]

namespace MtxPhase

/-- The queue whose `wait` the thread is in. -/
def head : MtxPhase → Option MtxHead
  | .enterWaiting => some .mtx
  | .cvWaiting _ => some .cv
  | _ => none

/-- Whether the thread owns the mutex, where its place says so. -/
def holds : MtxPhase → Option Bool
  | .outside => none
  | .enterUnsched => some false
  | .enterWaiting => some false
  | .enterSched => some true
  | .cvUnsched _ => some true
  | .cvWaiting _ => some false
  | .cvSched _ _ => some false
  | .cvRelocked _ _ => some true

end MtxPhase

/-- What holds while the current thread runs in the code of the lock, its place not settled. -/
structure MtxCore (s : MtxSys) : Prop where
  wait : WaitInv s.queues
  idle : s.queues.waiting s.current = none
  waits : ∀ t, t ≠ s.current → s.queues.waiting t = (s.phase t).head
  owned : MtxOwned s.mtx s.owners
  holding : ∀ t b, t ≠ s.current → (s.phase t).holds = some b → (t ∈ s.owners ↔ b = true)
  returns : ∀ entry ∈ s.returns, entry.owners = [entry.thread]

structure MtxInv (s : MtxSys) : Prop where
  wait : WaitInv s.queues
  waits : ∀ t, s.queues.waiting t = (s.phase t).head
  owned : MtxOwned s.mtx s.owners
  holding : ∀ t b, (s.phase t).holds = some b → (t ∈ s.owners ↔ b = true)
  returns : ∀ entry ∈ s.returns, entry.owners = [entry.thread]

theorem MtxInv.core (inv : MtxInv s) (idle : (s.phase s.current).head = none) : MtxCore s :=
  ⟨inv.wait, (inv.waits _).trans idle, fun t _ => inv.waits t, inv.owned,
    fun t b _ => inv.holding t b, inv.returns⟩

namespace MtxOwned
variable {mtx : Mtx} {owners : List Tid} {t : Tid}

theorem of_mem (owned : MtxOwned mtx owners) (mem : t ∈ owners) :
    mtx.v = 1 ∧ mtx.bmkO = some t ∧ owners = [t] := by
  rcases owned with ⟨-, -, -, none⟩ | ⟨u, one, bmkO, only⟩
  · rw [none] at mem
    exact absurd mem not_mem_nil
  · have same : t = u := by
      rw [only] at mem
      exact mem_singleton.mp mem
    rw [same]
    exact ⟨one, bmkO, only⟩

theorem not_mine (owned : MtxOwned mtx owners) (other : t ∉ owners) : mtx.bmkO ≠ some t := by
  intro mine
  rcases owned with ⟨-, -, bmkO, -⟩ | ⟨u, -, bmkO, only⟩
  · rw [bmkO] at mine
    cases mine
  · rw [bmkO] at mine
    cases mine
    exact other (by rw [only]; exact mem_singleton_self _)

theorem free (owned : MtxOwned mtx owners) (zero : mtx.v = 0) : owners = [] := by
  rcases owned with ⟨-, -, -, none⟩ | ⟨u, one, -, -⟩
  · exact none
  · rw [one] at zero
    exact absurd zero (by decide)

end MtxOwned
namespace MtxCore
variable {s : MtxSys} (curlwp : Tid → Nat)
variable (core : MtxCore s)
include core

theorem setPhase (phase : MtxPhase) (idle : phase.head = none)
    (holds : ∀ b, phase.holds = some b → (s.current ∈ s.owners ↔ b = true)) :
    MtxInv (s.setPhase phase) := by
  refine ⟨core.wait, ?_, core.owned, ?_, core.returns⟩
  · intro t
    dsimp only [MtxSys.setPhase]
    by_cases here : t = s.current
    · rw [here, update_self, idle]
      exact core.idle
    · rw [update_of_ne here]
      exact core.waits t here
  · intro t b
    dsimp only [MtxSys.setPhase]
    by_cases here : t = s.current
    · rw [here, update_self]
      exact holds b
    · rw [update_of_ne here]
      exact core.holding t b here

theorem sleepOn (runs : s.Runs) {wh : MtxHead} {phase : MtxPhase} (wakeup monotonic : Int)
    (head : phase.head = some wh) (holds : phase.holds = some false) (other : s.current ∉ s.owners) :
    ∃ next, s.sleepOn wh wakeup monotonic phase = .ok next ∧ MtxInv next := by
  obtain ⟨sched, started, same, after⟩ := core.wait.waitStart wh wakeup monotonic runs core.idle
  have slept : s.sleepOn wh wakeup monotonic phase = .ok { s with
      queues := s.queues.asleepOn wh sched
      phase := update s.phase s.current phase } := by
    rw [MtxSys.sleepOn, started]
    rfl
  refine ⟨_, slept, after, ?_, core.owned, ?_, core.returns⟩
  · intro t
    dsimp only
    by_cases here : t = s.current
    · rw [here, update_self, head]
      exact update_self ..
    · rw [update_of_ne here, WaitSys.asleepOn]
      exact (update_of_ne here ..).trans (core.waits t here)
  · intro t b
    dsimp only
    by_cases here : t = s.current
    · rw [here, update_self, holds]
      intro is
      cases is
      exact iff_of_false other nofun
    · rw [update_of_ne here]
      exact core.holding t b here

theorem tryenter (other : s.current ∉ s.owners) :
    (s.mtx.v ≠ 0 ∧ s.mutexTryenter curlwp = .ok (s, ebusy)) ∨
      s.mtx.v = 0 ∧ ∃ next, s.mutexTryenter curlwp = .ok (next, 0) ∧ MtxCore next ∧
        next.current = s.current ∧ next.owners = [s.current] ∧ next.phase = s.phase ∧
        next.mtx.kmutex = s.mtx.kmutex ∧ next.mtx.spin = s.mtx.spin := by
  rw [mutexTryenter, if_neg (core.owned.not_mine other)]
  by_cases busy : s.mtx.v ≠ 0
  · rw [if_pos busy]
    exact .inl ⟨busy, rfl⟩
  · rw [if_neg busy]
    have zero : s.mtx.v = 0 := not_not.mp busy
    have none := core.owned.free zero
    refine .inr ⟨zero, _, rfl, ?_, rfl, ?_, rfl, rfl, rfl⟩
    · refine ⟨core.wait, core.idle, core.waits, ?_, ?_, core.returns⟩
      · refine .inr ⟨s.current, rfl, rfl, ?_⟩
        rw [none]
      · intro t b here holds
        have was := core.holding t b here holds
        rw [none] at was
        dsimp only
        rw [none, mem_singleton]
        exact (iff_of_false here not_mem_nil).trans was
    · dsimp only
      rw [none]

theorem mutexExit (mine : s.current ∈ s.owners) :
    ∃ next, s.mutexExit = .ok next ∧ MtxCore next ∧ next.current = s.current ∧
      next.owners = [] ∧ next.phase = s.phase ∧ (s.Runs → next.Runs) := by
  obtain ⟨one, -, only⟩ := core.owned.of_mem mine
  obtain ⟨queues, ran, after, woke⟩ := core.wait.wakeupOne .mtx
  have current : queues.current = s.current := woke.current
  have empty : s.owners.erase s.current = [] := by
    rw [only, erase_cons_head]
  refine ⟨_, MtxSys.mutexExit_eq one ran, ?_, current, empty, rfl, ?_⟩
  · refine ⟨after, ?_, ?_, ?_, ?_, core.returns⟩
    · dsimp only [MtxSys.current]
      rw [current, woke.waiting]
      exact core.idle
    · intro t other
      dsimp only
      rw [woke.waiting]
      exact core.waits t fun is => other (is.trans current.symm)
    · exact .inl ⟨rfl, rfl, rfl, empty⟩
    · intro t b other holds
      have here : t ≠ s.current := fun is => other (is.trans current.symm)
      have was := core.holding t b here holds
      rw [only, mem_singleton] at was
      dsimp only
      rw [empty]
      exact (iff_of_false not_mem_nil here).trans was
  · intro runs
    dsimp only [MtxSys.Runs, MtxSys.current] at runs ⊢
    rw [woke.pc, current]
    exact runs

theorem enterNowrap (other : s.current ∉ s.owners) (free : s.mtx.v = 0) :
    ∃ next, s.mutexEnterNowrap curlwp = .ok next ∧ MtxCore next ∧ next.current = s.current ∧
      next.owners = [s.current] ∧ next.phase = s.phase := by
  rcases core.tryenter curlwp other with ⟨busy, -⟩ | ⟨-, next, tried, after, rest⟩
  · exact absurd free busy
  · refine ⟨next, ?_, after, rest.1, rest.2.1, rest.2.2.1⟩
    rw [mutexEnterNowrap, tried, ok_bind]
    rfl

theorem enterNowrap_halts (other : s.current ∉ s.owners) (owned : s.mtx.v ≠ 0) :
    s.mutexEnterNowrap curlwp = .error (.halt "rumpuser mutex error") := by
  rcases core.tryenter curlwp other with ⟨-, tried⟩ | ⟨free, -⟩
  · rw [mutexEnterNowrap, tried, ok_bind]
    rfl
  · exact absurd free owned

theorem inv (idle : (s.phase s.current).head = none)
    (holds : ∀ b, (s.phase s.current).holds = some b → (s.current ∈ s.owners ↔ b = true)) :
    MtxInv s := by
  have settled := core.setPhase _ idle holds
  have same : s.setPhase (s.phase s.current) = s := by
    rw [MtxSys.setPhase, update_eq_self]
  rw [same] at settled
  exact settled

theorem inv_outside (outside : s.phase s.current = .outside) : MtxInv s := by
  apply core.inv
  · rw [outside]
    rfl
  · intro b is
    rw [outside] at is
    cases is

theorem mutexRetry (runs : s.Runs) (other : s.current ∉ s.owners) :
    ∃ next, s.mutexRetry curlwp = .ok next ∧ MtxInv next := by
  rw [MtxSys.mutexRetry]
  rcases core.tryenter curlwp other with ⟨-, tried⟩ | ⟨-, next, tried, after, current, owners, -⟩
  · rw [tried, ok_bind]
    exact core.sleepOn runs inftime 0 rfl rfl other
  · rw [tried, ok_bind]
    refine ⟨_, rfl, after.setPhase .enterSched rfl ?_⟩
    intro b is
    cases is
    refine iff_of_true ?_ rfl
    rw [owners, current]
    exact mem_singleton_self _

theorem cvSleep (runs : s.Runs) (mine : s.current ∈ s.owners) (call : CvCall) (monotonic : Int) :
    ∃ next, s.cvSleep call monotonic = .ok next ∧ MtxInv next := by
  obtain ⟨gone, exited, after, current, owners, -, stillRuns⟩ := core.mutexExit mine
  rw [MtxSys.cvSleep, exited, ok_bind]
  apply after.sleepOn (stillRuns runs) call.wakeup monotonic rfl rfl
  rw [owners]
  exact not_mem_nil

theorem cvReturn (mine : s.owners = [s.current]) (call : CvCall) (result : Nat) :
    MtxInv (s.cvReturn call result) := by
  have settled := core.setPhase .outside rfl nofun
  refine ⟨settled.wait, settled.waits, settled.owned, settled.holding, ?_⟩
  intro entry mem
  rcases mem_cons.mp mem with is | old
  · rw [is]
    exact mine
  · exact core.returns entry old

end MtxCore

/-! ## The steps -/

/-- The place is the last one before a `rumpuser_mutex_enter_nowrap`. -/
def MtxSys.Reenters (s : MtxSys) : MtxPhase → Prop
  | .cvWaiting call => call = .waitNowrap ∨ ¬ (s.mtx.kmutex = true ∧ s.mtx.spin = true)
  | .cvSched _ _ => True
  | _ => False

/-- The event gets to a `rumpuser_mutex_enter_nowrap`. -/
def MtxSys.Reacquires (s : MtxSys) : MtxEvent → Prop
  | .enterNowrap => True
  | .resume _ => s.Reenters (s.phase s.current)
  | _ => False

/-- Nobody owns the mutex when the event gets there. -/
def MtxSys.FindsFree (s : MtxSys) (event : MtxEvent) : Prop := s.Reacquires event → s.mtx.v = 0

theorem cvResched_wrapped (curlwp : Tid → Nat) {call : CvCall} (result : Nat)
    (wrapped : call ≠ .waitNowrap) :
    s.cvResched curlwp call result =
      if s.mtx.kmutex = true ∧ s.mtx.spin = true then .ok (s.setPhase (.cvSched call result))
      else s.mutexEnterNowrap curlwp >>= fun s => .ok (s.setPhase (.cvRelocked call result)) := by
  cases call with
  | wait | timedwait => rfl
  | waitNowrap => exact absurd rfl wrapped

theorem MtxCore.cvResched (curlwp : Tid → Nat) (core : MtxCore s) (other : s.current ∉ s.owners)
    (call : CvCall) (result : Nat)
    (free : call = .waitNowrap ∨ ¬ (s.mtx.kmutex = true ∧ s.mtx.spin = true) → s.mtx.v = 0) :
    ∃ next, s.cvResched curlwp call result = .ok next ∧ MtxInv next := by
  by_cases nowrap : call = .waitNowrap
  · subst nowrap
    obtain ⟨next, entered, after, current, owners, -⟩ := core.enterNowrap curlwp other (free (.inl rfl))
    rw [MtxSys.cvResched, entered, ok_bind]
    refine ⟨_, rfl, after.cvReturn ?_ _ _⟩
    rw [owners, current]
  · rw [cvResched_wrapped curlwp result nowrap]
    by_cases spins : s.mtx.kmutex = true ∧ s.mtx.spin = true
    · rw [if_pos spins]
      refine ⟨_, rfl, core.setPhase _ rfl ?_⟩
      intro b is
      cases is
      exact iff_of_false other nofun
    · rw [if_neg spins]
      obtain ⟨next, entered, after, current, owners, -⟩ :=
        core.enterNowrap curlwp other (free (.inr spins))
      rw [entered, ok_bind]
      refine ⟨_, rfl, after.setPhase _ rfl ?_⟩
      intro b is
      cases is
      refine iff_of_true ?_ rfl
      rw [owners, current]
      exact mem_singleton_self _

theorem MtxCore.cvResched_halts (curlwp : Tid → Nat) (core : MtxCore s)
    (other : s.current ∉ s.owners) (call : CvCall) (result : Nat)
    (enters : call = .waitNowrap ∨ ¬ (s.mtx.kmutex = true ∧ s.mtx.spin = true)) (owned : s.mtx.v ≠ 0) :
    s.cvResched curlwp call result = .error (.halt "rumpuser mutex error") := by
  by_cases nowrap : call = .waitNowrap
  · subst nowrap
    rw [MtxSys.cvResched, core.enterNowrap_halts curlwp other owned]
    rfl
  · rw [cvResched_wrapped curlwp result nowrap, if_neg (enters.resolve_left nowrap),
      core.enterNowrap_halts curlwp other owned]
    rfl

namespace MtxInv
variable {s : MtxSys} (curlwp : Tid → Nat)

section
variable (inv : MtxInv s)
include inv

theorem current_other (away : (s.phase s.current).holds = some false) : s.current ∉ s.owners := by
  intro mem
  exact absurd ((inv.holding _ _ away).mp mem) Bool.false_ne_true

theorem current_owns (there : (s.phase s.current).holds = some true) : s.owners = [s.current] :=
  (inv.owned.of_mem ((inv.holding _ _ there).mpr rfl)).2.2

theorem waitReturn {wh : MtxHead} (waits : s.queues.waiting s.current = some wh) :
    ∃ queues result, s.queues.waitReturn = .ok (queues, result) ∧
      MtxCore { s with queues := queues } ∧ queues.current = s.current ∧
      queues.sys = s.queues.sys := by
  obtain ⟨head, result, returned, -, -, back⟩ := inv.wait.waitReturn waits
  refine ⟨_, result, returned, ?_, rfl, rfl⟩
  refine ⟨back, update_self .., ?_, inv.owned, fun t b _ => inv.holding t b, inv.returns⟩
  intro t other
  exact (update_of_ne other ..).trans (inv.waits t)

theorem woken {queues : WaitSys MtxHead} (after : WaitInv queues)
    (woke : WaitInv.Woke s.queues queues) : MtxInv { s with queues := queues } := by
  refine ⟨after, ?_, inv.owned, inv.holding, inv.returns⟩
  intro t
  dsimp only
  rw [woke.waiting]
  exact inv.waits t

theorem resume (runs : s.Runs) (monotonic : Int) (going : s.phase s.current ≠ .outside)
    (free : s.FindsFree (.resume monotonic)) :
    ∃ next, s.resume curlwp monotonic = .ok next ∧ MtxInv next := by
  rw [MtxSys.FindsFree, MtxSys.Reacquires] at free
  rw [MtxSys.resume]
  cases phase : s.phase s.current with
  | outside => exact absurd phase going
  | enterUnsched =>
    exact (inv.core (by rw [phase]; rfl)).mutexRetry curlwp runs
      (inv.current_other (by rw [phase]; rfl))
  | enterWaiting =>
    have waits : s.queues.waiting s.current = some .mtx := by
      rw [inv.waits, phase]
      rfl
    obtain ⟨queues, result, returned, core, current, sys⟩ := inv.waitReturn waits
    dsimp only
    rw [returned, ok_bind]
    apply core.mutexRetry curlwp
    · rw [MtxSys.Runs, MtxSys.current, current, sys]
      exact runs
    · rw [MtxSys.current, current]
      exact inv.current_other (by rw [phase]; rfl)
  | enterSched =>
    refine ⟨_, rfl, (inv.core (by rw [phase]; rfl)).setPhase .outside rfl nofun⟩
  | cvUnsched call =>
    have mine := inv.current_owns (by rw [phase]; rfl)
    refine (inv.core (by rw [phase]; rfl)).cvSleep runs ?_ call monotonic
    rw [mine]
    exact mem_singleton_self _
  | cvWaiting call =>
    have waits : s.queues.waiting s.current = some .cv := by
      rw [inv.waits, phase]
      rfl
    obtain ⟨queues, result, returned, core, current, sys⟩ := inv.waitReturn waits
    dsimp only
    rw [returned, ok_bind]
    rw [phase] at free
    refine core.cvResched curlwp ?_ call result free
    rw [MtxSys.current, current]
    exact inv.current_other (by rw [phase]; rfl)
  | cvSched call result =>
    rw [phase] at free
    obtain ⟨next, entered, after, current, owners, -⟩ :=
      (inv.core (by rw [phase]; rfl)).enterNowrap curlwp
        (inv.current_other (by rw [phase]; rfl)) (free trivial)
    dsimp only
    rw [entered, ok_bind]
    refine ⟨_, rfl, after.cvReturn ?_ call result⟩
    rw [owners, current]
  | cvRelocked call result =>
    exact ⟨_, rfl, (inv.core (by rw [phase]; rfl)).cvReturn
      (inv.current_owns (by rw [phase]; rfl)) call result⟩

theorem step {event : MtxEvent} (allowed : s.Admits event) (free : s.FindsFree event) :
    ∃ next, s.step curlwp event = .ok next ∧ MtxInv next := by
  have core : s.phase s.current = .outside → MtxCore s := by
    intro outside
    exact inv.core (by rw [outside]; rfl)
  cases event with
  | enter =>
    obtain ⟨-, outside, other⟩ := allowed
    rw [MtxSys.step, MtxSys.mutexEnter]
    rcases (core outside).tryenter curlwp other with
      ⟨-, tried⟩ | ⟨-, next, tried, after, current, -, phase, -⟩
    · rw [tried, ok_bind]
      refine ⟨_, rfl, (core outside).setPhase .enterUnsched rfl ?_⟩
      intro b is
      cases is
      exact iff_of_false other Bool.false_ne_true
    · rw [tried, ok_bind]
      refine ⟨_, rfl, after.inv_outside ?_⟩
      rw [phase, current, outside]
  | enterNowrap =>
    obtain ⟨-, outside, other⟩ := allowed
    obtain ⟨next, entered, after, current, -, phase⟩ :=
      (core outside).enterNowrap curlwp other (free trivial)
    refine ⟨next, entered, after.inv_outside ?_⟩
    rw [phase, current, outside]
  | tryenter =>
    obtain ⟨-, outside, other⟩ := allowed
    rw [MtxSys.step]
    rcases (core outside).tryenter curlwp other with
      ⟨-, tried⟩ | ⟨-, next, tried, after, current, -, phase, -⟩
    · rw [tried]
      exact ⟨s, rfl, inv⟩
    · rw [tried]
      refine ⟨next, rfl, after.inv_outside ?_⟩
      rw [phase, current, outside]
  | exit =>
    obtain ⟨-, outside, mine⟩ := allowed
    obtain ⟨next, exited, after, current, -, phase, -⟩ := (core outside).mutexExit mine
    refine ⟨next, exited, after.inv_outside ?_⟩
    rw [phase, current, outside]
  | cvWait call =>
    obtain ⟨runs, outside, mine, few⟩ := allowed
    have counted : MtxCore { s with nwaiters := s.nwaiters + 1 } :=
      ⟨(core outside).wait, (core outside).idle, (core outside).waits, inv.owned,
        (core outside).holding, inv.returns⟩
    have unsched : ∀ call, MtxInv
        (MtxSys.setPhase { s with nwaiters := s.nwaiters + 1 } (.cvUnsched call)) := by
      intro call
      apply counted.setPhase _ rfl
      intro b is
      cases is
      exact iff_of_true mine rfl
    rw [MtxSys.step, MtxSys.cvWait, increment_eq few, ok_bind]
    cases call with
    | waitNowrap => exact counted.cvSleep runs mine .waitNowrap 0
    | wait => exact ⟨_, rfl, unsched .wait⟩
    | timedwait sec nsec => exact ⟨_, rfl, unsched (.timedwait sec nsec)⟩
  | cvSignal =>
    obtain ⟨queues, ran, after, woke⟩ := inv.wait.wakeupOne .cv
    refine ⟨_, ?_, inv.woken after woke⟩
    rw [MtxSys.step, ran]
    rfl
  | cvBroadcast =>
    obtain ⟨queues, ran, after, woke⟩ := inv.wait.wakeupAll .cv
    refine ⟨_, ?_, inv.woken after woke⟩
    rw [MtxSys.step, ran]
    rfl
  | resume monotonic => exact inv.resume curlwp allowed.1 monotonic allowed.2 free
  | sched event =>
    obtain ⟨sys, -, ran, after⟩ := inv.wait.sched allowed.1 allowed.2
    refine ⟨{ s with queues := { s.queues with sys := sys } }, ?_, after, inv.waits, inv.owned,
      inv.holding, inv.returns⟩
    rw [MtxSys.step, ran]
    rfl

theorem step_halts {event : MtxEvent} (allowed : s.Admits event) (against : ¬ s.FindsFree event) :
    s.step curlwp event = .error (.halt "rumpuser mutex error") := by
  have reacquires : s.Reacquires event ∧ s.mtx.v ≠ 0 := by
    rw [MtxSys.FindsFree] at against
    exact Classical.not_imp.mp against
  obtain ⟨reacquires, owned⟩ := reacquires
  cases event with
  | enterNowrap =>
    obtain ⟨-, outside, other⟩ := allowed
    exact (inv.core (by rw [outside]; rfl)).enterNowrap_halts curlwp other owned
  | resume monotonic =>
    rw [MtxSys.Reacquires] at reacquires
    rw [MtxSys.step, MtxSys.resume]
    cases phase : s.phase s.current with
    | cvWaiting call =>
      have waits : s.queues.waiting s.current = some .cv := by
        rw [inv.waits, phase]
        rfl
      obtain ⟨queues, result, returned, core, current, sys⟩ := inv.waitReturn waits
      dsimp only
      rw [returned, ok_bind]
      rw [phase] at reacquires
      refine core.cvResched_halts curlwp ?_ call result reacquires owned
      rw [MtxSys.current, current]
      exact inv.current_other (by rw [phase]; rfl)
    | cvSched call result =>
      dsimp only
      rw [(inv.core (by rw [phase]; rfl)).enterNowrap_halts curlwp
        (inv.current_other (by rw [phase]; rfl)) owned]
      rfl
    | outside | enterUnsched | enterWaiting | enterSched | cvUnsched
    | cvRelocked => rw [phase] at reacquires; exact reacquires.elim
  | enter | tryenter | exit | cvWait | cvSignal | cvBroadcast | sched => exact reacquires.elim

end

theorem init (kmutex spin : Bool) (main stack tlsarea : Nat) :
    MtxInv (init kmutex spin (mainOnly main stack tlsarea)) where
  wait := WaitInv.init (mainOnly_inv main stack tlsarea)
  waits := fun _ => rfl
  owned := .inl ⟨rfl, rfl, rfl, rfl⟩
  holding := fun _ _ => nofun
  returns := fun _ mem => absurd mem not_mem_nil

end MtxInv

/-! ## The runs -/

/-- The callers keep lock discipline, and the mutex is free where it has to be. -/
def MtxSys.AdmitsFree (s : MtxSys) (event : MtxEvent) : Prop := s.Admits event ∧ s.FindsFree event

/-- Every return from a wait was by the only owner of the mutex, which the mutex names. -/
structure CvReacquired (s : MtxSys) : Prop where
  returns : ∀ entry ∈ s.returns, entry.owners = [entry.thread]
  owned : MtxOwned s.mtx s.owners

/-- A run in which nobody owns the mutex whenever a thread gets to a
`rumpuser_mutex_enter_nowrap` goes on without a halt or a failed assertion, and every wait
returns with the mutex; where somebody does own it, the thread halts. -/
theorem cv_wait_reacquires (curlwp : Tid → Nat) (kmutex spin : Bool)
    (main stack stackSize tlsarea : Nat) (stacked : stack ≠ 0) :
    ∃ boot, System.start main stack stackSize tlsarea = .ok boot ∧
      (∀ events, Admissible MtxSys.AdmitsFree (MtxSys.step curlwp) events
          (MtxSys.init kmutex spin boot) →
        ∃ final, run (MtxSys.step curlwp) events (MtxSys.init kmutex spin boot) = .ok final ∧
          CvReacquired final) ∧
      ∀ events s, Admissible MtxSys.Admits (MtxSys.step curlwp) events (MtxSys.init kmutex spin boot) →
        run (MtxSys.step curlwp) events (MtxSys.init kmutex spin boot) = .ok s →
        ∀ event, s.Admits event → ¬ s.FindsFree event →
          s.step curlwp event = .error (.halt "rumpuser mutex error") := by
  have start := MtxInv.init kmutex spin main stack tlsarea
  refine ⟨_, start_eq main stackSize tlsarea stacked, ?_, ?_⟩
  · intro events allowed
    have preserved : ∀ (s : MtxSys) (event : MtxEvent), MtxInv s → s.AdmitsFree event →
        ∃ next, s.step curlwp event = .ok next ∧ MtxInv next := by
      intro s event inv admitted
      exact inv.step curlwp admitted.1 admitted.2
    obtain ⟨final, ran, inv⟩ := run_invariant preserved events _ start allowed
    exact ⟨final, ran, inv.returns, inv.owned⟩
  · intro events s allowed ran event admitted against
    have preserved : ∀ (s : MtxSys) (event : MtxEvent) (next : MtxSys), MtxInv s →
        s.Admits event → s.step curlwp event = .ok next → MtxInv next := by
      intro s event next inv admitted stepped
      by_cases free : s.FindsFree event
      · have after := of_ok (inv.step curlwp admitted free) stepped
        exact after
      · rw [inv.step_halts curlwp admitted free] at stepped
        cases stepped
    exact (run_reaches preserved events _ s start allowed ran).step_halts curlwp admitted against

instance MtxSys.decidableReenters (s : MtxSys) : ∀ phase, Decidable (s.Reenters phase) := by
  intro event
  unfold Reenters
  split <;> infer_instance

instance MtxSys.decidableReacquires (s : MtxSys) : ∀ event, Decidable (s.Reacquires event) := by
  intro event
  induction event using MtxEvent.casesOn <;> dsimp only [Reacquires] <;> infer_instance

instance MtxSys.decidableAdmitsFree (s : MtxSys) (event : MtxEvent) : Decidable (s.AdmitsFree event) :=
  inferInstanceAs (Decidable (_ ∧ (_ → _)))

/-- The other thread gives the mutex up before it yields. -/
def freeResumeRun : List MtxEvent :=
  [.sched (.call (.create 2 false 0 0 0x9000 0x20)), .enter, .cvWait .wait, .resume 0,
    .sched (.call .block), .sched (.turn 100), .enter, .cvSignal, .exit, .sched (.call .yield),
    .sched (.turn 200), .sched .advance, .resume 200, .resume 200]

theorem cv_wait_reacquires_signalled :
    ∃ boot final, System.start 1 0x8000 0x1000 0x10 = .ok boot ∧
      run (MtxSys.step (· + 1)) freeResumeRun (MtxSys.init false false boot) = .ok final ∧
      CvReacquired final ∧
      final.returns = [{ thread := 1, call := .wait, result := 0, owners := [1] }] := by
  obtain ⟨boot, booted, runs, -⟩ :=
    cv_wait_reacquires (· + 1) false false 1 0x8000 0x1000 0x10 (by decide)
  have evaluated : ∀ sys ∈ (start 1 0x8000 0x1000 0x10).toOption,
      Admissible MtxSys.AdmitsFree (MtxSys.step (· + 1)) freeResumeRun
        (init false false sys) ∧
      ∃ final ∈ (run (MtxSys.step (· + 1)) freeResumeRun
          (init false false sys)).toOption,
        final.returns = [{ thread := 1, call := .wait, result := 0, owners := [1] }] := by
    decide +kernel
  obtain ⟨allowed, final, reached, returns⟩ := evaluated boot (by rw [booted]; rfl)
  obtain ⟨final', ran, reacquired⟩ := runs freeResumeRun allowed
  rw [eq_ok_of_mem reached] at ran
  cases ran
  exact ⟨boot, final, booted, eq_ok_of_mem reached, reacquired, returns⟩

end Rumprun.Rumpuser
