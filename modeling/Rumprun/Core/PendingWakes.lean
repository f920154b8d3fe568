import Rumprun.Core.JoinHandshake

/-! # A wake that is pending stays pending

Once a thread that waits in `bmk_sched_block` is on the run queue, it stays there
until `schedule()` switches to it, and it leaves `bmk_sched_block` only then. -/

namespace Rumprun.Core.Scheduler
open Sched
open Function (update update_self update_of_ne)
variable {promises : Promises} {sys next : System} {t : Tid} {site : Site} {event : Event}

/-- The thread has been woken out of its `bmk_sched_block`, or is about to return from there. -/
def Summoned (sys : System) (t : Tid) (site : Site) : Prop :=
  sys.pc t = .blocking site ∧ (sys.sched.thread t).flags.qmask = {.runq} ∨ sys.pc t = .resumed site

namespace Summoned
variable {sys : System} {t : Tid} {site : Site} {pc : Pc}
variable (was : Summoned sys t site)
include was

theorem frame {next : System} (pc : next.pc t = sys.pc t)
    (mask : (sys.sched.thread t).flags.qmask = {.runq} →
      (next.sched.thread t).flags.qmask = {.runq}) : Summoned next t site := by
  rcases was with ⟨sleeps, ready⟩ | returns
  · exact .inl ⟨pc.trans sleeps, mask ready⟩
  · exact .inr (pc.trans returns)

theorem apart (place : sys.pc sys.sched.current = pc)
    (awake : ∀ s, pc ≠ .blocking s ∧ pc ≠ .resumed s) : t ≠ sys.sched.current := by
  intro is
  rw [← is] at place
  rcases was with ⟨sleeps, -⟩ | returns
  · exact (awake site).1 (place.symm.trans sleeps)
  · exact (awake site).2 (place.symm.trans returns)

theorem goto (apart : t ≠ sys.sched.current) {sched : Sched}
    (mask : (sys.sched.thread t).flags.qmask = {.runq} →
      (sched.thread t).flags.qmask = {.runq}) : Summoned (sys.goto sched pc) t site :=
  was.frame (by rw [System.goto_pc, if_neg apart]) mask

theorem withLog (log : List LogEntry) : Summoned { sys with log := log } t site := was

theorem wake (u : Tid) : Summoned { sys with sched := sys.sched.woken u } t site :=
  was.frame rfl (woken_flags sys.sched u t).2.2.2

omit was in
theorem withFlags_mask {s : Sched} {u : Tid} {flags : Flags}
    (same : flags.qmask = (s.thread u).flags.qmask) (ready : (s.thread t).flags.qmask = {.runq}) :
    ((s.withFlags u flags).thread t).flags.qmask = {.runq} := by
  rw [withFlags_thread]
  split
  · next here => rw [same, ← here, ready]
  · exact ready

theorem dispatch {n : Tid} (resumes : System.resume (sys.pc n) = .ok pc) :
    Summoned { sys with sched := sys.sched.switched n, pc := update sys.pc n pc } t site := by
  by_cases here : t = n
  · subst here
    rcases was with ⟨sleeps, -⟩ | returns
    · rw [sleeps] at resumes
      cases resumes
      exact .inr (update_self ..)
    · rw [returns] at resumes
      cases resumes
  · apply was.frame (update_of_ne here ..)
    intro ready
    exact ((JoinInv.switched_flags sys.sched n t).2.2 here).trans ready

end Summoned

theorem Move.summoned (move : Move promises sys next) (core : CoreInv sys) (was : Summoned sys t site) :
    Summoned next t site ∨
      sys.pc sys.sched.current = .resumed site ∧ next.pc t = System.returnTo site := by
  have elsewhere : ∀ {activity : Activity}, sys.pc sys.sched.current = .active activity →
      t ≠ sys.sched.current := fun place => was.apart place fun _ => ⟨by simp, by simp⟩
  cases move with
  | create u extstack joinable ownTls stackbase tp heap fresh _ _ =>
    have other : t ≠ u := by
      intro is
      have gone := JoinInv.gone_of_not_live core fresh
      rw [← is] at gone
      rcases was with ⟨sleeps, -⟩ | returns
      · rw [gone] at sleeps; cases sleeps
      · rw [gone] at returns; cases returns
    refine .inl (was.frame (update_of_ne other ..) ?_)
    simp only [created, setQueue, store]
    rw [update_of_ne other]
    exact id
  | prepare site' q l deadline place _ =>
    have other : t ≠ sys.sched.current := by
      refine was.apart place fun _ => ?_
      cases site' with
      | caller | join | exit => simp [Pc.beforePrepare]
    refine .inl (was.goto other ?_)
    rw [store_thread, update_of_ne other, setQueue_thread]
    exact id
  | block site' place | yieldReturn place =>
    exact .inl (was.goto (was.apart place fun _ => ⟨by simp, by simp⟩) id)
  | wake u _ => exact .inl (was.wake u)
  | yield place =>
    refine .inl (was.goto (elsewhere place) ?_)
    rw [yielded, store_thread, update_of_ne (elsewhere place), setQueue_thread]
    exact id
  | join j place _ | exit heap place _ | joinUnseen j place _ | register j place | unlink j place
  | noSignal place _ => exact .inl (was.goto (elsewhere place) id)
  | joinSeen j place _ | exitWait place _ =>
    exact .inl (was.goto (elsewhere place) (Summoned.withFlags_mask rfl))
  | joinDone j place =>
    exact .inl ((was.goto (elsewhere place) (woken_flags sys.sched j t).2.2.2).withLog _)
  | die place _ =>
    refine .inl ((was.goto (elsewhere place) ?_).withLog _)
    exact Summoned.withFlags_mask rfl
  | signal u place _ =>
    exact Or.inl (was.goto (elsewhere place) (woken_flags sys.sched u t).2.2.2)
  | blockReturn site' place =>
    by_cases here : t = sys.sched.current
    · apply Or.inr
      have same : site' = site := by
        rw [← here] at place
        rcases was with ⟨sleeps, -⟩ | returns
        · rw [place] at sleeps; cases sleeps
        · rw [place] at returns; cases returns; rfl
      subst same
      refine ⟨place, ?_⟩
      dsimp only
      rw [System.goto_pc, if_pos here]
    · refine .inl ((was.goto here ?_).withLog _)
      exact Summoned.withFlags_mask rfl
  | timeout u _ _ =>
    refine .inl (was.frame rfl ?_)
    intro ready
    exact (woken_flags _ u t).2.2.2 (Summoned.withFlags_mask rfl ready)
  | dispatch n pc _ _ resumes => exact .inl (was.dispatch resumes)
  | memalloc | memfree => exact .inl was

theorem SysInv.summoned (inv : SysInv sys) (moves : Moves promises sys next)
    (was : Summoned sys t site) : Summoned next t site ∨ next.pc t = System.returnTo site := by
  rcases moves with move | path
  · exact (move.summoned inv.core was).imp id And.right
  · have both : SysInv next ∧ Summoned next t site := by
      induction path with
      | refl => exact ⟨inv, was⟩
      | tail _ move ih =>
        refine ⟨ih.1.move move.2, ?_⟩
        -- in the loop of `schedule()` no thread returns from `bmk_sched_block`
        rcases move.2.summoned ih.1.core ih.2 with still | ⟨returns, -⟩
        · exact still
        · have looping := move.1
          rw [returns] at looping
          exact absurd looping Bool.false_ne_true
    exact .inl both.2

/-! ## Places in a caller's block -/

/-- Where one move leads a thread: it stays, it was the running one, it was not there, or it is
switched to. -/
theorem Move.pc_cases (move : Move promises sys next) (core : CoreInv sys) (t : Tid) :
    next.pc t = sys.pc t ∨ t = sys.sched.current ∧ System.inSchedule (sys.pc t) = false ∨
      sys.pc t = .gone ∨ System.resume (sys.pc t) = .ok (next.pc t) := by
  have moved : ∀ (sched : Sched) (pc : Pc) {place : Pc}, sys.pc sys.sched.current = place →
      System.inSchedule place = false →
      (sys.goto sched pc).pc t = sys.pc t ∨
        t = sys.sched.current ∧ System.inSchedule (sys.pc t) = false ∨
        sys.pc t = .gone ∨ System.resume (sys.pc t) = .ok ((sys.goto sched pc).pc t) := by
    intro sched pc place is outside
    by_cases here : t = sys.sched.current
    · refine .inr (.inl ⟨here, ?_⟩)
      rw [here, is]
      exact outside
    · exact .inl (update_of_ne here ..)
  cases move with
  | create u extstack joinable ownTls stackbase tp heap fresh _ _ =>
    by_cases here : t = u
    · rw [here]
      exact .inr (.inr (.inl (JoinInv.gone_of_not_live core fresh)))
    · exact .inl (update_of_ne here ..)
  | prepare site q l deadline place _ =>
    apply moved _ _ place
    cases site with
    | caller | join | exit => rfl
  | block site place | yield place | joinSeen j place _ | joinUnseen j place _ | register j place
  | unlink j place | exitWait place _ | signal u place _
  | noSignal place _ => exact moved _ _ place rfl
  | wake | timeout | memalloc | memfree => exact .inl rfl
  | join j place _ | exit heap place _ | joinDone j place | die place _ | blockReturn site place
  | yieldReturn place => exact moved sys.sched _ place rfl
  | dispatch n pc _ _ resumes =>
    by_cases here : t = n
    · subst here
      refine .inr (.inr (.inr ?_))
      dsimp only
      rw [update_self]
      exact resumes
    · exact .inl (update_of_ne here ..)

namespace Pc

/-- The way from a caller's `blockprepare` through its `bmk_sched_block` back to the caller. -/
def inCallerBlock : Pc → Bool
  | .prepared .caller => true
  | .blocking .caller => true
  | .resumed .caller => true
  | .active .caller => true
  | _ => false

theorem inCallerBlock_resume {pc next : Pc} (inside : pc.inCallerBlock = true)
    (resumes : System.resume pc = .ok next) : next.inCallerBlock = true := by
  unfold inCallerBlock at inside
  split at inside
  · cases resumes
  · cases resumes
    rfl
  · cases resumes
  · cases resumes
  · exact absurd inside Bool.false_ne_true

theorem resumed_of_advancing {pc : Pc} (inside : pc.inCallerBlock = true)
    (goesOn : System.advancing pc = true) : pc = .resumed .caller := by
  unfold inCallerBlock at inside
  split at inside
  · cases goesOn
  · cases goesOn
  · rfl
  · cases goesOn
  · cases inside

end Pc

theorem SysInv.prepare_caller (inv : SysInv sys)
    (place : sys.pc sys.sched.current = .active .caller) (deadline : Int) :
    ∃ sched, sys.call (.blockprepareTimeout deadline) = .ok (sys.goto sched (.prepared .caller)) ∧
      (∀ promises, Moves promises sys (sys.goto sched (.prepared .caller))) ∧
      sched.current = sys.sched.current ∧ .runq ∉ (sched.thread sys.sched.current).flags.qmask := by
  obtain ⟨-, -, off, running, -, unprepared, -⟩ := inv.core.agrees_current place
  obtain ⟨q, l, blocked, prepares, queues⟩ := inv.core.queues.bmkSchedBlockprepareTimeout_spec
    inv.core.current_live off running unprepared deadline
  refine ⟨_, ?_, fun _ => .inl (.prepare .caller q l deadline place queues), rfl, ?_⟩
  · rw [System.call, prepares]
    rfl
  · rw [store_thread, update_self]
    intro on
    exact waitQueue_ne_runq deadline (blocked ▸ (Finset.mem_singleton.mp on).symm)

theorem System.call_block_eq (called : sys.call .block = .ok next) :
    next = sys.goto sys.sched (.blocking .caller) := by
  rw [System.call] at called
  obtain ⟨sched, ran, called⟩ := bind_eq_ok called
  cases called
  rw [bmkSchedBlock] at ran
  obtain ⟨thread, _, asserts⟩ := bind_eq_ok ran
  obtain ⟨_, _, asserts⟩ := bind_eq_ok asserts
  obtain ⟨_, _, returned⟩ := bind_eq_ok asserts
  cases returned
  rfl

theorem SysInv.advance_return (inv : SysInv sys) (place : sys.pc sys.sched.current = .resumed site)
    (stepped : sys.step .advance = .ok next) : next.pc sys.sched.current = System.returnTo site := by
  obtain ⟨-, -, -, -, -, alive⟩ := inv.core.agrees_current place
  have kept := (JoinInv.reaped_live inv.core sys.sched.current).2 ⟨inv.core.current_live, alive⟩
  rw [System.step, System.advance, place] at stepped
  dsimp only at stepped
  rw [inv.reap_eq, ok_bind, bmkSchedBlockReturn, deref_eq (by exact kept), ok_bind] at stepped
  cases stepped
  exact update_self ..

theorem SysInv.inCallerBlock_step (inv : SysInv sys) (allowed : sys.Admits event)
    (stepped : sys.step event = .ok next) (inside : (sys.pc t).inCallerBlock = true)
    (blocks : t = sys.sched.current → ∀ op, event = .call op → op = .block) :
    (next.pc t).inCallerBlock = true := by
  have moves := of_ok (inv.steps event allowed) stepped
  have notGone : ∀ {pc : Pc}, pc.inCallerBlock = true → pc ≠ .gone := by
    intro pc is gone
    rw [gone] at is
    exact absurd is Bool.false_ne_true
  rcases moves with move | path
  · rcases move.pc_cases inv.core t with same | ⟨here, outside⟩ | gone | resumes
    · rw [same]
      exact inside
    · subst here
      -- its own step: the call of `bmk_sched_block`, or the return from there
      cases event with
      | call op =>
        cases blocks rfl op rfl
        rw [System.call_block_eq stepped, System.goto_pc, if_pos rfl]
        rfl
      | advance =>
        rw [inv.advance_return (Pc.resumed_of_advancing inside allowed) stepped]
        rfl
      | turn curtime => exact absurd (outside.symm.trans allowed) (by decide)
      | interrupt u =>
        rw [System.step, inv.core.wake_eq allowed] at stepped
        cases stepped
        exact inside
      | memalloc | memfree => cases stepped; exact inside
    · exact absurd gone (notGone inside)
    · exact Pc.inCallerBlock_resume inside resumes
  · clear stepped
    have both : SysInv next ∧ (next.pc t).inCallerBlock = true := by
      induction path with
      | refl => exact ⟨inv, inside⟩
      | tail _ move ih =>
        refine ⟨ih.1.move move.2, ?_⟩
        rcases move.2.pc_cases ih.1.core t with same | ⟨here, outside⟩ | gone | resumes
        · rw [same]
          exact ih.2
        · subst here
          exact absurd (outside.symm.trans move.1) (by decide)
        · exact absurd gone (notGone ih.2)
        · exact Pc.inCallerBlock_resume ih.2 resumes
    exact both.2

/-! ## Threads that have been called

A thread that waits in a caller's `bmk_sched_block` and has been woken, until its caller does
something else. -/

def System.Ready (sys : System) (t : Tid) : Prop :=
  t ∈ sys.sched.queue .runq ∨ t = sys.sched.current ∧ System.inSchedule (sys.pc t) = false

def Called (sys : System) (t : Tid) : Prop := Summoned sys t .caller ∨ sys.pc t = .active .caller

theorem CoreInv.current_of_resumed (core : CoreInv sys) (place : sys.pc t = .resumed site) :
    t = sys.sched.current := by
  have agrees := core.agrees t
  rw [place] at agrees
  exact of_decide_eq_true agrees.1

theorem Called.ready (called : Called sys t) (core : CoreInv sys) : sys.Ready t := by
  rcases called with (⟨place, mask⟩ | place) | place
  · left
    rw [core.queues.mem_iff, mask]
    have agrees := core.agrees t
    rw [place] at agrees
    exact ⟨agrees.1, Finset.mem_singleton_self _⟩
  · exact .inr ⟨core.current_of_resumed place, by rw [place]; rfl⟩
  · exact .inr ⟨core.current_of_active place, by rw [place]; rfl⟩

theorem SysInv.called_moves (inv : SysInv sys) (moves : Moves promises sys next)
    (other : t ≠ sys.sched.current) (called : Called sys t) : Called next t := by
  rcases called with summoned | active
  · exact inv.summoned moves summoned
  · exact absurd (inv.core.current_of_active active) other

theorem SysInv.called_step (inv : SysInv sys) (allowed : sys.Admits event)
    (stepped : sys.step event = .ok next) (called : Called sys t)
    (blocks : t = sys.sched.current → ∀ op, event = .call op → op = .block) : Called next t := by
  rcases called with summoned | active
  · have moves := of_ok (inv.steps event allowed) stepped
    exact inv.summoned moves summoned
  · right
    have here := inv.core.current_of_active active
    -- back from its block, the thread has nothing to do in the scheduler
    cases event with
    | call op =>
      cases blocks here op rfl
      rw [System.Admits, System.AdmitsOp, ← here, active] at allowed
      cases allowed
    | advance | turn => rw [System.Admits, ← here, active] at allowed; cases allowed
    | interrupt u =>
      rw [System.step, inv.core.wake_eq allowed] at stepped
      cases stepped
      exact active
    | memalloc | memfree => cases stepped; exact active

theorem CoreInv.called_wake (core : CoreInv sys) (inside : (sys.pc t).inCallerBlock = true)
    (other : t ≠ sys.sched.current) : Called { sys with sched := sys.sched.woken t } t := by
  have agrees := core.agrees t
  unfold Pc.inCallerBlock at inside
  split at inside
  · next place => exact absurd (core.current_of_prepared place) other
  · next place =>
      rw [place] at agrees
      obtain ⟨-, ⟨q, mask⟩, -⟩ := agrees
      refine .inl (.inl ⟨place, ?_⟩)
      dsimp only
      rw [woken_thread, update_self]
      dsimp only
      rw [mask, wokenMask_singleton]
  · next place => exact absurd (core.current_of_resumed place) other
  · next place => exact absurd (core.current_of_active place) other
  · exact absurd inside Bool.false_ne_true

end Rumprun.Core.Scheduler
