import Rumprun.Core.StepEffects

/-! # The run queue is first in, first out

Every step appends to the run queue, and a turn of `schedule()` that picks a thread
takes its head. So the threads that are dispatched while one is on the queue are
those that stood in front of it, each once. -/

namespace Rumprun.Core.Scheduler
open StepRuns

def System.dispatched (sys : System) : Event → Option Tid
  | .turn curtime =>
    match sys.sched.scheduleTurn curtime with
    | .ok (_, .run next) => some next
    | _ => none
  | _ => none

def dispatches : List Event → System → List Tid
  | [], _ => []
  | event :: rest, sys =>
    (sys.dispatched event).toList ++
      match sys.step event with
      | .ok next => dispatches rest next
      | .error _ => []

theorem SysInv.runq_step {sys next : System} {event : Event} (inv : SysInv sys)
    (allowed : sys.Admits event) (stepped : sys.step event = .ok next) :
    ∃ new, sys.sched.queue .runq ++ new = (sys.dispatched event).toList ++ next.sched.queue .runq := by
  by_cases turns : ∃ curtime, event = .turn curtime
  · obtain ⟨curtime, rfl⟩ := turns
    obtain ⟨s', w, passed, decided⟩ := inv.scheduleTurn_spec allowed curtime
    have turned : sys.turn curtime = .ok next := stepped
    refine ⟨sys.sched.expired curtime, ?_⟩
    rw [← passed.runq]
    rcases decided with ⟨-, decides, stays⟩ | ⟨n, rest, pc, runq, decides, -, switches⟩
    · rw [turned] at stays
      cases stays
      simp [System.dispatched, decides]
    · rw [turned] at switches
      cases switches
      simp [System.dispatched, decides, Sched.switched, runq]
  · have own : ∀ curtime, event ≠ .turn curtime := fun curtime is => turns ⟨curtime, is⟩
    obtain ⟨new, grown⟩ := (inv.effect allowed stepped own).grows
    refine ⟨new, ?_⟩
    rw [← grown]
    cases event with
    | turn curtime => exact absurd rfl (own curtime)
    | _ => rfl

theorem SysInv.dispatches_prefix {t : Tid} : ∀ {events : List Event} {sys : System}
    {front back : List Tid}, SysInv sys → Admissible System.Admits System.step events sys →
      sys.sched.queue .runq = front ++ t :: back → t ∉ front →
      (dispatches events sys).takeWhile (· ≠ t) <+: front := by
  intro events
  induction events with
  | nil => intro sys front back _ _ _ _; exact List.nil_prefix
  | cons event rest ih =>
    intro sys front back inv allowed runq behind
    obtain ⟨next, stepped, moves⟩ := inv.steps event allowed.1
    have after := inv.moves moves
    have later := allowed.2 next stepped
    obtain ⟨new, queued⟩ := inv.runq_step allowed.1 stepped
    rw [dispatches, stepped]
    cases picked : sys.dispatched event with
    | none =>
      rw [picked, runq] at queued
      have stands : next.sched.queue .runq = front ++ t :: (back ++ new) := by simpa using queued.symm
      exact ih after later stands behind
    | some n =>
      rw [picked, runq] at queued
      cases front with
      | nil =>
        obtain ⟨rfl, -⟩ := List.cons.inj queued
        simp
      | cons first front =>
        obtain ⟨rfl, queued⟩ := List.cons.inj queued
        have other : first ≠ t := fun is => behind (is ▸ List.mem_cons_self)
        have stands : next.sched.queue .runq = front ++ t :: (back ++ new) := by simpa using queued.symm
        have rest := ih after later stands fun mem => behind (List.mem_cons_of_mem _ mem)
        rw [Option.toList_some, List.singleton_append,
          List.takeWhile_cons_of_pos (by simpa using other), List.cons_prefix_cons]
        exact ⟨rfl, rest⟩

theorem SysInv.dispatches_once {sys : System} {events : List Event} (inv : SysInv sys)
    (allowed : Admissible System.Admits System.step events sys) {t : Tid}
    (queued : t ∈ sys.sched.queue .runq) (u : Tid) :
    ((dispatches events sys).takeWhile (· ≠ t)).count u ≤ 1 := by
  obtain ⟨front, back, runq, behind⟩ := List.eq_append_cons_of_mem queued
  have nodup := inv.core.queues.nodup .runq
  rw [runq] at nodup
  have once := (inv.dispatches_prefix allowed runq behind).sublist.nodup
    (List.nodup_append.mp nodup).1
  exact List.nodup_iff_count_le_one.mp once u

/-- From any state of any run in which a thread is on the run queue, and so from
the moment it is put there, no thread is dispatched twice until that one is. -/
theorem fifo_dispatch (main stack stackSize tlsarea : Nat) (stacked : stack ≠ 0) :
    ∃ boot, System.start main stack stackSize tlsarea = .ok boot ∧
      ∀ before sys events t, Admissible System.Admits System.step before boot →
        run System.step before boot = .ok sys → t ∈ sys.sched.queue .runq →
        Admissible System.Admits System.step events sys →
        ∀ u, ((dispatches events sys).takeWhile (· ≠ t)).count u ≤ 1 := by
  refine ⟨_, System.start_eq main stackSize tlsarea stacked, ?_⟩
  intro before sys events t reached ran queued allowed
  have inv := of_ok ((System.mainOnly_inv main stack tlsarea).run before reached) ran
  exact inv.dispatches_once allowed queued

def twoCreated : List Event :=
  [.call (.create 2 false 0 0 0x9000 0x20), .call (.create 3 false 0 0 0xa000 0x30)]

def twoYields : List Event := [.call .yield, .turn 5, .call .yield, .turn 6]

theorem fifo_dispatch_yield : ∃ boot sys, System.start 1 0x8000 0x1000 0x10 = .ok boot ∧
    run System.step twoCreated boot = .ok sys ∧ dispatches twoYields sys = [2, 3] ∧
    ∀ u, ((dispatches twoYields sys).takeWhile (· ≠ 3)).count u ≤ 1 := by
  obtain ⟨boot, booted, fifo⟩ := fifo_dispatch 1 0x8000 0x1000 0x10 (by decide)
  have facts : ∀ boot ∈ (System.start 1 0x8000 0x1000 0x10).toOption,
      Admissible System.Admits System.step twoCreated boot ∧
      ∃ sys ∈ (run System.step twoCreated boot).toOption,
        3 ∈ sys.sched.queue .runq ∧ dispatches twoYields sys = [2, 3] ∧
        Admissible System.Admits System.step twoYields sys := by
    decide +kernel
  obtain ⟨reached, sys, mem, queued, order, allowed⟩ := facts boot (by rw [booted]; rfl)
  have ran := eq_ok_of_mem mem
  exact ⟨boot, sys, booted, ran, order, fifo _ sys _ 3 reached ran queued allowed⟩

/-- What is on the run queue is dispatched in that order, before anything that comes to it later. -/
def InOrder (sys : System) : Prop :=
  ∀ events final, Admissible System.Admits System.step events sys →
    run System.step events sys = .ok final →
    sys.sched.queue .runq <+: dispatches events sys ++ final.sched.queue .runq

theorem SysInv.inOrder {sys : System} (inv : SysInv sys) : InOrder sys := by
  intro events
  induction events generalizing sys with
  | nil =>
    intro final _ ran
    cases ran
    exact List.prefix_rfl
  | cons event rest ih =>
    intro final allowed ran
    obtain ⟨next, stepped, moves⟩ := inv.steps event allowed.1
    obtain ⟨new, queued⟩ := inv.runq_step allowed.1 stepped
    rw [run_cons stepped] at ran
    have later := ih (inv.moves moves) final (allowed.2 next stepped) ran
    rw [dispatches, stepped, List.append_assoc]
    exact (List.prefix_append _ new).trans (queued ▸ (List.prefix_append_right_inj _).mpr later)

theorem dispatches_in_order (main stack stackSize tlsarea : Nat) (stacked : stack ≠ 0) :
    ∃ boot, System.start main stack stackSize tlsarea = .ok boot ∧
      ∀ events, Admissible System.Admits System.step events boot →
        Throughout InOrder System.step events boot := by
  refine ⟨_, System.start_eq main stackSize tlsarea stacked, fun events allowed => ?_⟩
  refine throughout_of_invariant SysInv (fun _ inv => inv.inOrder) (fun sys event inv ok => ?_) events _
    (System.mainOnly_inv main stack tlsarea) allowed
  obtain ⟨next, stepped, moves⟩ := inv.steps event ok
  exact ⟨next, stepped, inv.moves moves⟩

theorem dispatches_in_order_yields : ∃ boot sys, System.start 1 0x8000 0x1000 0x10 = .ok boot ∧
    run System.step twoCreated boot = .ok sys ∧ sys.sched.queue .runq = [2, 3] ∧
    dispatches twoYields sys = [2, 3] ∧
    Throughout InOrder System.step (twoCreated ++ twoYields) boot := by
  obtain ⟨boot, booted, ordered⟩ := dispatches_in_order 1 0x8000 0x1000 0x10 (by decide)
  have facts : ∀ boot ∈ (System.start 1 0x8000 0x1000 0x10).toOption,
      Admissible System.Admits System.step (twoCreated ++ twoYields) boot ∧
      ∃ sys ∈ (run System.step twoCreated boot).toOption,
        sys.sched.queue .runq = [2, 3] ∧ dispatches twoYields sys = [2, 3] := by
    decide +kernel
  obtain ⟨allowed, sys, mem, queued, order⟩ := facts boot (by rw [booted]; rfl)
  exact ⟨boot, sys, booted, eq_ok_of_mem mem, queued, order, ordered _ allowed⟩

end Rumprun.Core.Scheduler
