import Rumprun.Sel4.Intr
import Rumprun.Hw.DeferredInterrupts

/-! # No interrupt is lost, on seL4 either

The test of the two words and `bmk_sched_blockprepare` are one critical section.
The second pass of a turn leaves what comes in the first word to that test. -/

namespace Rumprun.Sel4
open Core StepRuns Scheduler.System Scheduler.ServiceInv Hw.IsrSys
namespace IsrSys
variable {s next : IsrSys} {isrThread : Scheduler.Tid}

/-- With a line of either word pending, the thread is on the run queue or runs if it is at the end
of its loop. -/
def Delivers (isrThread : Scheduler.Tid) (s : IsrSys) : Prop :=
  (s.intr.isrTodo ≠ 0 ∨ s.intr.isrTodoSoft ≠ 0) → s.place.stage.sleeps = true → s.sys.Ready isrThread

/-- A pending line stays pending, or is in the copy that the handlers are called for. -/
def Keeps (s next : IsrSys) : Prop :=
  ∀ type i, (s.intr.todo type).getLsbD i = true → (next.intr.todo type).getLsbD i = true ∨
    ∃ isrcopy, next.place = .enter type isrcopy ∧ isrcopy.getLsbD i = true

theorem bmkIsrRumpkernel_todo {table table' : Intr} {ih : Hand} {intr number : Int}
    {xmalloc : Bool} {type : IsrType}
    (registered : table.bmkIsrRumpkernel ih intr xmalloc type = .ok (table', number)) :
    ∀ type', table'.todo type' = table.todo type' := by
  intro type'
  rw [Intr.bmkIsrRumpkernel.eq_def] at registered
  cases type with
  | softwareEvent =>
    obtain ⟨⟨reserved, line⟩, allocated, registered⟩ := bind_eq_ok registered
    rw [Intr.allocNumber] at allocated
    split at allocated
    · cases allocated
    · cases allocated
      dsimp only at registered
      split at registered
      · cases registered
      · cases registered
        cases type' <;> rfl
  | hardwareInt =>
    dsimp only at registered
    split at registered
    · cases registered
    split at registered
    · cases registered
    · cases registered
      cases type' <;> rfl

/-! ## The invariant -/

def Inv (isrThread : Scheduler.Tid) (s : IsrSys) : Prop :=
  Scheduler.ServiceInv s.sys isrThread s.place.stage
    (s.intr.isrTodo ≠ 0 ∨ s.intr.isrTodoSoft ≠ 0)

namespace Inv
variable {isrThread : Scheduler.Tid} {s next : IsrSys}

theorem doisr (inv : Inv isrThread s) (allowed : s.Admits isrThread .doisr)
    (ran : s.doisr = .ok next) : Inv isrThread next := by
  rw [IsrSys.doisr] at ran
  cases at_ : s.place with
  | starting | copy | enter | asleep =>
    rw [at_] at ran
    cases ran
    exact inv.goto (allowed.resolve_left (by rw [at_]; nofun)) rfl _
  | scan type i isrcopy =>
    rw [at_] at ran
    have place := allowed.resolve_left (by rw [at_]; nofun)
    dsimp only at ran
    split at ran
    · cases ran
      exact inv.goto place rfl _
    · obtain ⟨-, -, ran⟩ := bind_eq_ok ran
      split at ran
      · cases ran
        exact inv.goto place rfl _
      · cases ran
        exact inv.goto place rfl _
  | handler type i isrcopy handlers =>
    rw [at_] at ran
    have place := allowed.resolve_left (by rw [at_]; nofun)
    cases handlers with
    | nil =>
      cases type with
      | hardwareInt | softwareEvent => cases ran; exact inv.goto place rfl _
    | cons ih handlers => cases type <;> cases ran <;> exact inv.goto place rfl _
  | leave type =>
    rw [at_] at ran
    have place := allowed.resolve_left (by rw [at_]; nofun)
    cases type with
    | hardwareInt | softwareEvent => cases ran; exact inv.goto place rfl _
  | bottom =>
    rw [at_] at ran
    have place := allowed.resolve_left (by rw [at_]; nofun)
    dsimp only at ran
    split at ran
    · cases ran
      exact inv.goto place rfl _
    · next none =>
        obtain ⟨sys, prepared, service⟩ := prepare inv place Scheduler.inftime none
        rw [prepared] at ran
        cases ran
        exact service
  | prepared =>
    rw [at_] at ran
    rw [Inv, at_] at inv
    obtain ⟨sys, blocked, service⟩ := block inv
    dsimp only at ran
    rw [blocked] at ran
    cases ran
    exact service

theorem step (inv : Inv isrThread s) {event : IsrEvent} (allowed : s.Admits isrThread event)
    (ran : s.step isrThread event = .ok next) : Inv isrThread next := by
  cases event with
  | sched event =>
    obtain ⟨sys, stepped, ran⟩ := bind_eq_ok ran
    cases ran
    exact sched inv allowed stepped
  | isr which softWhich =>
    obtain ⟨sys, woken, ran⟩ := bind_eq_ok ran
    rw [Scheduler.System.step, inv.inv.core.wake_eq (notDead inv)] at woken
    cases woken
    cases ran
    exact wake inv _
  | register ih intr xmalloc type =>
    obtain ⟨⟨table, number⟩, registered, ran⟩ := bind_eq_ok ran
    have same := IsrSys.bmkIsrRumpkernel_todo registered
    cases ran
    rw [Inv]
    dsimp only
    rw [show table.isrTodo = _ from same .hardwareInt,
      show table.isrTodoSoft = _ from same .softwareEvent]
    exact inv
  | doisr => exact inv.doisr allowed ran

theorem init {sys : Scheduler.System} (inv : Scheduler.SysInv sys)
    (virgin : sys.pc isrThread = .virgin) : Inv isrThread (IsrSys.init sys) := by
  refine ⟨inv, ?_, nofun, nofun, nofun, nofun⟩
  rw [IsrSys.init, virgin]
  rfl

end Inv

/-! ## Pending lines -/

theorem Keeps.of_eq (same : next.intr = s.intr) : s.Keeps next := by
  intro type i pending
  left
  rw [same]
  exact pending

theorem Keeps.take (s : IsrSys) (type : IsrType) : s.Keeps (s.take type) := by
  intro type' i pending
  by_cases here : type' = type
  · subst here
    exact .inr ⟨s.intr.todo type', rfl, pending⟩
  · left
    cases type <;> cases type' <;> first | exact absurd rfl here | exact pending

theorem doisr_keeps (ran : s.doisr = .ok next) : s.Keeps next := by
  rw [IsrSys.doisr] at ran
  cases at_ : s.place with
  | copy type => rw [at_] at ran; cases ran; exact Keeps.take s type
  | bottom =>
    rw [at_] at ran
    dsimp only at ran
    split at ran
    · cases ran
      exact Keeps.take s .hardwareInt
    · obtain ⟨sys, -, ran⟩ := bind_eq_ok ran
      cases ran
      exact Keeps.of_eq rfl
  | scan type i isrcopy =>
    rw [at_] at ran
    dsimp only at ran
    split at ran
    · cases ran
      exact Keeps.of_eq rfl
    · obtain ⟨-, -, ran⟩ := bind_eq_ok ran
      split at ran
      · cases ran
        exact Keeps.of_eq rfl
      · cases ran
        exact Keeps.of_eq rfl
  | handler type i isrcopy handlers =>
    rw [at_] at ran
    cases handlers with
    | nil | cons => cases type <;> cases ran <;> exact Keeps.of_eq rfl
  | leave type =>
    rw [at_] at ran
    cases type <;> cases ran <;> exact Keeps.of_eq rfl
  | prepared =>
    rw [at_] at ran
    obtain ⟨sys, -, ran⟩ := bind_eq_ok ran
    cases ran
    exact Keeps.of_eq rfl
  | _ => rw [at_] at ran; cases ran; exact Keeps.of_eq rfl

theorem isr_keeps {which softWhich : BitVec 32} (ran : s.isr isrThread which softWhich = .ok next) :
    s.Keeps next := by
  obtain ⟨sys, -, ran⟩ := bind_eq_ok ran
  cases ran
  intro type i pending
  left
  cases type with
  | hardwareInt =>
    rw [show s.intr.todo .hardwareInt = s.intr.isrTodo from rfl] at pending
    simp [Intr.todo, pending]
  | softwareEvent =>
    rw [show s.intr.todo .softwareEvent = s.intr.isrTodoSoft from rfl] at pending
    simp [Intr.todo, pending]

theorem step_keeps {event : IsrEvent} (ran : s.step isrThread event = .ok next) : s.Keeps next := by
  cases event with
  | sched event =>
    obtain ⟨sys, -, ran⟩ := bind_eq_ok ran
    cases ran
    exact Keeps.of_eq rfl
  | isr which softWhich => exact isr_keeps ran
  | register ih intr xmalloc type =>
    obtain ⟨⟨table, number⟩, registered, ran⟩ := bind_eq_ok ran
    cases ran
    intro type' i pending
    left
    dsimp only
    rw [bmkIsrRumpkernel_todo registered]
    exact pending
  | doisr => exact doisr_keeps ran

theorem delivers_run {sys : Scheduler.System} (inv : Scheduler.SysInv sys)
    (virgin : sys.pc isrThread = .virgin) (events : List IsrEvent) {final : IsrSys}
    (allowed : Admissible (Admits isrThread) (step isrThread) events (init sys))
    (ran : run (step isrThread) events (init sys) = .ok final) :
    final.Delivers isrThread ∧
      ∀ event next, final.step isrThread event = .ok next → final.Keeps next := by
  have reached : Inv isrThread final := run_reaches
    (fun _ _ _ holds admitted stepped => holds.step admitted stepped)
    events _ final (Inv.init inv virgin) allowed ran
  refine ⟨?_, fun event next stepped => step_keeps stepped⟩
  intro work sleeps
  exact ready reached sleeps work

end IsrSys

/-- No interrupt is lost, on hardware and on seL4. Interrupts may come between any two steps.
With a line pending, the thread that delivers interrupts is not left in its last
`bmk_sched_block`; a pending line is cleared only by being copied for the handlers; and on
hardware the acknowledged lines are those copied since the thread last slept. -/
theorem no_interrupt_lost (main stack stackSize tlsarea : Nat) (stacked : stack ≠ 0) :
    ∃ boot, Scheduler.System.start main stack stackSize tlsarea = .ok boot ∧
      ∀ setup sys isrThread, Admissible Scheduler.System.Admits Scheduler.System.step setup boot →
        run Scheduler.System.step setup boot = .ok sys → sys.pc isrThread = .virgin →
        (∀ screw events final,
          Admissible (Hw.IsrSys.Admits isrThread) (Hw.IsrSys.step screw isrThread) events
            (Hw.IsrSys.init sys) →
          run (Hw.IsrSys.step screw isrThread) events (Hw.IsrSys.init sys) = .ok final →
          final.Delivers isrThread ∧
            ∀ event next, final.step screw isrThread event = .ok next → final.Keeps next) ∧
        ∀ events final,
          Admissible (IsrSys.Admits isrThread) (IsrSys.step isrThread) events (IsrSys.init sys) →
          run (IsrSys.step isrThread) events (IsrSys.init sys) = .ok final →
          final.Delivers isrThread ∧
            ∀ event next, final.step isrThread event = .ok next → final.Keeps next := by
  refine ⟨_, start_eq main stackSize tlsarea stacked, ?_⟩
  intro setup sys isrThread allowed ran virgin
  have inv := of_ok ((mainOnly_inv main stack tlsarea).run setup allowed) ran
  constructor
  · intro screw events final admitted reached
    exact delivers_run screw inv virgin events admitted reached
  · intro events final admitted reached
    exact IsrSys.delivers_run inv virgin events admitted reached

/-- On hardware: a line comes while thread 2 is between its last two calls, after a turn without
work. -/
def lateInterruptRun : List Hw.IsrEvent :=
  [.sched (.call .yield), .sched (.turn 100)] ++ List.replicate 7 .doisr ++ [.isr 24, .doisr]

def softEventRun : List IsrEvent :=
  [.sched (.call .yield), .sched (.turn 100)] ++ List.replicate 6 .doisr ++
    .isr 0 1 :: List.replicate 3 .doisr

theorem no_interrupt_lost_late :
    ∃ boot sys hw sel4, Scheduler.System.start 1 0x8000 0x1000 0x10 = .ok boot ∧
      run Scheduler.System.step [.call (.create 2 false 0 0 0x9000 0x20)] boot = .ok sys ∧
      run (Hw.IsrSys.step false 2) lateInterruptRun (Hw.IsrSys.init sys) = .ok hw ∧
      (hw.place = .asleep ∧ hw.intr.isrTodo = 8 ∧ hw.sys.Ready 2) ∧
      run (IsrSys.step 2) softEventRun (IsrSys.init sys) = .ok sel4 ∧
      (sel4.intr.isrTodoSoft = 1 ∧ sel4.place = .bottom ∧
        ∀ event next, sel4.step 2 event = .ok next → sel4.Keeps next) := by
  obtain ⟨boot, booted, runs⟩ := no_interrupt_lost 1 0x8000 0x1000 0x10 (by decide)
  have evaluated : ∀ boot ∈ (start 1 0x8000 0x1000 0x10).toOption,
      Admissible Scheduler.System.Admits Scheduler.System.step
        [.call (.create 2 false 0 0 0x9000 0x20)] boot ∧
      ∃ sys ∈ (run Scheduler.System.step [.call (.create 2 false 0 0 0x9000 0x20)] boot).toOption,
        sys.pc 2 = .virgin ∧
        (Admissible (Hw.IsrSys.Admits 2) (step false 2) lateInterruptRun
          (init sys) ∧
        ∃ hw ∈ (run (step false 2) lateInterruptRun (init sys)).toOption,
          hw.place = .asleep ∧ hw.intr.isrTodo = 8) ∧
        Admissible (IsrSys.Admits 2) (IsrSys.step 2) softEventRun (IsrSys.init sys) ∧
        ∃ sel4 ∈ (run (IsrSys.step 2) softEventRun (IsrSys.init sys)).toOption,
          sel4.intr.isrTodoSoft = 1 ∧ sel4.place = .bottom := by
    decide +kernel
  obtain ⟨allowed, sys, created, virgin, ⟨hwAllowed, hw, hwReached, hwPlace, hwTodo⟩, selAllowed,
    sel4, selReached, selTodo, selPlace⟩ := evaluated boot (by rw [booted]; rfl)
  have created := eq_ok_of_mem created
  have hwRan := eq_ok_of_mem hwReached
  have selRan := eq_ok_of_mem selReached
  obtain ⟨onHw, onSel4⟩ := runs _ sys 2 allowed created virgin
  have ready := (onHw false lateInterruptRun hw hwAllowed hwRan).1.pending
    (by rw [hwTodo]; decide) (by rw [hwPlace]; rfl)
  exact ⟨boot, sys, hw, sel4, booted, created, hwRan, ⟨hwPlace, hwTodo, ready⟩, selRan, selTodo,
    selPlace, (onSel4 softEventRun sel4 selAllowed selRan).2⟩

end Rumprun.Sel4
