import Rumprun.Hw.Intr

/-! # No interrupt is lost

`doisr` looks at `isr_todo` and calls `bmk_sched_blockprepare` in one critical
section, so every interrupt after that look finds a thread that its wake moves to
the run queue. `totwork` is what has been copied since the thread last slept. -/

namespace Rumprun.Hw
open Core Scheduler StepRuns

/-- What `doisr` has told `cpu_intr_ack` is what it has consumed. -/
def Ack.Exact : Ack → Prop
  | .serial => True
  | .work mask consumed => mask = consumed

namespace IsrSys
variable {s next : IsrSys} {screw : Bool} {isrThread : Tid}

/-- With a line pending, the thread is on the run queue or runs if it is at the end of its loop;
and the lines that were acknowledged are those that were consumed. -/
structure Delivers (isrThread : Tid) (s : IsrSys) : Prop where
  pending : s.intr.isrTodo ≠ 0 → s.place.stage.sleeps = true → s.sys.Ready isrThread
  acked : ∀ ack ∈ s.acks, ack.Exact

/-- A pending line stays pending, or is in the copy that the handlers are called for. -/
def Keeps (s next : IsrSys) : Prop :=
  ∀ i, s.intr.isrTodo.getLsbD i = true → next.intr.isrTodo.getLsbD i = true ∨
    ∃ isrcopy, next.place = .copied isrcopy ∧ isrcopy.getLsbD i = true

/-! ## The invariant -/

/-- What has been consumed, from the local variables. -/
def Accounted (s : IsrSys) : Prop :=
  match s.place with
  | .copied isrcopy => s.consumed = s.totwork ||| isrcopy
  | .asleep => s.consumed = 0
  | _ => s.consumed = s.totwork

structure Inv (isrThread : Tid) (s : IsrSys) : Prop where
  service : ServiceInv s.sys isrThread s.place.stage (s.intr.isrTodo ≠ 0)
  accounted : s.Accounted
  acked : ∀ ack ∈ s.acks, ack.Exact

namespace Inv
variable {isrThread : Tid} {screw : Bool} {s next : IsrSys}

section
variable (inv : Inv isrThread s)
include inv

theorem delivers : s.Delivers isrThread := ⟨fun work sleeps => inv.service.ready sleeps work, inv.acked⟩

theorem goto (place : s.sys.pc isrThread = .active .caller) {to_ : Place}
    (awake : to_.stage.sleeps = false) (accounted : (s.goto to_).Accounted) :
    Inv isrThread (s.goto to_) :=
  ⟨inv.service.goto place awake _, accounted, inv.acked⟩

theorem take (place : s.sys.pc isrThread = .active .caller) (accounted : s.consumed = s.totwork) :
    Inv isrThread s.take := by
  refine ⟨inv.service.goto place rfl _, ?_, inv.acked⟩
  show s.consumed ||| s.intr.isrTodo = s.totwork ||| s.intr.isrTodo
  rw [accounted]

theorem doisr (allowed : s.Admits isrThread .doisr) (ran : s.doisr screw = .ok next) :
    Inv isrThread next := by
  have accounted := inv.accounted
  rw [Accounted] at accounted
  rw [IsrSys.doisr] at ran
  cases at_ : s.place with
  | starting | enter | leave =>
    rw [at_] at ran accounted
    cases ran
    exact inv.goto (allowed.resolve_left (by rw [at_]; nofun)) rfl accounted
  | top =>
    rw [at_] at ran accounted
    cases ran
    exact inv.take (allowed.resolve_left (by rw [at_]; nofun)) accounted
  | copied | asleep =>
    rw [at_] at ran accounted
    cases ran
    have place := allowed.resolve_left (by rw [at_]; nofun)
    exact ⟨inv.service.goto place rfl _, accounted, inv.acked⟩
  | scan i isrcopy =>
    rw [at_] at ran accounted
    have place := allowed.resolve_left (by rw [at_]; nofun)
    dsimp only at ran
    split at ran
    · cases ran
      exact inv.goto place rfl accounted
    · obtain ⟨-, -, ran⟩ := bind_eq_ok ran
      split at ran
      · cases ran
        exact inv.goto place rfl accounted
      · cases ran
        exact inv.goto place rfl accounted
  | handler i isrcopy handlers =>
    rw [at_] at ran accounted
    have place := allowed.resolve_left (by rw [at_]; nofun)
    cases handlers with
    | nil | cons => cases ran; exact inv.goto place rfl accounted
  | bottom =>
    rw [at_] at ran accounted
    have place := allowed.resolve_left (by rw [at_]; nofun)
    dsimp only at ran
    split at ran
    · cases ran
      exact inv.take place accounted
    · next none =>
        obtain ⟨sys, prepared, service⟩ := inv.service.prepare place inftime none
        rw [prepared] at ran
        cases ran
        refine ⟨service, accounted, ?_⟩
        intro ack mem
        rcases List.mem_cons.mp mem with rfl | earlier
        · exact accounted.symm
        · exact inv.acked ack earlier
  | prepared =>
    rw [at_] at ran
    have service := inv.service
    rw [at_] at service
    obtain ⟨sys, blocked, service⟩ := service.block
    dsimp only at ran
    rw [blocked] at ran
    cases ran
    exact ⟨service, rfl, inv.acked⟩

theorem serial : Inv isrThread { s with acks := .serial :: s.acks } := by
  refine ⟨inv.service, inv.accounted, ?_⟩
  intro ack mem
  rcases List.mem_cons.mp mem with rfl | earlier
  · trivial
  · exact inv.acked ack earlier

theorem isr {which : BitVec 32} (ran : s.isr isrThread which = .ok next) : Inv isrThread next := by
  rw [IsrSys.isr] at ran
  -- the console's line is handled at once
  have after : Inv isrThread (if which &&& (1#32 <<< 4) ≠ 0 then
      { s with acks := .serial :: s.acks } else s) := by
    split
    · exact inv.serial
    · exact inv
  generalize (if which &&& (1#32 <<< 4) ≠ 0 then
    { s with acks := .serial :: s.acks } else s) = s' at ran after
  dsimp only at ran
  split at ran
  · next none =>
      cases ran
      exact ⟨after.service.imp fun work => absurd none work, after.accounted, after.acked⟩
  · obtain ⟨sys, woken, ran⟩ := bind_eq_ok ran
    rw [System.step, after.service.inv.core.wake_eq after.service.notDead] at woken
    cases woken
    cases ran
    exact ⟨after.service.wake _, after.accounted, after.acked⟩

omit inv in
theorem bmkIsrRumpkernel_isrTodo {table table' : Intr} {ih : Hand} {intr : Int}
    {flags : BitVec 32} {xmalloc : Bool} {error : Int}
    (registered : table.bmkIsrRumpkernel screw ih intr flags xmalloc error = .ok table') :
    table'.isrTodo = table.isrTodo := by
  have noted : ∀ line icheck, (table.note line icheck).isrTodo = table.isrTodo := by
    intro line icheck
    rw [Intr.note]
    split
    · rfl
    · rfl
  rw [Intr.bmkIsrRumpkernel] at registered
  generalize (if flags &&& bmkIntrRouted ≠ 0 then Routed.yes else .no) = icheck at registered
  split at registered
  · cases registered
  split at registered
  · cases registered
  split at registered
  · cases registered
  split at registered
  · cases registered
  split at registered
  · cases registered
  · cases registered
    exact noted _ _

theorem step {event : IsrEvent} (allowed : s.Admits isrThread event)
    (ran : s.step screw isrThread event = .ok next) : Inv isrThread next := by
  cases event with
  | sched event =>
    obtain ⟨sys, stepped, ran⟩ := bind_eq_ok ran
    cases ran
    exact ⟨inv.service.sched allowed stepped, inv.accounted, inv.acked⟩
  | isr which => exact inv.isr ran
  | register ih intr flags xmalloc error =>
    obtain ⟨table, registered, ran⟩ := bind_eq_ok ran
    have same := bmkIsrRumpkernel_isrTodo registered
    cases ran
    refine ⟨?_, inv.accounted, inv.acked⟩
    dsimp only
    rw [same]
    exact inv.service
  | doisr => exact inv.doisr allowed ran

end

theorem init {sys : System} (inv : SysInv sys) (virgin : sys.pc isrThread = .virgin) :
    Inv isrThread (IsrSys.init sys) := by
  refine ⟨⟨inv, ?_, nofun, nofun, nofun, nofun⟩, rfl, nofun⟩
  rw [IsrSys.init, virgin]
  rfl

end Inv

/-! ## Pending lines -/

theorem Keeps.of_eq (same : next.intr.isrTodo = s.intr.isrTodo) : s.Keeps next := by
  intro i pending
  left
  rw [same]
  exact pending

theorem Keeps.take (s : IsrSys) : s.Keeps s.take :=
  fun _ pending => .inr ⟨s.intr.isrTodo, rfl, pending⟩

theorem doisr_keeps (ran : s.doisr screw = .ok next) : s.Keeps next := by
  rw [IsrSys.doisr] at ran
  cases at_ : s.place with
  | top => rw [at_] at ran; cases ran; exact Keeps.take s
  | bottom =>
    rw [at_] at ran
    dsimp only at ran
    split at ran
    · cases ran
      exact Keeps.take s
    · obtain ⟨sys, -, ran⟩ := bind_eq_ok ran
      cases ran
      exact Keeps.of_eq rfl
  | scan i isrcopy =>
    rw [at_] at ran
    dsimp only at ran
    split at ran
    · cases ran
      exact Keeps.of_eq rfl
    · obtain ⟨-, -, ran⟩ := bind_eq_ok ran
      split at ran
      · cases ran
        exact Keeps.of_eq rfl
      · cases ran
        exact Keeps.of_eq rfl
  | handler i isrcopy handlers =>
    rw [at_] at ran
    cases handlers with
    | nil | cons => cases ran; exact Keeps.of_eq rfl
  | prepared =>
    rw [at_] at ran
    obtain ⟨sys, -, ran⟩ := bind_eq_ok ran
    cases ran
    exact Keeps.of_eq rfl
  | _ => rw [at_] at ran; cases ran; exact Keeps.of_eq rfl

theorem isr_keeps {which : BitVec 32} (ran : s.isr isrThread which = .ok next) : s.Keeps next := by
  have recorded : next.intr.isrTodo = s.intr.isrTodo ||| which &&& ~~~(1#32 <<< 4) := by
    rw [IsrSys.isr] at ran
    have same : (if which &&& (1#32 <<< 4) ≠ 0 then
        { s with acks := .serial :: s.acks } else s).intr = s.intr := by
      split
      · rfl
      · rfl
    generalize (if which &&& (1#32 <<< 4) ≠ 0 then
      { s with acks := .serial :: s.acks } else s) = s' at ran same
    rw [← same]
    dsimp only at ran
    split at ran
    · cases ran; rfl
    · obtain ⟨sys, -, ran⟩ := bind_eq_ok ran
      cases ran
      rfl
  intro i pending
  left
  rw [recorded, BitVec.getLsbD_or, pending]
  rfl

theorem step_keeps {event : IsrEvent} (ran : s.step screw isrThread event = .ok next) :
    s.Keeps next := by
  cases event with
  | sched event =>
    obtain ⟨sys, -, ran⟩ := bind_eq_ok ran
    cases ran
    exact Keeps.of_eq rfl
  | isr which => exact isr_keeps ran
  | register ih intr flags xmalloc error =>
    obtain ⟨table, registered, ran⟩ := bind_eq_ok ran
    cases ran
    exact Keeps.of_eq (Inv.bmkIsrRumpkernel_isrTodo registered)
  | doisr => exact doisr_keeps ran

theorem delivers_run (screw : Bool) {sys : System} (inv : SysInv sys)
    (virgin : sys.pc isrThread = .virgin) (events : List IsrEvent) {final : IsrSys}
    (allowed : Admissible (Admits isrThread) (step screw isrThread) events (init sys))
    (ran : run (step screw isrThread) events (init sys) = .ok final) :
    final.Delivers isrThread ∧
      ∀ event next, final.step screw isrThread event = .ok next → final.Keeps next := by
  have reached : Inv isrThread final := run_reaches
    (fun _ _ _ holds admitted stepped => holds.step admitted stepped)
    events _ final (Inv.init inv virgin) allowed ran
  exact ⟨reached.delivers, fun event next stepped => step_keeps stepped⟩

end IsrSys
end Rumprun.Hw
