import Rumprun.Base.Programs
import Rumprun.Lib.SlotTable

/-! # Programs are reaped once

`rumprun_done` counts the runners on the list that have `RUMPRUNNER_DONE`. The
invariant ties every runner to its thread and says which of them the launching thread
may be waiting for. -/

namespace Rumprun.Base.Programs
open Core StepRuns Function Rumprunner Programs List
variable {p : Programs} {rr : RunnerAddr} {r : Rumprunner} {t : Pthread} {m : MainThread}

/-! ## The flag word -/

theorem isDone_raise_done (r : Rumprunner) :
    isDone { r with rrFlags := r.rrFlags ||| rumprunnerDone } = true := by
  simp [isDone, Nat.and_or_distrib_right, rumprunnerDone]

theorem isDone_raise_daemon (r : Rumprunner) :
    isDone { r with rrFlags := r.rrFlags ||| rumprunnerDaemon } = r.isDone := by
  have same : (r.rrFlags ||| rumprunnerDaemon) &&& rumprunnerDone = r.rrFlags &&& rumprunnerDone := by
    simp [Nat.and_or_distrib_right, rumprunnerDone, rumprunnerDaemon]
  simp only [isDone, same]

theorem daemon_raise_done (flags : Nat) :
    (flags ||| rumprunnerDone) &&& rumprunnerDaemon = flags &&& rumprunnerDaemon := by
  simp [Nat.and_or_distrib_right, rumprunnerDone, rumprunnerDaemon]

theorem flags_clear {flags : Nat} (clear : flags &&& (rumprunnerDone ||| rumprunnerDaemon) = 0) :
    flags &&& rumprunnerDone = 0 ∧ flags &&& rumprunnerDaemon = 0 := by
  rw [Nat.and_or_distrib_left] at clear
  exact Nat.or_eq_zero_iff.mp clear

/-! ## What holds at every switch -/

def doneAt (p : Programs) (rr : RunnerAddr) : Bool := (p.runner rr).any Rumprunner.isDone

/-- The finished programs that are still to be reaped. -/
def unreaped (p : Programs) : List RunnerAddr := p.rumprunners.filter p.doneAt

/-- `releaseme` runs once and before the end of the thread; the runner that `rumprun_daemon` found
is the thread's own. -/
def Placed (m : MainThread) : Prop :=
  match m.place with
  | .outside => True
  | .releasing => m.released = false
  | .daemonizing rr => rr = m.arg
  | .ended => m.released = true

/-- A runner on the list belongs to one thread, and the thread to it. -/
structure Tied (p : Programs) : Prop where
  nodup : p.rumprunners.Nodup
  live : ∀ rr, rr ∈ p.rumprunners ↔ (p.runner rr).isSome = true
  runs : ∀ rr r, p.runner rr = some r → ∃ m, p.main r.rrMainthread = some m ∧ m.arg = rr
  owns : ∀ t m, p.main t = some m →
    ∃ r, p.runner m.arg = some r ∧ r.rrMainthread = t ∧ r.isDone = m.released
  placed : ∀ t m, p.main t = some m → Placed m

/-- What the launching thread knows where it waits. -/
def LauncherInv (p : Programs) : Launcher → Prop
  | .outside => True
  | .launching rr => rr ∈ p.rumprunners
  | .launchSleeps rr woken => rr ∈ p.rumprunners ∧ (woken = false → ∀ r, p.runner rr = some r →
      r.rrFlags &&& (rumprunnerDone ||| rumprunnerDaemon) = 0)
  | .finding => True
  | .findSleeps woken => woken = false → p.rumprunDone = 0
  | .joining rr t _ => ∃ r, p.runner rr = some r ∧ r.rrMainthread = t ∧ r.isDone = true

/-- Where each program is that was started, and each that finished. -/
structure Accounted (p : Programs) : Prop where
  started : (p.rumprunners.map p.program ++ p.reaped).Perm (List.range p.started)
  finished : (p.unreaped.map p.program ++ p.reaped).Perm p.finished
  daemonized : ∀ rr r, p.runner rr = some r → r.rrFlags &&& rumprunnerDaemon ≠ 0 →
    p.program rr ∈ p.daemonized
  returned : ∀ n ∈ p.returned, n ∈ p.finished ∨ n ∈ p.daemonized

structure Inv (p : Programs) : Prop where
  tied : Tied p
  counted : p.rumprunDone = p.unreaped.length
  accounted : Accounted p
  launcher : LauncherInv p p.launcher

theorem boot_inv : Inv boot where
  tied :=
    { nodup := nodup_nil
      live := by simp [boot]
      runs := by simp [boot]
      owns := by simp [boot]
      placed := by simp [boot] }
  counted := rfl
  accounted :=
    { started := List.Perm.refl _
      finished := List.Perm.refl _
      daemonized := by simp [boot]
      returned := by simp [boot] }
  launcher := trivial

theorem doneAt_eq (at_ : p.runner rr = some r) : p.doneAt rr = r.isDone := by
  simp [doneAt, at_]

theorem mem_unreaped : rr ∈ p.unreaped ↔ rr ∈ p.rumprunners ∧ p.doneAt rr = true := by
  simp [unreaped]

theorem Tied.mem (tied : Tied p) (at_ : p.runner rr = some r) : rr ∈ p.rumprunners := by
  rw [tied.live, at_]
  rfl

theorem Tied.unique (tied : Tied p) (at_ : p.runner rr = some r) (own : r.rrMainthread = t)
    (main : p.main t = some m) : rr = m.arg := by
  obtain ⟨other, at_other, arg⟩ := tied.runs rr r at_
  rw [own, main, Option.some.injEq] at at_other
  rw [at_other, arg]

theorem filter_perm_cons {list : List RunnerAddr} {before after : RunnerAddr → Bool}
    (nodup : list.Nodup) (mem : rr ∈ list) (no : before rr = false) (yes : after rr = true)
    (others : ∀ other, other ≠ rr → after other = before other) :
    (list.filter after).Perm (rr :: list.filter before) := by
  have split := perm_cons_erase mem
  have same : (list.erase rr).filter after = (list.erase rr).filter before := by
    apply filter_congr
    intro other within
    exact others other (nodup.mem_erase_iff.mp within).1
  have first := split.filter after
  have second := split.filter before
  rw [filter_cons_of_pos yes, same] at first
  rw [filter_cons_of_neg (by simp [no])] at second
  exact first.trans (second.symm.cons rr)

/-! ## A thread and its runner move on -/

/-- A thread changes where it is, and the flags of its runner. -/
def change (p : Programs) (t : Pthread) (m : MainThread) (r : Rumprunner) : Programs :=
  { p with
    runner := update p.runner m.arg (some r)
    main := update p.main t (some m) }

theorem setMain_eq_change (at_ : p.runner m.arg = some r) : p.setMain t m = p.change t m r := by
  rw [change, ← at_, update_eq_self]
  rfl

section
variable {p : Programs} {t : Pthread} {m : MainThread} {r : Rumprunner} {q : Programs} {bit : Nat}
  {rr : RunnerAddr}

theorem Tied.change (tied : Tied p) (main : p.main t = some m) (m' : MainThread) (r' : Rumprunner)
    (arg : m'.arg = m.arg) (own : r'.rrMainthread = t) (done : r'.isDone = m'.released)
    (placed : Placed m') : Tied (p.change t m' r') := by
  obtain ⟨r, at_, _, _⟩ := tied.owns t m main
  rw [← arg] at at_
  refine { tied with live := ?_, runs := ?_, owns := ?_, placed := ?_ }
  · intro rr
    by_cases same : rr = m'.arg
    · simp [Programs.change, same, tied.mem at_]
    · simpa [Programs.change, same] using tied.live rr
  · intro rr other at_other
    by_cases same : rr = m'.arg
    · simp only [Programs.change, same, update_self, Option.some.injEq] at at_other
      refine ⟨m', ?_, same.symm⟩
      simp [Programs.change, ← at_other, own]
    · simp only [Programs.change, update_of_ne same] at at_other
      obtain ⟨owner, at_owner, is⟩ := tied.runs rr other at_other
      have differs : other.rrMainthread ≠ t := by
        intro equal
        rw [equal, main, Option.some.injEq] at at_owner
        rw [← is, ← at_owner, arg] at same
        exact same rfl
      exact ⟨owner, by simp [Programs.change, differs, at_owner], is⟩
  · intro other mOther at_other
    by_cases same : other = t
    · simp only [Programs.change, same, update_self, Option.some.injEq] at at_other
      refine ⟨r', ?_, own.trans same.symm, ?_⟩
      · simp [Programs.change, ← at_other]
      · rw [done, at_other]
    · simp only [Programs.change, update_of_ne same] at at_other
      obtain ⟨owned, at_owned, is, flag⟩ := tied.owns other mOther at_other
      have differs : mOther.arg ≠ m'.arg := by
        intro equal
        rw [equal] at at_owned
        have := tied.unique at_owned is at_other
        obtain ⟨_, at_t, is_t, _⟩ := tied.owns t m main
        rw [← arg, at_owned, Option.some.injEq] at at_t
        exact same (by rw [← is, at_t, is_t])
      exact ⟨owned, by simp [Programs.change, differs, at_owned], is, flag⟩
  · intro other mOther
    by_cases same : other = t
    · simp only [Programs.change, same, update_self, Option.some.injEq]
      rintro rfl
      exact placed
    · simpa [Programs.change, same] using tied.placed other mOther

theorem LauncherInv.broadcast {launcher : Launcher} (inv : LauncherInv p launcher)
    (runners : ∀ rr, rr ∈ p.rumprunners → rr ∈ q.rumprunners)
    (done : ∀ rr r, p.runner rr = some r → r.isDone = true → ∃ r', q.runner rr = some r' ∧
      r'.rrMainthread = r.rrMainthread ∧ r'.isDone = true) : LauncherInv q launcher.broadcast := by
  cases launcher with
  | outside | finding => trivial
  | launching rr => exact runners rr inv
  | launchSleeps rr woken => exact ⟨runners rr inv.1, fun is => by cases is⟩
  | findSleeps woken => exact fun is => by cases is
  | joining rr t foreground =>
    obtain ⟨r, at_, own, flag⟩ := inv
    obtain ⟨r', at_', same, flag'⟩ := done rr r at_ flag
    exact ⟨r', at_', same.trans own, flag'⟩

theorem Inv.place (inv : Inv p) (main : p.main t = some m) (place : Place)
    (placed : Placed { m with place := place }) : Inv (p.setMain t { m with place := place }) := by
  obtain ⟨r, at_, own, flag⟩ := inv.tied.owns t m main
  have tied : Tied (p.setMain t { m with place := place }) := by
    have moved := inv.tied.change main { m with place := place } r rfl own flag placed
    rwa [← setMain_eq_change (m := { m with place := place }) at_] at moved
  exact
    { tied := tied
      counted := inv.counted
      accounted := { inv.accounted with }
      launcher := inv.launcher }

theorem LauncherInv.raise (inv : LauncherInv p p.launcher) (at_ : p.runner m.arg = some r)
    (runners : q.rumprunners = p.rumprunners) (runner : q.runner = (p.raise m.arg r bit).runner)
    (done : r.isDone = true → isDone { r with rrFlags := r.rrFlags ||| bit } = true) :
    LauncherInv q p.launcher.broadcast := by
  apply inv.broadcast (fun rr mem => by rwa [runners])
  rw [runner]
  intro rr other at_other flag
  by_cases same : rr = m.arg
  · rw [same, at_, Option.some.injEq] at at_other
    subst at_other
    exact ⟨{ r with rrFlags := r.rrFlags ||| bit }, by simp [Programs.raise, same], rfl, done flag⟩
  · exact ⟨other, by simp [Programs.raise, same, at_other], rfl, flag⟩

theorem doneAt_raise_of_ne {other : RunnerAddr} (differs : other ≠ rr) :
    (p.raise rr r bit).doneAt other = p.doneAt other := by
  simp [doneAt, Programs.raise, differs]

theorem doneAt_raise_self (bit : Nat) (rr : RunnerAddr) :
    (p.raise rr r bit).doneAt rr = isDone { r with rrFlags := r.rrFlags ||| bit } := by
  simp [doneAt, Programs.raise]

theorem unreaped_raise_done (nodup : p.rumprunners.Nodup) (mem : rr ∈ p.rumprunners)
    (before : p.doneAt rr = false) :
    (p.raise rr r rumprunnerDone).unreaped.Perm (rr :: p.unreaped) := by
  apply filter_perm_cons nodup mem before
  · rw [doneAt_raise_self, isDone_raise_done]
  · intro other differs
    exact doneAt_raise_of_ne differs

theorem unreaped_raise_daemon (at_ : p.runner rr = some r) :
    (p.raise rr r rumprunnerDaemon).unreaped = p.unreaped := by
  apply filter_congr
  intro other _
  by_cases same : other = rr
  · rw [same, doneAt_raise_self, isDone_raise_daemon, doneAt_eq at_]
  · exact doneAt_raise_of_ne same

theorem daemonized_raise {daemonized : List Nat} (accounted : Accounted p)
    (at_ : p.runner m.arg = some r) (grows : ∀ n ∈ p.daemonized, n ∈ daemonized)
    (now : (r.rrFlags ||| bit) &&& rumprunnerDaemon ≠ 0 → r.rrFlags &&& rumprunnerDaemon = 0 →
      p.program m.arg ∈ daemonized) :
    ∀ rr other, (p.raise m.arg r bit).runner rr = some other →
      other.rrFlags &&& rumprunnerDaemon ≠ 0 → p.program rr ∈ daemonized := by
  intro rr other at_other flag
  by_cases same : rr = m.arg
  · simp only [Programs.raise, same, update_self, Option.some.injEq] at at_other
    rw [← at_other] at flag
    by_cases clear : r.rrFlags &&& rumprunnerDaemon = 0
    · rw [same]
      exact now flag clear
    · rw [same]
      exact grows _ (accounted.daemonized m.arg r at_ clear)
  · simp only [Programs.raise, update_of_ne same] at at_other
    exact grows _ (accounted.daemonized rr other at_other flag)

theorem Inv.releaseme (inv : Inv p) (main : p.main t = some m) (place : m.place = .releasing) :
    ∃ next, p.releaseme t = .ok next ∧ Inv next := by
  obtain ⟨r, at_, own, flag⟩ := inv.tied.owns t m main
  have mem := inv.tied.mem at_
  have fresh : m.released = false := by
    have placed := inv.tied.placed t m main
    rwa [Placed, place] at placed
  have before : p.doneAt m.arg = false := by rw [doneAt_eq at_, flag, fresh]
  have grown := unreaped_raise_done inv.tied.nodup mem before (r := r)
  rw [Programs.releaseme, thread_eq main, ok_bind, deref_eq at_, ok_bind]
  refine ⟨_, rfl, ?_⟩
  refine
    { tied := ?_
      counted := ?_
      accounted :=
        { started := inv.accounted.started
          finished := ?_
          daemonized := ?_
          returned := ?_ }
      launcher := inv.launcher.raise at_ rfl rfl fun _ => isDone_raise_done r }
  · exact { inv.tied.change main { m with place := .outside, released := true }
      { r with rrFlags := r.rrFlags ||| rumprunnerDone } rfl own (isDone_raise_done r) trivial with }
  · have length := grown.length_eq
    have counted := inv.counted
    rw [length_cons] at length
    show p.rumprunDone + 1 = (p.raise m.arg r rumprunnerDone).unreaped.length
    omega
  · have mapped := (grown.map p.program).append_right p.reaped
    exact mapped.trans (inv.accounted.finished.cons _)
  · apply daemonized_raise inv.accounted at_ fun n mem => mem
    intro set clear
    rw [daemon_raise_done] at set
    exact absurd clear set
  · intro n mem
    exact (inv.accounted.returned n mem).imp_left (mem_cons_of_mem _)

theorem Placed.own (placed : Placed m) (place : isDaemonizing m.place = true) :
    m.place = .daemonizing m.arg := by
  cases here : m.place with
  | daemonizing rr =>
    simp only [Placed, here] at placed
    rw [placed]
  | _ => rw [here] at place; cases place

theorem Inv.daemonize (inv : Inv p) (main : p.main t = some m)
    (place : isDaemonizing m.place = true) : ∃ next, p.daemonize t = .ok next ∧ Inv next := by
  obtain ⟨r, at_, own, flag⟩ := inv.tied.owns t m main
  have is := (inv.tied.placed t m main).own place
  simp only [Programs.daemonize, thread_eq main, ok_bind, is, deref_eq at_]
  refine ⟨_, rfl, ?_⟩
  refine
    { tied := ?_
      counted := ?_
      accounted :=
        { started := inv.accounted.started
          finished := ?_
          daemonized := ?_
          returned := ?_ }
      launcher := inv.launcher.raise at_ rfl rfl fun was => (isDone_raise_daemon r).trans was }
  · exact { inv.tied.change main { m with place := .outside }
      { r with rrFlags := r.rrFlags ||| rumprunnerDaemon } rfl own
      ((isDone_raise_daemon r).trans flag) trivial with }
  · show p.rumprunDone = (p.raise m.arg r rumprunnerDaemon).unreaped.length
    rw [unreaped_raise_daemon at_, inv.counted]
  · show ((p.raise m.arg r rumprunnerDaemon).unreaped.map p.program ++ p.reaped).Perm p.finished
    rw [unreaped_raise_daemon at_]
    exact inv.accounted.finished
  · apply daemonized_raise inv.accounted at_ fun n mem => mem_cons_of_mem _ mem
    intro _ _
    exact mem_cons_self
  · intro n mem
    exact (inv.accounted.returned n mem).imp_right (mem_cons_of_mem _)

theorem Inv.terminate (inv : Inv p) (main : p.main t = some m) (fresh : m.released = false) :
    ∃ next, p.terminate t = .ok next ∧ Inv next := by
  rw [Programs.terminate, thread_eq main]
  exact ⟨_, rfl, inv.place main .releasing fresh⟩

theorem Inv.ends (inv : Inv p) (main : p.main t = some m) (released : m.released = true) :
    ∃ next, p.ends t = .ok next ∧ Inv next := by
  rw [Programs.ends, thread_eq main]
  exact ⟨_, rfl, inv.place main .ended released⟩

theorem Tied.find_own (tied : Tied p) (main : p.main t = some m) :
    p.listForeach (fun r => r.rrMainthread == t) p.rumprunners = .ok (some m.arg) := by
  rw [listForeach_eq _ fun rr mem => (tied.live rr).mp mem]
  obtain ⟨r, at_, own, _⟩ := tied.owns t m main
  cases found : p.rumprunners.find? fun rr => (p.runner rr).any fun r => r.rrMainthread == t with
  | none =>
    have none := find?_eq_none.mp found m.arg (tied.mem at_)
    simp [at_, own] at none
  | some rr =>
    have passes := find?_some found
    obtain ⟨other, at_other, is⟩ := (Option.any_eq_true _ _).mp passes
    rw [tied.unique at_other (by simpa using is) main]

theorem Inv.daemon (inv : Inv p) (main : p.main t = some m) :
    ∃ next, p.daemon t = .ok next ∧ Inv next := by
  simp only [Programs.daemon, thread_eq main, ok_bind, inv.tied.find_own main]
  exact ⟨_, rfl, inv.place main (.daemonizing m.arg) rfl⟩

/-! ## `rumprun()` puts a runner on the list -/

section
variable {flags : Nat} {rr : RunnerAddr}

theorem Tied.fresh (tied : Tied p) (free : p.runner rr = none) : rr ∉ p.rumprunners := by
  rw [tied.live, free]
  simp

theorem Tied.insert (tied : Tied p) (free : p.runner rr = none) (unused : p.main t = none)
    (clear : flags &&& rumprunnerDone = 0) : Tied (p.insert flags rr t) where
  nodup := nodup_cons.mpr ⟨tied.fresh free, tied.nodup⟩
  live := by
    intro other
    by_cases same : other = rr
    · simp [Programs.insert, same]
    · simpa [Programs.insert, same] using tied.live other
  runs := by
    intro other r at_
    rcases SlotTable.of_fill at_ with ⟨same, rfl⟩ | ⟨-, at_⟩
    · exact ⟨⟨rr, .outside, false⟩, by simp [Programs.insert], same.symm⟩
    · obtain ⟨m, main, arg⟩ := tied.runs other r at_
      have differs : r.rrMainthread ≠ t := by
        intro equal
        rw [equal, unused] at main
        cases main
      exact ⟨m, by simp [Programs.insert, differs, main], arg⟩
  owns := by
    intro other m main
    rcases SlotTable.of_fill main with ⟨same, rfl⟩ | ⟨-, main⟩
    · refine ⟨⟨t, flags⟩, by simp [Programs.insert], same.symm, ?_⟩
      simp [isDone, clear]
    · obtain ⟨r, at_, own, flag⟩ := tied.owns other m main
      have differs : m.arg ≠ rr := by
        intro equal
        rw [equal, free] at at_
        cases at_
      exact ⟨r, by simp [Programs.insert, differs, at_], own, flag⟩
  placed := by
    intro other m main
    rcases SlotTable.of_fill main with ⟨-, rfl⟩ | ⟨-, main⟩
    · trivial
    · exact tied.placed other m main

theorem unreaped_insert (fresh : rr ∉ p.rumprunners) (clear : flags &&& rumprunnerDone = 0) :
    (p.insert flags rr t).unreaped = p.unreaped := by
  have new : (p.insert flags rr t).doneAt rr = false := by
    simp [doneAt, Programs.insert, isDone, clear]
  have split : (p.insert flags rr t).unreaped =
      (rr :: p.rumprunners).filter (p.insert flags rr t).doneAt := rfl
  rw [split, filter_cons_of_neg (by simp [new])]
  apply filter_congr
  intro other mem
  have differs : other ≠ rr := fun same => fresh (same ▸ mem)
  simp [doneAt, Programs.insert, differs]

theorem map_program_insert {list : List RunnerAddr} (fresh : rr ∉ list) :
    list.map (p.insert flags rr t).program = list.map p.program := by
  apply map_congr_left
  intro other mem
  have differs : other ≠ rr := fun same => fresh (same ▸ mem)
  simp [Programs.insert, differs]

theorem Accounted.insert (accounted : Accounted p) (fresh : rr ∉ p.rumprunners)
    (clear : flags &&& (rumprunnerDone ||| rumprunnerDaemon) = 0) :
    Accounted (p.insert flags rr t) where
  started := by
    have number : (p.insert flags rr t).program rr = p.started := by simp [Programs.insert]
    show (((rr :: p.rumprunners).map (p.insert flags rr t).program) ++ p.reaped).Perm
      (range (p.started + 1))
    rw [map_cons, number, map_program_insert fresh, range_succ, cons_append]
    exact (accounted.started.cons _).trans (perm_append_singleton _ _).symm
  finished := by
    rw [unreaped_insert fresh (flags_clear clear).1,
      map_program_insert fun mem => fresh (mem_unreaped.mp mem).1]
    exact accounted.finished
  daemonized := by
    intro other r at_ flag
    rcases SlotTable.of_fill at_ with ⟨-, rfl⟩ | ⟨same, at_⟩
    · exact absurd (flags_clear clear).2 flag
    · simp only [Programs.insert, update_of_ne same]
      exact accounted.daemonized other r at_ flag
  returned := accounted.returned

theorem Inv.insert (inv : Inv p) (outside : p.launcher = .outside) (free : p.runner rr = none)
    (unused : p.main t = none) (clear : flags &&& (rumprunnerDone ||| rumprunnerDaemon) = 0) :
    Inv (p.insert flags rr t) where
  tied := inv.tied.insert free unused (flags_clear clear).1
  counted := by
    rw [unreaped_insert (inv.tied.fresh free) (flags_clear clear).1]
    exact inv.counted
  accounted := inv.accounted.insert (inv.tied.fresh free) clear
  launcher := by
    show LauncherInv (p.insert flags rr t) p.launcher
    rw [outside]
    trivial

theorem Inv.setLauncher (inv : Inv p) (launcher : Launcher) (knows : LauncherInv p launcher) :
    Inv { p with launcher := launcher } where
  tied := { inv.tied with }
  counted := inv.counted
  accounted := { inv.accounted with }
  launcher := by cases launcher <;> exact knows

theorem Inv.rumprun (inv : Inv p) (outside : p.launcher = .outside) (free : p.runner rr = none)
    {thread : Option Pthread} (unused : ∀ t ∈ thread, p.main t = none)
    (clear : flags &&& (rumprunnerDone ||| rumprunnerDaemon) = 0) :
    Inv (p.rumprun flags rr thread) := by
  cases thread with
  | none => exact inv
  | some t =>
    have started := inv.insert outside free (unused t rfl) clear
    rw [Programs.rumprun]
    split
    · exact started
    · exact started.setLauncher (.launching rr) mem_cons_self

/-! ## `rumprun_wait` takes it off again -/

theorem doneAt_remove_of_ne {foreground : Bool} {other : RunnerAddr} (differs : other ≠ rr) :
    (p.remove rr t foreground).doneAt other = p.doneAt other := by
  simp [doneAt, Programs.remove, differs]

theorem unreaped_remove (nodup : p.rumprunners.Nodup) (mem : rr ∈ p.rumprunners)
    (done : p.doneAt rr = true) (foreground : Bool) :
    p.unreaped.Perm (rr :: (p.remove rr t foreground).unreaped) := by
  have split := (perm_cons_erase mem).filter p.doneAt
  have same : (p.remove rr t foreground).unreaped = (p.rumprunners.erase rr).filter p.doneAt := by
    apply filter_congr
    intro other within
    exact doneAt_remove_of_ne (nodup.mem_erase_iff.mp within).1
  rwa [filter_cons_of_pos done, ← same] at split

theorem Tied.remove (tied : Tied p) (at_ : p.runner rr = some r) (own : r.rrMainthread = t)
    (foreground : Bool) : Tied (p.remove rr t foreground) := by
  obtain ⟨m, main, arg⟩ := tied.runs rr r at_
  rw [own] at main
  refine
    { nodup := tied.nodup.erase rr
      live := ?_
      runs := ?_
      owns := ?_
      placed := ?_ }
  · intro other
    show other ∈ p.rumprunners.erase rr ↔ _
    rw [tied.nodup.mem_erase_iff, tied.live]
    by_cases same : other = rr
    · simp [Programs.remove, same]
    · simp [Programs.remove, same]
  · intro other otherR at_other
    obtain ⟨same, at_other⟩ := SlotTable.of_empty at_other
    obtain ⟨otherM, otherMain, otherArg⟩ := tied.runs other otherR at_other
    have differs : otherR.rrMainthread ≠ t := by
      intro equal
      rw [equal, main, Option.some.injEq] at otherMain
      exact same (by rw [← otherArg, ← otherMain, arg])
    exact ⟨otherM, by simp [Programs.remove, differs, otherMain], otherArg⟩
  · intro other otherM otherMain
    obtain ⟨same, otherMain⟩ := SlotTable.of_empty otherMain
    obtain ⟨otherR, at_other, otherOwn, flag⟩ := tied.owns other otherM otherMain
    have differs : otherM.arg ≠ rr := by
      intro equal
      rw [equal, at_, Option.some.injEq] at at_other
      exact same (by rw [← otherOwn, ← at_other, own])
    exact ⟨otherR, by simp [Programs.remove, differs, at_other], otherOwn, flag⟩
  · intro other otherM otherMain
    exact tied.placed other otherM (SlotTable.of_empty otherMain).2

theorem Accounted.remove (accounted : Accounted p) (nodup : p.rumprunners.Nodup)
    (mem : rr ∈ p.rumprunners) (done : p.doneAt rr = true) (foreground : Bool) :
    Accounted (p.remove rr t foreground) where
  started := by
    have split := ((perm_cons_erase mem).map p.program).append_right p.reaped
    exact (split.symm.trans accounted.started |> perm_middle.trans)
  finished := by
    have split := ((unreaped_remove (t := t) nodup mem done foreground).map p.program).append_right
      p.reaped
    exact (split.symm.trans accounted.finished |> perm_middle.trans)
  daemonized := by
    intro other r at_ flag
    exact accounted.daemonized other r (SlotTable.of_empty at_).2 flag
  returned := by
    have finished : p.program rr ∈ p.finished := by
      apply accounted.finished.subset
      exact mem_append_left _ (mem_map_of_mem (mem_unreaped.mpr ⟨mem, done⟩))
    intro n within
    cases foreground with
    | false => exact accounted.returned n within
    | true =>
      rcases mem_cons.mp within with same | earlier
      · exact .inl (same ▸ finished)
      · exact accounted.returned n earlier

theorem Inv.joined (inv : Inv p) (at_ : p.runner rr = some r) (own : r.rrMainthread = t)
    (flag : r.isDone = true) (foreground : Bool) :
    p.joined rr t foreground = .ok { p.remove rr t foreground with rumprunDone := p.rumprunDone - 1 } ∧
      Inv { p.remove rr t foreground with rumprunDone := p.rumprunDone - 1 } := by
  have mem := inv.tied.mem at_
  have done : p.doneAt rr = true := by rw [doneAt_eq at_, flag]
  have fewer := (unreaped_remove (t := t) inv.tied.nodup mem done foreground).length_eq
  have counted := inv.counted
  rw [length_cons] at fewer
  constructor
  · have positive : (decide (0 < p.rumprunDone)) = true := by
      rw [decide_eq_true_eq]
      omega
    rw [Programs.joined, if_pos mem, positive, libcAssert_true, ok_bind]
  · exact
      { tied := { inv.tied.remove at_ own foreground with }
        counted := by
          show p.rumprunDone - 1 = (p.remove rr t foreground).unreaped.length
          omega
        accounted := { inv.accounted.remove (t := t) inv.tied.nodup mem done foreground with }
        launcher := trivial }

end

/-! ## The launching thread goes on -/

theorem Inv.launch (inv : Inv p) (mem : rr ∈ p.rumprunners) :
    ∃ next, p.launch rr = .ok next ∧ Inv next := by
  obtain ⟨r, at_⟩ := Option.isSome_iff_exists.mp ((inv.tied.live rr).mp mem)
  rw [Programs.launch, deref_eq at_, ok_bind]
  split
  case isTrue clear =>
    refine ⟨_, rfl, inv.setLauncher _ ⟨mem, ?_⟩⟩
    intro _ other at_other
    rw [at_, Option.some.injEq] at at_other
    rw [← at_other, clear]
  case isFalse set =>
    split
    case isTrue done =>
      rw [rumprunWait_eq at_]
      exact ⟨_, rfl, inv.setLauncher _ ⟨r, at_, rfl, decide_eq_true done⟩⟩
    case isFalse open_ =>
      -- not done, so it is the other flag that ended the loop
      have daemon : r.rrFlags &&& rumprunnerDaemon ≠ 0 := by
        rw [Nat.and_or_distrib_left, Nat.or_eq_zero_iff] at set
        exact fun clear => set ⟨not_not.mp open_, clear⟩
      refine ⟨_, rfl, { tied := { inv.tied with }, counted := inv.counted, launcher := trivial,
                        accounted := { inv.accounted with returned := ?_ } }⟩
      intro n within
      rcases mem_cons.mp within with same | earlier
      · exact .inr (same ▸ inv.accounted.daemonized rr r at_ daemon)
      · exact inv.accounted.returned n earlier

theorem Inv.find_done (inv : Inv p) (some_ : p.rumprunDone ≠ 0) :
    ∃ rr r, p.find = .ok { p with launcher := .joining rr r.rrMainthread false } ∧
      p.runner rr = some r ∧ r.isDone = true := by
  have counted := inv.counted
  obtain ⟨first, mem⟩ := exists_mem_of_length_pos (l := p.unreaped) (by omega)
  obtain ⟨within, done⟩ := mem_unreaped.mp mem
  simp only [Programs.find, if_neg some_,
    listForeach_eq _ fun rr mem => (inv.tied.live rr).mp mem, ok_bind]
  cases found : p.rumprunners.find? fun rr => (p.runner rr).any isDone with
  | none => exact absurd done (find?_eq_none.mp found first within)
  | some rr =>
    have passes := find?_some found
    obtain ⟨r, at_, flag⟩ := (Option.any_eq_true _ _).mp passes
    exact ⟨rr, r, rumprunWait_eq at_ false, at_, flag⟩

theorem Inv.find (inv : Inv p) : ∃ next, p.find = .ok next ∧ Inv next := by
  by_cases none : p.rumprunDone = 0
  · rw [Programs.find, if_pos none]
    exact ⟨_, rfl, inv.setLauncher _ fun _ => none⟩
  · obtain ⟨rr, r, ran, at_, flag⟩ := inv.find_done none
    exact ⟨_, ran, inv.setLauncher _ ⟨r, at_, rfl, flag⟩⟩

theorem Inv.launcherGoes (inv : Inv p) : ∃ next, p.launcherGoes = .ok next ∧ Inv next := by
  have knows := inv.launcher
  unfold Programs.launcherGoes
  cases here : p.launcher with
  | outside => exact ⟨p, rfl, inv⟩
  | launching rr => rw [here] at knows; exact inv.launch knows
  | launchSleeps rr woken => rw [here] at knows; exact inv.launch knows.1
  | finding | findSleeps => exact inv.find
  | joining rr t foreground =>
    rw [here] at knows
    obtain ⟨r, at_, own, flag⟩ := knows
    exact ⟨_, inv.joined at_ own flag foreground⟩

theorem Inv.getFinished (inv : Inv p) : Inv p.getFinished := by
  unfold Programs.getFinished
  split
  · exact inv
  · exact inv.setLauncher .finding trivial

theorem Inv.step (inv : Inv p) (event : ProgramEvent) (allowed : p.Admits event) :
    ∃ next, p.step event = .ok next ∧ Inv next := by
  cases event with
  | rumprun flags rr thread =>
    obtain ⟨outside, clear, free, unused⟩ := allowed
    exact ⟨_, rfl, inv.rumprun outside free unused clear⟩
  | getFinished => exact ⟨_, rfl, inv.getFinished⟩
  | launcher => exact inv.launcherGoes
  | terminate t =>
    obtain ⟨m, main, _, fresh⟩ := allowed
    exact inv.terminate main fresh
  | releaseme t =>
    obtain ⟨m, main, place⟩ := allowed
    exact inv.releaseme main place
  | ends t =>
    obtain ⟨m, main, _, released⟩ := allowed
    exact inv.ends main released
  | daemon t =>
    obtain ⟨m, main, _⟩ := allowed
    exact inv.daemon main
  | daemonize t =>
    obtain ⟨m, main, place⟩ := allowed
    exact inv.daemonize main place

/-! ## The main loop reaps every finished program -/

/-- What the main loop does, and what a thread does after `releaseme`. -/
def IsReaping : ProgramEvent → Prop
  | .getFinished => True
  | .launcher => True
  | .daemonize _ => True
  | .ends _ => True
  | _ => False

/-- A run of the main loop and of threads that have finished, which leaves the books alone. -/
structure Reaps (p q : Programs) (events : List ProgramEvent) : Prop where
  leads : Leads Admits Programs.step events p q
  only : ∀ event ∈ events, IsReaping event
  inv : Inv q
  finished : q.finished = p.finished

theorem Reaps.nil (inv : Inv p) : Reaps p p [] where
  leads := .nil
  only := by simp
  inv := inv
  finished := rfl

theorem Reaps.cons {next : Programs} {event : ProgramEvent} {events : List ProgramEvent}
    (inv : Inv p) (allowed : p.Admits event) (is : IsReaping event)
    (stepped : p.step event = .ok next) (same : next.finished = p.finished)
    (later : Inv next → Reaps next q events) : Reaps p q (event :: events) := by
  obtain ⟨_, ran, after⟩ := inv.step event allowed
  rw [stepped, Except.ok.injEq] at ran
  have further := later (ran ▸ after)
  exact
    { leads := .cons allowed stepped further.leads
      only := by
        intro other mem
        rcases mem_cons.mp mem with first | rest
        · exact first ▸ is
        · exact further.only other rest
      inv := further.inv
      finished := further.finished.trans same }

theorem Reaps.append {s : Programs} {first second : List ProgramEvent} (reaps : Reaps p q first)
    (later : Reaps q s second) : Reaps p s (first ++ second) where
  leads := reaps.leads.append later.leads
  only := by
    intro event mem
    rcases mem_append.mp mem with early | late
    · exact reaps.only event early
    · exact later.only event late
  inv := later.inv
  finished := later.finished.trans reaps.finished

theorem Inv.reaps_end (inv : Inv p) (main : p.main t = some m) (released : m.released = true)
    (outside : m.place = .outside) : Reaps p (p.setMain t { m with place := .ended }) [.ends t] := by
  have stepped : p.step (.ends t) = .ok (p.setMain t { m with place := .ended }) := by
    show p.ends t = _
    rw [Programs.ends, thread_eq main]
    rfl
  have allowed : p.Admits (.ends t) := ⟨m, main, outside, released⟩
  exact Reaps.cons inv allowed trivial stepped rfl Reaps.nil

theorem Inv.reaps_joined_thread (inv : Inv p) {foreground : Bool}
    (joining : p.launcher = .joining rr t foreground) :
    ∃ events q, Reaps p q events ∧ q.launcher = p.launcher ∧ q.rumprunDone = p.rumprunDone ∧
      ∃ m ∈ q.main t, m.place = .ended := by
  have knows := inv.launcher
  rw [joining] at knows
  obtain ⟨r, at_, own, flag⟩ := knows
  obtain ⟨m, main, arg⟩ := inv.tied.runs rr r at_
  rw [own] at main
  have released : m.released = true := by
    obtain ⟨other, at_other, _, same⟩ := inv.tied.owns t m main
    rw [arg, at_, Option.some.injEq] at at_other
    rw [← same, ← at_other, flag]
  have placed := inv.tied.placed t m main
  cases here : m.place with
  | outside =>
    refine ⟨_, _, inv.reaps_end main released here, rfl, rfl, ⟨m.arg, .ended, m.released⟩, ?_, rfl⟩
    simp [setMain]
  | releasing =>
    simp only [Placed, here] at placed
    rw [placed] at released
    cases released
  | ended => exact ⟨_, p, .nil inv, rfl, rfl, m, main, here⟩
  | daemonizing found =>
    have is := placed.own (by rw [here]; rfl)
    rw [← arg] at at_
    obtain ⟨next, ran, after⟩ := inv.daemonize main (by rw [here]; rfl)
    simp only [Programs.daemonize, thread_eq main, ok_bind, is, deref_eq at_, Except.ok.injEq] at ran
    have nextMain : next.main t = some { m with place := .outside } := by
      simp [← ran, setMain]
    have broadcast : next.launcher = p.launcher := by
      rw [← ran]
      show p.launcher.broadcast = p.launcher
      rw [joining]
      rfl
    have count : next.rumprunDone = p.rumprunDone := by
      rw [← ran]
      rfl
    have first : Reaps p next [.daemonize t] := by
      refine Reaps.cons inv ⟨m, main, by rw [here]; rfl⟩ trivial ?_ ?_ Reaps.nil
      · show p.daemonize t = .ok next
        simp only [Programs.daemonize, thread_eq main, ok_bind, is, deref_eq at_, ran]
      · rw [← ran]
        rfl
    refine ⟨_, _, first.append (after.reaps_end nextMain released rfl), broadcast, count,
      ⟨m.arg, .ended, m.released⟩, ?_, rfl⟩
    simp [setMain]

theorem Inv.reaps_one (inv : Inv p) (outside : p.launcher = .outside) (some_ : p.rumprunDone ≠ 0) :
    ∃ events q, Reaps p q events ∧ q.launcher = .outside ∧ q.rumprunDone = p.rumprunDone - 1 := by
  have counted := inv.counted
  obtain ⟨rr, mem⟩ := exists_mem_of_length_pos (l := p.unreaped) (by omega)
  have nonempty : p.rumprunners.isEmpty = false := by
    rw [isEmpty_eq_false_iff]
    exact ne_nil_of_mem (mem_unreaped.mp mem).1
  have enters : p.getFinished = { p with launcher := .finding } := by
    rw [Programs.getFinished, nonempty]
    rfl
  have finding := inv.setLauncher .finding trivial
  obtain ⟨rr, r, ran, at_, flag⟩ := finding.find_done some_
  have joins := inv.setLauncher (.joining rr r.rrMainthread false) ⟨r, at_, rfl, flag⟩
  obtain ⟨events, q, reaps, place, count, ended⟩ := joins.reaps_joined_thread rfl
  have knows := reaps.inv.launcher
  rw [place] at knows
  obtain ⟨last, at_last, own, done⟩ := knows
  have first : Reaps p { p with launcher := .joining rr r.rrMainthread false }
      [.getFinished, .launcher] := by
    refine Reaps.cons inv outside trivial (congrArg Except.ok enters) rfl fun entered => ?_
    exact Reaps.cons entered trivial trivial ran rfl Reaps.nil
  have ready : q.Admits .launcher := by
    show q.LauncherReady q.launcher
    rw [place]
    exact ended
  have goes : q.step .launcher = q.joined rr r.rrMainthread false := by
    show q.launcherGoes = _
    rw [Programs.launcherGoes, place]
  have stepped := goes.trans (reaps.inv.joined at_last own done false).1
  have last := Reaps.cons reaps.inv ready trivial stepped rfl Reaps.nil
  refine ⟨_, _, (first.append reaps).append last, rfl, ?_⟩
  show q.rumprunDone - 1 = p.rumprunDone - 1
  rw [count]

theorem Inv.reaps_all : ∀ (n : Nat) {p : Programs}, Inv p → p.launcher = .outside →
    p.rumprunDone = n → ∃ events q, Reaps p q events ∧ q.unreaped = [] := by
  intro n
  induction n with
  | zero =>
    intro p inv _ none
    have counted := inv.counted
    exact ⟨[], p, .nil inv, eq_nil_of_length_eq_zero (by omega)⟩
  | succ n ih =>
    intro p inv outside more
    obtain ⟨first, middle, reaps, again, fewer⟩ := inv.reaps_one outside (by omega)
    obtain ⟨rest, q, later, empty⟩ := ih reaps.inv again (by omega)
    exact ⟨_, q, reaps.append later, empty⟩

end

/-! ## The result -/

structure Reaping (p : Programs) : Prop where
  counted : p.rumprunDone = p.rumprunners.countP p.doneAt
  once : p.reaped.Nodup
  finished : ∀ n, n ∈ p.finished ↔
    n ∈ p.reaped ∨ ∃ rr ∈ p.rumprunners, p.doneAt rr = true ∧ p.program rr = n
  gone : ∀ rr ∈ p.rumprunners, p.program rr ∉ p.reaped
  returned : ∀ n ∈ p.returned, n ∈ p.finished ∨ n ∈ p.daemonized
  launchSleeps : ∀ rr, p.launcher = .launchSleeps rr false → ∃ r, p.runner rr = some r ∧
    r.rrFlags &&& (rumprunnerDone ||| rumprunnerDaemon) = 0
  findSleeps : p.launcher = .findSleeps false → ∀ rr ∈ p.rumprunners, p.doneAt rr = false
  canReap : p.launcher = .outside → ∃ events last, Leads Admits Programs.step events p last ∧
    (∀ event ∈ events, IsReaping event) ∧ ∀ n ∈ p.finished, n ∈ last.reaped

theorem Inv.reaping (inv : Inv p) : Reaping p := by
  have apart := (inv.accounted.started.nodup_iff.mpr nodup_range)
  rw [nodup_append] at apart
  refine
    { counted := ?_
      once := apart.2.1
      finished := ?_
      gone := ?_
      returned := inv.accounted.returned
      launchSleeps := ?_
      findSleeps := ?_
      canReap := ?_ }
  · rw [countP_eq_length_filter]
    exact inv.counted
  · intro n
    rw [← inv.accounted.finished.mem_iff, mem_append, or_comm]
    simp only [mem_map, mem_unreaped, and_assoc]
  · intro rr mem within
    exact apart.2.2 _ (mem_map_of_mem mem) _ within rfl
  · intro rr here
    have knows := inv.launcher
    rw [here] at knows
    obtain ⟨r, at_⟩ := Option.isSome_iff_exists.mp ((inv.tied.live rr).mp knows.1)
    exact ⟨r, at_, knows.2 rfl r at_⟩
  · intro here rr mem
    have knows := inv.launcher
    have counted := inv.counted
    rw [here] at knows
    rw [knows rfl] at counted
    have empty : p.unreaped = [] := eq_nil_of_length_eq_zero (by omega)
    cases done : p.doneAt rr with
    | false => rfl
    | true =>
      have within := mem_unreaped.mpr ⟨mem, done⟩
      rw [empty] at within
      cases within
  · intro outside
    obtain ⟨events, last, reaps, empty⟩ := Inv.reaps_all _ inv outside inv.counted
    refine ⟨events, last, reaps.leads, reaps.only, ?_⟩
    intro n within
    have finished := reaps.inv.accounted.finished
    rw [empty, map_nil, nil_append, reaps.finished] at finished
    exact finished.mem_iff.mpr within

theorem programs_reaped (events : List ProgramEvent)
    (allowed : Admissible Admits Programs.step events boot) :
    Throughout Reaping Programs.step events boot :=
  throughout_of_invariant Inv (fun _ inv => inv.reaping) (fun _ event inv admits => inv.step event admits)
    events boot boot_inv allowed

/-- A background program ends while a foreground one runs; that one becomes a daemon, its
`rumprun()` returns, and the main loop reaps both. -/
def twoPrograms : List ProgramEvent :=
  [.rumprun execBackground 0x10 (some 1), .rumprun 0 0x20 (some 2), .terminate 1, .launcher,
    .releaseme 1, .daemon 2, .launcher, .daemonize 2, .ends 1, .launcher, .getFinished, .launcher,
    .launcher, .getFinished, .launcher, .terminate 2, .releaseme 2, .ends 2, .launcher, .launcher,
    .getFinished]

theorem programs_reaped_twoPrograms :
    Admissible Admits Programs.step twoPrograms boot ∧
      (∃ final ∈ (run Programs.step twoPrograms boot).toOption,
        final.reaped = [1, 0] ∧ final.returned = [1] ∧ final.rumprunners = []) ∧
      Throughout Reaping Programs.step twoPrograms boot := by
  have allowed : Admissible Admits step twoPrograms boot := by decide +kernel
  exact ⟨allowed, by decide +kernel, programs_reaped twoPrograms allowed⟩

/-- Every program started is on the list or reaped, once; a main thread has a record that names it and
says whether `releaseme` has run. -/
def Listed (p : Programs) : Prop :=
  p.rumprunners.Nodup ∧ (p.rumprunners.map p.program ++ p.reaped).Perm (List.range p.started) ∧
    ∀ t m, p.main t = some m → m.arg ∈ p.rumprunners ∧
      ∃ r, p.runner m.arg = some r ∧ r.rrMainthread = t ∧ r.isDone = m.released

theorem programs_listed (events : List ProgramEvent)
    (allowed : Admissible Admits Programs.step events boot) :
    Throughout Listed Programs.step events boot := by
  refine throughout_of_invariant Inv ?_ (fun _ event inv admits => inv.step event admits) events boot
    boot_inv allowed
  intro p inv
  refine ⟨inv.tied.nodup, inv.accounted.started, fun t m main => ?_⟩
  obtain ⟨r, at_, own, done⟩ := inv.tied.owns t m main
  exact ⟨(inv.tied.live _).mpr (by rw [at_]; rfl), r, at_, own, done⟩

theorem programs_listed_twoPrograms : Throughout Listed Programs.step twoPrograms boot :=
  programs_listed twoPrograms (by decide +kernel)

end Rumprun.Base.Programs
