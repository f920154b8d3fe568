import Rumprun.Core.PendingWakes
import Rumprun.Lib.SlotTable

/-! # Waiting in the rumpuser locks

`wait`, `wakeup_one` and `wakeup_all` of `rumpuser_synch.c`, on any number of wait
queues. A `struct waiter` is on the stack of the thread that waits, so the thread
names it. `wait` is cut at its `bmk_sched_block`. -/

namespace Rumprun.Rumpuser
open Core Scheduler Function

def ebusy : Int := 16

/-- `++` on an `int`. -/
def increment (v : Int) : Except Stop Int :=
  if v = 2 ^ 31 - 1 then .error (.undefined "signed overflow") else .ok (v + 1)

theorem increment_eq {v : Int} (small : v < 2 ^ 31 - 1) : increment v = .ok (v + 1) :=
  if_neg small.ne

theorem of_increment {v after : Int} (ran : increment v = .ok after) : after = v + 1 := by
  rw [increment] at ran
  split at ran
  · cases ran
  · exact (Except.ok.inj ran).symm

/-- Threads that wait on queues with heads in `W`. -/
structure WaitSys (W : Type) where
  sys : System
  head : W → List Tid
  onlist : Tid → Bool
  waiting : Tid → Option W

namespace WaitSys
variable {W : Type} [DecidableEq W]

def current (s : WaitSys W) : Tid := s.sys.sched.current

/-- `wait` up to its call of `bmk_sched_block`; `monotonic` is what the clock returns. -/
def waitStart (s : WaitSys W) (wh : W) (wakeup monotonic : Int) : Except Stop (WaitSys W) := do
  let wakeup := if wakeup ≠ inftime then toTime (wakeup + monotonic) else wakeup
  let sys ← s.sys.call (.blockprepareTimeout wakeup)
  return {
    sys := sys
    head := update s.head wh (s.head wh ++ [s.current])
    onlist := update s.onlist s.current true
    waiting := update s.waiting s.current (some wh) }

/-- `wait` after `bmk_sched_block` has returned, with its result. -/
def waitReturn (s : WaitSys W) : Except Stop (WaitSys W × Nat) :=
  match s.waiting s.current with
  | none => .error (.undefined "the thread is not in wait()")
  | some wh => do
    let left := { s with waiting := update s.waiting s.current none }
    if s.onlist s.current = true then
      let rest ← tailqRemove (s.head wh) s.current
      return ({ left with head := update s.head wh rest }, etimedout)
    else return (left, 0)

def wakeupOne (s : WaitSys W) (wh : W) : Except Stop (WaitSys W) :=
  match s.head wh with
  | [] => .ok s
  | who :: rest => do
    let sys ← s.sys.call (.wake who)
    return { s with
      sys := sys
      head := update s.head wh rest
      onlist := update s.onlist who false }

/-- The loop of `wakeup_all`, whose turns are those of `wakeup_one`. -/
def wakeupLoop (wh : W) : Nat → WaitSys W → Except Stop (WaitSys W)
  | fuel, s =>
    match s.head wh with
    | [] => .ok s
    | _ :: _ =>
      match fuel with
      | 0 => .error (.undefined "the wakeup loop does not end")
      | fuel + 1 => do wakeupLoop wh fuel (← s.wakeupOne wh)

def wakeupAll (s : WaitSys W) (wh : W) : Except Stop (WaitSys W) := wakeupLoop wh (s.head wh).length s

def sched (s : WaitSys W) (event : Event) : Except Stop (WaitSys W) := do
  return { s with sys := ← s.sys.step event }

/-- A thread in `wait` calls nothing but `bmk_sched_block`. -/
def GoesOn (s : WaitSys W) : Event → Prop
  | .call op => s.waiting s.current ≠ none → op = .block
  | _ => True

instance decidableGoesOn (s : WaitSys W) : ∀ event, Decidable (s.GoesOn event) := by
  intro event
  induction event using Event.casesOn <;> dsimp only [GoesOn] <;> infer_instance

def init (sys : System) : WaitSys W :=
  { sys := sys
    head := fun _ => []
    onlist := fun _ => false
    waiting := fun _ => none }

end WaitSys
open WaitSys

/-! ## The invariant -/

/-- The state after `wait` has prepared the current thread's sleep. -/
def WaitSys.asleepOn {W : Type} [DecidableEq W] (s : WaitSys W) (wh : W) (sched : Sched) : WaitSys W :=
  { sys := s.sys.goto sched (.prepared .caller)
    head := update s.head wh (s.head wh ++ [s.current])
    onlist := update s.onlist s.current true
    waiting := update s.waiting s.current (some wh) }

structure WaitInv {W : Type} (s : WaitSys W) : Prop where
  sys : SysInv s.sys
  mem_iff : ∀ wh t, t ∈ s.head wh ↔ s.waiting t = some wh ∧ s.onlist t = true
  nodup : ∀ wh, (s.head wh).Nodup
  inside : ∀ t wh, s.waiting t = some wh → (s.sys.pc t).inCallerBlock = true

namespace WaitInv
variable {W : Type} {s : WaitSys W}

theorem init {sys : System} (inv : SysInv sys) : WaitInv (init sys : WaitSys W) where
  sys := inv
  mem_iff := by
    intro wh t
    exact ⟨fun mem => absurd mem List.not_mem_nil, fun is => absurd is.1 nofun⟩
  nodup := fun _ => List.nodup_nil
  inside := fun _ _ is => absurd is nofun

theorem notDead (inv : WaitInv s) {t : Tid} {wh : W} (waits : s.waiting t = some wh) :
    s.sys.NotDead t := by
  have inside := inv.inside t wh waits
  have agrees := inv.sys.core.agrees t
  unfold Pc.inCallerBlock at inside
  split at inside
  · next place => rw [place] at agrees; exact ⟨agrees.2.1, agrees.2.2.2.2.2.2⟩
  · next place => rw [place] at agrees; exact ⟨agrees.1, agrees.2.2.2.2.2⟩
  · next place => rw [place] at agrees; exact ⟨agrees.2.1, agrees.2.2.2.2.2⟩
  · next place => rw [place] at agrees; exact ⟨agrees.2.1, agrees.2.2.2.2.2.2⟩
  · exact absurd inside Bool.false_ne_true

theorem sched (inv : WaitInv s) {event : Event} (allowed : s.sys.Admits event)
    (goesOn : s.GoesOn event) :
    ∃ sys, s.sys.step event = .ok sys ∧ s.sched event = .ok { s with sys := sys } ∧
      WaitInv { s with sys := sys } := by
  obtain ⟨sys, stepped, moves⟩ := inv.sys.steps event allowed
  refine ⟨sys, stepped, ?_, inv.sys.moves moves, inv.mem_iff, inv.nodup, ?_⟩
  · rw [WaitSys.sched, stepped]
    rfl
  · intro t wh waits
    apply inv.sys.inCallerBlock_step allowed stepped (inv.inside t wh waits)
    intro here op is
    subst is
    apply goesOn
    rw [current, ← here, waits]
    exact nofun

variable [DecidableEq W]

/-! ## `wait` -/

theorem waitStart (inv : WaitInv s) (wh : W) (wakeup monotonic : Int)
    (place : s.sys.pc s.current = .active .caller) (idle : s.waiting s.current = none) :
    ∃ sched, s.waitStart wh wakeup monotonic = .ok (s.asleepOn wh sched) ∧
      sched.current = s.current ∧ WaitInv (s.asleepOn wh sched) := by
  obtain ⟨sched, prepares, moves, same, -⟩ := inv.sys.prepare_caller place
    (if wakeup ≠ inftime then toTime (wakeup + monotonic) else wakeup)
  have fresh : ∀ w, s.current ∉ s.head w := by
    intro w mem
    have waits := ((inv.mem_iff w _).mp mem).1
    rw [idle] at waits
    cases waits
  refine ⟨sched, ?_, same, inv.sys.moves (moves ⟨False, False⟩), ?_, ?_, ?_⟩
  · rw [WaitSys.waitStart, prepares]
    rfl
  · intro w t
    dsimp only [asleepOn]
    by_cases here : t = s.current
    · subst here
      simp only [update_self, and_true, Option.some.injEq]
      by_cases there : w = wh
      · subst there
        simp
      · rw [update_of_ne there]
        exact iff_of_false (fresh w) fun is => there is.symm
    · simp only [update_of_ne here]
      by_cases there : w = wh
      · subst there
        simp [here, inv.mem_iff]
      · rw [update_of_ne there]
        exact inv.mem_iff w t
  · intro w
    dsimp only [asleepOn]
    by_cases there : w = wh
    · subst there
      rw [update_self]
      refine List.nodup_append.mpr ⟨inv.nodup w, List.pairwise_singleton _ _, ?_⟩
      intro t inW u isCur same
      rw [List.mem_singleton.mp isCur] at same
      exact fresh w (same ▸ inW)
    · rw [update_of_ne there]
      exact inv.nodup w
  · intro t w waits
    dsimp only [asleepOn] at waits ⊢
    rw [System.goto_pc]
    split
    · rfl
    · next here =>
        rw [update_of_ne (by exact here)] at waits
        exact inv.inside t w waits

theorem waitReturn (inv : WaitInv s) {wh : W} (waits : s.waiting s.current = some wh) :
    ∃ head result, s.waitReturn = .ok
        ({ s with head := head, waiting := update s.waiting s.current none }, result) ∧
      head = (if s.onlist s.current = true then
        update s.head wh ((s.head wh).erase s.current) else s.head) ∧
      result = (if s.onlist s.current = true then etimedout else 0) ∧
      WaitInv { s with head := head, waiting := update s.waiting s.current none } := by
  have inside : ∀ {t w}, update s.waiting s.current none t = some w →
      (s.sys.pc t).inCallerBlock = true := by
    intro t w still
    exact inv.inside t w (SlotTable.of_empty still).2
  rw [WaitSys.waitReturn, waits]
  dsimp only
  cases listed : s.onlist s.current with
  | true =>
    have mem := (inv.mem_iff wh _).mpr ⟨waits, listed⟩
    refine ⟨_, _, ?_, rfl, rfl, inv.sys, ?_, ?_, fun t w => inside⟩
    · rw [if_pos rfl, if_pos rfl, if_pos rfl, tailqRemove_eq mem]
      rfl
    · intro w t
      rw [if_pos rfl]
      dsimp only
      by_cases here : t = s.current
      · subst here
        rw [update_self]
        refine iff_of_false ?_ fun is => absurd is.1 nofun
        by_cases there : w = wh
        · subst there
          rw [update_self]
          exact (inv.nodup w).not_mem_erase
        · rw [update_of_ne there, inv.mem_iff, waits]
          exact fun is => there (Option.some.inj is.1).symm
      · rw [update_of_ne here, ← inv.mem_iff]
        by_cases there : w = wh
        · subst there
          rw [update_self, List.mem_erase_of_ne here]
        · rw [update_of_ne there]
    · intro w
      rw [if_pos rfl]
      dsimp only
      by_cases there : w = wh
      · subst there
        rw [update_self]
        exact (inv.nodup w).erase _
      · rw [update_of_ne there]
        exact inv.nodup w
  | false =>
    refine ⟨_, _, ?_, rfl, rfl, inv.sys, ?_, ?_, fun t w => inside⟩
    · simp only [Bool.false_eq_true, if_false]
      rfl
    · intro w t
      simp only [Bool.false_eq_true, if_false]
      by_cases here : t = s.current
      · subst here
        rw [update_self, inv.mem_iff, listed]
        exact iff_of_false (fun is => absurd is.2 Bool.false_ne_true) fun is => absurd is.1 nofun
      · rw [update_of_ne here]
        exact inv.mem_iff w t
    · intro w
      simp only [Bool.false_eq_true, if_false]
      exact inv.nodup w

/-! ## `wakeup_one` and `wakeup_all` -/

/-- Wakes change no place, and take no thread out of its `wait`. -/
structure Woke (s next : WaitSys W) : Prop where
  pc : next.sys.pc = s.sys.pc
  current : next.sys.sched.current = s.sys.sched.current
  waiting : next.waiting = s.waiting

omit [DecidableEq W] in
theorem Woke.refl (s : WaitSys W) : Woke s s := ⟨rfl, rfl, rfl⟩

omit [DecidableEq W] in
theorem Woke.trans {a b c : WaitSys W} (first : Woke a b) (second : Woke b c) : Woke a c :=
  ⟨second.pc.trans first.pc, second.current.trans first.current, second.waiting.trans first.waiting⟩

theorem wakeupOne_cons (inv : WaitInv s) {wh : W} {who : Tid} {rest : List Tid}
    (first : s.head wh = who :: rest) :
    s.wakeupOne wh = .ok { s with
        sys := { s.sys with sched := s.sys.sched.woken who }
        head := update s.head wh rest
        onlist := update s.onlist who false } ∧
      Woke s { s with
        sys := { s.sys with sched := s.sys.sched.woken who }
        head := update s.head wh rest
        onlist := update s.onlist who false } ∧
      WaitInv { s with
        sys := { s.sys with sched := s.sys.sched.woken who }
        head := update s.head wh rest
        onlist := update s.onlist who false } := by
  have mem : who ∈ s.head wh := by
    rw [first]
    exact List.mem_cons_self
  have waits := ((inv.mem_iff wh who).mp mem).1
  have alive := inv.notDead waits
  have nodup := inv.nodup wh
  rw [first, List.nodup_cons] at nodup
  have move : Move ⟨False, False⟩ s.sys { s.sys with sched := s.sys.sched.woken who } :=
    .wake who alive
  refine ⟨?_, ⟨rfl, Sched.woken_current .., rfl⟩, inv.sys.move move, ?_, ?_, inv.inside⟩
  · rw [WaitSys.wakeupOne, first]
    dsimp only
    rw [System.call, inv.sys.core.wake_eq alive]
    rfl
  · intro w t
    dsimp only
    by_cases here : t = who
    · subst here
      rw [update_self]
      refine iff_of_false ?_ fun is => absurd is.2 Bool.false_ne_true
      by_cases there : w = wh
      · subst there
        rw [update_self]
        exact nodup.1
      · rw [update_of_ne there, inv.mem_iff, waits]
        exact fun is => there (Option.some.inj is.1).symm
    · rw [update_of_ne here, ← inv.mem_iff]
      by_cases there : w = wh
      · subst there
        rw [update_self, first, List.mem_cons]
        exact ⟨.inr, fun is => is.resolve_left here⟩
      · rw [update_of_ne there]
  · intro w
    dsimp only
    by_cases there : w = wh
    · subst there
      rw [update_self]
      exact nodup.2
    · rw [update_of_ne there]
      exact inv.nodup w

theorem wakeupOne (inv : WaitInv s) (wh : W) :
    ∃ next, s.wakeupOne wh = .ok next ∧ WaitInv next ∧ Woke s next := by
  cases first : s.head wh with
  | nil =>
    refine ⟨s, ?_, inv, Woke.refl s⟩
    rw [WaitSys.wakeupOne, first]
  | cons who rest =>
    obtain ⟨ran, woke, after⟩ := inv.wakeupOne_cons first
    exact ⟨_, ran, after, woke⟩

theorem wakeupLoop (wh : W) (fuel : Nat) :
    ∀ {s : WaitSys W}, WaitInv s → (s.head wh).length ≤ fuel →
      ∃ next, WaitSys.wakeupLoop wh fuel s = .ok next ∧ WaitInv next ∧ Woke s next := by
  induction fuel with
  | zero =>
    intro s inv short
    have empty := List.length_eq_zero_iff.mp (Nat.le_zero.mp short)
    refine ⟨s, ?_, inv, Woke.refl s⟩
    rw [WaitSys.wakeupLoop, empty]
  | succ fuel ih =>
    intro s inv short
    cases first : s.head wh with
    | nil =>
      refine ⟨s, ?_, inv, Woke.refl s⟩
      rw [WaitSys.wakeupLoop, first]
    | cons who rest =>
      obtain ⟨ran, woke, after⟩ := inv.wakeupOne_cons first
      rw [first, List.length_cons] at short
      obtain ⟨next, looped, last, wokeRest⟩ := ih after (by
        dsimp only
        rw [update_self]
        exact Nat.le_of_succ_le_succ short)
      refine ⟨next, ?_, last, woke.trans wokeRest⟩
      rw [WaitSys.wakeupLoop, first]
      dsimp only
      rw [ran, ok_bind, looped]

theorem wakeupAll (inv : WaitInv s) (wh : W) :
    ∃ next, s.wakeupAll wh = .ok next ∧ WaitInv next ∧ Woke s next :=
  wakeupLoop wh _ inv le_rfl

end WaitInv
end Rumprun.Rumpuser
