import Rumprun.Core.Timeouts

/-! # Sleeps until a deadline

A call that reads the clock, works out a deadline and sleeps in `bmk_sched_block`.
A thread leaves its sleep because of the deadline, because of a `wakeup` that belongs to
the call and takes the thread off its list, or because somebody else has woken it. -/

namespace Rumprun.Core.Scheduler
open Function
variable {fate : Fate} {deadline reading now m right : Int}

structure SleepSys (R : Type) where
  timed : TimedSys
  request : Tid → Option R
  onlist : Tid → Bool
  now : Int

inductive SleepEvent (R : Type) where
  | sleep (r : R)
  | wakeup (t : Tid)
  | sched (event : Event)

/-- The clock that a step of the scheduler reads. -/
def Event.clock (now : Int) : Event → Int
  | .turn curtime => curtime
  | _ => now

/-- In its sleep a thread goes on only when it has returned from `schedule()`. -/
def Event.ends : Event → Bool
  | .advance => true
  | .call (.blockprepareTimeout _) => true
  | _ => false

namespace SleepSys
variable {R : Type} (deadline reading : R → Int)

def current (s : SleepSys R) : Tid := s.timed.sys.sched.current

def step (s : SleepSys R) : SleepEvent R → Except Stop (SleepSys R)
  | .sleep r => do
    let timed ← s.timed.step (.call (.blockprepareTimeout (deadline r)))
    return {
      timed := timed
      request := update s.request s.current (some r)
      onlist := update s.onlist s.current true
      now := reading r }
  | .wakeup t => do
    let timed ← s.timed.step (.call (.wake t))
    return { s with timed := timed, onlist := update s.onlist t false }
  | .sched event => do
    let timed ← s.timed.step event
    return { s with
      timed := timed
      request := if event.ends = true then update s.request s.current none else s.request
      now := event.clock s.now }

def Admits (s : SleepSys R) : SleepEvent R → Prop
  | .sleep r => s.timed.sys.pc s.current = .active .caller ∧ s.now ≤ reading r
  | .wakeup t => s.timed.sys.AdmitsOp (.wake t) ∧ s.onlist t = true
  | .sched event => s.timed.sys.Admits event ∧ s.now ≤ event.clock s.now

instance decidableAdmits (s : SleepSys R) : ∀ event, Decidable (s.Admits reading event) := by
  intro event
  unfold Admits
  split <;> infer_instance

def init (sys : System) (now : Int) : SleepSys R :=
  { timed := .init sys, request := fun _ => none, onlist := fun _ => false, now := now }

variable {deadline reading}

theorem request_step {s next : SleepSys R} {event : SleepEvent R}
    (stepped : s.step deadline reading event = .ok next) {t : Tid} {r : R}
    (asked : next.request t = some r) :
    event = .sleep r ∧ t = s.current ∨
      s.request t = some r ∧ ∀ r', event = .sleep r' → t ≠ s.current := by
  cases event with
  | sleep other =>
    obtain ⟨timed, -, is⟩ := bind_eq_ok stepped
    cases is
    dsimp only at asked
    by_cases here : t = s.current
    · rw [here, update_self] at asked
      cases asked
      exact .inl ⟨rfl, here⟩
    · exact .inr ⟨(update_of_ne here ..).symm.trans asked, fun _ _ => here⟩
  | wakeup u =>
    obtain ⟨timed, -, is⟩ := bind_eq_ok stepped
    cases is
    exact .inr ⟨asked, nofun⟩
  | sched event =>
    obtain ⟨timed, -, is⟩ := bind_eq_ok stepped
    cases is
    refine .inr ⟨?_, nofun⟩
    dsimp only at asked
    split at asked
    · by_cases here : t = s.current
      · rw [here, update_self] at asked
        cases asked
      · exact (update_of_ne here ..).symm.trans asked
    · exact asked

end SleepSys

/-- How a sleep until `deadline` that began at `reading` stands. -/
def Outcome (deadline reading now : Int) : Fate → Prop
  | .idle => False
  | .waiting asked => asked = deadline ∧ reading ≤ now
  | .woken => True
  | .expired curtime => deadline ≠ inftime ∧ deadline ≤ curtime ∧ reading ≤ curtime ∧ curtime ≤ now

theorem nextFate_woken {sys : System} {event : Event} {t : Tid}
    (woken : nextFate sys event t fate = .woken) :
    (fate = .woken ∨ sys.wakes event = some t) ∧
      (t = sys.sched.current → sys.prepares event = none) := by
  unfold nextFate at woken
  split at woken
  · split at woken
    · cases woken
    · next other => exact ⟨.inl woken, fun here => absurd here other⟩
  · next none =>
    refine ⟨?_, fun _ => none⟩
    split at woken
    · cases fate with
      | waiting asked =>
        simp only [Fate.pass] at woken
        split at woken
        · cases woken
        · cases woken
      | woken => exact .inl rfl
      | _ => cases woken
    · split at woken
      · next wakes => exact .inr wakes
      · exact .inl woken

section
variable (outcome : Outcome deadline reading now fate)
include outcome

theorem Outcome.later {now' : Int} (le : now ≤ now') : Outcome deadline reading now' fate := by
  cases fate with
  | idle => exact outcome
  | waiting asked => exact ⟨outcome.1, outcome.2.trans le⟩
  | woken => trivial
  | expired curtime => exact ⟨outcome.1, outcome.2.1, outcome.2.2.1, outcome.2.2.2.trans le⟩

theorem Outcome.wake : Outcome deadline reading now fate.wake := by
  cases fate with
  | waiting asked => trivial
  | _ => exact outcome

theorem Outcome.pass {curtime : Int} (le : now ≤ curtime) :
    Outcome deadline reading curtime (fate.pass curtime) := by
  have later := outcome.later le
  cases fate with
  | waiting asked =>
    obtain ⟨rfl, started⟩ := outcome
    by_cases due : asked ≠ inftime ∧ asked ≤ curtime
    · rw [Fate.pass, if_pos due]
      exact ⟨due.1, due.2, started.trans le, le_rfl⟩
    · rw [Fate.pass, if_neg due]
      exact later
  | _ => exact later

end

structure SleepInv {R : Type} (deadline reading : R → Int) (s : SleepSys R) : Prop where
  tracks : Tracks s.timed
  outcome : ∀ t r, s.request t = some r → Outcome (deadline r) (reading r) s.now (s.timed.fate t)

namespace SleepInv
variable {R : Type} {deadline reading : R → Int} {s : SleepSys R} {t : Tid} {r : R}

theorem boot (main stack tlsarea : Nat) (now : Int) :
    SleepInv deadline reading (.init (System.mainOnly main stack tlsarea) now) :=
  ⟨.boot main stack tlsarea, nofun⟩

theorem fate_step (event : Event) {d m : Int} (apart : t ≠ s.current ∨ event.ends = false)
    (outcome : Outcome d m s.now (s.timed.fate t)) (le : s.now ≤ event.clock s.now) :
    Outcome d m (event.clock s.now) (nextFate s.timed.sys event t (s.timed.fate t)) := by
  have later := outcome.later le
  unfold nextFate
  cases asks : s.timed.sys.prepares event with
  | some asked =>
    have ends : event.ends = true := by
      unfold System.prepares at asks
      split at asks
      · rfl
      · rfl
      · cases asks
    have other : t ≠ s.timed.sys.sched.current := apart.resolve_right (by rw [ends]; nofun)
    dsimp only
    rw [if_neg other]
    exact later
  | none =>
    cases event with
    | turn curtime => exact outcome.pass le
    | _ =>
      dsimp only
      split
      · exact later.wake
      · exact later

variable (inv : SleepInv deadline reading s)
include inv

theorem step {event : SleepEvent R} (allowed : s.Admits reading event) :
    ∃ next, s.step deadline reading event = .ok next ∧ SleepInv deadline reading next := by
  cases event with
  | sleep r =>
    have admitted : s.timed.Admits (.call (.blockprepareTimeout (deadline r))) := allowed.1
    obtain ⟨timed, stepped, tracks⟩ := inv.tracks.step admitted
    refine ⟨_, by rw [SleepSys.step, stepped]; rfl, tracks, ?_⟩
    obtain ⟨sys, -, is⟩ := bind_eq_ok stepped
    cases is
    intro t r' asked
    dsimp only at asked ⊢
    by_cases here : t = s.current
    · subst here
      rw [update_self] at asked
      cases asked
      simp only [nextFate, System.prepares]
      rw [if_pos (by rfl)]
      exact ⟨rfl, le_rfl⟩
    · rw [update_of_ne here] at asked
      simp only [nextFate, System.prepares]
      rw [if_neg (show t ≠ s.timed.sys.sched.current from here)]
      exact (inv.outcome t r' asked).later allowed.2
  | wakeup t =>
    have admitted : s.timed.Admits (.call (.wake t)) := allowed.1
    obtain ⟨timed, stepped, tracks⟩ := inv.tracks.step admitted
    refine ⟨_, by rw [SleepSys.step, stepped]; rfl, tracks, ?_⟩
    obtain ⟨sys, -, is⟩ := bind_eq_ok stepped
    cases is
    intro u r asked
    exact fate_step (.call (.wake t)) (.inr rfl) (inv.outcome u r asked) le_rfl
  | sched event =>
    obtain ⟨timed, stepped, tracks⟩ := inv.tracks.step allowed.1
    refine ⟨_, by rw [SleepSys.step, stepped]; rfl, tracks, ?_⟩
    obtain ⟨sys, -, is⟩ := bind_eq_ok stepped
    cases is
    intro t r asked
    dsimp only at asked ⊢
    cases ends : event.ends with
    | false =>
      rw [ends, if_neg Bool.false_ne_true] at asked
      exact fate_step event (.inr ends) (inv.outcome t r asked) allowed.2
    | true =>
      rw [ends, if_pos rfl] at asked
      by_cases here : t = s.current
      · rw [here, update_self] at asked
        cases asked
      · rw [update_of_ne here] at asked
        exact fate_step event (.inl here) (inv.outcome t r asked) allowed.2

theorem not_blocked (asked : s.request t = some r) (finite : deadline r ≠ inftime) :
    t ∉ s.timed.sys.sched.queue .blockq := by
  intro queued
  have core := inv.tracks.sys.core
  obtain ⟨live, named⟩ := (core.queues.mem_iff _ _).mp queued
  have agrees := core.agrees t
  have waits : (s.timed.sys.pc t).waits = true := by
    cases place : s.timed.sys.pc t with
    | prepared | blocking => rfl
    | virgin => rw [place] at agrees; rw [agrees.2.2.1] at named; exact absurd named (by decide)
    | active | resumed | yielded => rw [place] at agrees; rw [agrees.2.2.1] at named; cases named
    | yielding => rw [place] at agrees; rw [agrees.2.1] at named; exact absurd named (by decide)
    | gone => rw [place] at agrees; rw [(agrees live).1] at named; cases named
  have fits := inv.tracks.waits t waits
  have outcome := inv.outcome t r asked
  have mask : .blockq ∈ (s.timed.sys.sched.wait t).qmask := named
  cases fate : s.timed.fate t with
  | idle => rw [fate] at fits; exact fits
  | waiting asked' =>
    rw [fate] at fits outcome
    rw [fits, outcome.1, Sched.waitQueue, if_pos finite] at mask
    cases Finset.mem_singleton.mp mask
  | woken | expired => rw [fate] at fits; rw [fits.2] at mask; exact absurd mask (by decide)

theorem resumed {site : Site} (asked : s.request s.current = some r)
    (place : s.timed.sys.pc s.current = .resumed site) :
    (∃ rv, s.timed.sys.blockResult = .ok rv ∧
      (rv = etimedout ↔ ∃ curtime, s.timed.fate s.current = .expired curtime)) ∧
    ∀ curtime, s.timed.fate s.current = .expired curtime →
      deadline r ≤ curtime ∧ reading r ≤ curtime ∧ curtime ≤ s.now := by
  refine ⟨inv.tracks.sound.result site place, ?_⟩
  intro curtime is
  have outcome := inv.outcome _ r asked
  rw [is] at outcome
  exact outcome.2

end SleepInv

/-! ## 64-bit deadlines -/

theorem toTime_of_range {x : Int} (lower : -2 ^ 63 ≤ x) (upper : x < 2 ^ 63) : toTime x = x := by
  rw [toTime, Int.bmod_def]
  split <;> omega

theorem toTime_lt (x : Int) : toTime x < 2 ^ 63 := by
  rw [toTime, Int.bmod_def]
  split <;> omega

/-- A sleep that begins at `m` is as long as it should be: it ends, and not before `right`. -/
def Meets (deadline m right : Int) : Prop :=
  deadline ≠ inftime ∧ ∀ curtime, m ≤ curtime → deadline ≤ curtime → right ≤ curtime

theorem meets_iff : Meets deadline m right ↔ deadline ≠ inftime ∧ right ≤ max m deadline := by
  refine and_congr_right fun _ => ⟨?_, ?_⟩
  · intro late
    exact late _ (le_max_left _ _) (le_max_right _ _)
  · intro le curtime started due
    exact le.trans (max_le started due)

theorem meets_toTime (clock : m < 2 ^ 63) (lower : -2 ^ 63 ≤ right) :
    Meets (toTime right) m right ↔ right < 2 ^ 63 ∧ right ≠ inftime := by
  rw [meets_iff]
  constructor
  · rintro ⟨finite, le⟩
    have fits : right < 2 ^ 63 := le.trans_lt (max_lt clock (toTime_lt right))
    rw [toTime_of_range lower fits] at finite
    exact ⟨fits, finite⟩
  · rintro ⟨fits, finite⟩
    rw [toTime_of_range lower fits]
    exact ⟨finite, le_max_right _ _⟩

end Rumprun.Core.Scheduler
