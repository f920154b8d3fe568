import Rumprun.Core.TimedSleeps

/-! # Timed sleeps of the rump kernel

`rumpuser_cv_timedwait` and `rumpuser_clock_sleep` turn a time into a 64-bit deadline of
the scheduler. Neither looks at what `bmk_sched_block` returns: `wait()` takes it for a
timeout that its waiter is still on the list. -/

namespace Rumprun.Rumpuser
open Core Scheduler StepRuns Function

inductive Rumpclock where
  | relwall
  | absmono
  deriving DecidableEq, Repr

/-- A call, with what the monotonic clock shows when it works out its deadline. -/
inductive TimedSleep where
  | cvTimedwait (sec nsec monotonic : Int)
  | clockSleep (rclk : Rumpclock) (sec nsec monotonic : Int)
  deriving DecidableEq, Repr

namespace TimedSleep

def deadline : TimedSleep → Int
  | .cvTimedwait sec nsec monotonic =>
    let wakeup := toTime (sec * 1000 * 1000 * 1000 + nsec)
    if wakeup ≠ inftime then toTime (wakeup + monotonic) else wakeup
  | .clockSleep rclk sec nsec monotonic =>
    let deadline := match rclk with
      | .relwall => monotonic
      | .absmono => 0
    toTime (deadline + toTime (sec * 1000 * 1000 * 1000 + nsec))

def reading : TimedSleep → Int
  | .cvTimedwait _ _ monotonic => monotonic
  | .clockSleep _ _ _ monotonic => monotonic

/-- The monotonic time that the call is to wait for. -/
def right : TimedSleep → Int
  | .cvTimedwait sec nsec monotonic => sec * 1000 * 1000 * 1000 + nsec + monotonic
  | .clockSleep .relwall sec nsec monotonic => monotonic + (sec * 1000 * 1000 * 1000 + nsec)
  | .clockSleep .absmono sec nsec _ => sec * 1000 * 1000 * 1000 + nsec

def nsecs : TimedSleep → Int × Int
  | .cvTimedwait sec nsec _ => (sec, nsec)
  | .clockSleep _ sec nsec _ => (sec, nsec)

def isTimedwait : TimedSleep → Bool
  | .cvTimedwait .. => true
  | .clockSleep .. => false

def InRange (call : TimedSleep) : Prop :=
  -2 ^ 63 ≤ call.reading ∧ call.reading < 2 ^ 63 ∧ 0 ≤ call.nsecs.1 ∧ call.nsecs.1 < 2 ^ 63 ∧
    0 ≤ call.nsecs.2 ∧ call.nsecs.2 < 1000 * 1000 * 1000

/-- The time does not overflow 64 bits, nor is it the -1 that stands for no deadline. A timed wait
also looks for -1 before it adds the clock. -/
def Good : TimedSleep → Prop
  | .cvTimedwait sec nsec monotonic =>
    sec * 1000 * 1000 * 1000 + nsec + monotonic < 2 ^ 63 ∧
      sec * 1000 * 1000 * 1000 + nsec + monotonic ≠ -1 ∧
      sec * 1000 * 1000 * 1000 + nsec ≠ 2 ^ 64 - 1
  | .clockSleep .relwall sec nsec monotonic =>
    monotonic + (sec * 1000 * 1000 * 1000 + nsec) < 2 ^ 63 ∧
      monotonic + (sec * 1000 * 1000 * 1000 + nsec) ≠ -1
  | .clockSleep .absmono sec nsec _ => sec * 1000 * 1000 * 1000 + nsec < 2 ^ 63

instance : DecidablePred InRange := fun _ => inferInstanceAs (Decidable (_ ∧ _))

instance : DecidablePred Good := fun call => by
  unfold Good
  split <;> infer_instance

theorem cvTimedwait_deadline {sec nsec monotonic : Int}
    (finite : toTime (sec * 1000 * 1000 * 1000 + nsec) ≠ inftime) :
    (cvTimedwait sec nsec monotonic).deadline = toTime (cvTimedwait sec nsec monotonic).right := by
  unfold deadline
  dsimp only
  rw [if_pos finite]
  exact Int.bmod_add_bmod

theorem clockSleep_deadline (rclk : Rumpclock) (sec nsec monotonic : Int) :
    (clockSleep rclk sec nsec monotonic).deadline =
      toTime (clockSleep rclk sec nsec monotonic).right := by
  cases rclk with
  | relwall => exact Int.add_bmod_bmod
  | absmono => exact Int.add_bmod_bmod.trans (by rw [Int.zero_add]; rfl)

/-- A time that the wait takes for no deadline is `2 ^ 64 - 1`, or it overflows. -/
theorem cvTimedwait_not_good {sec nsec monotonic : Int} (lower : -2 ^ 63 ≤ monotonic)
    (positive : 0 ≤ sec * 1000 * 1000 * 1000 + nsec)
    (none : toTime (sec * 1000 * 1000 * 1000 + nsec) = inftime) :
    ¬ (cvTimedwait sec nsec monotonic).Good := by
  rintro ⟨fits, -, other⟩
  simp only [toTime, inftime, Int.bmod_def] at none
  split at none <;> omega

theorem meets_iff_good {call : TimedSleep} (range : call.InRange) :
    Meets call.deadline call.reading call.right ↔ call.Good := by
  obtain ⟨lower, upper, secs, -, nanos, -⟩ := range
  cases call with
  | cvTimedwait sec nsec monotonic =>
    simp only [nsecs, reading] at *
    by_cases none : toTime (sec * 1000 * 1000 * 1000 + nsec) = inftime
    · have never : (cvTimedwait sec nsec monotonic).deadline = inftime := by
        unfold deadline
        dsimp only
        rw [none, if_neg (not_not.mpr rfl)]
      exact iff_of_false (fun meets => meets.1 never) (cvTimedwait_not_good lower (by omega) none)
    · rw [cvTimedwait_deadline none, meets_toTime upper (by simp only [right]; omega)]
      refine and_congr_right fun fits => ⟨fun other => ⟨other, ?_⟩, fun other => other.1⟩
      intro large
      rw [large] at none
      exact none rfl
  | clockSleep rclk sec nsec monotonic =>
    simp only [nsecs, reading] at *
    rw [clockSleep_deadline]
    cases rclk with
    | relwall => exact meets_toTime upper (by simp only [right]; omega)
    | absmono =>
      rw [meets_toTime upper (by simp only [right]; omega)]
      refine and_iff_left_of_imp fun _ => ?_
      simp only [right, inftime]
      omega

end TimedSleep

/-! ## Runs -/

namespace SleepRun

/-- Only a waiter of a condition variable is on a list that somebody wakes it from. -/
def Admits (s : SleepSys TimedSleep) (event : SleepEvent TimedSleep) : Prop :=
  s.Admits TimedSleep.reading event ∧
    match event with
    | .sleep call => call.InRange
    | .wakeup t => (s.request t).any TimedSleep.isTimedwait = true
    | .sched _ => True

/-- The call is good; nobody but a signal or a broadcast wakes the sleeper. -/
def Good (s : SleepSys TimedSleep) : SleepEvent TimedSleep → Prop
  | .sleep call => call.Good
  | .wakeup _ => True
  | .sched event => (s.timed.sys.wakes event).all (fun t => (s.request t).isNone) = true

instance (s : SleepSys TimedSleep) : DecidablePred (Admits s) := by
  intro event
  unfold Admits
  split <;> infer_instance

instance (s : SleepSys TimedSleep) : DecidablePred (Good s)
  | .sleep call => inferInstanceAs (Decidable call.Good)
  | .wakeup _ => .isTrue trivial
  | .sched _ => inferInstanceAs (Decidable (_ = true))

def step (s : SleepSys TimedSleep) (event : SleepEvent TimedSleep) :
    Except Stop (SleepSys TimedSleep) :=
  s.step TimedSleep.deadline TimedSleep.reading event

/-- What the thread that is back from `bmk_sched_block` reports. -/
def reports (s : SleepSys TimedSleep) : TimedSleep → Nat
  | .cvTimedwait .. => if s.onlist s.current = true then etimedout else 0
  | .clockSleep .. => 0

/-- A wait that reports a timeout and a sleep that returns are over in time. -/
structure Sound (s : SleepSys TimedSleep) : Prop where
  reached : ∀ call, s.request s.current = some call → s.timed.sys.pc s.current = .resumed .caller →
    (call.isTimedwait = true → reports s call = etimedout) → call.right ≤ s.now
  finite : ∀ t call, s.request t = some call → t ∉ s.timed.sys.sched.queue .blockq

structure Inv (s : SleepSys TimedSleep) : Prop where
  sleeps : SleepInv TimedSleep.deadline TimedSleep.reading s
  good : ∀ t call, s.request t = some call → call.InRange ∧ call.Good
  woken : ∀ t call, s.request t = some call → s.timed.fate t = .woken →
    s.onlist t = false ∧ call.isTimedwait = true

namespace Inv
variable {s : SleepSys TimedSleep}

theorem step {event : SleepEvent TimedSleep} (inv : Inv s) (allowed : Admits s event)
    (good : Good s event) : ∃ next, SleepRun.step s event = .ok next ∧ Inv next := by
  obtain ⟨next, stepped, sleeps⟩ := inv.sleeps.step allowed.1
  refine ⟨next, stepped, sleeps, ?_, ?_⟩
  · intro t call asked
    rcases SleepSys.request_step stepped asked with ⟨rfl, -⟩ | ⟨before, -⟩
    · exact ⟨allowed.2, good⟩
    · exact inv.good t call before
  · intro t call asked woken
    have before := SleepSys.request_step stepped asked
    cases event with
    | sleep other =>
      obtain ⟨timed, ran, is⟩ := bind_eq_ok stepped
      obtain ⟨sys, -, moved⟩ := bind_eq_ok ran
      cases is
      cases moved
      dsimp only at woken
      obtain ⟨was, quiet⟩ := nextFate_woken woken
      have here : t ≠ s.current := fun here => nomatch quiet here
      obtain ⟨off, listed⟩ := inv.woken t call (before.resolve_left fun both => here both.2).1
        (was.resolve_right nofun)
      exact ⟨(update_of_ne here ..).trans off, listed⟩
    | wakeup u =>
      obtain ⟨timed, ran, is⟩ := bind_eq_ok stepped
      obtain ⟨sys, -, moved⟩ := bind_eq_ok ran
      cases is
      cases moved
      dsimp only at asked woken ⊢
      by_cases here : t = u
      · subst here
        have listed := allowed.2
        dsimp only at listed
        rw [asked] at listed
        exact ⟨update_self .., listed⟩
      · have was := (nextFate_woken woken).1.resolve_right fun wakes => here (by cases wakes; rfl)
        rw [update_of_ne here]
        exact inv.woken t call asked was
    | sched event =>
      obtain ⟨timed, ran, is⟩ := bind_eq_ok stepped
      obtain ⟨sys, -, moved⟩ := bind_eq_ok ran
      cases is
      cases moved
      obtain ⟨sleeping, -⟩ := before.resolve_left nofun
      refine inv.woken t call sleeping ((nextFate_woken woken).1.resolve_right ?_)
      intro wakes
      simp only [Good] at good
      rw [wakes, Option.all_some, sleeping] at good
      cases good

theorem sound (inv : Inv s) : Sound s where
  reached := by
    intro call asked place reported
    obtain ⟨range, good⟩ := inv.good _ call asked
    have ended := inv.sleeps.tracks.resumed _ _ place
    obtain ⟨-, due⟩ := inv.sleeps.resumed asked place
    cases fate : s.timed.fate s.current with
    | idle | waiting => rw [fate] at ended; exact ended.elim
    | woken =>
      obtain ⟨off, listed⟩ := inv.woken _ call asked fate
      have timedout := reported listed
      cases call with
      | cvTimedwait => rw [reports, off] at timedout; cases timedout
      | clockSleep => cases listed
    | expired curtime =>
      obtain ⟨late, started, passed⟩ := due curtime fate
      exact (((TimedSleep.meets_iff_good range).mpr good).2 curtime started late).trans passed
  finite := by
    intro t call asked
    obtain ⟨range, good⟩ := inv.good t call asked
    exact inv.sleeps.not_blocked asked ((TimedSleep.meets_iff_good range).mpr good).1

end Inv

/-- The deadline of a call is in time, and there is one, exactly when the call is good. In every run
in which all calls are good and a sleeper is woken by a signal or a broadcast only, a timed wait that
reports a timeout and a sleep that returns have reached their time, and none of them waits for
good. -/
theorem timed_sleeps_of_good_calls (main stack stackSize tlsarea : Nat) (stacked : stack ≠ 0) :
    (∀ call : TimedSleep, call.InRange → (Meets call.deadline call.reading call.right ↔ call.Good)) ∧
    ∃ boot, System.start main stack stackSize tlsarea = .ok boot ∧
      ∀ now events,
        Admissible (fun s event => Admits s event ∧ Good s event) step events (.init boot now) →
        Throughout Sound step events (.init boot now) := by
  refine ⟨fun call range => TimedSleep.meets_iff_good range, _,
    System.start_eq main stackSize tlsarea stacked, ?_⟩
  intro now events allowed
  exact throughout_of_invariant Inv (fun _ inv => inv.sound)
    (fun _ _ inv allowed => inv.step allowed.1 allowed.2) events _
    ⟨.boot main stack tlsarea now, nofun, nofun⟩ allowed

theorem timed_sleeps_of_good_calls_short :
    ∃ boot, System.start 7 5 4096 64 = .ok boot ∧
      Throughout Sound step [.sleep (.clockSleep .relwall 0 5 100), .sched (.call .block),
        .sched (.turn 105)] (.init boot 100) := by
  obtain ⟨-, boot, booted, runs⟩ := timed_sleeps_of_good_calls 7 5 4096 64 (by decide)
  have allowed : ∀ sys ∈ (System.start 7 5 4096 64).toOption,
      Admissible (fun s event => Admits s event ∧ Good s event) step
        [.sleep (.clockSleep .relwall 0 5 100), .sched (.call .block), .sched (.turn 105)]
        (.init sys 100) := by
    decide +kernel
  exact ⟨boot, booted, runs 100 _ (allowed boot (by rw [booted]; rfl))⟩

/-- A thread waits for a second on a condition variable, and an interrupt wakes it: `wait()` reports
a timeout at once. A request of 2^64 - 1 ns, which is -1 in 64 bits, has no deadline. -/
theorem timed_sleep_ends_early_or_never :
    (∃ boot ∈ (System.start 7 5 4096 64).toOption,
      ∃ s ∈ (run step [.sleep (.cvTimedwait 1 0 100), .sched (.call .block),
          .sched (.interrupt 7), .sched (.turn 101)] (.init boot 100)).toOption,
        s.timed.sys.pc 7 = .resumed .caller ∧ reports s (.cvTimedwait 1 0 100) = etimedout ∧
          s.now = 101 ∧ (TimedSleep.cvTimedwait 1 0 100).right = 1000000100) ∧
    ∃ boot ∈ (System.start 7 5 4096 64).toOption,
      ∃ s ∈ (run step [.sleep (.cvTimedwait 18446744073 709551615 100), .sched (.call .block)]
          (.init boot 100)).toOption, 7 ∈ s.timed.sys.sched.queue .blockq := by
  decide +kernel

end SleepRun
end Rumprun.Rumpuser
