import Rumprun.Base.Lwp
import Rumprun.Core.TimedSleeps

/-! # The deadlines of `_lwp_park`

`_lwp_park` turns its timespec into a deadline of the scheduler, which is a time of
the monotonic clock. An absolute time is taken for one of the wall clock, whatever
`clock_id` says, and a deadline of -1 is the scheduler's sign for no deadline. -/

namespace Rumprun.Base.Lwp
open Core Scheduler StepRuns

/-- The clocks of the platform: the wall clock is the monotonic one with an offset. -/
inductive Clock where
  | realtime
  | monotonic
  deriving DecidableEq, Repr

structure Park where
  clock : Clock
  args : ParkArgs
  deriving DecidableEq, Repr

def Timespec.nsecs (ts : Timespec) : Int := ts.tvSec * 1000 * 1000 * 1000 + ts.tvNsec

namespace Park

/-- What the named clock shows at a time of the monotonic clock. -/
def shows (park : Park) (time : Int) : Int :=
  match park.clock with
  | .realtime => time + park.args.epochoffset
  | .monotonic => time

def Reached (park : Park) (time : Int) : Prop :=
  ∀ ts ∈ park.args.ts,
    if park.args.abstime = true then ts.nsecs ≤ park.shows time
    else park.shows park.args.monotonic + ts.nsecs ≤ park.shows time

/-- The clocks and the timespec are 64-bit numbers, and the wall clock is not behind the other. -/
def InRange (park : Park) : Prop :=
  -2 ^ 63 ≤ park.args.monotonic ∧ park.args.monotonic < 2 ^ 63 ∧ 0 ≤ park.args.epochoffset ∧
    park.args.epochoffset < 2 ^ 63 ∧ ∀ ts ∈ park.args.ts,
      0 ≤ ts.tvSec ∧ ts.tvSec < 2 ^ 63 ∧ 0 ≤ ts.tvNsec ∧ ts.tvNsec < 1000 * 1000 * 1000

/-- A relative time does not overflow, nor does a time of the wall clock, and an absolute time of the
monotonic clock has passed or there is no offset. The deadline is not the -1 of the scheduler. -/
def Good (park : Park) : Prop :=
  ∀ ts ∈ park.args.ts,
    if park.args.abstime = true then
      ts.nsecs - park.args.epochoffset ≠ inftime ∧
        if park.clock = .realtime then ts.nsecs - park.args.epochoffset < 2 ^ 63
        else ts.nsecs ≤ park.args.monotonic ∨ park.args.epochoffset = 0 ∧ ts.nsecs < 2 ^ 63
    else ts.nsecs + park.args.monotonic ≠ inftime ∧ ts.nsecs + park.args.monotonic < 2 ^ 63

instance : DecidablePred InRange := fun _ => inferInstanceAs (Decidable (_ ∧ _))

instance : DecidablePred Good := fun park => by
  unfold Good
  infer_instance

/-- The monotonic time that the call is to wait for. -/
def right (park : Park) (ts : Timespec) : Int :=
  if park.args.abstime = true then
    match park.clock with
    | .realtime => ts.nsecs - park.args.epochoffset
    | .monotonic => ts.nsecs
  else ts.nsecs + park.args.monotonic

variable {park : Park} {ts : Timespec}

theorem reached_iff {time : Int} : park.Reached time ↔ ∀ ts ∈ park.args.ts, park.right ts ≤ time := by
  refine forall_congr' fun ts => imp_congr_right fun _ => ?_
  unfold right shows
  cases park.clock <;> split <;> dsimp only <;> omega

theorem parkDeadline_eq (is : park.args.ts = some ts) : Lwps.parkDeadline park.args =
    toTime (if park.args.abstime = true then ts.nsecs - park.args.epochoffset
      else ts.nsecs + park.args.monotonic) := by
  unfold Lwps.parkDeadline Timespec.nsecs toTime
  rw [is]
  dsimp only
  rw [Int.bmod_add_bmod]
  split
  · exact Int.bmod_sub_bmod
  · exact Int.bmod_add_bmod

theorem meets_iff_good (range : park.InRange) (is : park.args.ts = some ts) :
    Meets (Lwps.parkDeadline park.args) park.args.monotonic (park.right ts) ↔ park.Good := by
  obtain ⟨started, clock, offset, bounded, times⟩ := range
  obtain ⟨sec, -, nsec, -⟩ := times ts is
  have positive : 0 ≤ ts.nsecs := by
    unfold Timespec.nsecs
    omega
  have good : park.Good ↔ _ := ⟨fun good => good ts is, fun good ts' is' => by
    cases is.symm.trans is'; exact good⟩
  rw [good, parkDeadline_eq is]
  unfold right
  cases park.args.abstime with
  | false =>
    simp only [Bool.false_eq_true, if_false]
    rw [meets_toTime clock (by omega), and_comm]
  | true =>
    simp only [if_true]
    cases park.clock with
    | realtime =>
      rw [if_pos rfl, meets_toTime clock (by omega), and_comm]
    | monotonic =>
      rw [if_neg nofun, Scheduler.meets_iff]
      change _ ∧ ts.nsecs ≤ _ ↔ _
      by_cases fits : ts.nsecs - park.args.epochoffset < 2 ^ 63
      · rw [toTime_of_range (by omega) fits, le_max_iff]
        refine and_congr_right fun _ => or_congr_right ?_
        omega
      · have less := toTime_lt (ts.nsecs - park.args.epochoffset)
        constructor
        · rintro ⟨-, le⟩
          have := le.trans_lt (max_lt clock less)
          omega
        · rintro ⟨-, passed | ⟨-, small⟩⟩
          · omega
          · omega

end Park

/-! ## Runs -/

def parkDeadlineOf (park : Park) : Int := Lwps.parkDeadline park.args

def parkReading (park : Park) : Int := park.args.monotonic

/-- What `_lwp_park` returns, and its `errno`, when `bmk_sched_block` has returned `rv`. -/
def parkReturn (rv : Nat) : Int × Option Nat := if rv ≠ 0 then (-1, some rv) else (0, none)

structure ParksSound (s : SleepSys Park) : Prop where
  timedout : ∀ park rv, s.request s.current = some park →
    s.timed.sys.pc s.current = .resumed .caller → s.timed.sys.blockResult = .ok rv →
    parkReturn rv = (-1, some etimedout) → park.Reached s.now
  finite : ∀ t park, s.request t = some park → park.args.ts ≠ none → t ∉ s.timed.sys.sched.queue .blockq

def InRange : SleepEvent Park → Prop
  | .sleep park => park.InRange
  | _ => True

def Good : SleepEvent Park → Prop
  | .sleep park => park.Good
  | _ => True

instance : DecidablePred InRange := by
  intro event
  unfold InRange
  split <;> infer_instance

instance : DecidablePred Good := by
  intro event
  unfold Good
  split <;> infer_instance

/-- The parks that have not returned are good. -/
structure ParkInv (s : SleepSys Park) : Prop where
  sleeps : SleepInv parkDeadlineOf parkReading s
  good : ∀ t park, s.request t = some park → park.InRange ∧ park.Good

namespace ParkInv
variable {s : SleepSys Park}

theorem step {event : SleepEvent Park} (inv : ParkInv s)
    (allowed : s.Admits parkReading event) (range : InRange event) (good : Good event) :
    ∃ next, s.step parkDeadlineOf parkReading event = .ok next ∧ ParkInv next := by
  obtain ⟨next, stepped, sleeps⟩ := inv.sleeps.step allowed
  refine ⟨next, stepped, sleeps, ?_⟩
  intro t park asked
  rcases SleepSys.request_step stepped asked with ⟨rfl, -⟩ | ⟨before, -⟩
  · exact ⟨range, good⟩
  · exact inv.good t park before

theorem sound (inv : ParkInv s) : ParksSound s where
  timedout := by
    intro park rv asked place returned fails
    obtain ⟨⟨rv', returned', timesout⟩, due⟩ := inv.sleeps.resumed asked place
    rw [returned] at returned'
    cases Except.ok.inj returned'
    have is : rv = etimedout := by
      unfold parkReturn at fails
      split at fails
      · simpa using fails
      · simp at fails
    obtain ⟨curtime, expired⟩ := timesout.mp is
    obtain ⟨late, started, passed⟩ := due curtime expired
    obtain ⟨range, good⟩ := inv.good _ park asked
    rw [Park.reached_iff]
    intro ts is
    exact (((Park.meets_iff_good range is).mpr good).2 curtime started late).trans passed
  finite := by
    intro t park asked timed
    obtain ⟨ts, is⟩ := Option.ne_none_iff_exists'.mp timed
    obtain ⟨range, good⟩ := inv.good t park asked
    exact inv.sleeps.not_blocked asked ((Park.meets_iff_good range is).mpr good).1

end ParkInv

/-- The deadline that the call has computed is a time at which `_lwp_park` may fail with `ETIMEDOUT`,
and the sleep is not endless, exactly for the calls that are good. -/
theorem park_deadlines_of_good_calls (main stack stackSize tlsarea : Nat) (stacked : stack ≠ 0) :
    (∀ (park : Park) ts, park.InRange → park.args.ts = some ts →
      (Meets (Lwps.parkDeadline park.args) park.args.monotonic (park.right ts) ↔ park.Good)) ∧
    ∃ boot, System.start main stack stackSize tlsarea = .ok boot ∧
      ∀ now events, Admissible (fun s event => s.Admits parkReading event ∧ InRange event ∧ Good event)
          (SleepSys.step parkDeadlineOf parkReading) events (.init boot now) →
        Throughout ParksSound (SleepSys.step parkDeadlineOf parkReading) events (.init boot now) := by
  refine ⟨fun park ts range is => Park.meets_iff_good range is, _,
    System.start_eq main stackSize tlsarea stacked, ?_⟩
  intro now events allowed
  exact throughout_of_invariant ParkInv (fun _ inv => inv.sound)
    (fun _ _ inv allowed => inv.step allowed.1 allowed.2.1 allowed.2.2) events _
    ⟨.boot main stack tlsarea now, nofun⟩ allowed

theorem park_deadlines_of_good_calls_relative :
    ∃ boot, System.start 7 5 4096 64 = .ok boot ∧
      Throughout ParksSound (SleepSys.step parkDeadlineOf parkReading)
        [.sleep ⟨.monotonic, false, some ⟨0, 5⟩, 0, 1000, 100⟩, .sched (.call .block),
          .sched (.turn 105)] (.init boot 100) := by
  obtain ⟨-, boot, booted, runs⟩ := park_deadlines_of_good_calls 7 5 4096 64 (by decide)
  have allowed : ∀ sys ∈ (System.start 7 5 4096 64).toOption, Admissible
      (fun s event => s.Admits parkReading event ∧ InRange event ∧ Good event)
      (SleepSys.step parkDeadlineOf parkReading)
      [.sleep ⟨.monotonic, false, some ⟨0, 5⟩, 0, 1000, 100⟩, .sched (.call .block),
        .sched (.turn 105)] (.init sys 100) := by
    decide +kernel
  exact ⟨boot, booted, runs 100 _ (allowed boot (by rw [booted]; rfl))⟩

/-- A thread parks until 100 s of the monotonic clock, which shows 5 s, and the wall clock is ahead
by 1000 s: the park times out one nanosecond later. A thread parks until the wall clock shows the
time one nanosecond before the monotonic clock was at zero: it has no deadline. -/
theorem park_times_out_early_or_never :
    (∃ boot ∈ (System.start 7 5 4096 64).toOption,
      ∃ s ∈ (run (SleepSys.step parkDeadlineOf parkReading)
          [.sleep ⟨.monotonic, true, some ⟨100, 0⟩, 0, 1000000000000, 5000000000⟩,
            .sched (.call .block), .sched (.turn 5000000001)] (.init boot 5000000000)).toOption,
        s.timed.sys.pc s.current = .resumed .caller ∧
          s.timed.sys.blockResult.toOption.map parkReturn = some (-1, some etimedout) ∧
          s.now = 5000000001 ∧ s.now < 100 * 1000 * 1000 * 1000) ∧
    ∃ boot ∈ (System.start 7 5 4096 64).toOption,
      ∃ s ∈ (run (SleepSys.step parkDeadlineOf parkReading)
          [.sleep ⟨.realtime, true, some ⟨0, 999999999⟩, 0, 1000000000, 5000000000⟩,
            .sched (.call .block)] (.init boot 5000000000)).toOption,
        7 ∈ s.timed.sys.sched.queue .blockq := by
  decide +kernel

end Rumprun.Base.Lwp
