import Rumprun.Core.Platform
import Rumprun.Lib.MachineWord
import Mathlib.Tactic.Ring

/-! # The TSC clock, `arch/x86/clock.c` of hw and of seL4

Both keep a time and the TSC value it belongs to; a read moves the two on by a fixed
point multiplication. They differ in the type of `tsc_mult` and in where the
frequency comes from. `bmk_time_t` is the word of `time_base` with a sign. -/

namespace Rumprun.Hw
open Core MachineWord

inductive Arch where
  | x86_64
  | i386
  deriving DecidableEq, Repr

inductive Platform where
  | hw
  | sel4
  deriving DecidableEq, Repr

/-- `mul64_32`, on the registers of the two instruction sequences. -/
def mul64_32 (arch : Arch) (a b : Nat) : Nat :=
  match arch with
  | .x86_64 =>
    let rdx := a * b / 2 ^ 64
    let rax := a * b % 2 ^ 64
    -- `shrd $32` shifts the low half of `rdx` into `rax`
    rdx % 2 ^ 32 * 2 ^ 32 + rax / 2 ^ 32
  | .i386 =>
    let h := a / 2 ^ 32
    let l := a % 2 ^ 32
    let t1 := l * b / 2 ^ 32
    let eax := h * b % 2 ^ 32 + t1
    let edx := h * b / 2 ^ 32 + eax / 2 ^ 32
    edx % 2 ^ 32 * 2 ^ 32 + eax % 2 ^ 32

theorem mul64_32_eq (arch : Arch) {a b : Nat} (hA : a < 2 ^ 64) (hB : b < 2 ^ 32) :
    mul64_32 arch a b = a * b / 2 ^ 32 := by
  cases arch with
  | x86_64 =>
    have product : a * b < 2 ^ 64 * 2 ^ 32 := Nat.mul_lt_mul'' hA hB
    dsimp only [mul64_32]
    omega
  | i386 =>
    have split : a * b = a / 2 ^ 32 * b * 2 ^ 32 + a % 2 ^ 32 * b := by
      conv_lhs => rw [← Nat.div_add_mod a (2 ^ 32)]
      ring
    have high : a / 2 ^ 32 * b ≤ (2 ^ 32 - 1) * (2 ^ 32 - 1) := Nat.mul_le_mul (by omega) (by omega)
    have low : a % 2 ^ 32 * b ≤ (2 ^ 32 - 1) * (2 ^ 32 - 1) := Nat.mul_le_mul (by omega) (by omega)
    dsimp only [mul64_32]
    rw [split]
    omega

/-- The copies of hw and of seL4 are one text, so this is about both. -/
theorem mul64_32_exact (arch : Arch) {a b : Nat} (hA : a < 2 ^ 64) (hB : b < 2 ^ 32) :
    mul64_32 arch a b = a * b / 2 ^ 32 ∧ a * b / 2 ^ 32 < 2 ^ 64 := by
  refine ⟨mul64_32_eq arch hA hB, ?_⟩
  have product : a * b < 2 ^ 64 * 2 ^ 32 := Nat.mul_lt_mul'' hA hB
  omega

theorem mul64_32_exact_largest :
    mul64_32 .i386 (2 ^ 64 - 1) (2 ^ 32 - 1) = (2 ^ 64 - 1) * (2 ^ 32 - 1) / 2 ^ 32 :=
  (mul64_32_exact .i386 (by decide) (by decide)).1

def nsecPerSec : Nat := 1000000000

/-- A 64-bit word read as `bmk_time_t`. -/
def bmkTime (word : Nat) : Int := if word < 2 ^ 63 then word else (word : Int) - 2 ^ 64

structure TscClock where
  timeBase : Nat
  tscBase : Nat
  tscMult : Nat
  deriving DecidableEq, Repr

/-- The width of `tsc_mult`: `uint32_t` on hw, `uint64_t` on seL4. -/
def Platform.tscMultBits : Platform → Nat
  | .hw => 32
  | .sel4 => 64

namespace TscClock

/-- What `mul64_32` gets for its `uint32_t`. -/
def multiplier (c : TscClock) : Nat := c.tscMult % 2 ^ 32

/-- The end of `tscclock_init` and the body of `arch_init_clocks`. -/
def start (platform : Platform) (arch : Arch) (tscFreq tscBase : Nat) : Except Stop TscClock :=
  if tscFreq = 0 then
    .error (.undefined "division by zero")
  else
    let tscMult := nsecPerSec * 2 ^ 32 / tscFreq % 2 ^ platform.tscMultBits
    .ok { timeBase := mul64_32 arch tscBase (tscMult % 2 ^ 32), tscBase := tscBase, tscMult := tscMult }

/-- `tscNow` is the second `rdtsc()`, after a delay of 0.1 s. -/
def tscclockInit (arch : Arch) (tscBase tscNow : Nat) : Except Stop TscClock :=
  start .hw arch (mul (sub tscNow tscBase) 10) tscBase

def archInitClocks (arch : Arch) (tscFreq tscBase : Nat) : Except Stop TscClock :=
  start .sel4 arch tscFreq tscBase

/-- `tscclock_monotonic` and `arch_cpu_clock_monotonic`, which return `time_base`. -/
def monotonic (arch : Arch) (c : TscClock) (tscNow : Nat) : TscClock :=
  let tscDelta := sub tscNow c.tscBase
  { c with
    timeBase := add c.timeBase (mul64_32 arch tscDelta c.multiplier)
    tscBase := tscNow }

def times (arch : Arch) : TscClock → List Nat → List Int
  | _, [] => []
  | c, tsc :: rest => bmkTime (c.monotonic arch tsc).timeBase :: times arch (c.monotonic arch tsc) rest

/-- After `k` reads, the last of them of `tsc`: every one has cut off less than a nanosecond. -/
structure Tracks (mult k tsc : Nat) (c : TscClock) : Prop where
  tscBase : c.tscBase = tsc
  multiplier : c.multiplier = mult
  ahead : c.timeBase * 2 ^ 32 ≤ tsc * mult
  behind : tsc * mult < (c.timeBase + k + 1) * 2 ^ 32

namespace Tracks
variable {mult k tsc : Nat} {c : TscClock}

theorem step (arch : Arch) (tracks : Tracks mult k tsc c) {tscNow : Nat} (multFits : mult < 2 ^ 32)
    (later : tsc ≤ tscNow) (tscFits : tscNow < 2 ^ 64) :
    Tracks mult (k + 1) tscNow (c.monotonic arch tscNow) ∧
      c.timeBase ≤ (c.monotonic arch tscNow).timeBase := by
  have delta : sub tscNow c.tscBase = tscNow - tsc := by
    rw [tracks.tscBase]
    exact sub_eq later tscFits
  have parts : tscNow * mult = tsc * mult + (tscNow - tsc) * mult := by
    rw [← add_mul, Nat.add_sub_cancel' later]
  have bound : tscNow * mult < 2 ^ 64 * 2 ^ 32 := Nat.mul_lt_mul'' tscFits multFits
  have ahead := tracks.ahead
  have behind := tracks.behind
  have time : (c.monotonic arch tscNow).timeBase = c.timeBase + (tscNow - tsc) * mult / 2 ^ 32 := by
    rw [monotonic, delta, tracks.multiplier, mul64_32_eq arch (by omega) multFits]
    exact add_eq (by omega)
  refine ⟨⟨rfl, tracks.multiplier, ?_, ?_⟩, ?_⟩
  · rw [time, parts, add_mul]
    exact Nat.add_le_add ahead (Nat.div_mul_le_self _ _)
  · rw [time, parts]
    clear time parts bound
    generalize (tscNow - tsc) * mult = gain
    omega
  · rw [time]
    exact Nat.le_add_right _ _

theorem bmkTime_eq (tracks : Tracks mult k tsc c) (fits : tsc * mult / 2 ^ 32 < 2 ^ 63) :
    bmkTime c.timeBase = c.timeBase := by
  have ahead := tracks.ahead
  exact if_pos (by omega)

end Tracks

theorem times_spec (arch : Arch) {mult : Nat} (multFits : mult < 2 ^ 32) :
    ∀ (tscs : List Nat) (k tsc : Nat) (c : TscClock), Tracks mult k tsc c →
      (tsc :: tscs).Pairwise (· ≤ ·) → (∀ t ∈ tscs, t < 2 ^ 64 ∧ t * mult / 2 ^ 32 < 2 ^ 63) →
      (∀ time ∈ times arch c tscs, (c.timeBase : Int) ≤ time) ∧ (times arch c tscs).Pairwise (· ≤ ·) ∧
      ∀ (i t : Nat), tscs[i]? = some t → ∃ time : Nat, (times arch c tscs)[i]? = some (time : Int) ∧
        time * 2 ^ 32 ≤ t * mult ∧ t * mult < (time + (k + (i + 1)) + 1) * 2 ^ 32 := by
  intro tscs
  induction tscs with
  | nil =>
    intro k tsc c _ _ _
    exact ⟨nofun, .nil, nofun⟩
  | cons now rest ih =>
    intro k tsc c tracks sorted fits
    obtain ⟨nowFits, scaled⟩ := fits now List.mem_cons_self
    obtain ⟨tracks', grows⟩ := tracks.step arch multFits
      ((List.pairwise_cons.mp sorted).1 now List.mem_cons_self) nowFits
    obtain ⟨later, ordered, close⟩ := ih (k + 1) now _ tracks' (List.pairwise_cons.mp sorted).2
      fun t mem => fits t (List.mem_cons_of_mem _ mem)
    rw [times, tracks'.bmkTime_eq scaled]
    refine ⟨?_, List.pairwise_cons.mpr ⟨later, ordered⟩, ?_⟩
    · intro time mem
      have grows' : (c.timeBase : Int) ≤ (c.monotonic arch now).timeBase := by exact_mod_cast grows
      rcases List.mem_cons.mp mem with rfl | mem
      · exact grows'
      · exact grows'.trans (later time mem)
    · intro i t is
      cases i with
      | zero =>
        cases is
        exact ⟨_, rfl, tracks'.ahead, tracks'.behind⟩
      | succ i =>
        obtain ⟨time, at_, ahead, behind⟩ := close i t is
        refine ⟨time, at_, ahead, ?_⟩
        rwa [Nat.add_right_comm k 1, add_assoc k] at behind

theorem start_eq (platform : Platform) (arch : Arch) {tscFreq tscBase : Nat} (positive : tscFreq ≠ 0)
    (fits : tscBase < 2 ^ 64) :
    ∃ clock, start platform arch tscFreq tscBase = .ok clock ∧
      clock.tscMult = nsecPerSec * 2 ^ 32 / tscFreq % 2 ^ platform.tscMultBits ∧
      clock.multiplier = nsecPerSec * 2 ^ 32 / tscFreq % 2 ^ 32 ∧
      Tracks clock.multiplier 0 tscBase clock := by
  have used : nsecPerSec * 2 ^ 32 / tscFreq % 2 ^ platform.tscMultBits % 2 ^ 32 =
      nsecPerSec * 2 ^ 32 / tscFreq % 2 ^ 32 := by
    cases platform with
    | hw => exact Nat.mod_mod _ _
    | sel4 => exact Nat.mod_mod_of_dvd _ (by decide)
  have time := mul64_32_eq arch fits (Nat.mod_lt (nsecPerSec * 2 ^ 32 / tscFreq) (by decide : 0 < 2 ^ 32))
  refine ⟨_, if_neg positive, rfl, used, rfl, rfl, ?_, ?_⟩
  · rw [multiplier, used, time]
    exact Nat.div_mul_le_self _ _
  · rw [multiplier, used, time]
    dsimp only
    omega

theorem quotient_lt_iff {tscFreq : Nat} (positive : tscFreq ≠ 0) :
    nsecPerSec * 2 ^ 32 / tscFreq < 2 ^ 32 ↔ nsecPerSec < tscFreq := by
  rw [Nat.div_lt_iff_lt_mul (pos_of_ne_zero positive), mul_comm (2 ^ 32)]
  exact Nat.mul_lt_mul_right (by decide)

/-- The times never decrease, are never ahead of the frequency, and are behind by what
the start and the reads have cut off. -/
theorem tscclock_accuracy (platform : Platform) (arch : Arch) (tscFreq tscBase : Nat)
    (fast : nsecPerSec < tscFreq) (baseFits : tscBase < 2 ^ 64) :
    ∃ clock, start platform arch tscFreq tscBase = .ok clock ∧
      ∀ tscs : List Nat, (tscBase :: tscs).Pairwise (· ≤ ·) →
        (∀ tsc ∈ tscs, tsc < 2 ^ 64 ∧ tsc * clock.tscMult / 2 ^ 32 < 2 ^ 63) →
        (times arch clock tscs).Pairwise (· ≤ ·) ∧
        ∀ (i tsc : Nat), tscs[i]? = some tsc →
          ∃ time : Nat, (times arch clock tscs)[i]? = some (time : Int) ∧
            time * tscFreq ≤ tsc * nsecPerSec ∧
            tsc * clock.tscMult < (time + (i + 1) + 1) * 2 ^ 32 := by
  have positive : tscFreq ≠ 0 := by omega
  obtain ⟨clock, started, stored, used, tracks⟩ := start_eq platform arch positive baseFits
  have small := (quotient_lt_iff positive).mpr fast
  have bits : 2 ^ 32 ≤ 2 ^ platform.tscMultBits := by cases platform <;> decide
  rw [Nat.mod_eq_of_lt (by omega)] at stored
  rw [Nat.mod_eq_of_lt small, ← stored] at used
  rw [used] at tracks
  refine ⟨clock, started, ?_⟩
  intro tscs sorted fits
  obtain ⟨-, ordered, close⟩ := times_spec arch (by omega) tscs 0 tscBase clock tracks sorted fits
  refine ⟨ordered, ?_⟩
  intro i tsc is
  obtain ⟨time, at_, ahead, behind⟩ := close i tsc is
  refine ⟨time, at_, ?_, by rwa [zero_add] at behind⟩
  have rate : clock.tscMult * tscFreq ≤ nsecPerSec * 2 ^ 32 := by
    rw [stored]
    exact Nat.div_mul_le_self _ _
  have scaled : time * tscFreq * 2 ^ 32 ≤ tsc * nsecPerSec * 2 ^ 32 := by
    calc time * tscFreq * 2 ^ 32 = time * 2 ^ 32 * tscFreq := by ring
      _ ≤ tsc * clock.tscMult * tscFreq := Nat.mul_le_mul_right _ ahead
      _ = tsc * (clock.tscMult * tscFreq) := mul_assoc _ _ _
      _ ≤ tsc * (nsecPerSec * 2 ^ 32) := Nat.mul_le_mul_left _ rate
      _ = tsc * nsecPerSec * 2 ^ 32 := (mul_assoc _ _ _).symm
  exact Nat.le_of_mul_le_mul_right scaled (by decide)

theorem tscclock_accuracy_two_reads :
    ∃ clock, start .hw .x86_64 2000000000 1000 = .ok clock ∧
      times .x86_64 clock [1001, 3000] = [500, 1499] ∧
      (times .x86_64 clock [1001, 3000]).Pairwise (· ≤ ·) := by
  obtain ⟨clock, started, accurate⟩ :=
    tscclock_accuracy .hw .x86_64 2000000000 1000 (by decide) (by decide)
  have is : start .hw .x86_64 2000000000 1000 = .ok ⟨500, 1000, 2147483648⟩ := by decide
  rw [is] at started
  cases started
  exact ⟨_, is, by decide, (accurate [1001, 3000] (by decide) (by decide)).1⟩

/-- The multiplier is the quotient, and a clock in any state that is read `tsc_freq` ticks later has
advanced by a second, short of one nanosecond and what the quotient was cut by. -/
def KeepsSeconds (platform : Platform) (arch : Arch) (tscFreq : Nat) : Prop :=
  ∀ tscBase < 2 ^ 64, ∃ clock, start platform arch tscFreq tscBase = .ok clock ∧
    clock.multiplier = 2 ^ 32 * nsecPerSec / tscFreq ∧
    ∀ c : TscClock, c.tscMult = clock.tscMult → c.tscBase < 2 ^ 64 →
      ∃ advance, (c.monotonic arch (add c.tscBase tscFreq)).timeBase = add c.timeBase advance ∧
        advance ≤ nsecPerSec ∧ nsecPerSec * 2 ^ 32 < (advance + 1) * 2 ^ 32 + tscFreq

/-- The quotient has to fit the 32 bits of the multiplier. -/
theorem keepsSeconds_iff (platform : Platform) (arch : Arch) (tscFreq : Nat) (positive : tscFreq ≠ 0)
    (fits : tscFreq < 2 ^ 64) : KeepsSeconds platform arch tscFreq ↔ nsecPerSec < tscFreq := by
  rw [← quotient_lt_iff positive]
  constructor
  · intro keeps
    obtain ⟨clock, started, exact_, -⟩ := keeps 0 (by decide)
    rw [mul_comm (2 ^ 32)] at exact_
    rw [← exact_]
    exact Nat.mod_lt _ (by decide)
  · intro small tscBase baseFits
    obtain ⟨clock, started, -, used, -⟩ := start_eq platform arch positive baseFits
    rw [Nat.mod_eq_of_lt small] at used
    refine ⟨clock, started, by rw [used, mul_comm], ?_⟩
    intro c same base
    have delta : sub (add c.tscBase tscFreq) c.tscBase = tscFreq := by
      unfold sub add
      omega
    refine ⟨tscFreq * (nsecPerSec * 2 ^ 32 / tscFreq) / 2 ^ 32, ?_, ?_, ?_⟩
    · rw [monotonic, delta, multiplier, same]
      rw [multiplier] at used
      rw [used, mul64_32_eq arch fits small]
    · exact Nat.div_le_of_le_mul (mul_comm _ nsecPerSec ▸ Nat.mul_div_le _ _)
    · have above := Nat.lt_mul_div_succ (nsecPerSec * 2 ^ 32) (pos_of_ne_zero positive)
      rw [Nat.mul_add, Nat.mul_one] at above
      refine above.trans (Nat.add_lt_add_right ?_ _)
      rw [mul_comm (_ + 1)]
      exact Nat.lt_mul_div_succ _ (by decide)

theorem keepsSeconds_two_ghz : KeepsSeconds .sel4 .i386 2000000000 :=
  (keepsSeconds_iff .sel4 .i386 2000000000 (by decide) (by decide)).mpr (by decide)

/-- The calibration finds 1 GHz: the quotient is `2 ^ 32`, the multiplier 0, and time stands still. -/
theorem one_ghz_stands_still :
    ¬ KeepsSeconds .hw .x86_64 (mul (sub 100000500 500) 10) ∧
      tscclockInit .x86_64 500 100000500 = .ok ⟨0, 500, 0⟩ ∧
      times .x86_64 ⟨0, 500, 0⟩ [1000000500, 2000000500] = [0, 0] := by
  refine ⟨?_, by decide, by decide⟩
  intro keeps
  obtain ⟨clock, started, exact_, -⟩ := keeps 500 (by decide)
  have is : start .hw .x86_64 (mul (sub 100000500 500) 10) 500 = .ok ⟨0, 500, 0⟩ := by decide
  rw [is] at started
  cases started
  exact absurd exact_ (by decide)

end TscClock
end Rumprun.Hw
