import Rumprun.Hw.Clock

/-! # The i8254 timer, `arch/x86/clock.c` of hw

The idle loop programs the timer for a delay in nanoseconds, with a multiplier that is the rounded
reciprocal of a rounded quotient. The calibration of the TSC waits by counting the ticks from one
look at the counter to the next. -/

namespace Rumprun.Hw
open Core List

def timerHz : Nat := 1193182

/-! ## `bmk_platform_cpu_block` -/

def pitMult : Nat := 2 ^ 63 / (nsecPerSec * 2 ^ 31 / timerHz) % 2 ^ 32

def pitMinDelta : Nat := 16

/-- The two bytes written to `TIMER_CNTR`, if the function comes that far. The difference of the two
times is a word to `mul64_32`. -/
def bmkPlatformCpuBlock (arch : Arch) (spldepth now until_ : Int) :
    Except Stop (Option (Nat × Nat)) := do
  bmkAssert (decide (0 < spldepth)) "spldepth > 0"
  if until_ ≤ now then return none
  let deltaTicks := mul64_32 arch ((until_ - now) % 2 ^ 64).toNat pitMult
  if deltaTicks < pitMinDelta then return none
  let ticks := if 65535 < deltaTicks then 65535 else deltaTicks
  return some ((ticks - 1) % 2 ^ 8, (ticks - 1) / 2 ^ 8)

/-- The interrupt comes one tick after the count written, and that is not after `until`. -/
theorem cpuBlock_no_overshoot (arch : Arch) (spldepth now until_ : Int) (nowFits : -2 ^ 63 ≤ now)
    (untilFits : until_ < 2 ^ 63) (later : now < until_) :
    (0 < spldepth → ∃ written, bmkPlatformCpuBlock arch spldepth now until_ = .ok written) ∧
      (∀ low high, bmkPlatformCpuBlock arch spldepth now until_ = .ok (some (low, high)) →
        15 ≤ low + 2 ^ 8 * high ∧ low + 2 ^ 8 * high ≤ 65534 ∧
          ((low + 2 ^ 8 * high + 1) * nsecPerSec : Nat) ≤ (until_ - now) * timerHz) ∧
      (bmkPlatformCpuBlock arch spldepth now until_ = .ok none →
        (until_ - now) * timerHz < (pitMinDelta * nsecPerSec : Nat)) := by
  obtain ⟨delta, is⟩ := Int.eq_ofNat_of_zero_le (Int.sub_nonneg_of_le later.le)
  have mult : pitMult = 5124677 := by decide
  have ticks : mul64_32 arch delta pitMult = delta * 5124677 / 2 ^ 32 := by
    rw [mul64_32_eq arch (by omega) (by rw [mult]; decide), mult]
  have word : ((delta : Int) % 2 ^ 64).toNat = delta := by omega
  by_cases masked : 0 < spldepth
  case neg =>
    have stopped : ∀ written, bmkPlatformCpuBlock arch spldepth now until_ ≠ .ok written := by
      intro written ran
      obtain ⟨_, held, -⟩ := bind_eq_ok ran
      exact masked (of_decide_eq_true (bmkAssert_eq_ok held))
    exact ⟨fun held => absurd held masked, fun _ _ ran => absurd ran (stopped _),
      fun ran => absurd ran (stopped _)⟩
  have ran : bmkPlatformCpuBlock arch spldepth now until_ = _ :=
    bmkAssert_bind _ (decide_eq_true masked)
  rw [ran, if_neg (by omega), is]
  dsimp only
  rw [word, ticks]
  by_cases short : delta * 5124677 / 2 ^ 32 < pitMinDelta
  · rw [if_pos short]
    unfold pitMinDelta at short ⊢
    refine ⟨fun _ => ⟨_, rfl⟩, nofun, fun _ => ?_⟩
    unfold timerHz nsecPerSec
    omega
  · rw [if_neg short]
    unfold pitMinDelta at short
    refine ⟨fun _ => ⟨_, rfl⟩, fun low high written => ?_, nofun⟩
    cases written
    unfold timerHz nsecPerSec
    split <;> omega

theorem cpuBlock_no_overshoot_millisecond :
    ((168 + 2 ^ 8 * 4 + 1) * nsecPerSec : Nat) ≤ (1000000 - 0) * (timerHz : Int) :=
  ((cpuBlock_no_overshoot .x86_64 1 0 1000000 (by decide) (by decide) (by decide)).2.1 168 4
    (by decide)).2.2

/-! ## `i8254_delay` -/

def timerRval : Nat := timerHz / 100

/-- The body of the loop. The amounts are unsigned, `remaining` is an `int`. -/
def delayStep (remaining : Int) (initialTick curTick : Nat) : Int :=
  if initialTick < curTick then (remaining - (timerRval - (curTick - initialTick))).bmod (2 ^ 32)
  else (remaining - (initialTick - curTick)).bmod (2 ^ 32)

/-- The loop, on what the reads of the counter give; the reads that it does not make are returned. -/
def delayLoop : Int → Nat → List Nat → Int × List Nat
  | remaining, _, [] => (remaining, [])
  | remaining, initialTick, curTick :: rest =>
    if 1 < remaining then delayLoop (delayStep remaining initialTick curTick) curTick rest
    else (remaining, curTick :: rest)

def i8254Delay (n initialTick : Nat) (reads : List Nat) : Int × List Nat :=
  delayLoop (Int.bmod (n * timerHz % 2 ^ 64 / 1000000 : Nat) (2 ^ 32)) initialTick reads

/-- The counter at a time in ticks. In mode 2 it goes down from `timer_rval` to one. -/
def counter (phase time : Nat) : Nat := timerRval - (phase + time) % timerRval

theorem delayStep_counter (phase : Nat) {remaining : Int} {t u : Nat} (later : t ≤ u)
    (near : u < t + timerRval) (positive : 1 < remaining) (small : remaining < 2 ^ 31) :
    delayStep remaining (counter phase t) (counter phase u) = remaining - (u - t) := by
  unfold delayStep counter timerRval timerHz at *
  split
  · rw [Int.bmod_eq_of_le] <;> omega
  · rw [Int.bmod_eq_of_le] <;> omega

/-- Of the samples at `times` the loop makes those of `seen`, and `deadline` is when nothing remains. -/
theorem delayLoop_counter (phase : Nat) (deadline : Int) (times : List Nat) :
    ∀ now : Nat, (now :: times).IsChain (fun t u => t ≤ u ∧ u < t + timerRval) →
      deadline - now < 2 ^ 31 →
      ∃ seen rest, times = seen ++ rest ∧
        delayLoop (deadline - now) (counter phase now) (times.map (counter phase)) =
          (deadline - seen.getLastD now, rest.map (counter phase)) ∧
        (∀ t ∈ (now :: seen).dropLast, 1 < deadline - t) ∧
        (rest ≠ [] → deadline - seen.getLastD now ≤ 1) := by
  induction times with
  | nil => exact fun now _ _ => ⟨[], [], rfl, rfl, by simp, by simp⟩
  | cons u times ih =>
    intro now sampled small
    obtain ⟨⟨later, near⟩, sampled⟩ := isChain_cons_cons.1 sampled
    by_cases positive : 1 < deadline - now
    case neg =>
      exact ⟨[], u :: times, rfl, if_neg positive, by simp, fun _ => not_lt.1 positive⟩
    obtain ⟨seen, rest, split, looped, before, after⟩ := ih u sampled (by omega)
    refine ⟨u :: seen, rest, congrArg (u :: ·) split, ?_, ?_, by rwa [getLastD_cons]⟩
    · rw [map_cons, delayLoop, if_pos positive, delayStep_counter phase later near positive small,
        sub_sub_sub_cancel_right, getLastD_cons]
      exact looped
    · exact forall_mem_cons.2 ⟨positive, before⟩

/-- The ticks subtracted are those that went by since the first sample, and the loop ends with the first
sample at which less than two of those asked for remain. -/
theorem i8254Delay_exact (phase n first : Nat) (times : List Nat) (bound : n ≤ 10 ^ 9)
    (sampled : (first :: times).IsChain fun t u => t ≤ u ∧ u < t + timerRval) :
    ∃ seen rest, times = seen ++ rest ∧
      i8254Delay n (counter phase first) (times.map (counter phase)) =
        ((n * timerHz / 10 ^ 6 : Nat) - (seen.getLastD first - first : Int), rest.map (counter phase)) ∧
      (∀ t ∈ (first :: seen).dropLast, 2 ≤ (n * timerHz / 10 ^ 6 : Nat) - (t - first : Int)) ∧
      (rest ≠ [] → (n * timerHz / 10 ^ 6 : Nat) - (seen.getLastD first - first : Int) < 2) := by
  have asked : n * timerHz / 10 ^ 6 < 2 ^ 31 := by unfold timerHz; omega
  have starts : Int.bmod (n * timerHz % 2 ^ 64 / 1000000 : Nat) (2 ^ 32) =
      (n * timerHz / 10 ^ 6 : Nat) + first - first := by
    rw [Nat.mod_eq_of_lt (by unfold timerHz; omega), Int.bmod_eq_of_le (by omega) (by omega)]
    omega
  obtain ⟨seen, rest, split, looped, before, after⟩ :=
    delayLoop_counter phase ((n * timerHz / 10 ^ 6 : Nat) + first) times first sampled (by omega)
  refine ⟨seen, rest, split, ?_, fun t among => ?_, fun more => ?_⟩
  · rw [i8254Delay, starts, looped, sub_sub_eq_add_sub]
  · have := before t among
    omega
  · have := after more
    omega

/-- Eleven ticks, and the counter is reloaded between the two samples. -/
theorem i8254Delay_exact_reload :
    ∃ seen rest : List Nat, [11930, 11940, 11950] = seen ++ rest ∧
      i8254Delay 10 (counter 0 11925) [1, 11922, 11912] =
        (11 - (seen.getLastD 11925 - 11925 : Int), rest.map (counter 0)) :=
  have ⟨seen, rest, split, ran, _⟩ :=
    i8254Delay_exact 0 10 11925 [11930, 11940, 11950] (by decide) (by decide)
  ⟨seen, rest, split, ran⟩

end Rumprun.Hw
