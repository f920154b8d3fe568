import Mathlib.Data.Nat.Bitwise
import Mathlib.Algebra.Order.Ring.Nat
import Mathlib.Data.BitVec

/-! # Arithmetic of a 64-bit unsigned machine word

Words are natural numbers below `2 ^ 64`; sums and differences wrap. The lemmas
give the exact value where nothing wraps, and say what the usual mask idioms
(round down, test a bit, lowest and highest set bit) compute. -/

namespace MachineWord
variable {a b x i k s : Nat}

def add (a b : Nat) : Nat := (a + b) % 2 ^ 64

def sub (a b : Nat) : Nat := (a + 2 ^ 64 - b) % 2 ^ 64

def neg (a : Nat) : Nat := sub 0 a

def mul (a b : Nat) : Nat := (a * b) % 2 ^ 64

def compl (a : Nat) : Nat := 2 ^ 64 - 1 - a

/-- Number of trailing zeros; 64 for zero, where the machine instruction is undefined. -/
def ctz (x : Nat) : Nat := ((List.range 64).find? fun i => x.testBit i).getD 64

def clz (x : Nat) : Nat := 63 - x.log2

theorem add_eq (fits : a + b < 2 ^ 64) : add a b = a + b := Nat.mod_eq_of_lt fits

theorem add_lt (a b : Nat) : add a b < 2 ^ 64 := Nat.mod_lt _ (by decide)

theorem sub_eq (le : b ≤ a) (fits : a < 2 ^ 64) : sub a b = a - b := by
  unfold sub
  have : a + 2 ^ 64 - b = a - b + 2 ^ 64 := by omega
  rw [this, Nat.add_mod_right, Nat.mod_eq_of_lt (by omega)]

theorem add_neg_eq (pos : 0 < b) (le : b ≤ a) (fits : a < 2 ^ 64) : add a (neg b) = a - b := by
  unfold add neg sub
  rw [zero_add, Nat.mod_eq_of_lt (show 2 ^ 64 - b < 2 ^ 64 by omega)]
  have : a + (2 ^ 64 - b) = a - b + 2 ^ 64 := by omega
  rw [this, Nat.add_mod_right, Nat.mod_eq_of_lt (by omega)]

/-! ## Masks -/

theorem testBit_compl (fits : x < 2 ^ 64) :
    (compl x).testBit i = (decide (i < 64) && !x.testBit i) := by
  have shape : compl x = 2 ^ 64 - (x + 1) := by unfold compl; omega
  rw [shape, Nat.testBit_two_pow_sub_succ fits]

theorem and_compl_mask (fits : x < 2 ^ 64) (le : k ≤ 64) :
    x &&& compl (2 ^ k - 1) = x / 2 ^ k * 2 ^ k := by
  have maskFits : 2 ^ k - 1 < 2 ^ 64 := by
    have := Nat.pow_le_pow_right (n := 2) (by omega) le
    omega
  apply Nat.eq_of_testBit_eq
  intro i
  rw [Nat.testBit_and, testBit_compl maskFits, Nat.testBit_two_pow_sub_one, mul_comm,
    Nat.testBit_two_pow_mul, Nat.testBit_div_two_pow]
  by_cases high : k ≤ i
  · rw [Nat.sub_add_cancel high]
    by_cases top : i < 64
    · simp [high, top]
    · have : x.testBit i = false :=
        Nat.testBit_lt_two_pow (lt_of_lt_of_le fits (Nat.pow_le_pow_right (by omega) (by omega)))
      simp [this]
  · have low : i < k := by omega
    simp [high, low]

theorem and_mask_eq_zero_iff (x k : Nat) : x &&& (2 ^ k - 1) = 0 ↔ 2 ^ k ∣ x := by
  rw [Nat.and_two_pow_sub_one_eq_mod, Nat.dvd_iff_mod_eq_zero]

theorem and_two_pow_ne_zero_iff (x k : Nat) : x &&& 2 ^ k ≠ 0 ↔ x / 2 ^ k % 2 = 1 := by
  rw [Nat.and_two_pow, Nat.testBit_eq_decide_div_mod_eq]
  by_cases bit : x / 2 ^ k % 2 = 1
  · simp [bit]
  · simp [bit]

/-! ## Lowest and highest set bit -/

theorem dvd_of_testBit_false (low : ∀ i, i < k → x.testBit i = false) : 2 ^ k ∣ x := by
  rw [Nat.dvd_iff_mod_eq_zero]
  apply Nat.eq_of_testBit_eq
  intro i
  rw [Nat.testBit_mod_two_pow, Nat.zero_testBit]
  by_cases lt : i < k
  · simp [low i lt]
  · simp [lt]

theorem ctz_spec (pos : x ≠ 0) (fits : x < 2 ^ 64) :
    x.testBit (ctz x) = true ∧ (∀ i, i < ctz x → x.testBit i = false) ∧ ctz x < 64 := by
  obtain ⟨i, bit⟩ := Nat.exists_testBit_of_ne_zero pos
  have small : i < 64 := by
    by_contra ge
    have : x.testBit i = false :=
      Nat.testBit_lt_two_pow (lt_of_lt_of_le fits (Nat.pow_le_pow_right (by omega) (by omega)))
    simp [this] at bit
  have found : ((List.range 64).find? fun i => x.testBit i).isSome := by
    rw [List.find?_isSome]
    exact ⟨i, List.mem_range.mpr small, bit⟩
  obtain ⟨j, hj⟩ := Option.isSome_iff_exists.mp found
  have value : ctz x = j := by simp [ctz, hj]
  rw [List.find?_range_eq_some] at hj
  rw [value]
  refine ⟨hj.1, ?_, List.mem_range.mp hj.2.1⟩
  intro k lt
  simpa using hj.2.2 k lt

theorem two_pow_ctz_dvd (pos : x ≠ 0) (fits : x < 2 ^ 64) : 2 ^ ctz x ∣ x :=
  dvd_of_testBit_false (ctz_spec pos fits).2.1

theorem le_ctz_of_dvd (pos : x ≠ 0) (fits : x < 2 ^ 64) (dvd : 2 ^ k ∣ x) : k ≤ ctz x := by
  by_contra lt
  have bit := (ctz_spec pos fits).1
  obtain ⟨m, rfl⟩ := dvd
  rw [Nat.testBit_two_pow_mul] at bit
  simp [show ¬ k ≤ ctz (2 ^ k * m) by omega] at bit

-- The search through 64 positions is never unfolded below; the three lemmas above are its interface.
attribute [irreducible] ctz

theorem top_bit_eq (pos : x ≠ 0) (fits : x < 2 ^ 64) : 64 - (clz x + 1) = x.log2 := by
  have : x.log2 < 64 := (Nat.log2_lt pos).mpr fits
  unfold clz
  omega

/-! ## Bit masks in a 64-bit vector -/

theorem shiftLeft_one_toNat (lt : s < 64) : ((1#64) <<< s).toNat = 2 ^ s := by
  have : 2 ^ s < 2 ^ 64 := Nat.pow_lt_pow_right (by omega) lt
  rw [BitVec.toNat_shiftLeft, Nat.shiftLeft_eq]
  simp only [BitVec.toNat_ofNat, Nat.one_mod_two_pow_eq_one.mpr (show 0 < 64 by omega), one_mul]
  exact Nat.mod_eq_of_lt this

theorem getLsbD_neg_shiftLeft_one (lt : s < 64) :
    (-((1#64) <<< s)).getLsbD i = (decide (s ≤ i) && decide (i < 64)) := by
  have small : 2 ^ s < 2 ^ 64 := Nat.pow_lt_pow_right (by omega) lt
  have pos := Nat.two_pow_pos s
  rw [← BitVec.testBit_toNat, BitVec.toNat_neg, shiftLeft_one_toNat lt, Nat.mod_eq_of_lt (by omega)]
  have shape : 2 ^ 64 - 2 ^ s = 2 ^ 64 - ((2 ^ s - 1) + 1) := by omega
  rw [shape, Nat.testBit_two_pow_sub_succ (by omega), Nat.testBit_two_pow_sub_one]
  by_cases le : s ≤ i
  · simp [le]
  · simp [le, show i < s by omega]

theorem getLsbD_shiftLeft_one_sub_one {e : Nat} (lt : e < 64) :
    (((1#64) <<< e) - 1#64).getLsbD i = decide (i < e) := by
  have small : 2 ^ e < 2 ^ 64 := Nat.pow_lt_pow_right (by omega) lt
  have pos := Nat.two_pow_pos e
  rw [← BitVec.testBit_toNat, BitVec.toNat_sub, shiftLeft_one_toNat lt]
  have shape : (2 ^ 64 - (1#64).toNat + 2 ^ e) = 2 ^ e - 1 + 2 ^ 64 := by
    simp only [BitVec.toNat_ofNat]
    omega
  rw [shape, Nat.add_mod_right, Nat.mod_eq_of_lt (by omega), Nat.testBit_two_pow_sub_one]

end MachineWord
