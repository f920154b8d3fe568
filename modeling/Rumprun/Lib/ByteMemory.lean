import Mathlib.Tactic.Ring

/-! # A memory of bytes

A memory gives every address a byte, and integers are kept in it little-endian.
What was stored is loaded again, and an access sees only its own bytes:
`store_apart` and `load_congr` are the frame rules. -/

namespace ByteMemory
open Function

abbrev Memory := Nat → UInt8

def load (memory : Memory) (addr : Nat) : Nat → Nat
  | 0 => 0
  | count + 1 => (memory addr).toNat + 2 ^ 8 * load memory (addr + 1) count

def store (memory : Memory) (addr : Nat) : Nat → Nat → Memory
  | 0, _ => memory
  | count + 1, value =>
    update (store memory (addr + 1) count (value / 2 ^ 8)) addr (UInt8.ofNat value)

theorem store_apart {memory : Memory} {x : Nat} : ∀ {count addr : Nat} (value : Nat),
    x < addr ∨ addr + count ≤ x → store memory addr count value x = memory x := by
  intro count
  induction count with
  | zero => intro addr value _; rfl
  | succ count ih =>
    intro addr value apart
    have ne : x ≠ addr := by omega
    rw [store, update_of_ne ne]
    exact ih _ (by omega)

theorem load_congr {first second : Memory} : ∀ {count addr : Nat},
    (∀ x, addr ≤ x → x < addr + count → first x = second x) →
      load first addr count = load second addr count := by
  intro count
  induction count with
  | zero => intro addr _; rfl
  | succ count ih =>
    intro addr same
    have here : first addr = second addr := same addr (le_refl _) (by omega)
    have rest : load first (addr + 1) count = load second (addr + 1) count :=
      ih fun x lower upper => same x (by omega) (by omega)
    rw [load, load, here, rest]

theorem load_store_apart {memory : Memory} {addr count other width : Nat} (value : Nat)
    (apart : addr + count ≤ other ∨ other + width ≤ addr) :
    load (store memory other width value) addr count = load memory addr count := by
  apply load_congr
  intro x lower upper
  exact store_apart value (by omega)

theorem load_store {memory : Memory} : ∀ {count addr value : Nat}, value < 2 ^ (8 * count) →
    load (store memory addr count value) addr count = value := by
  intro count
  induction count with
  | zero =>
    intro addr value small
    simp only [Nat.mul_zero, pow_zero, Nat.lt_one_iff] at small
    rw [load, small]
  | succ count ih =>
    intro addr value small
    have high : value / 2 ^ 8 < 2 ^ (8 * count) := by
      apply Nat.div_lt_of_lt_mul
      rw [← pow_add]
      convert small using 2
      omega
    -- the byte at `addr` is written last and is none of the bytes behind it
    have behind : load (store memory addr (count + 1) value) (addr + 1) count = value / 2 ^ 8 := by
      have same : load (store memory addr (count + 1) value) (addr + 1) count =
          load (store memory (addr + 1) count (value / 2 ^ 8)) (addr + 1) count := by
        apply load_congr
        intro x lower _
        exact update_of_ne (by omega) _ _
      rw [same]
      exact ih high
    rw [load, behind, store, update_self, UInt8.toNat_ofNat']
    omega

end ByteMemory
