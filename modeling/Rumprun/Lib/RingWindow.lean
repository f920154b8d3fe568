import Mathlib.Algebra.Order.Ring.Nat
import Mathlib.Data.List.Basic

/-! # Rings with free-running indices

Positions count without end, and position `p` is in slot `p % size`. What lies in a window of at
most `size` positions is in different slots. The indices of a machine are the positions modulo
`2 ^ 32`, which the size divides. -/

namespace RingWindow
open Function

variable {α : Type*} {size start p q : Nat} {slots : Nat → α} {l : List α} {x : α}

theorem slot_ne (lt : p < q) (near : q < p + size) : p % size ≠ q % size := by
  intro same
  have dvd : size ∣ q - p := Nat.dvd_of_mod_eq_zero (Nat.sub_mod_eq_zero_of_mod_eq same.symm)
  have le := Nat.le_of_dvd (Nat.sub_pos_of_lt lt) dvd
  omega

theorem slot_ofNat (dvd : size ∣ 2 ^ 32) (p : Nat) : (BitVec.ofNat 32 p).toNat % size = p % size := by
  rw [BitVec.toNat_ofNat, Nat.mod_mod_of_dvd _ dvd]

/-- Two indices that are not far apart are equal only if their positions are. -/
theorem ofNat_eq_iff (le : p ≤ q) (near : q < p + 2 ^ 32) : BitVec.ofNat 32 p = BitVec.ofNat 32 q ↔ p = q := by
  rw [← BitVec.toNat_inj, BitVec.toNat_ofNat, BitVec.toNat_ofNat]
  omega

/-- The slots from position `start` on hold `l`. -/
def Holds (size : Nat) (slots : Nat → α) (start : Nat) (l : List α) : Prop :=
  ∀ k x, l[k]? = some x → slots ((start + k) % size) = x

namespace Holds

theorem nil : Holds size slots start [] := nofun

theorem head (holds : Holds size slots start (x :: l)) : slots (start % size) = x := holds 0 x rfl

theorem tail (holds : Holds size slots start (x :: l)) : Holds size slots (start + 1) l := by
  intro k y is
  rw [Nat.add_assoc, Nat.add_comm 1 k]
  exact holds (k + 1) y is

theorem store_apart (holds : Holds size slots start l)
    (apart : ∀ k < l.length, (start + k) % size ≠ q % size) :
    Holds size (update slots (q % size) x) start l := by
  intro k y is
  have within := (List.getElem?_eq_some_iff.mp is).1
  rw [update_of_ne (apart k within)]
  exact holds k y is

/-- A store behind the window, and less than a turn of the ring from its start. -/
theorem store_after (holds : Holds size slots start l) (after : start + l.length ≤ q)
    (near : q < start + size) : Holds size (update slots (q % size) x) start l :=
  holds.store_apart fun _ within => slot_ne (by omega) (by omega)

/-- A store before the window, and less than a turn of the ring from its end. -/
theorem store_before (holds : Holds size slots start l) (before : q < start)
    (near : start + l.length ≤ q + size) : Holds size (update slots (q % size) x) start l :=
  holds.store_apart fun _ within => (slot_ne (by omega) (by omega)).symm

theorem push (holds : Holds size slots start l) (near : l.length < size) :
    Holds size (update slots ((start + l.length) % size) x) start (l ++ [x]) := by
  intro k y is
  rcases Nat.lt_trichotomy k l.length with within | here | beyond
  · rw [List.getElem?_append_left within] at is
    exact holds.store_after (Nat.le_refl _) (by omega) k y is
  · subst here
    rw [List.getElem?_concat_length, Option.some.injEq] at is
    rw [update_self, is]
  · rw [List.getElem?_eq_none (by simp only [List.length_append, List.length_singleton]; omega)] at is
    cases is

end Holds
end RingWindow
