import Mathlib.Data.List.Basic

/-! # Rings with a read and a write index

A ring of `n` slots is empty where the indices are equal, and full with one slot left: what is in it
starts at the read index, and the slot at the write index is never part of it. -/

namespace IndexRing
open Function

universe u
variable {Value : Type u} {n read write : Nat} {slots : Nat → Value}

def next (n i : Nat) : Nat := (i + 1) % n

def count (n read write : Nat) : Nat := (write + n - read) % n

def contents (n : Nat) (slots : Nat → Value) (read write : Nat) : List Value :=
  (List.range (count n read write)).map fun k => slots ((read + k) % n)

theorem mod_of_lt_two {i : Nat} (less : i < 2 * n) : i % n = if i < n then i else i - n := by
  split
  · next small => exact Nat.mod_eq_of_lt small
  · next large =>
      rw [Nat.mod_eq_sub_mod (by omega)]
      exact Nat.mod_eq_of_lt (by omega)

theorem next_lt (n : Nat) {i : Nat} (within : i < n) : next n i < n := Nat.mod_lt _ (by omega)

theorem next_eq {i : Nat} (within : i < n) : next n i = if i + 1 < n then i + 1 else i + 1 - n :=
  mod_of_lt_two (by omega)

section
variable (readIn : read < n) (writeIn : write < n)
include readIn writeIn

theorem count_eq : count n read write = if read ≤ write then write - read else write + n - read := by
  rw [count, mod_of_lt_two (by omega)]
  split <;> split <;> omega

theorem full_iff : next n write = read ↔ count n read write + 1 = n := by
  rw [next_eq writeIn, count_eq readIn writeIn]
  split <;> split <;> omega

theorem count_push (room : next n write ≠ read) :
    count n read (next n write) = count n read write + 1 := by
  rw [count_eq readIn (next_lt n writeIn), count_eq readIn writeIn]
  rw [next_eq writeIn] at room ⊢
  split at room <;> split <;> split <;> split <;> omega

theorem count_pop (some_ : read ≠ write) : count n read write = count n (next n read) write + 1 := by
  rw [count_eq (next_lt n readIn) writeIn, count_eq readIn writeIn, next_eq readIn]
  split <;> split <;> split <;> omega

theorem slot_ne_write {k : Nat} (less : k < count n read write) : (read + k) % n ≠ write := by
  rw [count_eq readIn writeIn] at less
  rw [mod_of_lt_two (by split at less <;> omega)]
  split at less <;> split <;> omega

theorem slot_count : (read + count n read write) % n = write := by
  rw [count_eq readIn writeIn]
  rw [mod_of_lt_two (by split <;> omega)]
  split <;> split <;> omega

theorem contents_push (room : next n write ≠ read) (value : Value) :
    contents n (update slots write value) read (next n write) =
      contents n slots read write ++ [value] := by
  rw [contents, count_push readIn writeIn room, List.range_succ, List.map_append, List.map_singleton,
    slot_count readIn writeIn, update_self]
  congr 1
  apply List.map_congr_left
  intro k mem
  exact update_of_ne (slot_ne_write readIn writeIn (List.mem_range.mp mem)) _ _

theorem contents_pop (some_ : read ≠ write) :
    contents n slots read write = slots read :: contents n slots (next n read) write := by
  rw [contents, count_pop readIn writeIn some_, List.range_succ_eq_map, List.map_cons, Nat.add_zero,
    Nat.mod_eq_of_lt readIn, List.map_map]
  congr 1
  apply List.map_congr_left
  intro k _
  simp only [Function.comp_apply, next, Nat.mod_add_mod]
  rw [Nat.succ_eq_add_one, Nat.add_right_comm, Nat.add_assoc]

end

theorem length_contents : (contents n slots read write).length = count n read write := by
  simp [contents]

end IndexRing
