import Mathlib.Data.Finset.Card

/-! # Tables of slots

A table with a fixed number of slots, each empty or in use, and a search for an empty one that goes
round from where the last search ended. -/

namespace SlotTable
open Function

universe u
variable {Value : Type u} {slots : Nat → Option Value} {n i : Nat}

section

universe v
variable {Key : Type v} [DecidableEq Key] {table : Key → Option Value} {key key' : Key}
  {value value' : Value}

theorem of_fill (is : update table key (some value) key' = some value') :
    key' = key ∧ value' = value ∨ key' ≠ key ∧ table key' = some value' := by
  by_cases same : key' = key
  · rw [same, update_self] at is
    exact .inl ⟨same, (Option.some.inj is).symm⟩
  · rw [update_of_ne same] at is
    exact .inr ⟨same, is⟩

theorem of_empty (is : update table key none key' = some value') :
    key' ≠ key ∧ table key' = some value' := by
  by_cases same : key' = key
  · rw [same, update_self] at is
    cases is
  · rw [update_of_ne same] at is
    exact ⟨same, is⟩

end

def inUse (slots : Nat → Option Value) (n : Nat) : Finset Nat :=
  (Finset.range n).filter fun i => (slots i).isSome

theorem mem_inUse : i ∈ inUse slots n ↔ i < n ∧ (slots i).isSome := by
  simp [inUse]

theorem card_inUse_le (slots : Nat → Option Value) (n : Nat) : (inUse slots n).card ≤ n := by
  have le := Finset.card_filter_le (Finset.range n) fun i => (slots i).isSome = true
  rwa [Finset.card_range] at le

theorem exists_empty (room : (inUse slots n).card < n) : ∃ i, i < n ∧ slots i = none := by
  by_contra full
  have all : Finset.range n ⊆ inUse slots n := by
    intro i mem
    rw [mem_inUse]
    refine ⟨Finset.mem_range.mp mem, ?_⟩
    rw [Option.isSome_iff_ne_none]
    exact fun empty => full ⟨i, Finset.mem_range.mp mem, empty⟩
  have le := Finset.card_le_card all
  rw [Finset.card_range] at le
  omega

theorem inUse_fill (within : i < n) (value : Value) :
    inUse (update slots i (some value)) n = insert i (inUse slots n) := by
  ext j
  by_cases same : j = i
  · simp [mem_inUse, same, within]
  · simp [mem_inUse, same]

theorem card_inUse_fill (within : i < n) (empty : slots i = none) (value : Value) :
    (inUse (update slots i (some value)) n).card = (inUse slots n).card + 1 := by
  rw [inUse_fill within, Finset.card_insert_of_notMem]
  simp [mem_inUse, empty]

theorem inUse_empty : inUse (update slots i none) n = (inUse slots n).erase i := by
  ext j
  by_cases same : j = i
  · simp [mem_inUse, same]
  · simp [mem_inUse, same]

theorem card_inUse_empty (within : i < n) (used : slots i ≠ none) :
    (inUse (update slots i none) n).card + 1 = (inUse slots n).card := by
  rw [inUse_empty]
  apply Finset.card_erase_add_one
  rw [mem_inUse]
  exact ⟨within, Option.isSome_iff_ne_none.mpr used⟩

/-! ## The search -/

/-- Goes on from `i`, and stops with nothing where it would come round to `start`. -/
def search (slots : Nat → Option Value) (n start : Nat) : Nat → Nat → Option Nat
  | 0, _ => none
  | fuel + 1, i =>
    if slots i = none then some i
    else if (i + 1) % n = start then none
    else search slots n start fuel ((i + 1) % n)

theorem search_spec {start : Nat} (within : start < n) (empty : i < n) (free : slots i = none) :
    ∀ fuel k, k + fuel = n → (∀ j, j < k → slots ((start + j) % n) ≠ none) →
      ∃ found, search slots n start fuel ((start + k) % n) = some found ∧ found < n ∧
        slots found = none := by
  intro fuel
  induction fuel with
  | zero =>
    intro k all used
    -- Every slot is `start + j` for some `j`.
    obtain ⟨j, less, same⟩ : ∃ j, j < n ∧ (start + j) % n = i := by
      refine ⟨(i + n - start) % n, Nat.mod_lt _ (by omega), ?_⟩
      rw [Nat.add_mod_mod, show start + (i + n - start) = i + n by omega, Nat.add_mod_right,
        Nat.mod_eq_of_lt empty]
    exact absurd free (by rw [← same]; exact used j (by omega))
  | succ fuel ih =>
    intro k all used
    rw [search]
    by_cases here : slots ((start + k) % n) = none
    · rw [if_pos here]
      exact ⟨_, rfl, Nat.mod_lt _ (by omega), here⟩
    · have next : ((start + k) % n + 1) % n = (start + (k + 1)) % n := by
        rw [Nat.mod_add_mod, Nat.add_assoc]
      have further : ∀ j, j < k + 1 → slots ((start + j) % n) ≠ none := by
        intro j less
        by_cases last : j = k
        · rw [last]
          exact here
        · exact used j (by omega)
      rw [if_neg here, next]
      obtain ⟨found, ran, is⟩ := ih (k + 1) (by omega) further
      by_cases round : (start + (k + 1)) % n = start
      · -- Then there is no further slot to look at.
        have whole : fuel = 0 := by
          by_contra more
          have small : k + 1 < n := by omega
          rcases Nat.lt_or_ge (start + (k + 1)) n with low | high
          · rw [Nat.mod_eq_of_lt low] at round
            omega
          · rw [Nat.mod_eq_sub_mod high, Nat.mod_eq_of_lt (by omega)] at round
            omega
        rw [whole] at ran
        cases ran
      · rw [if_neg round]
        exact ⟨found, ran, is⟩

theorem search_finds {start : Nat} (within : start < n) (room : (inUse slots n).card < n) :
    ∃ found, search slots n start n start = some found ∧ found < n ∧ slots found = none := by
  obtain ⟨i, less, empty⟩ := exists_empty room
  have spec := search_spec within less empty n 0 (Nat.zero_add n) (by simp)
  rwa [Nat.add_zero, Nat.mod_eq_of_lt within] at spec

end SlotTable
