import Mathlib.Tactic.Ring
import Mathlib.Order.Interval.Finset.Nat
import Mathlib.Order.CompletePartialOrder

/-! # Naturally aligned power-of-two blocks of the natural numbers

A block of exponent `k` starts at a multiple of `2 ^ k` and has `2 ^ k` members. The
*maximal* blocks of a set partition it. `maximal_exchange` is the rule every update
uses: when one maximal block is replaced by a part of itself, the other maximal blocks
stay as they are and the part contributes its own. -/

namespace DyadicBlocks
variable {a k x b j : Nat} {F S : Set Nat}

def block (a k : Nat) : Set Nat := Set.Ico a (a + 2 ^ k)

theorem mem_block : x ∈ block a k ↔ a ≤ x ∧ x < a + 2 ^ k := Iff.rfl

theorem left_mem_block (a k : Nat) : a ∈ block a k :=
  ⟨le_refl a, Nat.lt_add_of_pos_right (Nat.two_pow_pos k)⟩

theorem end_le_of_subset {lo hi : Nat} (inside : block a k ⊆ Set.Ico lo hi) : a + 2 ^ k ≤ hi := by
  have pos := Nat.two_pow_pos k
  have last : a + 2 ^ k - 1 ∈ block a k := by
    rw [mem_block]
    omega
  have := (inside last).2
  omega

/-- `block a k` is inside `F`, and no other aligned block inside `F` contains it. -/
structure Maximal (F : Set Nat) (a k : Nat) : Prop where
  aligned : 2 ^ k ∣ a
  inside : block a k ⊆ F
  largest : ∀ b j, 2 ^ j ∣ b → block a k ⊆ block b j → block b j ⊆ F → b = a ∧ j = k

/-! ## Alignment and nesting -/

theorem add_le_of_dvd_of_lt {d : Nat} (da : d ∣ a) (db : d ∣ b) (lt : a < b) : a + d ≤ b := by
  have dvdGap : d ∣ b - a := Nat.dvd_sub db da
  have gapPos : 0 < b - a := by omega
  have := Nat.le_of_dvd gapPos dvdGap
  omega

theorem block_subset_of_mem (ha : 2 ^ j ∣ a) (hb : 2 ^ k ∣ b) (le : j ≤ k) (xa : x ∈ block a j)
    (xb : x ∈ block b k) : block a j ⊆ block b k := by
  rw [mem_block] at xa xb
  have hb' : 2 ^ j ∣ b := (pow_dvd_pow 2 le).trans hb
  have hend : 2 ^ j ∣ b + 2 ^ k := Nat.dvd_add hb' (pow_dvd_pow 2 le)
  have top : a + 2 ^ j ≤ b + 2 ^ k := add_le_of_dvd_of_lt ha hend (by omega)
  have bottom : b ≤ a := by
    by_contra lt
    have := add_le_of_dvd_of_lt ha hb' (by omega)
    omega
  intro y ya
  rw [mem_block] at ya ⊢
  omega

theorem block_nested (ha : 2 ^ j ∣ a) (hb : 2 ^ k ∣ b) (xa : x ∈ block a j) (xb : x ∈ block b k) :
    block a j ⊆ block b k ∨ block b k ⊆ block a j := by
  rcases le_total j k with le | le
  · exact .inl (block_subset_of_mem ha hb le xa xb)
  · exact .inr (block_subset_of_mem hb ha le xb xa)

theorem exponent_le_of_subset (sub : block a j ⊆ block b k) : j ≤ k := by
  have first := mem_block.mp (sub (left_mem_block a j))
  have last : a + 2 ^ j - 1 ∈ block a j := by
    have := Nat.two_pow_pos j
    rw [mem_block]
    omega
  have lastIn := mem_block.mp (sub last)
  have : 2 ^ j ≤ 2 ^ k := by
    have := Nat.two_pow_pos j
    omega
  exact (Nat.pow_le_pow_iff_right (by omega)).mp this

theorem start_eq_of_subset (sub : block a k ⊆ block b k) : a = b := by
  have first := mem_block.mp (sub (left_mem_block a k))
  have last : a + 2 ^ k - 1 ∈ block a k := by
    have := Nat.two_pow_pos k
    rw [mem_block]
    omega
  have lastIn := mem_block.mp (sub last)
  have := Nat.two_pow_pos k
  omega

/-- The start of the block of exponent `k` that holds `x`. -/
def enclosing (x k : Nat) : Nat := x / 2 ^ k * 2 ^ k

theorem enclosing_aligned (x k : Nat) : 2 ^ k ∣ enclosing x k := Nat.dvd_mul_left _ _

theorem mem_enclosing (x k : Nat) : x ∈ block (enclosing x k) k := by
  have split := Nat.div_add_mod x (2 ^ k)
  have rem := Nat.mod_lt x (Nat.two_pow_pos k)
  rw [mem_block, enclosing, mul_comm]
  omega

theorem eq_enclosing (ha : 2 ^ k ∣ a) (mem : x ∈ block a k) : a = enclosing x k := by
  have sub := block_subset_of_mem ha (enclosing_aligned x k) le_rfl mem (mem_enclosing x k)
  exact start_eq_of_subset sub

/-! ## Parents and buddies -/

theorem maximal_of_parent (ha : 2 ^ k ∣ a) (inside : block a k ⊆ F)
    (parent : ¬ block (enclosing a (k + 1)) (k + 1) ⊆ F) : Maximal F a k := by
  refine ⟨ha, inside, ?_⟩
  intro b j hb sub insideB
  have le := exponent_le_of_subset sub
  rcases eq_or_lt_of_le le with eq | lt
  · subst eq
    exact ⟨(start_eq_of_subset sub).symm, rfl⟩
  · exfalso
    apply parent
    have parentSub := block_subset_of_mem (enclosing_aligned a (k + 1)) hb lt
      (mem_enclosing a (k + 1)) (sub (left_mem_block a k))
    exact parentSub.trans insideB

theorem Maximal.parent_not_inside (max : Maximal F a k) :
    ¬ block (enclosing a (k + 1)) (k + 1) ⊆ F := by
  intro parentIn
  have sub : block a k ⊆ block (enclosing a (k + 1)) (k + 1) :=
    block_subset_of_mem max.aligned (enclosing_aligned a (k + 1)) (Nat.le_succ k)
      (left_mem_block a k) (mem_enclosing a (k + 1))
  have := (max.largest _ _ (enclosing_aligned a (k + 1)) sub parentIn).2
  omega

/-- The other half of the parent of `block a k`. -/
def buddy (a k : Nat) : Nat := if a / 2 ^ k % 2 = 0 then a + 2 ^ k else a - 2 ^ k

section
variable (ha : 2 ^ k ∣ a)
include ha

theorem enclosing_succ_of_even (even : a / 2 ^ k % 2 = 0) : enclosing a (k + 1) = a := by
  obtain ⟨m, rfl⟩ := ha
  rw [Nat.mul_div_cancel_left _ (Nat.two_pow_pos k)] at even
  rw [enclosing, pow_succ, Nat.mul_div_mul_left _ _ (Nat.two_pow_pos k)]
  have half : m = m / 2 * 2 := by omega
  calc m / 2 * (2 ^ k * 2) = 2 ^ k * (m / 2 * 2) := by ring
    _ = 2 ^ k * m := by rw [← half]

theorem enclosing_succ_of_odd (odd : a / 2 ^ k % 2 = 1) : enclosing a (k + 1) + 2 ^ k = a := by
  obtain ⟨m, rfl⟩ := ha
  rw [Nat.mul_div_cancel_left _ (Nat.two_pow_pos k)] at odd
  rw [enclosing, pow_succ, Nat.mul_div_mul_left _ _ (Nat.two_pow_pos k)]
  have half : m = m / 2 * 2 + 1 := by omega
  calc m / 2 * (2 ^ k * 2) + 2 ^ k = 2 ^ k * (m / 2 * 2 + 1) := by ring
    _ = 2 ^ k * m := by rw [← half]

theorem buddy_aligned : 2 ^ k ∣ buddy a k := by
  unfold buddy
  split
  · exact Nat.dvd_add ha (Nat.dvd_refl _)
  · exact Nat.dvd_sub ha (Nat.dvd_refl _)

theorem mem_parent_iff :
    x ∈ block (enclosing a (k + 1)) (k + 1) ↔ x ∈ block a k ∨ x ∈ block (buddy a k) k := by
  have bit : a / 2 ^ k % 2 = 0 ∨ a / 2 ^ k % 2 = 1 := by omega
  rcases bit with even | odd
  · rw [enclosing_succ_of_even ha even, buddy, if_pos even]
    simp only [mem_block, pow_succ]
    omega
  · have start := enclosing_succ_of_odd ha odd
    rw [buddy, if_neg (by omega)]
    simp only [mem_block, pow_succ]
    omega

theorem buddy_disjoint (xa : x ∈ block a k) : x ∉ block (buddy a k) k := by
  have bit : a / 2 ^ k % 2 = 0 ∨ a / 2 ^ k % 2 = 1 := by omega
  rcases bit with even | odd
  · rw [buddy, if_pos even]
    simp only [mem_block] at xa ⊢
    omega
  · have start := enclosing_succ_of_odd ha odd
    rw [buddy, if_neg (by omega)]
    simp only [mem_block] at xa ⊢
    omega

theorem block_subset_parent : block a k ⊆ block (enclosing a (k + 1)) (k + 1) := fun _ mem =>
  (mem_parent_iff ha).mpr (.inl mem)

theorem buddy_subset_parent : block (buddy a k) k ⊆ block (enclosing a (k + 1)) (k + 1) := fun _ mem =>
  (mem_parent_iff ha).mpr (.inr mem)

theorem parent_eq : block (enclosing a (k + 1)) (k + 1) = block a k ∪ block (buddy a k) k :=
  Set.ext fun _ => mem_parent_iff ha

/-- The parent of the buddy holds the block that was taken out. -/
theorem buddy_maximal (whole : block (buddy a k) k ⊆ F) : Maximal (F \ block a k) (buddy a k) k := by
  refine maximal_of_parent (buddy_aligned ha)
    (fun x mem => ⟨whole mem, fun here => buddy_disjoint ha here mem⟩) ?_
  have sameParent : enclosing a (k + 1) = enclosing (buddy a k) (k + 1) :=
    eq_enclosing (enclosing_aligned _ _) (buddy_subset_parent ha (left_mem_block _ _))
  rw [← sameParent]
  intro parentIn
  exact (parentIn (block_subset_parent ha (left_mem_block a k))).2 (left_mem_block a k)

end

/-! ## The maximal blocks partition the set -/

theorem Maximal.unique (maxA : Maximal F a j) (maxB : Maximal F b k) (xa : x ∈ block a j)
    (xb : x ∈ block b k) : a = b ∧ j = k := by
  rcases block_nested maxA.aligned maxB.aligned xa xb with sub | sub
  · have := maxA.largest b k maxB.aligned sub maxB.inside
    exact ⟨this.1.symm, this.2.symm⟩
  · exact maxB.largest a j maxA.aligned sub maxA.inside

/-- Going up from a block inside `F` the parents end in a maximal one, because a
large enough block holds zero. -/
theorem exists_maximal_above (zero : 0 ∉ F) :
    ∀ (fuel a k : Nat), 2 ^ k ∣ a → block a k ⊆ F → a < 2 ^ (k + fuel) →
      ∃ b j, Maximal F b j ∧ block a k ⊆ block b j := by
  intro fuel
  induction fuel with
  | zero =>
    intro a k ha inside small
    exfalso
    have : a = 0 := Nat.eq_zero_of_dvd_of_lt ha small
    subst this
    exact zero (inside (left_mem_block 0 k))
  | succ fuel ih =>
    intro a k ha inside small
    by_cases parent : block (enclosing a (k + 1)) (k + 1) ⊆ F
    · have below : enclosing a (k + 1) < 2 ^ (k + 1 + fuel) := by
        have := (mem_block.mp (mem_enclosing a (k + 1))).1
        rw [show k + 1 + fuel = k + (fuel + 1) by omega]
        omega
      obtain ⟨b, j, max, sub⟩ := ih _ _ (enclosing_aligned a (k + 1)) parent below
      exact ⟨b, j, max, (block_subset_parent ha).trans sub⟩
    · exact ⟨a, k, maximal_of_parent ha inside parent, subset_rfl⟩

theorem exists_maximal_of_block (zero : 0 ∉ F) (ha : 2 ^ k ∣ a) (inside : block a k ⊆ F) :
    ∃ b j, Maximal F b j ∧ block a k ⊆ block b j := by
  apply exists_maximal_above zero a a k ha inside
  calc a < 2 ^ a := Nat.lt_two_pow_self
    _ ≤ 2 ^ (k + a) := Nat.pow_le_pow_right (by omega) (by omega)

theorem exists_maximal (zero : 0 ∉ F) (mem : x ∈ F) : ∃ a k, Maximal F a k ∧ x ∈ block a k := by
  have single : block x 0 ⊆ F := by
    intro y hy
    rw [mem_block] at hy
    have : y = x := by omega
    exact this ▸ mem
  obtain ⟨a, k, max, sub⟩ := exists_maximal_of_block zero (by simp) single
  exact ⟨a, k, max, sub (left_mem_block x 0)⟩

/-- Where there is room for a block at an aligned place, a large enough maximal block starts at
an aligned place: one smaller than the alignment starts where the block was put. -/
theorem exists_maximal_aligned (zero : 0 ∉ F) {m : Nat} (ha : 2 ^ k ∣ a) (hm : 2 ^ m ∣ a)
    (inside : block a k ⊆ F) : ∃ b j, Maximal F b j ∧ k ≤ j ∧ 2 ^ m ∣ b := by
  obtain ⟨b, j, max, sub⟩ := exists_maximal_of_block zero ha inside
  refine ⟨b, j, max, exponent_le_of_subset sub, ?_⟩
  rcases le_total m j with small | large
  · exact (pow_dvd_pow 2 small).trans max.aligned
  · have alsoAligned : 2 ^ j ∣ a := (pow_dvd_pow 2 large).trans hm
    have start : b = enclosing a j := eq_enclosing max.aligned (sub (left_mem_block a k))
    rw [start, ← eq_enclosing alsoAligned (left_mem_block a j)]
    exact hm

/-! ## Exchanging one maximal block for a part of it -/

/-- A block inside `(F \ B) ∪ S`, with `B` maximal in `F` and `S ⊆ B`, does not
straddle the edge of `B`. -/
theorem block_in_exchange (max : Maximal F a k) (part : S ⊆ block a k) (hb : 2 ^ j ∣ b)
    (inside : block b j ⊆ (F \ block a k) ∪ S) : block b j ⊆ F \ block a k ∨ block b j ⊆ S := by
  by_cases meets : ∃ x, x ∈ block b j ∧ x ∈ block a k
  · right
    obtain ⟨x, xb, xa⟩ := meets
    have insideF : block b j ⊆ F := by
      intro y yb
      rcases inside yb with h | h
      · exact h.1
      · exact max.inside (part h)
    have sub : block b j ⊆ block a k := by
      rcases block_nested hb max.aligned xb xa with sub | sub
      · exact sub
      · obtain ⟨rfl, rfl⟩ := max.largest b j hb sub insideF
        exact subset_rfl
    intro y yb
    rcases inside yb with h | h
    · exact absurd (sub yb) h.2
    · exact h
  · left
    intro y yb
    have apart : y ∉ block a k := fun ya => meets ⟨y, yb, ya⟩
    rcases inside yb with h | h
    · exact h
    · exact absurd (part h) apart

theorem maximal_exchange (max : Maximal F a k) (part : S ⊆ block a k) (b j : Nat) :
    Maximal ((F \ block a k) ∪ S) b j ↔ (Maximal F b j ∧ (b, j) ≠ (a, k)) ∨ Maximal S b j := by
  have widen : ∀ x, x ∈ (F \ block a k) ∪ S → x ∈ F := by
    rintro x (h | h)
    · exact h.1
    · exact max.inside (part h)
  constructor
  · intro maxB
    rcases block_in_exchange max part maxB.aligned maxB.inside with out | into
    · left
      refine ⟨maximal_of_parent maxB.aligned (fun x hx => (out hx).1) ?_, ?_⟩
      · intro parentIn
        -- the parent is inside `F`, so it must meet the removed block
        by_cases meets : ∃ x, x ∈ block (enclosing b (j + 1)) (j + 1) ∧ x ∈ block a k
        · obtain ⟨x, xp, xa⟩ := meets
          rcases block_nested (enclosing_aligned b (j + 1)) max.aligned xp xa with sub | sub
          · have := block_subset_parent maxB.aligned (left_mem_block b j)
            exact (out (left_mem_block b j)).2 (sub this)
          · obtain ⟨startEq, expEq⟩ := max.largest _ _ (enclosing_aligned b (j + 1)) sub parentIn
            have := block_subset_parent maxB.aligned (left_mem_block b j)
            rw [startEq, expEq] at this
            exact (out (left_mem_block b j)).2 this
        · apply maxB.parent_not_inside
          intro y yp
          exact .inl ⟨parentIn yp, fun ya => meets ⟨y, yp, ya⟩⟩
      · rintro same
        cases same
        exact (out (left_mem_block a k)).2 (left_mem_block a k)
    · right
      apply maximal_of_parent maxB.aligned into
      intro parentIn
      exact maxB.parent_not_inside (fun y yp => .inr (parentIn yp))
  · rintro (⟨maxB, ne⟩ | maxB)
    · have apart : ∀ x, x ∈ block b j → x ∉ block a k := by
        intro x xb xa
        obtain ⟨rfl, rfl⟩ := maxB.unique max xb xa
        exact ne rfl
      apply maximal_of_parent maxB.aligned (fun x hx => .inl ⟨maxB.inside hx, apart x hx⟩)
      intro parentIn
      exact maxB.parent_not_inside (fun y yp => widen y (parentIn yp))
    · apply maximal_of_parent maxB.aligned (fun x hx => .inr (maxB.inside hx))
      intro parentIn
      rcases block_in_exchange max part (enclosing_aligned b (j + 1)) parentIn with out | into
      · have inParent := block_subset_parent maxB.aligned (left_mem_block b j)
        exact (out inParent).2 (part (maxB.inside (left_mem_block b j)))
      · exact maxB.parent_not_inside into

theorem maximal_remove (max : Maximal F a k) (b j : Nat) :
    Maximal (F \ block a k) b j ↔ Maximal F b j ∧ (b, j) ≠ (a, k) := by
  have exchange := maximal_exchange (S := ∅) max (Set.empty_subset _) b j
  rw [Set.union_empty] at exchange
  rw [exchange]
  constructor
  · rintro (h | h)
    · exact h
    · exact absurd (h.inside (left_mem_block b j)) (Set.notMem_empty b)
  · exact .inl

theorem maximal_interval_cons {stop : Nat} (max : Maximal (Set.Ico a stop) a k) (b j : Nat) :
    Maximal (Set.Ico a stop) b j ↔ (b, j) = (a, k) ∨ Maximal (Set.Ico (a + 2 ^ k) stop) b j := by
  have rest : Set.Ico (a + 2 ^ k) stop = Set.Ico a stop \ block a k := by
    ext x
    have := Nat.two_pow_pos k
    simp only [Set.mem_Ico, Set.mem_sdiff, mem_block]
    omega
  rw [rest, maximal_remove max]
  constructor
  · intro h
    by_cases same : (b, j) = (a, k)
    · exact .inl same
    · exact .inr ⟨h, same⟩
  · rintro (same | h)
    · cases same
      exact max
    · exact h.1

/-! ## Cutting a run into blocks of one size -/

/-- `count` consecutive blocks of exponent `k`, the first one at `a`. -/
def units (k : Nat) : Nat → Nat → List Nat
  | _, 0 => []
  | a, count + 1 => a :: units k (a + 2 ^ k) count

theorem length_units (k : Nat) : ∀ count a : Nat, (units k a count).length = count := by
  intro count
  induction count with
  | zero => intro a; rfl
  | succ count ih => intro a; rw [units, List.length_cons, ih]

theorem mem_units {s : Nat} : ∀ {count a : Nat}, s ∈ units k a count →
    a ≤ s ∧ s + 2 ^ k ≤ a + count * 2 ^ k ∧ 2 ^ k ∣ s - a := by
  intro count
  induction count with
  | zero => intro a mem; cases mem
  | succ count ih =>
    intro a mem
    rw [Nat.succ_mul]
    rcases List.mem_cons.mp mem with same | later
    · subst same
      refine ⟨le_refl _, by omega, ?_⟩
      rw [Nat.sub_self]
      exact Nat.dvd_zero _
    · obtain ⟨lower, upper, dvd⟩ := ih later
      refine ⟨by omega, by omega, ?_⟩
      have split : s - a = s - (a + 2 ^ k) + 2 ^ k := by omega
      rw [split]
      exact Nat.dvd_add dvd (Nat.dvd_refl _)

theorem units_apart (k : Nat) : ∀ count a : Nat,
    (units k a count).Pairwise fun s t => Disjoint (block s k) (block t k) := by
  intro count
  induction count with
  | zero => intro a; exact List.Pairwise.nil
  | succ count ih =>
    intro a
    refine List.pairwise_cons.mpr ⟨?_, ih _⟩
    intro s mem
    have lower := (mem_units mem).1
    rw [Set.disjoint_left]
    intro x here there
    rw [mem_block] at here there
    omega

theorem mem_block_units : ∀ {count a : Nat},
    (∃ s ∈ units k a count, x ∈ block s k) ↔ a ≤ x ∧ x < a + count * 2 ^ k := by
  intro count
  induction count with
  | zero =>
    intro a
    simp only [units, List.not_mem_nil, false_and, exists_false, zero_mul, false_iff]
    omega
  | succ count ih =>
    intro a
    simp only [units, List.mem_cons, exists_eq_or_imp]
    rw [ih, mem_block, Nat.succ_mul]
    have pos := Nat.two_pow_pos k
    omega

/-! ## Adding up sizes -/

section Sizes
variable {ι : Type} (start exponent : ι → Nat) {lo hi : Nat} {l : List ι}

def coverage : List ι → Finset Nat
  | [] => ∅
  | i :: rest => Finset.Ico (start i) (start i + 2 ^ exponent i) ∪ coverage rest

theorem mem_coverage {x : Nat} : ∀ l : List ι,
    x ∈ coverage start exponent l ↔ ∃ i ∈ l, x ∈ block (start i) (exponent i) := by
  intro l
  induction l with
  | nil => simp [coverage]
  | cons i rest ih =>
    simp only [coverage, Finset.mem_union, Finset.mem_Ico, ih, List.mem_cons,
      exists_eq_or_imp, mem_block]

theorem card_coverage : ∀ l : List ι,
    l.Pairwise (fun i j => Disjoint (block (start i) (exponent i)) (block (start j) (exponent j))) →
    (coverage start exponent l).card = (l.map fun i => 2 ^ exponent i).sum := by
  intro l
  induction l with
  | nil => intro _; rfl
  | cons i rest ih =>
    intro apart
    rw [List.pairwise_cons] at apart
    have disjoint : Disjoint (Finset.Ico (start i) (start i + 2 ^ exponent i))
        (coverage start exponent rest) := by
      rw [Finset.disjoint_left]
      intro x here there
      obtain ⟨j, hj, mem⟩ := (mem_coverage start exponent rest).mp there
      exact Set.disjoint_left.mp (apart.1 j hj) (Finset.mem_Ico.mp here) mem
    rw [coverage, Finset.card_union_of_disjoint disjoint, ih apart.2, Nat.card_Ico,
      List.map_cons, List.sum_cons, Nat.add_sub_cancel_left]

variable (apart : l.Pairwise fun i j => Disjoint (block (start i) (exponent i)) (block (start j) (exponent j)))
include apart

theorem sum_sizes_le (inside : ∀ i ∈ l, block (start i) (exponent i) ⊆ Set.Ico lo hi) :
    (l.map fun i => 2 ^ exponent i).sum ≤ hi - lo := by
  rw [← card_coverage start exponent l apart, ← Nat.card_Ico]
  apply Finset.card_le_card
  intro x mem
  obtain ⟨i, hi, hx⟩ := (mem_coverage start exponent l).mp mem
  exact Finset.mem_Ico.mpr (inside i hi hx)

theorem sum_sizes_eq (cover : ∀ x, x ∈ Set.Ico lo hi ↔ ∃ i ∈ l, x ∈ block (start i) (exponent i)) :
    (l.map fun i => 2 ^ exponent i).sum = hi - lo := by
  rw [← card_coverage start exponent l apart, ← Nat.card_Ico]
  congr 1
  ext x
  rw [mem_coverage, ← cover, Finset.mem_Ico, Set.mem_Ico]

end Sizes
end DyadicBlocks
