import Rumprun.Lib.ByteMemory

/-! # Doubly linked lists through the elements' own bytes

The `LIST` of `queue(3)`. An element keeps the address of its successor in its first
eight bytes (`le_next`) and, in the next eight, the address of the pointer that points
to it (`le_prev`). The heads are variables beside the memory, found again by their
address. `Chain` says which elements a list has. -/

namespace IntrusiveList
open ByteMemory Function

structure Heads (ι : Type) where
  addr : ι → Nat
  find : Nat → Option ι
  find_addr : ∀ i, find (addr i) = some i
  addr_lt : ∀ i, addr i < 2 ^ 64

structure Lists (ι : Type) where
  memory : Memory
  first : ι → Nat

variable {ι : Type} [DecidableEq ι]
namespace Lists

/-- Assign to the pointer at `addr`, which is a head or lies in the memory. -/
def assign (heads : Heads ι) (lists : Lists ι) (addr value : Nat) : Lists ι :=
  match heads.find addr with
  | some i => { lists with first := update lists.first i value }
  | none => { lists with memory := store lists.memory addr 8 value }

def insertHead (heads : Heads ι) (lists : Lists ι) (i : ι) (elm : Nat) : Lists ι :=
  let old := lists.first i
  let linked := store lists.memory elm 8 old
  let backed := if old = 0 then linked else store linked (old + 8) 8 elm
  { memory := store backed (elm + 8) 8 (heads.addr i)
    first := update lists.first i elm }

def remove (heads : Heads ι) (lists : Lists ι) (elm : Nat) : Lists ι :=
  let next := load lists.memory elm 8
  let backed := if next = 0 then lists.memory
    else store lists.memory (next + 8) 8 (load lists.memory (elm + 8) 8)
  assign heads { lists with memory := backed } (load backed (elm + 8) 8) (load backed elm 8)

end Lists

/-- The elements from `first` on, with `back` in the first one's `le_prev`. -/
def Chain (memory : Memory) : Nat → Nat → List Nat → Prop
  | _, first, [] => first = 0
  | back, first, elm :: rest =>
    first = elm ∧ elm ≠ 0 ∧ elm < 2 ^ 64 ∧ load memory (elm + 8) 8 = back ∧
      Chain memory elm (load memory elm 8) rest

/-- The cells of two elements do not meet. -/
def Apart (a b : Nat) : Prop := a + 16 ≤ b ∨ b + 16 ≤ a

/-- `x` is a byte of the cell of one of `elms`. -/
def InCells (elms : List Nat) (x : Nat) : Prop := ∃ elm ∈ elms, elm ≤ x ∧ x < elm + 16

namespace Chain
variable {memory other : Memory} {heads : Heads ι} {lists : Lists ι} {i : ι} {elms : List Nat}
  {back first elm : Nat}

theorem congr : ∀ {elms : List Nat} {back first : Nat}, Chain memory back first elms →
    (∀ x, InCells elms x → other x = memory x) → Chain other back first elms := by
  intro elms
  induction elms with
  | nil => intro back first chain _; exact chain
  | cons elm rest ih =>
    intro back first chain same
    obtain ⟨isFirst, pos, small, prev, tail⟩ := chain
    have inCell : ∀ x, elm ≤ x → x < elm + 16 → other x = memory x := fun x lower upper =>
      same x ⟨elm, List.mem_cons_self, lower, upper⟩
    have samePrev : load other (elm + 8) 8 = load memory (elm + 8) 8 :=
      load_congr fun x lower upper => inCell x (by omega) (by omega)
    have sameNext : load other elm 8 = load memory elm 8 :=
      load_congr fun x lower upper => inCell x lower (by omega)
    refine ⟨isFirst, pos, small, samePrev.trans prev, ?_⟩
    rw [sameNext]
    apply ih tail
    intro x mem
    obtain ⟨e, inRest, bounds⟩ := mem
    exact same x ⟨e, List.mem_cons_of_mem elm inRest, bounds⟩

theorem rebase {back' : Nat} (chain : Chain memory back first elms)
    (prev : ∀ elm ∈ elms.head?, load other (elm + 8) 8 = back')
    (next : ∀ elm ∈ elms.head?, load other elm 8 = load memory elm 8)
    (same : ∀ x, InCells elms.tail x → other x = memory x) : Chain other back' first elms := by
  cases elms with
  | nil => exact chain
  | cons elm rest =>
    obtain ⟨isFirst, pos, small, -, tail⟩ := chain
    refine ⟨isFirst, pos, small, prev elm rfl, ?_⟩
    rw [next elm rfl]
    exact tail.congr same

theorem first_eq (chain : Chain memory back first elms) :
    (first = 0 ∧ elms = []) ∨ ∃ rest, elms = first :: rest ∧ first ≠ 0 ∧ first < 2 ^ 64 := by
  cases elms with
  | nil => exact .inl ⟨chain, rfl⟩
  | cons elm rest =>
    obtain ⟨isFirst, pos, small, -⟩ := chain
    subst isFirst
    exact .inr ⟨rest, rfl, pos, small⟩

theorem insertHead (chain : Chain lists.memory (heads.addr i) (lists.first i) elms) (pos : elm ≠ 0)
    (small : elm < 2 ^ 64) (apart : (elm :: elms).Pairwise Apart) :
    Chain (lists.insertHead heads i elm).memory (heads.addr i) elm (elm :: elms) := by
  have headLt : heads.addr i < 2 ^ (8 * 8) := heads.addr_lt i
  rw [List.pairwise_cons] at apart
  rcases chain.first_eq with ⟨isZero, isNil⟩ | ⟨rest, isCons, oldPos, oldLt⟩
  · subst isNil
    simp only [Lists.insertHead, isZero, if_true]
    refine ⟨rfl, pos, small, load_store headLt, ?_⟩
    rw [load_store_apart _ (by omega), load_store (by decide)]
    rfl
  · -- the old first element now points back to the new one
    generalize oldEq : lists.first i = old at *
    subst isCons
    obtain ⟨fromOld, ofRest⟩ := List.pairwise_cons.mp apart.2
    have gap : Apart elm old := apart.1 old List.mem_cons_self
    simp only [Lists.insertHead, oldEq, if_neg oldPos]
    refine ⟨rfl, pos, small, load_store headLt, ?_⟩
    have next : load (store (store (store lists.memory elm 8 old) (old + 8) 8 elm) (elm + 8) 8
        (heads.addr i)) elm 8 = old := by
      rw [load_store_apart _ (by omega), load_store_apart _ (by unfold Apart at gap; omega),
        load_store oldLt]
    rw [next]
    apply chain.rebase
    · intro e isOld
      cases isOld
      rw [load_store_apart _ (by unfold Apart at gap; omega), load_store small]
    · intro e isOld
      cases isOld
      rw [load_store_apart _ (by unfold Apart at gap; omega), load_store_apart _ (by omega),
        load_store_apart _ (by unfold Apart at gap; omega)]
    · intro x mem
      obtain ⟨e, inRest, lower, upper⟩ := mem
      have fromElm : Apart elm e := apart.1 e (List.mem_cons_of_mem old inRest)
      have fromOld : Apart old e := fromOld e inRest
      unfold Apart at fromElm fromOld
      rw [store_apart _ (by omega), store_apart _ (by omega), store_apart _ (by omega)]

theorem insertHead_apart {x : Nat} (chain : Chain lists.memory (heads.addr i) (lists.first i) elms)
    (apart : ¬ InCells (elm :: elms) x) : (lists.insertHead heads i elm).memory x = lists.memory x := by
  have outside : ∀ e ∈ elm :: elms, x < e ∨ e + 16 ≤ x := by
    intro e mem
    by_contra inside
    exact apart ⟨e, mem, by omega, by omega⟩
  have fromElm := outside elm List.mem_cons_self
  rcases chain.first_eq with ⟨isZero, -⟩ | ⟨rest, isCons, oldPos, -⟩
  · simp only [Lists.insertHead, isZero, if_true]
    rw [store_apart _ (by omega), store_apart _ (by omega)]
  · have fromOld := outside (lists.first i) (by rw [isCons]; simp)
    simp only [Lists.insertHead, if_neg oldPos]
    rw [store_apart _ (by omega), store_apart _ (by omega), store_apart _ (by omega)]

theorem remove {rest : List Nat}
    (chain : Chain lists.memory (heads.addr i) (lists.first i) (elm :: rest))
    (apart : (elm :: rest).Pairwise Apart) :
    ∃ memory next, lists.remove heads elm =
        { memory := memory, first := update lists.first i next } ∧
      Chain memory (heads.addr i) next rest ∧
      ∀ x, ¬ InCells rest x → memory x = lists.memory x := by
  obtain ⟨-, -, -, prev, tail⟩ := chain
  rw [List.pairwise_cons] at apart
  rcases tail.first_eq with ⟨isZero, isNil⟩ | ⟨more, isCons, nextPos, -⟩
  · subst isNil
    refine ⟨lists.memory, 0, ?_, rfl, fun x _ => rfl⟩
    simp only [Lists.remove, isZero, if_true, prev, Lists.assign, heads.find_addr]
  · generalize nextEq : load lists.memory elm 8 = next at *
    subst isCons
    have gap : Apart elm next := apart.1 next List.mem_cons_self
    obtain ⟨fromNext, -⟩ := List.pairwise_cons.mp apart.2
    have samePrev : load (store lists.memory (next + 8) 8 (heads.addr i)) (elm + 8) 8 =
        heads.addr i := by
      rw [load_store_apart _ (by unfold Apart at gap; omega), prev]
    have sameNext : load (store lists.memory (next + 8) 8 (heads.addr i)) elm 8 = next := by
      rw [load_store_apart _ (by unfold Apart at gap; omega), nextEq]
    refine ⟨store lists.memory (next + 8) 8 (heads.addr i), next, ?_, ?_, ?_⟩
    · simp only [Lists.remove, nextEq, if_neg nextPos, prev, samePrev, sameNext, Lists.assign,
        heads.find_addr]
    · apply tail.rebase
      · intro e isNext
        cases isNext
        exact load_store (heads.addr_lt i)
      · intro e isNext
        cases isNext
        exact load_store_apart _ (by omega)
      · intro x mem
        obtain ⟨e, inMore, lower, upper⟩ := mem
        have gap := fromNext e inMore
        unfold Apart at gap
        exact store_apart _ (by omega)
    · intro x outside
      apply store_apart
      by_contra inside
      exact outside ⟨next, List.mem_cons_self, by omega, by omega⟩

end Chain
end IntrusiveList
