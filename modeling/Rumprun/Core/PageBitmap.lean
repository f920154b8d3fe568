import Rumprun.Core.PageAllocator

/-! # What the allocation bitmap operations compute

`map_alloc` and `map_free` work on whole words; here each is the set or cleared
range of page bits it stands for, and every other bit is unchanged. -/

namespace Rumprun.Core.PageAllocator
open MachineWord Function

def bitmapBit (bitmap : Nat → BitVec 64) (page : Nat) : Bool :=
  (bitmap (page / pagesPerMapword)).getLsbD (page % pagesPerMapword)

theorem fillWords_apply (value : BitVec 64) (bitmap : Nat → BitVec 64) (first count word : Nat) :
    fillWords value bitmap first count word =
      if first ≤ word ∧ word < first + count then value else bitmap word := by
  induction count with
  | zero =>
    rw [fillWords, if_neg (by omega)]
  | succ count ih =>
    rw [fillWords, update_apply]
    by_cases here : word = first + count
    · rw [if_pos here, if_pos (by omega)]
    · rw [if_neg here, ih]
      by_cases inside : first ≤ word ∧ word < first + count
      · rw [if_pos inside, if_pos (by omega)]
      · rw [if_neg inside, if_neg (by omega)]

/-- The bits of the pages from `first` up to `stop` are `value`, and all others what they were. -/
def RangeStored (value : Bool) (old bitmap : Nat → BitVec 64) (first stop : Nat) : Prop :=
  ∀ page, bitmapBit bitmap page =
    if first ≤ page ∧ page < stop then value else bitmapBit old page

section
variable {value : Bool} {old : Nat → BitVec 64} {first stop : Nat} {head fill tail : BitVec 64}

theorem rangeStored_word (same : first / 64 = stop / 64)
    (bits : ∀ i < 64, head.getLsbD i =
      if first % 64 ≤ i ∧ i < stop % 64 then value else (old (first / 64)).getLsbD i) :
    RangeStored value old (update old (first / 64) head) first stop := by
  intro page
  unfold bitmapBit pagesPerMapword
  rw [update_apply]
  by_cases here : page / 64 = first / 64
  · rw [if_pos here, bits _ (by omega), here]
    exact if_congr (by omega) rfl rfl
  · rw [if_neg here, if_neg (by omega)]

variable (before : first / 64 < stop / 64)
include before

theorem fillWords_stop :
    fillWords fill (update old (first / 64) head) (first / 64 + 1)
      (stop / 64 - (first / 64 + 1)) (stop / 64) = old (stop / 64) := by
  rw [fillWords_apply, if_neg (by omega), update_of_ne (by omega)]

theorem rangeStored_words
    (headBits : ∀ i < 64, head.getLsbD i =
      if first % 64 ≤ i then value else (old (first / 64)).getLsbD i)
    (fillBits : ∀ i < 64, fill.getLsbD i = value)
    (tailBits : ∀ i < 64, tail.getLsbD i =
      if i < stop % 64 then value else (old (stop / 64)).getLsbD i) :
    RangeStored value old (update (fillWords fill (update old (first / 64) head) (first / 64 + 1)
      (stop / 64 - (first / 64 + 1))) (stop / 64) tail) first stop := by
  intro page
  unfold bitmapBit pagesPerMapword
  rw [update_apply, fillWords_apply, update_apply]
  -- the page is in the last word, one between, the first, or outside the run
  by_cases atLast : page / 64 = stop / 64
  · rw [if_pos atLast, tailBits _ (by omega), atLast]
    exact if_congr (by omega) rfl rfl
  rw [if_neg atLast]
  by_cases between : first / 64 + 1 ≤ page / 64 ∧
      page / 64 < first / 64 + 1 + (stop / 64 - (first / 64 + 1))
  · rw [if_pos between, fillBits _ (by omega), if_pos (by omega)]
  rw [if_neg between]
  by_cases atFirst : page / 64 = first / 64
  · rw [if_pos atFirst, headBits _ (by omega), atFirst]
    exact if_congr (by omega) rfl rfl
  · rw [if_neg atFirst, if_neg (by omega)]

end
namespace PageHeap
variable (heap : PageHeap) (virt nrPages : Nat)

section
variable (room : (heap.vaToPg virt + nrPages) / 64 < heap.bitmapWords)
include room

theorem mapAlloc_spec :
    ∃ bitmap, heap.mapAlloc virt nrPages = .ok { heap with allocBitmap := bitmap } ∧
      RangeStored true heap.allocBitmap bitmap (heap.vaToPg virt) (heap.vaToPg virt + nrPages) := by
  unfold mapAlloc pagesPerMapword
  rw [if_neg (by omega)]
  generalize heap.vaToPg virt = first
  have startLt : first % 64 < 64 := Nat.mod_lt _ (by decide)
  have stopLt : (first + nrPages) % 64 < 64 := Nat.mod_lt _ (by decide)
  by_cases same : first / 64 = (first + nrPages) / 64
  · rw [if_pos same]
    refine ⟨_, rfl, rangeStored_word same fun i lt => ?_⟩
    rw [BitVec.getLsbD_or, BitVec.getLsbD_and, getLsbD_shiftLeft_one_sub_one stopLt,
      getLsbD_neg_shiftLeft_one startLt]
    split <;> grind
  · rw [if_neg same]
    refine ⟨_, rfl, rangeStored_words (by omega) (fun i lt => ?_) (fun i lt => ?_) fun i lt => ?_⟩
    · rw [BitVec.getLsbD_or, getLsbD_neg_shiftLeft_one startLt]
      split <;> simp_all
    · rw [BitVec.getLsbD_allOnes, decide_eq_true lt]
    · rw [fillWords_stop (by omega), BitVec.getLsbD_or, getLsbD_shiftLeft_one_sub_one stopLt]
      split <;> simp_all

theorem mapFree_spec :
    ∃ bitmap, heap.mapFree virt nrPages = .ok { heap with allocBitmap := bitmap } ∧
      RangeStored false heap.allocBitmap bitmap (heap.vaToPg virt) (heap.vaToPg virt + nrPages) := by
  unfold mapFree pagesPerMapword
  rw [if_neg (by omega)]
  generalize heap.vaToPg virt = first
  have startLt : first % 64 < 64 := Nat.mod_lt _ (by decide)
  have stopLt : (first + nrPages) % 64 < 64 := Nat.mod_lt _ (by decide)
  by_cases same : first / 64 = (first + nrPages) / 64
  · rw [if_pos same]
    refine ⟨_, rfl, rangeStored_word same fun i lt => ?_⟩
    rw [BitVec.getLsbD_and, BitVec.getLsbD_or, getLsbD_shiftLeft_one_sub_one startLt,
      getLsbD_neg_shiftLeft_one stopLt]
    split <;> grind
  · rw [if_neg same]
    refine ⟨_, rfl, rangeStored_words (by omega) (fun i lt => ?_) (by simp) fun i lt => ?_⟩
    · rw [BitVec.getLsbD_and, getLsbD_shiftLeft_one_sub_one startLt]
      split <;> simp_all
    · rw [fillWords_stop (by omega), BitVec.getLsbD_and, getLsbD_neg_shiftLeft_one stopLt]
      split <;> simp_all

end

theorem allocatedInMap_eq (addr : Nat) (managed : heap.addrIsManaged addr = true)
    (room : heap.vaToPg addr / pagesPerMapword < heap.bitmapWords) :
    heap.allocatedInMap addr = .ok (bitmapBit heap.allocBitmap (heap.vaToPg addr)) := by
  simp only [allocatedInMap, managed, bmkAssert, if_true, room, bitmapBit]
  rfl

end PageHeap
end Rumprun.Core.PageAllocator
