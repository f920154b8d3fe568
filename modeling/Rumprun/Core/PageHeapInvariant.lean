import Rumprun.Core.PageBitmap
import Rumprun.Lib.DyadicBlocks

/-! # The invariant of the page heap

`live` is the ghost list of blocks handed out and not yet freed. The free lists hold
exactly the maximal aligned blocks of the free bytes: `chunks` below gives the partition
of the heap and its canonical form. -/

namespace Rumprun.Core.PageAllocator
open MachineWord DyadicBlocks

structure Block where
  addr : Nat
  order : Nat
  deriving DecidableEq, Repr

namespace Block

def bytes (b : Block) : Set Nat := block b.addr (b.order + pageShift)

def size (b : Block) : Nat := order2size b.order

end Block

def liveBytes (live : List Block) : Set Nat := { x | ∃ b ∈ live, x ∈ b.bytes }

namespace PageHeap

def managed (heap : PageHeap) : Set Nat := Set.Ico heap.minpageAddr heap.maxpageAddr

theorem addrIsManaged_iff {heap : PageHeap} {addr : Nat} :
    heap.addrIsManaged addr = true ↔ addr ∈ heap.managed := by
  simp [addrIsManaged, managed]

def freeBytes (heap : PageHeap) (live : List Block) : Set Nat := heap.managed \ liveBytes live

end PageHeap

/-- The free lists and the headers in memory describe the chunks `P start exponent`. -/
structure Linked (P : Nat → Nat → Prop) (freelist : Nat → List Nat)
    (chunk : Nat → ChunkHeader) : Prop where
  mem_iff : ∀ a level, a ∈ freelist level ↔ P a (level + pageShift)
  nodup : ∀ level, (freelist level).Nodup
  header : ∀ a level, a ∈ freelist level → chunk a = { level := level, magic := chunkMagic }

structure HeapInv (heap : PageHeap) (live : List Block) : Prop where
  minPos : 0 < heap.minpageAddr
  ordered : heap.minpageAddr ≤ heap.maxpageAddr
  fits : heap.maxpageAddr < 2 ^ 64
  minAligned : pageSize ∣ heap.minpageAddr
  maxAligned : pageSize ∣ heap.maxpageAddr
  bitmapRoom :
    (heap.maxpageAddr - heap.minpageAddr) / pageSize / pagesPerMapword < heap.bitmapWords
  liveAligned : ∀ b ∈ live, 2 ^ (b.order + pageShift) ∣ b.addr
  liveManaged : ∀ b ∈ live, b.bytes ⊆ heap.managed
  liveApart : live.Pairwise fun b c => Disjoint b.bytes c.bytes
  chunks : Linked (Maximal (heap.freeBytes live)) heap.freelist heap.chunk
  bits : ∀ addr ∈ heap.managed,
    bitmapBit heap.allocBitmap (heap.vaToPg addr) = true ↔ addr ∈ liveBytes live
  used : heap.pgallocUsedkb = (live.map fun b => b.size / 2 ^ 10).sum
  total : heap.pgallocTotalkb = (heap.maxpageAddr - heap.minpageAddr) / 2 ^ 10

/-! ## Sets made of whole pages -/

def PageGranular (F : Set Nat) : Prop := ∀ x y, x / pageSize = y / pageSize → x ∈ F → y ∈ F

theorem pageGranular_interval {lo hi : Nat} (hlo : pageSize ∣ lo) (hhi : pageSize ∣ hi) :
    PageGranular (Set.Ico lo hi) := by
  intro x y same mem
  obtain ⟨m, rfl⟩ := hlo
  obtain ⟨n, rfl⟩ := hhi
  simp only [Set.mem_Ico, pageSize, pageShift] at *
  omega

theorem pageSize_dvd_two_pow (order : Nat) : pageSize ∣ 2 ^ (order + pageShift) :=
  pow_dvd_pow 2 (Nat.le_add_left _ _)

theorem pageGranular_block {b : Block} (aligned : 2 ^ (b.order + pageShift) ∣ b.addr) :
    PageGranular b.bytes := by
  have start := (pageSize_dvd_two_pow b.order).trans aligned
  exact pageGranular_interval start (Nat.dvd_add start (pageSize_dvd_two_pow b.order))

theorem pageShift_le_of_maximal {F : Set Nat} (granular : PageGranular F) {a k : Nat}
    (max : Maximal F a k) : pageShift ≤ k := by
  by_contra small
  apply max.parent_not_inside
  have sub : block (enclosing a (k + 1)) (k + 1) ⊆ block (enclosing a pageShift) pageShift :=
    block_subset_of_mem (enclosing_aligned a (k + 1)) (enclosing_aligned a pageShift) (by omega)
      (mem_enclosing a (k + 1)) (mem_enclosing a pageShift)
  intro y hy
  have page := mem_block.mp (sub hy)
  have here := mem_block.mp (mem_enclosing a pageShift)
  refine granular a y ?_ (max.inside (left_mem_block a k))
  simp only [enclosing, pageSize, pageShift] at *
  omega

namespace HeapInv
variable {heap : PageHeap} {live : List Block}
variable (inv : HeapInv heap live)
include inv

theorem zero_not_free : 0 ∉ heap.freeBytes live := by
  rintro ⟨mem, -⟩
  have := mem.1
  have := inv.minPos
  omega

theorem liveBytes_granular : PageGranular (liveBytes live) := by
  rintro x y same ⟨b, hb, mem⟩
  exact ⟨b, hb, pageGranular_block (inv.liveAligned b hb) x y same mem⟩

theorem free_granular : PageGranular (heap.freeBytes live) := by
  rintro x y same ⟨mem, notLive⟩
  refine ⟨pageGranular_interval inv.minAligned inv.maxAligned x y same mem, ?_⟩
  intro liveY
  exact notLive (inv.liveBytes_granular y x same.symm liveY)

theorem vaToPg_eq {addr : Nat} (mem : addr ∈ heap.managed) :
    heap.vaToPg addr = (addr - heap.minpageAddr) / pageSize := by
  have hi := mem.2
  have fits := inv.fits
  rw [PageHeap.vaToPg, sub_eq mem.1 (by omega), pageSize]

theorem run_room {addr pages : Nat} (mem : addr ∈ heap.managed)
    (ends : addr + pages * pageSize ≤ heap.maxpageAddr) :
    (heap.vaToPg addr + pages) / pagesPerMapword < heap.bitmapWords := by
  rw [inv.vaToPg_eq mem]
  have room := inv.bitmapRoom
  have lo := mem.1
  simp only [pageSize, pageShift, pagesPerMapword] at *
  omega

theorem page_room {addr : Nat} (mem : addr ∈ heap.managed) :
    heap.vaToPg addr / pagesPerMapword < heap.bitmapWords := by
  simpa using inv.run_room mem (by simpa using mem.2.le : addr + 0 * pageSize ≤ _)

theorem allocatedInMap_eq {addr : Nat} (mem : addr ∈ heap.managed) :
    ∃ bit, heap.allocatedInMap addr = .ok bit ∧ (bit = true ↔ addr ∈ liveBytes live) :=
  ⟨_, heap.allocatedInMap_eq addr (PageHeap.addrIsManaged_iff.mpr mem) (inv.page_room mem),
    inv.bits addr mem⟩

end HeapInv
end Rumprun.Core.PageAllocator
