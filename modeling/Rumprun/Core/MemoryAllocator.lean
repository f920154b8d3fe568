import Rumprun.Core.BmkString
import Rumprun.Core.PageAllocator
import Rumprun.Lib.IntrusiveList

/-! # The memory allocator, `lib/libbmk_core/memalloc.c`

Blocks of `2 ^ (bucket + MINSHIFT)` bytes. The first `LOCALBUCKETS` sizes are cut
from single pages and kept on the lists `freebuckets[]`; larger blocks come straight
from the page allocator. Headers, links and the callers' bytes share one memory, so
that a write to one of them could be seen by the others. -/

namespace Rumprun.Core.MemoryAllocator
open MachineWord ByteMemory IntrusiveList PageAllocator

def memMagic : Nat := 0xef

def minShift : Nat := 5

def localBuckets : Nat := pageShift - minShift

def minAlign : Nat := 16

inductive Memwho where
  | wiredbmk
  | rumpkern
  | user
  deriving DecidableEq, Repr

def Memwho.code : Memwho → Nat
  | .wiredbmk => 0
  | .rumpkern => 1
  | .user => 2

structure MemallocHdr where
  alignpad : Nat
  magic : Nat
  index : Nat
  who : Nat
  deriving DecidableEq, Repr

def hdrSize : Nat := 8

def loadHdr (memory : Memory) (addr : Nat) : MemallocHdr :=
  { alignpad := load memory addr 4
    magic := load memory (addr + 4) 2
    index := load memory (addr + 6) 1
    who := load memory (addr + 7) 1 }

/-- The four assignments at the end of `bmk_memalloc`, in its order; each keeps as many bytes as
the field has. -/
def storeHdr (memory : Memory) (addr : Nat) (hdr : MemallocHdr) : Memory :=
  let memory := store memory (addr + 4) 2 hdr.magic
  let memory := store memory (addr + 6) 1 hdr.index
  let memory := store memory addr 4 hdr.alignpad
  store memory (addr + 7) 1 hdr.who

/-- The array `freebuckets[]` at `base`; a list head is one pointer. -/
def freebucketsAt (base : Nat) : Heads (Fin localBuckets) where
  addr bucket := add base (8 * bucket)
  find p := (List.finRange localBuckets).find? fun bucket : Fin localBuckets =>
    add base (8 * bucket) = p
  find_addr bucket := by
    cases found : (List.finRange localBuckets).find? fun other : Fin localBuckets =>
        add base (8 * other) = add base (8 * bucket) with
    | none => simpa using List.find?_eq_none.mp found bucket (List.mem_finRange bucket)
    | some other =>
      have same : add base (8 * other) = add base (8 * bucket) := by
        simpa using List.find?_some found
      have small := bucket.isLt
      have small' := other.isLt
      simp only [localBuckets, pageShift, minShift, add] at same small small'
      exact congrArg some (Fin.ext (by omega))
  addr_lt bucket := add_lt _ _

structure MemHeap where
  pages : PageHeap
  /-- The memory, and `lh_first` of every free list. -/
  lists : IntrusiveList.Lists (Fin localBuckets)
  heads : Heads (Fin localBuckets)
  nmalloc : Fin localBuckets → BitVec 32

/-- The static variables at start, with whatever the memory holds. -/
def MemHeap.bss (pages : PageHeap) (memory : Memory) (base : Nat) : MemHeap :=
  { pages := pages
    lists := { memory := memory, first := fun _ => 0 }
    heads := freebucketsAt base
    nmalloc := fun _ => 0#32 }

/-- The loop of `morecore`: thread the blocks behind `p` onto the free list. -/
def morecoreLoop (heads : Heads (Fin localBuckets)) (bucket : Fin localBuckets) (sz : Nat) :
    Nat → Nat → IntrusiveList.Lists (Fin localBuckets) → IntrusiveList.Lists (Fin localBuckets)
  | 0, _, lists => lists
  | nblks + 1, p, lists =>
    morecoreLoop heads bucket sz nblks (add p sz) (lists.insertHead heads bucket (add p sz))

namespace MemHeap

def morecore (heap : MemHeap) (bucket : Fin localBuckets) : Except Stop (Nat × MemHeap) := do
  let sz := 2 ^ (bucket + minShift)
  let nblks := pageSize / sz
  bmkAssert (decide (1 < nblks)) "nblks > 1"
  let (rv, pages) ← heap.pages.bmkPgalloc 0
  if rv = 0 then
    return (0, { heap with pages := pages })
  else
    return (rv, { heap with
      pages := pages
      lists := morecoreLoop heap.heads bucket sz (nblks - 1) rv heap.lists })

def bmkMemallocInit (heap : MemHeap) : MemHeap :=
  { heap with lists := { heap.lists with first := fun _ => 0 } }

def countMalloc (heap : MemHeap) (bucket : Fin localBuckets) : MemHeap :=
  { heap with nmalloc := Function.update heap.nmalloc bucket (heap.nmalloc bucket + 1#32) }

def bucketalloc (heap : MemHeap) (bucket : Fin localBuckets) : Except Stop (Nat × MemHeap) := do
  let frb := heap.lists.first bucket
  if frb = 0 then
    let (frb, heap) ← heap.morecore bucket
    if frb = 0 then
      return (0, heap)
    else
      return (frb, heap.countMalloc bucket)
  else
    let removed := { heap with lists := heap.lists.remove heap.heads frb }
    return (frb, removed.countMalloc bucket)

end MemHeap

/-! ## Sizes -/

def atLeastMinAlign (align : Nat) : Nat := if align < minAlign then minAlign else align

/-- The header, rounded up to the alignment. -/
def hdrPadding (align : Nat) : Nat := add hdrSize (align - 1) &&& compl (align - 1)

def allocbytes (nbytes align : Nat) : Nat := add nbytes (hdrPadding align)

/-- The closest block size which satisfies the request. -/
def bucketFor (allocbytes : Nat) : Nat :=
  if allocbytes < 2 ^ minShift then
    0
  else
    let bucket := 64 - clz (allocbytes / 2 ^ minShift)
    if allocbytes &&& (allocbytes - 1) = 0 then bucket - 1 else bucket

/-- The order `bmk_memalloc` and `bmk_memfree` pass to the page allocator. -/
def pageOrder (bucket : Nat) : Nat := bucket + minShift - pageShift

def userPointer (hdr align : Nat) : Nat := sub (add (add hdr hdrSize) align) 1 &&& compl (align - 1)

/-! ## The interface -/

namespace MemHeap

/-- The block of a bucket, from its free list or from the page allocator. -/
def takeBlock (heap : MemHeap) (bucket : Nat) : Except Stop (Nat × MemHeap) :=
  if small : bucket < localBuckets then
    heap.bucketalloc ⟨bucket, small⟩
  else do
    let (hdr, pages) ← heap.pages.bmkPgalloc (pageOrder bucket)
    return (hdr, { heap with pages := pages })

def bmkMemalloc (heap : MemHeap) (nbytes align : Nat) (who : Memwho) : Except Stop (Nat × MemHeap) :=
  if align &&& (align - 1) ≠ 0 then
    .ok (0, heap)
  else do
    let align := atLeastMinAlign align
    bmkAssert (decide (align ≤ 2 ^ 31)) "align <= (1UL<<31)"
    let bucket := bucketFor (allocbytes nbytes align)
    let (hdr, heap) ← heap.takeBlock bucket
    if hdr = 0 then
      return (0, heap)
    else
      let rv := userPointer hdr align
      let memory := storeHdr heap.lists.memory (sub rv hdrSize)
        { alignpad := sub rv hdr, magic := memMagic, index := bucket, who := who.code }
      return (rv, { heap with lists := { heap.lists with memory := memory } })

def bmkMemcalloc (heap : MemHeap) (n size : Nat) (who : Memwho) : Except Stop (Nat × MemHeap) :=
  let tot := mul n size
  if size ≠ 0 ∧ tot / size ≠ n then
    .ok (0, heap)
  else do
    let (v, heap) ← heap.bmkMemalloc tot minAlign who
    if v = 0 then
      return (0, heap)
    else
      let memory := bmkMemset heap.lists.memory v 0 tot
      return (v, { heap with lists := { heap.lists with memory := memory } })

def hdrOf (heap : MemHeap) (cp : Nat) : MemallocHdr := loadHdr heap.lists.memory (sub cp hdrSize)

/-- The start of the block, as `bmk_memfree` computes it. -/
def origp (heap : MemHeap) (cp : Nat) : Nat := sub cp (heap.hdrOf cp).alignpad

/-- The end of `bmk_memfree`: the block goes back to where `takeBlock` gets it. -/
def giveBlock (heap : MemHeap) (origp index : Nat) : Except Stop MemHeap :=
  if small : index < localBuckets then
    let bucket : Fin localBuckets := ⟨index, small⟩
    .ok { heap with
      lists := heap.lists.insertHead heap.heads bucket origp
      nmalloc := Function.update heap.nmalloc bucket (heap.nmalloc bucket - 1#32) }
  else do
    let pages ← heap.pages.bmkPgfree origp (pageOrder index)
    return { heap with pages := pages }

/-- A pointer without the magic number is reported on the console and left alone. -/
def bmkMemfree (heap : MemHeap) (cp : Nat) (who : Memwho) : Except Stop MemHeap :=
  if cp = 0 then
    .ok heap
  else if (heap.hdrOf cp).magic ≠ memMagic then
    .ok heap
  else if (heap.hdrOf cp).who ≠ who.code then
    .error (.halt "bmk_memalloc error")
  else
    heap.giveBlock (heap.origp cp) (heap.hdrOf cp).index

end MemHeap

/-- `1<<k` with the `int` constant 1. -/
def intShift (k : Nat) : Except Stop Nat :=
  if k < 31 then .ok (2 ^ k) else .error (.undefined "1<<k")

namespace MemHeap

def bmkMemreallocUser (heap : MemHeap) (cp nbytes : Nat) : Except Stop (Nat × MemHeap) :=
  if cp = 0 then
    heap.bmkMemalloc nbytes minAlign .user
  else if nbytes = 0 then do
    let heap ← heap.bmkMemfree cp .user
    return (0, heap)
  else do
    let size := (heap.hdrOf cp).index
    let alignpad := (heap.hdrOf cp).alignpad
    let room := sub (← intShift (size + minShift)) alignpad
    if nbytes ≤ room then
      return (cp, heap)
    else
      let (np, heap) ← heap.bmkMemalloc nbytes 8 .user
      if np = 0 then
        return (0, heap)
      else
        let memory := bmkMemcpy heap.lists.memory np cp room
        let heap ← bmkMemfree { heap with lists := { heap.lists with memory := memory } } cp .user
        return (np, heap)

end MemHeap
end Rumprun.Core.MemoryAllocator
