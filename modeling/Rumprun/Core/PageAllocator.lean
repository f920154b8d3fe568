import Rumprun.Core.Platform
import Rumprun.Lib.MachineWord

/-! # The page allocator, `lib/libbmk_core/pgalloc.c`

A binary buddy allocator. A free chunk carries its level and a magic number in its own
first bytes (`chunk`), sits on the free list of its level, and the allocation bitmap has
one bit for each page from `minpage_addr` on. `LIST_REMOVE` of an element that is on no
list is `Stop.undefined`, as is a bitmap access past its words. -/

namespace Rumprun.Core.PageAllocator
open MachineWord Function

def pagesPerMapword : Nat := 64

def chunkMagic : Nat := 0x11020217

def freelistLevels : Nat := 64 - pageShift

structure ChunkHeader where
  level : Nat
  magic : Nat
  deriving DecidableEq, Repr

structure PageHeap where
  called : Bool
  minpageAddr : Nat
  maxpageAddr : Nat
  /-- Where `alloc_bitmap` points, and how many words it was given. -/
  bitmapAddr : Nat
  bitmapWords : Nat
  allocBitmap : Nat → BitVec 64
  freelist : Nat → List Nat
  chunk : Nat → ChunkHeader
  pgallocTotalkb : Nat
  pgallocUsedkb : Nat

def PageHeap.boot : PageHeap :=
  { called := false
    minpageAddr := 0
    maxpageAddr := 0
    bitmapAddr := 0
    bitmapWords := 0
    allocBitmap := fun _ => 0#64
    freelist := fun _ => []
    chunk := fun _ => { level := 0, magic := 0 }
    pgallocTotalkb := 0
    pgallocUsedkb := 0 }

def order2size (order : Nat) : Nat := 2 ^ (order + pageShift)

def roundPage (p : Nat) : Nat := add p (pageSize - 1) &&& compl (pageSize - 1)

def truncPage (p : Nat) : Nat := p &&& compl (pageSize - 1)

namespace PageHeap

def vaToPg (heap : PageHeap) (va : Nat) : Nat := sub va heap.minpageAddr / 2 ^ pageShift

def addrIsManaged (heap : PageHeap) (addr : Nat) : Bool :=
  decide (heap.minpageAddr ≤ addr) && decide (addr < heap.maxpageAddr)

def allocatedInMap (heap : PageHeap) (addr : Nat) : Except Stop Bool := do
  bmkAssert (heap.addrIsManaged addr) "addr_is_managed(addr)"
  let pagenum := heap.vaToPg addr
  if pagenum / pagesPerMapword < heap.bitmapWords then
    return (heap.allocBitmap (pagenum / pagesPerMapword)).getLsbD (pagenum % pagesPerMapword)
  else
    throw (.undefined "alloc_bitmap index")

end PageHeap

/-- The inner loops of `map_alloc` and `map_free`: store `value` in the words from `first` on. -/
def fillWords (value : BitVec 64) (bitmap : Nat → BitVec 64) (first : Nat) : Nat → Nat → BitVec 64
  | 0 => bitmap
  | count + 1 => update (fillWords value bitmap first count) (first + count) value

namespace PageHeap

def mapAlloc (heap : PageHeap) (virt nrPages : Nat) : Except Stop PageHeap :=
  let firstPage := heap.vaToPg virt
  let currIdx := firstPage / pagesPerMapword
  let start := firstPage % pagesPerMapword
  let endIdx := (firstPage + nrPages) / pagesPerMapword
  let stop := (firstPage + nrPages) % pagesPerMapword
  if heap.bitmapWords ≤ endIdx then
    throw (.undefined "alloc_bitmap index")
  else if currIdx = endIdx then
    let word := heap.allocBitmap currIdx ||| (((1#64 <<< stop) - 1#64) &&& -(1#64 <<< start))
    return { heap with allocBitmap := update heap.allocBitmap currIdx word }
  else
    let first := update heap.allocBitmap currIdx
      (heap.allocBitmap currIdx ||| -(1#64 <<< start))
    let middle := fillWords (BitVec.allOnes 64) first (currIdx + 1) (endIdx - (currIdx + 1))
    let last := update middle endIdx (middle endIdx ||| ((1#64 <<< stop) - 1#64))
    return { heap with allocBitmap := last }

def mapFree (heap : PageHeap) (virt nrPages : Nat) : Except Stop PageHeap :=
  let firstPage := heap.vaToPg virt
  let currIdx := firstPage / pagesPerMapword
  let start := firstPage % pagesPerMapword
  let endIdx := (firstPage + nrPages) / pagesPerMapword
  let stop := (firstPage + nrPages) % pagesPerMapword
  if heap.bitmapWords ≤ endIdx then
    throw (.undefined "alloc_bitmap index")
  else if currIdx = endIdx then
    let word := heap.allocBitmap currIdx &&& (-(1#64 <<< stop) ||| ((1#64 <<< start) - 1#64))
    return { heap with allocBitmap := update heap.allocBitmap currIdx word }
  else
    let first := update heap.allocBitmap currIdx
      (heap.allocBitmap currIdx &&& ((1#64 <<< start) - 1#64))
    let middle := fillWords 0#64 first (currIdx + 1) (endIdx - (currIdx + 1))
    let last := update middle endIdx (middle endIdx &&& -(1#64 <<< stop))
    return { heap with allocBitmap := last }

/-! ## Chunks and free lists -/

def chunklevel (heap : PageHeap) (ch : Nat) : Except Stop Nat := do
  bmkAssert ((heap.chunk ch).magic == chunkMagic) "ch->magic == CHUNKMAGIC"
  return (heap.chunk ch).level

def clearMagic (heap : PageHeap) (ch : Nat) : PageHeap :=
  { heap with chunk := update heap.chunk ch { heap.chunk ch with magic := 0 } }

def freechunkLink (heap : PageHeap) (addr order : Nat) : Except Stop PageHeap :=
  if order < freelistLevels then
    return { heap with
      chunk := update heap.chunk addr { level := order, magic := chunkMagic }
      freelist := update heap.freelist order (addr :: heap.freelist order) }
  else
    throw (.undefined "freelist index")

def unlink (heap : PageHeap) (ch : Nat) : PageHeap :=
  { heap with freelist := fun level => (heap.freelist level).erase ch }

def listRemove (heap : PageHeap) (ch : Nat) : Except Stop PageHeap :=
  if (List.range freelistLevels).any fun level => ch ∈ heap.freelist level then
    return heap.unlink ch
  else
    throw (.undefined "LIST_REMOVE of an unlinked chunk")

/-- Next chunk is limited by alignment of `addr`, but also must not be bigger than the
remaining range. -/
@[irreducible]
def carveExponent (addr range : Nat) : Nat :=
  let i := ctz addr
  let r := 64 - (clz range + 1)
  if r < i then r else i

/-- `carverange`; every iteration takes at least one page off `range`, so `range` itself is
enough fuel. -/
def carveLoop : Nat → PageHeap → Nat → Nat → Except Stop PageHeap
  | 0, heap, _, range =>
    if range = 0 then .ok heap else .error (.undefined "carverange does not return")
  | fuel + 1, heap, addr, range =>
    if range = 0 then
      .ok heap
    else if addr = 0 then
      .error (.undefined "__builtin_ctzl(0)")
    else
      if carveExponent addr range < pageShift then
        .error (.undefined "chunk smaller than a page")
      else
        let i := carveExponent addr range - pageShift
        match heap.freechunkLink addr i with
        | .error stop => .error stop
        | .ok linked =>
          carveLoop fuel linked (add addr (order2size i)) (sub range (order2size i))

def carverange (heap : PageHeap) (addr range : Nat) : Except Stop PageHeap :=
  carveLoop range heap addr range

/-! ## The interface -/

def bmkPgallocLoadmem (heap : PageHeap) (min max : Nat) : Except Stop PageHeap := do
  if heap.called then
    throw (.halt "bmk_pgalloc_loadmem called more than once")
  bmkAssert (decide (min < max)) "max > min"
  let min := roundPage min
  let max := truncPage max
  let bitmapSize := roundPage (add (sub max min / 2 ^ (pageShift + 3)) 1)
  let bitmapAddr := min
  let min := add min bitmapSize
  let range := sub max min
  let cleared : PageHeap :=
    { called := true
      minpageAddr := min
      maxpageAddr := max
      bitmapAddr := bitmapAddr
      bitmapWords := bitmapSize / 8
      allocBitmap := fun _ => BitVec.allOnes 64
      freelist := fun _ => []
      chunk := heap.chunk
      pgallocTotalkb := range / 2 ^ 10
      pgallocUsedkb := 0 }
  let mapped ← cleared.mapFree min (range / 2 ^ pageShift)
  mapped.carverange min range

def satisfiesP (heap : PageHeap) (i align : Nat) : Option Nat :=
  (heap.freelist i).find? fun p => p &&& (align - 1) == 0

/-- The search loop of `bmk_pgalloc_align`, over `count` buckets from `bucket` on. -/
def findBucket (heap : PageHeap) (align : Nat) : Nat → Nat → Option (Nat × Nat)
  | 0, _ => none
  | count + 1, bucket =>
    match heap.satisfiesP bucket align with
    | some allocCh => some (bucket, allocCh)
    | none => heap.findBucket align count (bucket + 1)

/-- The middle of `bmk_pgalloc_align`: unlink the chunk and carve up the leftovers. -/
def takeChunk (heap : PageHeap) (allocCh bucket order : Nat) : Except Stop PageHeap := do
  let unlinked ← heap.listRemove allocCh
  bmkAssert ((unlinked.chunk allocCh).magic == chunkMagic) "alloc_ch->magic == CHUNKMAGIC"
  (unlinked.clearMagic allocCh).carverange (add allocCh (order2size order))
    (sub (order2size bucket) (order2size order))

/-- A result of `0` is the NULL pointer; `order` is the unsigned value the assert tests. -/
def bmkPgallocAlign (heap : PageHeap) (order align : Nat) : Except Stop (Nat × PageHeap) := do
  bmkAssert (decide (pageSize ≤ align) && (align &&& (align - 1)) == 0)
    "align >= BMK_PCPU_PAGE_SIZE && (align & (align-1)) == 0"
  bmkAssert (decide (order < freelistLevels)) "(unsigned)order < FREELIST_LEVELS"
  match heap.findBucket align (freelistLevels - order) order with
  | none => return (0, heap)
  | some (bucket, allocCh) =>
    let carved ← heap.takeChunk allocCh bucket order
    let mapped ← carved.mapAlloc allocCh (2 ^ order)
    let counted :=
      { mapped with pgallocUsedkb := add mapped.pgallocUsedkb (order2size order / 2 ^ 10) }
    bmkAssert ((allocCh &&& (align - 1)) == 0) "((unsigned long)alloc_ch & (align-1)) == 0"
    return (allocCh, counted)

def bmkPgalloc (heap : PageHeap) (order : Nat) : Except Stop (Nat × PageHeap) :=
  heap.bmkPgallocAlign order pageSize

/-- The condition under which the merge loop goes on; `||` stops at the first true test. -/
def mergeable (heap : PageHeap) (toMergeCh order : Nat) : Except Stop Bool := do
  if !heap.addrIsManaged toMergeCh then
    return false
  else if ← heap.allocatedInMap toMergeCh then
    return false
  else
    return (← heap.chunklevel toMergeCh) == order

/-- The merge loop of `bmk_pgfree`, at most `count` times, with `count` the levels left above
`order`. -/
def mergeLoop : Nat → PageHeap → Nat → Nat → Except Stop (PageHeap × Nat × Nat)
  | 0, heap, freedCh, order => .ok (heap, freedCh, order)
  | count + 1, heap, freedCh, order => do
    let mask := order2size order
    let backward := (freedCh &&& mask) != 0
    let toMergeCh := if backward then add freedCh (neg mask) else add freedCh mask
    if ← heap.mergeable toMergeCh order then
      let freedCh' := if backward then toMergeCh else freedCh
      let unlinked ← ((heap.clearMagic freedCh).clearMagic toMergeCh).listRemove toMergeCh
      mergeLoop count unlinked freedCh' (order + 1)
    else
      return (heap, freedCh, order)

def bmkPgfree (heap : PageHeap) (pointer order : Nat) : Except Stop PageHeap := do
  let mapped ← heap.mapFree pointer (2 ^ order)
  let counted :=
    { mapped with pgallocUsedkb := sub mapped.pgallocUsedkb (order2size order / 2 ^ 10) }
  let (merged, freedCh, order) ← counted.mergeLoop (freelistLevels - order) pointer order
  merged.freechunkLink freedCh order

end PageHeap
end Rumprun.Core.PageAllocator
