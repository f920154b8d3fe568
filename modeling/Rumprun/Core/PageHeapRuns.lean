import Rumprun.Core.PageHeapSteps
import Rumprun.Lib.StepRuns

/-! # Every history of the page allocator

A load followed by any sequence of allocations and frees, with the owners of live
blocks writing into them in between. -/

namespace Rumprun.Core.PageAllocator
open DyadicBlocks StepRuns PageHeap

inductive PageOp where
  | pgallocAlign (order align : Nat)
  | pgfree (pointer order : Nat)
  /-- The owner of a block overwrites what would be a chunk header there. -/
  | store (addr : Nat) (value : ChunkHeader)

structure PageSystem where
  heap : PageHeap
  live : List Block

namespace PageSystem

def step (sys : PageSystem) : PageOp → Except Stop PageSystem
  | .pgallocAlign order align =>
    match sys.heap.bmkPgallocAlign order align with
    | .error stop => .error stop
    | .ok (p, heap) =>
      if p = 0 then .ok { sys with heap := heap }
      else .ok { heap := heap, live := { addr := p, order := order } :: sys.live }
  | .pgfree pointer order =>
    match sys.heap.bmkPgfree pointer order with
    | .error stop => .error stop
    | .ok heap => .ok { heap := heap, live := sys.live.erase { addr := pointer, order := order } }
  | .store addr value =>
    .ok { sys with
      heap := { sys.heap with chunk := Function.update sys.heap.chunk addr value } }

/-- What the callers keep to: the asserts of `bmk_pgalloc_align`, frees of live blocks with their
own order, stores into live blocks. -/
def Admits (sys : PageSystem) : PageOp → Prop
  | .pgallocAlign order align =>
    order < freelistLevels ∧ pageSize ≤ align ∧ align &&& (align - 1) = 0
  | .pgfree pointer order => { addr := pointer, order := order } ∈ sys.live
  | .store addr _ => addr ∈ liveBytes sys.live

instance decidableMemLiveBytes (x : Nat) (live : List Block) : Decidable (x ∈ liveBytes live) :=
  inferInstanceAs (Decidable (∃ b ∈ live, b.addr ≤ x ∧ x < b.addr + 2 ^ (b.order + pageShift)))

instance decidableAdmits (sys : PageSystem) : ∀ op, Decidable (sys.Admits op) := by
  intro event
  unfold Admits
  split <;> infer_instance

/-- The invariant, for the range one load has set up. -/
def Inv (lo hi : Nat) (sys : PageSystem) : Prop :=
  HeapInv sys.heap sys.live ∧ sys.heap.minpageAddr = lo ∧ sys.heap.maxpageAddr = hi

theorem step_inv {lo hi : Nat} (sys : PageSystem) (op : PageOp) (inv : Inv lo hi sys)
    (allowed : sys.Admits op) : ∃ next, sys.step op = .ok next ∧ Inv lo hi next := by
  obtain ⟨heapInv, loEq, hiEq⟩ := inv
  cases op with
  | pgallocAlign order align =>
    obtain ⟨orderLt, alignGe, alignPow⟩ := allowed
    rcases heapInv.bmkPgallocAlign_spec orderLt alignGe alignPow with
      ⟨run, -⟩ | ⟨p, heap, run, pos, -, heapInv', sameLo, sameHi⟩
    · refine ⟨sys, ?_, heapInv, loEq, hiEq⟩
      simp only [step, run, if_true]
    · refine ⟨{ heap := heap, live := { addr := p, order := order } :: sys.live }, ?_,
        heapInv', sameLo.trans loEq, sameHi.trans hiEq⟩
      simp only [step, run, if_neg pos]
  | pgfree pointer order =>
    obtain ⟨heap, run, heapInv', sameLo, sameHi, -⟩ := heapInv.bmkPgfree_spec allowed
    refine ⟨{ heap := heap, live := sys.live.erase { addr := pointer, order := order } }, ?_,
      heapInv', sameLo.trans loEq, sameHi.trans hiEq⟩
    simp only [step, run]
  | store addr value =>
    refine ⟨_, rfl, ?_, loEq, hiEq⟩
    have apart : ∀ k, ¬ Maximal (sys.heap.freeBytes sys.live) addr k := fun k max =>
      (max.inside (left_mem_block addr k)).2 allowed
    exact { heapInv with chunks := heapInv.chunks.update_chunk addr value apart }

end PageSystem
open PageSystem

/-! ## The heap as a partition -/

namespace PageHeap

/-- Every chunk on a free list, as a block. -/
def chunkBlocks (heap : PageHeap) : List Block :=
  (List.range freelistLevels).flatMap fun level =>
    (heap.freelist level).map fun a => { addr := a, order := level }

theorem mem_chunkBlocks {heap : PageHeap} {b : Block} :
    b ∈ heap.chunkBlocks ↔ b.order < freelistLevels ∧ b.addr ∈ heap.freelist b.order := by
  simp only [chunkBlocks, List.mem_flatMap, List.mem_range, List.mem_map]
  constructor
  · intro h
    obtain ⟨level, small, a, mem, same⟩ := h
    subst same
    exact ⟨small, mem⟩
  · intro h
    exact ⟨b.order, h.1, b.addr, h.2, rfl⟩

end PageHeap

structure HeapPartition (heap : PageHeap) (live : List Block) : Prop where
  /-- Free chunks and live allocations do not overlap, and cover the managed range. -/
  apart : (heap.chunkBlocks ++ live).Pairwise fun b c => Disjoint b.bytes c.bytes
  cover : ∀ x, x ∈ Set.Ico heap.minpageAddr heap.maxpageAddr ↔
    ∃ b ∈ heap.chunkBlocks ++ live, x ∈ b.bytes
  /-- A chunk on `freelist[i]` is aligned to its size and carries level and magic. -/
  chunks : ∀ level a, a ∈ heap.freelist level → level < freelistLevels ∧
    2 ^ (level + pageShift) ∣ a ∧ heap.chunk a = { level := level, magic := chunkMagic }
  bits : ∀ addr, heap.minpageAddr ≤ addr → addr < heap.maxpageAddr →
    ∃ bit, heap.allocatedInMap addr = .ok bit ∧ (bit = true ↔ ∃ b ∈ live, addr ∈ b.bytes)
  used : heap.pgallocUsedkb * 2 ^ 10 = (live.map Block.size).sum
  remaining : (heap.pgallocTotalkb - heap.pgallocUsedkb) * 2 ^ 10 =
    (heap.chunkBlocks.map Block.size).sum

namespace HeapInv
variable {heap : PageHeap} {live : List Block}
variable (inv : HeapInv heap live)
include inv

theorem level_lt {a level : Nat} (mem : a ∈ heap.freelist level) : level < freelistLevels := by
  have max := (inv.chunks.mem_iff a level).mp mem
  have inside : block a (level + pageShift) ⊆ heap.managed := fun x h => (max.inside h).1
  exact order_lt_of_inside inv.fits inside

theorem on_list {a k : Nat} (max : Maximal (heap.freeBytes live) a k) :
    pageShift ≤ k ∧ a ∈ heap.freelist (k - pageShift) := by
  have page := pageShift_le_of_maximal inv.free_granular max
  refine ⟨page, ?_⟩
  rw [inv.chunks.mem_iff, Nat.sub_add_cancel page]
  exact max

theorem full (none : ∀ level, level < freelistLevels → heap.freelist level = []) :
    heap.freeBytes live = ∅ := by
  rw [Set.eq_empty_iff_forall_notMem]
  intro x mem
  obtain ⟨a, k, max, -⟩ := exists_maximal inv.zero_not_free mem
  have onList := (inv.on_list max).2
  rw [none _ (inv.level_lt onList)] at onList
  cases onList

theorem chunk_free {b : Block} (mem : b ∈ heap.chunkBlocks) :
    Maximal (heap.freeBytes live) b.addr (b.order + pageShift) :=
  (inv.chunks.mem_iff _ _).mp (mem_chunkBlocks.mp mem).2

theorem chunkBlocks_nodup : heap.chunkBlocks.Nodup := by
  rw [chunkBlocks, List.nodup_flatMap]
  constructor
  · intro level _
    exact (inv.chunks.nodup level).map fun a b same => (Block.mk.inj same).1
  · apply List.nodup_range.imp
    intro i j ne
    rw [Function.onFun, List.disjoint_left]
    intro b here there
    obtain ⟨a, -, sameI⟩ := List.mem_map.mp here
    obtain ⟨c, -, sameJ⟩ := List.mem_map.mp there
    rw [← sameJ] at sameI
    exact ne (Block.mk.inj sameI).2

theorem chunkBlocks_apart : heap.chunkBlocks.Pairwise fun b c => Disjoint b.bytes c.bytes := by
  apply inv.chunkBlocks_nodup.imp_of_mem
  intro b c memB memC ne
  rw [Set.disjoint_left]
  intro x inB inC
  have same := (inv.chunk_free memB).unique (inv.chunk_free memC) inB inC
  apply ne
  obtain ⟨addr, order⟩ := b
  obtain ⟨addr', order'⟩ := c
  have sameOrder : order = order' := Nat.add_right_cancel same.2
  rw [show addr = addr' from same.1, sameOrder]

theorem all_apart : (heap.chunkBlocks ++ live).Pairwise fun b c => Disjoint b.bytes c.bytes := by
  rw [List.pairwise_append]
  refine ⟨inv.chunkBlocks_apart, inv.liveApart, ?_⟩
  intro b memB c memC
  rw [Set.disjoint_left]
  intro x inB inC
  exact ((inv.chunk_free memB).inside inB).2 ⟨c, memC, inC⟩

theorem all_cover (x : Nat) :
    x ∈ Set.Ico heap.minpageAddr heap.maxpageAddr ↔ ∃ b ∈ heap.chunkBlocks ++ live, x ∈ b.bytes := by
  constructor
  · intro mem
    by_cases isLive : x ∈ liveBytes live
    · obtain ⟨b, hb, inB⟩ := isLive
      exact ⟨b, List.mem_append_right _ hb, inB⟩
    · obtain ⟨a, k, max, inBlock⟩ := exists_maximal inv.zero_not_free ⟨mem, isLive⟩
      obtain ⟨page, onList⟩ := inv.on_list max
      refine ⟨{ addr := a, order := k - pageShift }, List.mem_append_left _ ?_, ?_⟩
      · exact mem_chunkBlocks.mpr ⟨inv.level_lt onList, onList⟩
      · rw [Block.bytes, Nat.sub_add_cancel page]
        exact inBlock
  · intro h
    obtain ⟨b, mem, inB⟩ := h
    rcases List.mem_append.mp mem with isChunk | isLive
    · exact ((inv.chunk_free isChunk).inside inB).1
    · exact inv.liveManaged b isLive inB

theorem partition : HeapPartition heap live where
  apart := inv.all_apart
  cover := inv.all_cover
  chunks := fun level a mem =>
    ⟨inv.level_lt mem, ((inv.chunks.mem_iff a level).mp mem).aligned, inv.chunks.header a level mem⟩
  bits := fun addr lo hi => inv.allocatedInMap_eq ⟨lo, hi⟩
  used := by
    rw [inv.used]
    exact sum_kb live
  remaining := by
    have whole := sum_sizes_eq Block.addr (fun b => b.order + pageShift) inv.all_apart inv.all_cover
    rw [List.map_append, List.sum_append, ← sum_kb live, ← inv.used] at whole
    have kb : heap.pgallocTotalkb * 2 ^ 10 = heap.maxpageAddr - heap.minpageAddr := by
      rw [inv.total]
      apply Nat.div_mul_cancel
      have page : 2 ^ 10 ∣ pageSize := pow_dvd_pow 2 (by decide)
      exact page.trans (Nat.dvd_sub inv.maxAligned inv.minAligned)
    rw [Nat.sub_mul, kb, ← whole]
    exact Nat.add_sub_cancel _ _

end HeapInv

/-- After a load every admitted history returns, and keeps the invariant. -/
theorem history_inv (boot : PageHeap) (fresh : boot.called = false) {min max : Nat}
    (holds : HoldsBitmap min max) :
    ∃ loaded, boot.bmkPgallocLoadmem min max = .ok loaded ∧ HeapInv loaded [] ∧
      ∀ ops, Admissible PageSystem.Admits step ops { heap := loaded, live := [] } →
        ∃ final, run step ops { heap := loaded, live := [] } = .ok final ∧
          PageSystem.Inv loaded.minpageAddr loaded.maxpageAddr final := by
  obtain ⟨loaded, loadRun, inv, -, -, -⟩ := boot.bmkPgallocLoadmem_spec fresh holds
  exact ⟨loaded, loadRun, inv, fun ops allowed => run_invariant step_inv ops _ ⟨inv, rfl, rfl⟩ allowed⟩

/-- Loading any range that holds its bitmap returns, and so does every admitted history after it,
in a heap whose chunks and live blocks tile the managed range. -/
theorem pgalloc_history_partition (boot : PageHeap) (fresh : boot.called = false) (min max : Nat)
    (holds : HoldsBitmap min max) :
    ∃ loaded, boot.bmkPgallocLoadmem min max = .ok loaded ∧
      ∀ ops, Admissible PageSystem.Admits PageSystem.step ops { heap := loaded, live := [] } →
        ∃ final, run PageSystem.step ops { heap := loaded, live := [] } = .ok final ∧
          HeapPartition final.heap final.live := by
  obtain ⟨loaded, loadRun, -, reached⟩ := history_inv boot fresh holds
  refine ⟨loaded, loadRun, ?_⟩
  intro ops allowed
  obtain ⟨final, ran, finalInv⟩ := reached ops allowed
  exact ⟨final, ran, finalInv.1.partition⟩

theorem pgalloc_history_partition_thirty_pages :
    ∃ loaded final, PageHeap.boot.bmkPgallocLoadmem 0x1000 0x20000 = .ok loaded ∧
      run PageSystem.step [.pgallocAlign 1 0x2000, .store 0x2000 { level := 7, magic := chunkMagic },
        .pgallocAlign 0 0x1000, .pgfree 0x2000 1] { heap := loaded, live := [] } = .ok final ∧
      HeapPartition final.heap final.live := by
  obtain ⟨loaded, loadRun, history⟩ := pgalloc_history_partition boot rfl 0x1000 0x20000 (by decide)
  have allowed : ∀ heap ∈ (boot.bmkPgallocLoadmem 0x1000 0x20000).toOption,
      Admissible PageSystem.Admits step
        [.pgallocAlign 1 0x2000, .store 0x2000 { level := 7, magic := chunkMagic },
          .pgallocAlign 0 0x1000, .pgfree 0x2000 1] { heap := heap, live := [] } := by
    decide +kernel
  obtain ⟨final, ran, partition⟩ := history _ (allowed loaded (by rw [loadRun]; rfl))
  exact ⟨loaded, final, loadRun, ran, partition⟩

/-! ## The canonical form -/

/-- The free chunks are the maximal aligned blocks of free managed bytes; in particular no two
free buddies of one level exist. -/
structure Canonical (heap : PageHeap) (live : List Block) : Prop where
  maximal : ∀ a k, (∃ level, level < freelistLevels ∧ k = level + pageShift ∧
    a ∈ heap.freelist level) ↔ Maximal (heap.freeBytes live) a k
  noBuddies : ∀ level a, a ∈ heap.freelist level → buddy a (level + pageShift) ∉ heap.freelist level

/-- Two heaps with the same chunks at every level, the same bits and the same counter. -/
structure SameHeap (first second : PageHeap) : Prop where
  minpageAddr : first.minpageAddr = second.minpageAddr
  maxpageAddr : first.maxpageAddr = second.maxpageAddr
  chunks : ∀ level a, a ∈ first.freelist level ↔ a ∈ second.freelist level
  bits : ∀ addr, first.minpageAddr ≤ addr → addr < first.maxpageAddr →
    first.allocatedInMap addr = second.allocatedInMap addr
  used : first.pgallocUsedkb = second.pgallocUsedkb

namespace HeapInv
variable {heap : PageHeap} {live : List Block}

theorem canonical (inv : HeapInv heap live) : Canonical heap live where
  maximal := by
    intro a k
    constructor
    · intro h
      obtain ⟨level, -, same, mem⟩ := h
      rw [same]
      exact (inv.chunks.mem_iff a level).mp mem
    · intro max
      obtain ⟨page, onList⟩ := inv.on_list max
      exact ⟨k - pageShift, inv.level_lt onList, by omega, onList⟩
  noBuddies := by
    intro level a mem buddyMem
    have max := (inv.chunks.mem_iff a level).mp mem
    have buddyMax := (inv.chunks.mem_iff _ level).mp buddyMem
    apply max.parent_not_inside
    intro x inParent
    rcases (mem_parent_iff max.aligned).mp inParent with here | there
    · exact max.inside here
    · exact buddyMax.inside there

theorem live_nodup (inv : HeapInv heap live) : live.Nodup := by
  apply inv.liveApart.imp
  intro b c apart same
  subst same
  exact Set.disjoint_left.mp apart (left_mem_block _ _) (left_mem_block _ _)

theorem sameHeap {heap' : PageHeap} {live' : List Block} (inv : HeapInv heap live)
    (inv' : HeapInv heap' live') (lo : heap.minpageAddr = heap'.minpageAddr)
    (hi : heap.maxpageAddr = heap'.maxpageAddr) (same : ∀ b, b ∈ live ↔ b ∈ live') :
    SameHeap heap heap' where
  minpageAddr := lo
  maxpageAddr := hi
  chunks := by
    intro level a
    have free : heap.freeBytes live = heap'.freeBytes live' := by
      ext x
      simp only [freeBytes, managed, liveBytes, lo, hi, same]
    rw [inv.chunks.mem_iff, inv'.chunks.mem_iff, free]
  bits := by
    intro addr low high
    have mem : addr ∈ heap.managed := ⟨low, high⟩
    have mem' : addr ∈ heap'.managed := ⟨lo ▸ low, hi ▸ high⟩
    obtain ⟨bit, bitRun, bitIff⟩ := inv.allocatedInMap_eq mem
    obtain ⟨bit', bitRun', bitIff'⟩ := inv'.allocatedInMap_eq mem'
    have sameBytes : addr ∈ liveBytes live ↔ addr ∈ liveBytes live' := by
      simp only [liveBytes, Set.mem_ofPred_eq, same]
    rw [bitRun, bitRun', Bool.eq_iff_iff.mpr (bitIff.trans (sameBytes.trans bitIff'.symm))]
  used := by
    have perm := (List.perm_ext_iff_of_nodup inv.live_nodup inv'.live_nodup).mpr same
    rw [inv.used, inv'.used, (perm.map _).sum_eq]

end HeapInv

/-- Every admitted history from one load ends in the fully merged
form; two histories that end with the same live blocks end in the same heap, and freeing
everything restores the heap the load produced. -/
theorem pgalloc_history_canonical (boot : PageHeap) (fresh : boot.called = false) (min max : Nat)
    (holds : HoldsBitmap min max) :
    ∃ loaded, boot.bmkPgallocLoadmem min max = .ok loaded ∧
      (∀ ops, Admissible PageSystem.Admits PageSystem.step ops { heap := loaded, live := [] } →
        ∃ final, run PageSystem.step ops { heap := loaded, live := [] } = .ok final ∧
          Canonical final.heap final.live ∧
          (final.live = [] → SameHeap final.heap loaded)) ∧
      (∀ ops ops' final final',
        Admissible PageSystem.Admits PageSystem.step ops { heap := loaded, live := [] } →
        Admissible PageSystem.Admits PageSystem.step ops' { heap := loaded, live := [] } →
        run PageSystem.step ops { heap := loaded, live := [] } = .ok final →
        run PageSystem.step ops' { heap := loaded, live := [] } = .ok final' →
        (∀ b, b ∈ final.live ↔ b ∈ final'.live) → SameHeap final.heap final'.heap) := by
  obtain ⟨loaded, loadRun, inv, reached⟩ := history_inv boot fresh holds
  refine ⟨loaded, loadRun, ?_, ?_⟩
  · intro ops allowed
    obtain ⟨final, ran, finalInv, lo, hi⟩ := reached ops allowed
    refine ⟨final, ran, finalInv.canonical, ?_⟩
    intro empty
    exact finalInv.sameHeap inv lo hi (fun b => by rw [empty])
  · intro ops ops' final final' allowed allowed' ran ran' same
    obtain ⟨reach, reachRun, reachInv, lo, hi⟩ := reached ops allowed
    obtain ⟨reach', reachRun', reachInv', lo', hi'⟩ := reached ops' allowed'
    rw [ran] at reachRun
    rw [ran'] at reachRun'
    cases reachRun
    cases Except.ok.inj reachRun'
    exact reachInv.sameHeap reachInv' (lo.trans lo'.symm) (hi.trans hi'.symm) same

theorem pgalloc_history_canonical_all_freed :
    ∃ loaded final, PageHeap.boot.bmkPgallocLoadmem 0x1000 0x20000 = .ok loaded ∧
      run PageSystem.step [.pgallocAlign 1 0x2000, .pgallocAlign 0 0x1000, .pgfree 0x2000 1,
        .pgfree 0x4000 0] { heap := loaded, live := [] } = .ok final ∧
      Canonical final.heap final.live ∧ SameHeap final.heap loaded := by
  obtain ⟨loaded, loadRun, history, -⟩ := pgalloc_history_canonical boot rfl 0x1000 0x20000 (by decide)
  have allowed : ∀ heap ∈ (boot.bmkPgallocLoadmem 0x1000 0x20000).toOption,
      Admissible PageSystem.Admits step
        [.pgallocAlign 1 0x2000, .pgallocAlign 0 0x1000, .pgfree 0x2000 1, .pgfree 0x4000 0]
        { heap := heap, live := [] } ∧
      ∀ final ∈ (run step [.pgallocAlign 1 0x2000, .pgallocAlign 0 0x1000,
        .pgfree 0x2000 1, .pgfree 0x4000 0] { heap := heap, live := [] }).toOption,
        final.live = [] := by
    decide +kernel
  obtain ⟨admitted, empties⟩ := allowed loaded (by rw [loadRun]; rfl)
  obtain ⟨final, ran, canonical, restored⟩ := history _ admitted
  exact ⟨loaded, final, loadRun, ran, canonical, restored (empties final (by rw [ran]; rfl))⟩

/-! ## Merging -/

/-- In this state every free of a live block merges safely, and no bitmap word that a call looks at
or changes is outside of the bitmap. -/
structure MergesSafely (sys : PageSystem) : Prop where
  frees : ∀ b ∈ sys.live, SafeMerge sys.heap b ∧ ∃ next, sys.heap.bmkPgfree b.addr b.order = .ok next
  tests : ∀ addr, sys.heap.addrIsManaged addr = true →
    sys.heap.vaToPg addr / pagesPerMapword < sys.heap.bitmapWords
  allocates : ∀ order align p next, sys.Admits (.pgallocAlign order align) →
    sys.heap.bmkPgallocAlign order align = .ok (p, next) → p ≠ 0 →
    (sys.heap.vaToPg p + 2 ^ order) / pagesPerMapword < sys.heap.bitmapWords

theorem HeapInv.mergesSafely {sys : PageSystem} (inv : HeapInv sys.heap sys.live) :
    MergesSafely sys where
  frees := by
    intro b mem
    obtain ⟨next, run, -, -, -, safe⟩ := inv.bmkPgfree_spec mem
    exact ⟨safe, next, run⟩
  tests := by
    intro addr managed
    exact inv.page_room (addrIsManaged_iff.mp managed)
  allocates := by
    rintro order align p next ⟨orderLt, alignGe, alignPow⟩ run pos
    rcases inv.bmkPgallocAlign_spec orderLt alignGe alignPow with
      ⟨none, -⟩ | ⟨q, heap, some, -, -, inv', sameLo, sameHi⟩
    · rw [none] at run
      cases run
      exact absurd rfl pos
    · rw [some] at run
      cases run
      have inside := inv'.liveManaged _ List.mem_cons_self
      rw [managed, sameLo, sameHi] at inside
      exact inv.run_room (inside (left_mem_block _ _)) (block_ends inside)

/-- In every state of every history after a load of any range that holds its
bitmap: what the merge loop inspects past the managed and bitmap tests is a chunk on a free list,
and all indices are in bounds. -/
theorem pgfree_merges_safely (boot : PageHeap) (fresh : boot.called = false) (min max : Nat)
    (holds : HoldsBitmap min max) :
    ∃ loaded, boot.bmkPgallocLoadmem min max = .ok loaded ∧
      ∀ ops, Admissible PageSystem.Admits PageSystem.step ops { heap := loaded, live := [] } →
        Throughout MergesSafely PageSystem.step ops { heap := loaded, live := [] } := by
  obtain ⟨loaded, loadRun, inv, -, -, -⟩ := boot.bmkPgallocLoadmem_spec fresh holds
  refine ⟨loaded, loadRun, ?_⟩
  intro ops allowed
  exact throughout_of_invariant (PageSystem.Inv loaded.minpageAddr loaded.maxpageAddr)
    (fun _ inv => inv.1.mergesSafely) step_inv ops _ ⟨inv, rfl, rfl⟩ allowed

theorem pgfree_merges_safely_two_pages :
    ∃ loaded, PageHeap.boot.bmkPgallocLoadmem 0x1000 0x20000 = .ok loaded ∧
      Throughout MergesSafely PageSystem.step
        [.pgallocAlign 0 0x1000, .pgallocAlign 0 0x1000, .pgfree 0x2000 0, .pgfree 0x3000 0]
        { heap := loaded, live := [] } := by
  obtain ⟨loaded, loadRun, history⟩ := pgfree_merges_safely boot rfl 0x1000 0x20000 (by decide)
  have allowed : ∀ heap ∈ (boot.bmkPgallocLoadmem 0x1000 0x20000).toOption,
      Admissible PageSystem.Admits step
        [.pgallocAlign 0 0x1000, .pgallocAlign 0 0x1000, .pgfree 0x2000 0, .pgfree 0x3000 0]
        { heap := heap, live := [] } := by
    decide +kernel
  exact ⟨loaded, loadRun, history _ (allowed loaded (by rw [loadRun]; rfl))⟩

end Rumprun.Core.PageAllocator
