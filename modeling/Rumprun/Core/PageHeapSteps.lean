import Rumprun.Core.PageCarving

/-! # Loading, allocating and freeing keep the heap invariant

From a heap that satisfies the invariant each operation returns, and leaves one that
satisfies it for the changed list of live blocks. -/

namespace Rumprun.Core.PageAllocator
open MachineWord DyadicBlocks PageHeap
variable {p lo order : Nat} {heap : PageHeap} {live : List Block}

/-! ## Loading memory -/

def firstPage (min : Nat) : Nat := (min + (pageSize - 1)) / pageSize * pageSize

def lastPage (max : Nat) : Nat := max / pageSize * pageSize

/-- Size of the bitmap for the pages between `lo` and `hi`, in whole pages. -/
def bitmapBytes (lo hi : Nat) : Nat := firstPage ((hi - lo) / 2 ^ (pageShift + 3) + 1)

/-- The range holds the bitmap; there may be no page left. -/
def HoldsBitmap (min max : Nat) : Prop :=
  max < 2 ^ 64 ∧ firstPage min + bitmapBytes (firstPage min) (lastPage max) ≤ lastPage max

instance (min max : Nat) : Decidable (HoldsBitmap min max) := inferInstanceAs (Decidable (_ ∧ _))

theorem pageSize_le_bitmapBytes (lo hi : Nat) : pageSize ≤ bitmapBytes lo hi := by
  simp only [bitmapBytes, firstPage, pageSize, pageShift]
  omega

theorem roundPage_eq (fits : p + (pageSize - 1) < 2 ^ 64) : roundPage p = firstPage p := by
  have mask : pageSize - 1 = 2 ^ pageShift - 1 := rfl
  rw [roundPage, add_eq fits, mask, and_compl_mask (by rwa [← mask]) (by decide)]
  rfl

theorem truncPage_eq (fits : p < 2 ^ 64) : truncPage p = lastPage p := by
  have mask : pageSize - 1 = 2 ^ pageShift - 1 := rfl
  rw [truncPage, mask, and_compl_mask fits (by decide)]
  rfl

theorem bitmapSize_eq {hi : Nat} (ordered : lo ≤ hi) (fits : hi < 2 ^ 64) :
    roundPage (add (sub hi lo / 2 ^ (pageShift + 3)) 1) = bitmapBytes lo hi := by
  have bitmapFits : (hi - lo) / 2 ^ (pageShift + 3) + 1 + (pageSize - 1) < 2 ^ 64 := by
    simp only [pageSize, pageShift]
    omega
  rw [sub_eq ordered fits, add_eq (by omega), roundPage_eq bitmapFits, bitmapBytes]

theorem freeBytes_nil (heap : PageHeap) : heap.freeBytes [] = heap.managed := by
  ext x
  simp [freeBytes, liveBytes]

namespace PageHeap

/-- The heap `bmk_pgalloc_loadmem` has set up when it starts to clear the bitmap. -/
def cleared (heap : PageHeap) (min max : Nat) : PageHeap :=
  { called := true
    minpageAddr := firstPage min + bitmapBytes (firstPage min) (lastPage max)
    maxpageAddr := lastPage max
    bitmapAddr := firstPage min
    bitmapWords := bitmapBytes (firstPage min) (lastPage max) / 8
    allocBitmap := fun _ => BitVec.allOnes 64
    freelist := fun _ => []
    chunk := heap.chunk
    pgallocTotalkb :=
      (lastPage max - (firstPage min + bitmapBytes (firstPage min) (lastPage max))) / 2 ^ 10
    pgallocUsedkb := 0 }

theorem bmkPgallocLoadmem_eq (heap : PageHeap) (fresh : heap.called = false) {min max : Nat}
    (holds : HoldsBitmap min max) :
    heap.bmkPgallocLoadmem min max =
      (do
        let mapped ← (heap.cleared min max).mapFree (heap.cleared min max).minpageAddr
          (((heap.cleared min max).maxpageAddr - (heap.cleared min max).minpageAddr) / 2 ^ pageShift)
        mapped.carverange (heap.cleared min max).minpageAddr
          ((heap.cleared min max).maxpageAddr - (heap.cleared min max).minpageAddr)) := by
  obtain ⟨maxFits, room⟩ := holds
  have bitmapPos := pageSize_le_bitmapBytes (firstPage min) (lastPage max)
  have bounds : min ≤ firstPage min ∧ lastPage max ≤ max ∧ firstPage min < min + pageSize := by
    simp only [firstPage, lastPage, pageSize, pageShift]
    omega
  have pageVal : pageSize = 4096 := rfl
  have less : min < max := by omega
  unfold bmkPgallocLoadmem
  simp only [fresh, Bool.false_eq_true, if_false]
  rw [bmkAssert_bind _ (decide_eq_true less), roundPage_eq (by omega), truncPage_eq maxFits,
    bitmapSize_eq (by omega) (by omega), add_eq (by omega), sub_eq (by omega) (by omega)]
  simp only [cleared]

/-- A heap without chunks, of which all pages are made free. -/
theorem carve_all_spec {c : PageHeap} (empty : ∀ level, c.freelist level = [])
    (minPos : 0 < c.minpageAddr) (ordered : c.minpageAddr ≤ c.maxpageAddr)
    (fits : c.maxpageAddr < 2 ^ 64) (loPage : pageSize ∣ c.minpageAddr)
    (hiPage : pageSize ∣ c.maxpageAddr)
    (bitmapRoom : (c.maxpageAddr - c.minpageAddr) / pageSize / pagesPerMapword < c.bitmapWords)
    (used : c.pgallocUsedkb = 0) (total : c.pgallocTotalkb = (c.maxpageAddr - c.minpageAddr) / 2 ^ 10) :
    ∃ bitmap freelist chunk,
      (do
        let mapped ← c.mapFree c.minpageAddr ((c.maxpageAddr - c.minpageAddr) / 2 ^ pageShift)
        mapped.carverange c.minpageAddr (c.maxpageAddr - c.minpageAddr)) =
          .ok { c with allocBitmap := bitmap, freelist := freelist, chunk := chunk } ∧
      HeapInv { c with allocBitmap := bitmap, freelist := freelist, chunk := chunk } [] := by
  have page0 : c.vaToPg c.minpageAddr = 0 := by
    rw [vaToPg, sub_eq le_rfl (by omega), Nat.sub_self, Nat.zero_div]
  obtain ⟨bitmap, mapRun, bits⟩ := c.mapFree_spec c.minpageAddr
    ((c.maxpageAddr - c.minpageAddr) / 2 ^ pageShift)
    (by rw [page0, zero_add]; exact bitmapRoom)
  have unlinked : Linked (fun _ _ => False) c.freelist c.chunk :=
    ⟨fun a level => by simp [empty], fun level => by simp [empty], fun a level mem => by simp [empty] at mem⟩
  obtain ⟨freelist, chunk, carveRun, linked⟩ :=
    carverange_spec { c with allocBitmap := bitmap } c.minpageAddr (c.maxpageAddr - c.minpageAddr)
      (fun _ _ => False) unlinked (by omega) (by omega) loPage (Nat.dvd_sub hiPage loPage)
      (fun _ _ no => no.elim)
  rw [mapRun, ok_bind, carveRun]
  refine ⟨bitmap, freelist, chunk, rfl, ?_⟩
  rw [Nat.add_sub_cancel' ordered] at linked
  exact
    { minPos := minPos
      ordered := ordered
      fits := fits
      minAligned := loPage
      maxAligned := hiPage
      bitmapRoom := bitmapRoom
      liveAligned := fun b mem => absurd mem List.not_mem_nil
      liveManaged := fun b mem => absurd mem List.not_mem_nil
      liveApart := List.Pairwise.nil
      chunks := by
        apply linked.congr
        intro a k _
        rw [freeBytes_nil, false_or]
        rfl
      bits := by
        intro addr mem
        have lo : c.minpageAddr ≤ addr := mem.1
        have hi : addr < c.maxpageAddr := mem.2
        have page : c.vaToPg addr = (addr - c.minpageAddr) / 2 ^ pageShift := by
          rw [vaToPg, sub_eq lo (by omega)]
        have inside : (addr - c.minpageAddr) / 2 ^ pageShift <
            (c.maxpageAddr - c.minpageAddr) / 2 ^ pageShift := by
          obtain ⟨m, hm⟩ := loPage
          obtain ⟨n, hn⟩ := hiPage
          simp only [pageSize, pageShift] at *
          omega
        have bit : bitmapBit bitmap (c.vaToPg addr) = false := by
          rw [bits, page0, page, zero_add]
          simp [inside]
        refine iff_of_false ?_ (by simp [liveBytes])
        intro set
        cases bit.symm.trans set
      used := used
      total := total }

theorem bmkPgallocLoadmem_spec (heap : PageHeap) (fresh : heap.called = false) {min max : Nat}
    (holds : HoldsBitmap min max) :
    ∃ loaded, heap.bmkPgallocLoadmem min max = .ok loaded ∧ HeapInv loaded [] ∧ loaded.called = true ∧
      loaded.minpageAddr = firstPage min + bitmapBytes (firstPage min) (lastPage max) ∧
      loaded.maxpageAddr = lastPage max ∧ loaded.bitmapAddr = firstPage min ∧
      loaded.bitmapWords = bitmapBytes (firstPage min) (lastPage max) / 8 := by
  have minEq : (heap.cleared min max).minpageAddr =
      firstPage min + bitmapBytes (firstPage min) (lastPage max) := rfl
  have maxEq : (heap.cleared min max).maxpageAddr = lastPage max := rfl
  have below : lastPage max ≤ max := by
    simp only [lastPage, pageSize, pageShift]
    omega
  have bitmapPos := pageSize_le_bitmapBytes (firstPage min) (lastPage max)
  have pageVal : pageSize = 4096 := rfl
  obtain ⟨bitmap, freelist, chunk, ran, inv⟩ := carve_all_spec (c := heap.cleared min max)
    (fun _ => rfl) (by omega) (by have := holds.2; omega) (by have := holds.1; omega)
    (Nat.dvd_add (Nat.dvd_mul_left _ _) (Nat.dvd_mul_left _ _)) (Nat.dvd_mul_left _ _)
    (by
      have first : firstPage min ≤ lastPage max := by have := holds.2; omega
      simp only [cleared]
      generalize firstPage min = lo at *
      generalize lastPage max = hi at *
      simp only [bitmapBytes, firstPage, pageSize, pageShift, pagesPerMapword] at *
      omega) rfl rfl
  rw [heap.bmkPgallocLoadmem_eq fresh holds, ran]
  exact ⟨_, rfl, inv, rfl, rfl, rfl, rfl, rfl⟩

/-! ## Allocating -/

theorem findBucket_some (heap : PageHeap) (align : Nat) : ∀ (count bucket found ch : Nat),
    heap.findBucket align count bucket = some (found, ch) →
      bucket ≤ found ∧ found < bucket + count ∧ ch ∈ heap.freelist found ∧ ch &&& (align - 1) = 0 := by
  intro count
  induction count with
  | zero => intro bucket found ch run; simp [findBucket] at run
  | succ count ih =>
    intro bucket found ch run
    rw [findBucket] at run
    cases here : heap.satisfiesP bucket align with
    | none =>
      rw [here] at run
      obtain ⟨lower, upper, mem, fit⟩ := ih (bucket + 1) found ch run
      exact ⟨by omega, by omega, mem, fit⟩
    | some p =>
      rw [here] at run
      simp only [Option.some.injEq, Prod.mk.injEq] at run
      obtain ⟨rfl, rfl⟩ := run
      have mem := List.mem_of_find?_eq_some here
      have fit := List.find?_some here
      exact ⟨le_rfl, by omega, mem, by simpa using fit⟩

theorem findBucket_none (heap : PageHeap) (align : Nat) : ∀ (count bucket : Nat),
    heap.findBucket align count bucket = none →
      ∀ level, bucket ≤ level → level < bucket + count → ∀ ch ∈ heap.freelist level,
        ch &&& (align - 1) ≠ 0 := by
  intro count
  induction count with
  | zero => intro bucket _ level lower upper; omega
  | succ count ih =>
    intro bucket run level lower upper ch mem
    rw [findBucket] at run
    cases here : heap.satisfiesP bucket align with
    | some p => rw [here] at run; simp at run
    | none =>
      rw [here] at run
      rcases eq_or_lt_of_le lower with same | above
      · subst same
        have := List.find?_eq_none.mp here ch mem
        simpa using this
      · exact ih (bucket + 1) run level above (by omega) ch mem

theorem takeChunk_spec {F : Set Nat} {hi : Nat} (heap : PageHeap) (p bucket order : Nat)
    (linked : Linked (Maximal F) heap.freelist heap.chunk) (zero : 0 ∉ F)
    (inside : F ⊆ Set.Ico 0 hi) (fits : hi < 2 ^ 64) (mem : p ∈ heap.freelist bucket)
    (small : bucket < freelistLevels) (le : order ≤ bucket) :
    ∃ freelist chunk,
      heap.takeChunk p bucket order = .ok { heap with freelist := freelist, chunk := chunk } ∧
      Linked (Maximal (F \ block p (order + pageShift))) freelist chunk := by
  have max : Maximal F p (bucket + pageShift) := (linked.mem_iff p bucket).mp mem
  have removeRun := heap.listRemove_run small mem
  have header := linked.header p bucket mem
  have cleared := linked.take max { heap.chunk p with magic := 0 }
  have pMem : p ∈ F := max.inside (left_mem_block _ _)
  have pPos : p ≠ 0 := fun same => zero (same ▸ pMem)
  have sizeLe : 2 ^ (order + pageShift) ≤ 2 ^ (bucket + pageShift) :=
    Nat.pow_le_pow_right (by omega) (by omega)
  have ends : p + 2 ^ (bucket + pageShift) ≤ hi := end_le_of_subset (max.inside.trans inside)
  have start : add p (order2size order) = p + 2 ^ (order + pageShift) := by
    rw [order2size, add_eq (by omega)]
  have rest : sub (order2size bucket) (order2size order) =
      2 ^ (bucket + pageShift) - 2 ^ (order + pageShift) := by
    rw [order2size, order2size, sub_eq sizeLe (by omega)]
  have span : p + 2 ^ (order + pageShift) +
      (2 ^ (bucket + pageShift) - 2 ^ (order + pageShift)) = p + 2 ^ (bucket + pageShift) := by
    omega
  have startPage : pageSize ∣ p + 2 ^ (order + pageShift) :=
    Nat.dvd_add ((pageSize_dvd_two_pow bucket).trans max.aligned) (pageSize_dvd_two_pow order)
  have endFits : p + 2 ^ (order + pageShift) +
      (2 ^ (bucket + pageShift) - 2 ^ (order + pageShift)) < 2 ^ 64 := by
    rw [span]
    omega
  have part : Set.Ico (p + 2 ^ (order + pageShift)) (p + 2 ^ (bucket + pageShift)) ⊆
      block p (bucket + pageShift) := fun x mem =>
    ⟨(Nat.le_add_right _ _).trans mem.1, mem.2⟩
  obtain ⟨freelist', chunk', carveRun, carved⟩ :=
    carverange_spec ((heap.unlink p).clearMagic p)
      (p + 2 ^ (order + pageShift)) (2 ^ (bucket + pageShift) - 2 ^ (order + pageShift))
      _ cleared (Nat.add_pos_left (pos_of_ne_zero pPos) _).ne' endFits startPage
      (Nat.dvd_sub (pageSize_dvd_two_pow bucket) (pageSize_dvd_two_pow order))
      (by
        intro a k other mem
        rw [span] at mem
        have same := other.1.unique max (left_mem_block _ _) (part mem)
        exact other.2 (Prod.ext same.1 same.2))
  refine ⟨freelist', chunk', ?_, carved.congr ?_⟩
  · rw [takeChunk, removeRun, ok_bind, bmkAssert_bind _ (by simp [unlink, header]), start, rest,
      carveRun]
    rfl
  · intro b k _
    rw [span]
    have remain : F \ block p (order + pageShift) = (F \ block p (bucket + pageShift)) ∪
        Set.Ico (p + 2 ^ (order + pageShift)) (p + 2 ^ (bucket + pageShift)) := by
      ext x
      have inF : x ∈ Set.Ico (p + 2 ^ (order + pageShift)) (p + 2 ^ (bucket + pageShift)) →
          x ∈ F := fun mem => max.inside (part mem)
      simp only [Set.mem_sdiff, Set.mem_union, Set.mem_Ico, mem_block] at inF ⊢
      generalize 2 ^ (order + pageShift) = small at *
      generalize 2 ^ (bucket + pageShift) = big at *
      constructor
      · intro h
        by_cases outside : p + big ≤ x ∨ x < p
        · exact .inl ⟨h.1, by omega⟩
        · exact .inr (by have := h.2; omega)
      · intro h
        rcases h with h | h
        · exact ⟨h.1, by have := h.2; omega⟩
        · exact ⟨inF h, by omega⟩
    rw [remain, maximal_exchange max part]

end PageHeap

/-! ## The bookkeeping of one block -/

theorem sum_kb (live : List Block) :
    (live.map fun b => b.size / 2 ^ 10).sum * 2 ^ 10 =
      (live.map fun b => 2 ^ (b.order + pageShift)).sum := by
  induction live with
  | nil => rfl
  | cons b rest ih =>
    have split : b.size = 2 ^ (b.order + 2) * 2 ^ 10 := by
      rw [Block.size, order2size, ← pow_add]
      rfl
    have exact' : b.size / 2 ^ 10 * 2 ^ 10 = 2 ^ (b.order + pageShift) := by
      rw [split, Nat.mul_div_cancel _ (by decide), ← split]
      rfl
    simp only [List.map_cons, List.sum_cons, add_mul, exact', ih]

theorem sum_kb_lt (fits : heap.maxpageAddr < 2 ^ 64) (managed : ∀ b ∈ live, b.bytes ⊆ heap.managed)
    (apart : live.Pairwise fun b c => Disjoint b.bytes c.bytes) :
    (live.map fun b => b.size / 2 ^ 10).sum < 2 ^ 64 := by
  have le := sum_sizes_le Block.addr (fun b => b.order + pageShift) apart managed
  rw [← sum_kb] at le
  omega

theorem freeBytes_cons (heap : PageHeap) (b : Block) (live : List Block) :
    heap.freeBytes (b :: live) = heap.freeBytes live \ b.bytes := by
  ext x
  simp only [freeBytes, liveBytes, Set.mem_sdiff, Set.mem_ofPred_eq, List.mem_cons,
    exists_eq_or_imp, not_or]
  constructor
  · intro h
    exact ⟨⟨h.1, h.2.2⟩, h.2.1⟩
  · intro h
    exact ⟨h.1.1, h.2, h.1.2⟩

theorem liveBytes_cons {x : Nat} {b : Block} :
    x ∈ liveBytes (b :: live) ↔ x ∈ b.bytes ∨ x ∈ liveBytes live := by
  simp only [liveBytes, Set.mem_ofPred_eq, List.mem_cons, exists_eq_or_imp]

theorem page_in_run {addr : Nat} (loPage : pageSize ∣ lo) (pPage : pageSize ∣ p) (le : lo ≤ p)
    (leAddr : lo ≤ addr) :
    ((p - lo) / pageSize ≤ (addr - lo) / pageSize ∧
      (addr - lo) / pageSize < (p - lo) / pageSize + 2 ^ order) ↔
      addr ∈ block p (order + pageShift) := by
  obtain ⟨m, rfl⟩ := loPage
  obtain ⟨n, rfl⟩ := pPage
  rw [mem_block, pow_add]
  generalize 2 ^ order = count
  simp only [pageSize, pageShift] at *
  omega

/-! ## What a free looks at -/

/-- A look of the merge loop at a chunk that is past the managed and bitmap tests. -/
structure Inspection where
  heap : PageHeap
  toMergeCh : Nat

def Inspection.OnList (seen : Inspection) : Prop :=
  ∃ level < freelistLevels, seen.toMergeCh ∈ seen.heap.freelist level

def toMerge (freedCh order : Nat) : Nat :=
  if (freedCh &&& order2size order) != 0 then add freedCh (neg (order2size order))
  else add freedCh (order2size order)

/-- The looks of the merge loop, from the first turn on. -/
def inspections : Nat → PageHeap → Nat → Nat → List Inspection
  | 0, _, _, _ => []
  | count + 1, heap, freedCh, order =>
    let ch := toMerge freedCh order
    if heap.addrIsManaged ch = true ∧ heap.allocatedInMap ch = .ok false then
      ⟨heap, ch⟩ ::
        match heap.mergeable ch order, ((heap.clearMagic freedCh).clearMagic ch).listRemove ch with
        | .ok true, .ok unlinked =>
          inspections count unlinked (if (freedCh &&& order2size order) != 0 then ch else freedCh)
            (order + 1)
        | _, _ => []
    else []

theorem inspections_succ {count f : Nat} {P : Inspection → Prop}
    (first : heap.addrIsManaged (toMerge f order) = true →
      heap.allocatedInMap (toMerge f order) = .ok false → P ⟨heap, toMerge f order⟩)
    (later : ∀ unlinked, heap.mergeable (toMerge f order) order = .ok true →
      ((heap.clearMagic f).clearMagic (toMerge f order)).listRemove (toMerge f order) = .ok unlinked →
      ∀ seen ∈ inspections count unlinked
        (if (f &&& order2size order) != 0 then toMerge f order else f) (order + 1), P seen) :
    ∀ seen ∈ inspections (count + 1) heap f order, P seen := by
  rw [inspections]
  split
  · next tests =>
    intro seen mem
    rcases List.mem_cons.mp mem with rfl | mem
    · exact first tests.1 tests.2
    · split at mem
      · next goes removed => exact later _ goes removed seen mem
      · cases mem
  · nofun

/-- What `bmk_pgfree` relies on when it gives back a block. -/
structure SafeMerge (heap : PageHeap) (b : Block) : Prop where
  lastWord : (heap.vaToPg b.addr + 2 ^ b.order) / pagesPerMapword < heap.bitmapWords
  merges : ∃ mapped merged freedCh order, heap.mapFree b.addr (2 ^ b.order) = .ok mapped ∧
    PageHeap.mergeLoop (freelistLevels - b.order)
      { mapped with pgallocUsedkb := sub mapped.pgallocUsedkb (order2size b.order / 2 ^ 10) }
      b.addr b.order = .ok (merged, freedCh, order) ∧ order < freelistLevels ∧
    ∀ seen ∈ inspections (freelistLevels - b.order)
      { mapped with pgallocUsedkb := sub mapped.pgallocUsedkb (order2size b.order / 2 ^ 10) }
      b.addr b.order, seen.OnList

namespace HeapInv
variable {heap : PageHeap} {live : List Block} {p order f : Nat} {F : Set Nat} {b : Block}

theorem free_below (heap : PageHeap) (live : List Block) :
    heap.freeBytes live ⊆ Set.Ico 0 heap.maxpageAddr := fun _ mem =>
  ⟨Nat.zero_le _, mem.1.2⟩

theorem run_bits_iff (inv : HeapInv heap live) {addr : Nat}
    (aligned : 2 ^ (b.order + pageShift) ∣ b.addr) (start : b.addr ∈ heap.managed)
    (mem : addr ∈ heap.managed) :
    heap.vaToPg b.addr ≤ heap.vaToPg addr ∧ heap.vaToPg addr < heap.vaToPg b.addr + 2 ^ b.order ↔
      addr ∈ b.bytes := by
  rw [inv.vaToPg_eq start, inv.vaToPg_eq mem]
  exact page_in_run inv.minAligned ((pageSize_dvd_two_pow _).trans aligned) start.1 mem.1

theorem block_ends (inside : block p (order + pageShift) ⊆ heap.managed) :
    p + 2 ^ order * pageSize ≤ heap.maxpageAddr := by
  rw [pageSize, ← pow_add]
  exact end_le_of_subset inside

theorem order_lt_of_inside (fits : heap.maxpageAddr < 2 ^ 64)
    (inside : block p (order + pageShift) ⊆ heap.managed) : order < freelistLevels := by
  have ends := end_le_of_subset inside
  have small : 2 ^ (order + pageShift) < 2 ^ 64 := by omega
  have := (Nat.pow_lt_pow_iff_right (a := 2) (by omega)).mp small
  simp only [freelistLevels, pageShift] at *
  omega

theorem bmkPgallocAlign_spec (inv : HeapInv heap live) {align : Nat}
    (orderLt : order < freelistLevels) (alignGe : pageSize ≤ align)
    (alignPow : align &&& (align - 1) = 0) :
    (heap.bmkPgallocAlign order align = .ok (0, heap) ∧
      ∀ level, order ≤ level → level < freelistLevels → ∀ ch ∈ heap.freelist level,
        ch &&& (align - 1) ≠ 0) ∨
    ∃ p next, heap.bmkPgallocAlign order align = .ok (p, next) ∧ p ≠ 0 ∧
      p &&& (align - 1) = 0 ∧ HeapInv next ({ addr := p, order := order } :: live) ∧
      next.minpageAddr = heap.minpageAddr ∧ next.maxpageAddr = heap.maxpageAddr := by
  unfold bmkPgallocAlign
  rw [bmkAssert_bind _ (by simp [alignGe, alignPow]), bmkAssert_bind _ (decide_eq_true orderLt)]
  cases search : heap.findBucket align (freelistLevels - order) order with
  | none =>
    refine .inl ⟨rfl, ?_⟩
    intro level lower upper
    exact heap.findBucket_none align _ _ search level lower (by omega)
  | some found =>
    right
    obtain ⟨bucket, p⟩ := found
    obtain ⟨lower, upper, mem, fit⟩ := heap.findBucket_some align _ _ _ _ search
    have small : bucket < freelistLevels := by omega
    have max := (inv.chunks.mem_iff p bucket).mp mem
    have pFree : p ∈ heap.freeBytes live := max.inside (left_mem_block _ _)
    have pPos : p ≠ 0 := fun same => inv.zero_not_free (same ▸ pFree)
    have expLe : order + pageShift ≤ bucket + pageShift := by omega
    have aligned : 2 ^ (order + pageShift) ∣ p := (pow_dvd_pow 2 expLe).trans max.aligned
    have inFree : block p (order + pageShift) ⊆ heap.freeBytes live :=
      (block_subset_of_mem aligned max.aligned expLe (left_mem_block _ _)
        (left_mem_block _ _)).trans max.inside
    have inManaged : block p (order + pageShift) ⊆ heap.managed := fun x mem =>
      (inFree mem).1
    have apartNew : ∀ b ∈ live,
        Disjoint ({ addr := p, order := order } : Block).bytes b.bytes := by
      intro b hb
      rw [Set.disjoint_left]
      intro x here there
      exact (inFree here).2 ⟨b, hb, there⟩
    have apart : ({ addr := p, order := order } :: live : List Block).Pairwise
        fun b c => Disjoint b.bytes c.bytes := List.pairwise_cons.mpr ⟨apartNew, inv.liveApart⟩
    have managed : ∀ b ∈ ({ addr := p, order := order } :: live : List Block),
        b.bytes ⊆ heap.managed := by
      intro b hb
      rcases List.mem_cons.mp hb with same | old
      · exact same ▸ inManaged
      · exact inv.liveManaged b old
    obtain ⟨freelist, chunk, takeRun, linked⟩ := heap.takeChunk_spec p bucket order inv.chunks
      inv.zero_not_free (free_below heap live) inv.fits mem small lower
    obtain ⟨bitmap, mapRun, bits⟩ :=
      ({ heap with freelist := freelist, chunk := chunk } : PageHeap).mapAlloc_spec p (2 ^ order)
        (inv.run_room (inManaged (left_mem_block _ _)) (block_ends inManaged))
    have counter : add heap.pgallocUsedkb (order2size order / 2 ^ 10) =
        (({ addr := p, order := order } :: live : List Block).map
          fun b => b.size / 2 ^ 10).sum := by
      have bound := sum_kb_lt inv.fits managed apart
      simp only [List.map_cons, List.sum_cons, Block.size] at bound ⊢
      rw [inv.used, add_eq (by simp only [Block.size]; omega), add_comm]
      rfl
    refine ⟨p,
      { heap with
        freelist := freelist
        chunk := chunk
        allocBitmap := bitmap
        pgallocUsedkb := add heap.pgallocUsedkb (order2size order / 2 ^ 10) },
      ?_, pPos, fit, ?_, rfl, rfl⟩
    · simp only [takeRun, ok_bind, mapRun]
      rw [bmkAssert_bind _ (by simpa using fit)]
      rfl
    · exact { inv with
        liveAligned := by
          intro b hb
          rcases List.mem_cons.mp hb with same | old
          · exact same ▸ aligned
          · exact inv.liveAligned b old
        liveManaged := managed
        liveApart := apart
        chunks := by
          apply linked.congr
          intro a k _
          rw [freeBytes_cons]
          rfl
        bits := by
          intro addr addrMem
          rw [liveBytes_cons, ← inv.bits addr addrMem,
            ← inv.run_bits_iff (b := ⟨p, order⟩) aligned (inManaged (left_mem_block _ _)) addrMem]
          apply (iff_of_eq (congrArg (· = true) (bits (heap.vaToPg addr)))).trans
          split
          next within => exact iff_of_true rfl (.inl within)
          next apart => exact (or_iff_right apart).symm
        used := counter }

/-! ## Freeing -/

/-- A free byte at the start of the buddy is the start of a chunk: a larger one would hold the
parent, and with it the block being freed. -/
theorem buddy_starts_chunk (granular : PageGranular F) (zero : 0 ∉ F)
    (aligned : 2 ^ (order + pageShift) ∣ f) (isFree : buddy f (order + pageShift) ∈ F) :
    ∃ level ≤ order, Maximal (F \ block f (order + pageShift)) (buddy f (order + pageShift))
      (level + pageShift) := by
  generalize expEq : order + pageShift = e at *
  have buddyMem := left_mem_block (buddy f e) e
  have apart : buddy f e ∉ block f e := fun here => buddy_disjoint aligned here buddyMem
  have zero' : 0 ∉ F \ block f e := fun mem => zero mem.1
  obtain ⟨c, j, max, mem⟩ := exists_maximal zero' ⟨isFree, apart⟩
  have jLe : j ≤ e := by
    by_contra big
    have parentSub : block (enclosing f (e + 1)) (e + 1) ⊆ block c j :=
      block_subset_of_mem (enclosing_aligned f (e + 1)) max.aligned (by omega)
        (buddy_subset_parent aligned buddyMem) mem
    have := parentSub (block_subset_parent aligned (left_mem_block f e))
    exact (max.inside this).2 (left_mem_block f e)
  have start : c = buddy f e := by
    have dvd : 2 ^ j ∣ buddy f e := (pow_dvd_pow 2 jLe).trans (buddy_aligned aligned)
    rw [eq_enclosing max.aligned mem]
    exact (eq_enclosing dvd (left_mem_block _ _)).symm
  subst start
  have granular' : PageGranular (F \ block f e) := by
    intro x y same mem
    refine ⟨granular x y same mem.1, ?_⟩
    intro there
    have blockGranular : PageGranular (block f e) := by
      rw [← expEq] at aligned ⊢
      exact pageGranular_block (b := { addr := f, order := order }) aligned
    exact mem.2 (blockGranular y x same.symm there)
  have page := pageShift_le_of_maximal granular' max
  refine ⟨j - pageShift, by omega, ?_⟩
  rw [Nat.sub_add_cancel page]
  exact max

/-- The buddy test of the merge loop: past the managed and bitmap tests the buddy is the start
of a linked chunk, so the loop goes on exactly when the whole buddy block is free. -/
theorem mergeable_spec (granular : PageGranular F) (zero : 0 ∉ F) (inside : F ⊆ heap.managed)
    (aligned : 2 ^ (order + pageShift) ∣ f)
    (linked : Linked (Maximal (F \ block f (order + pageShift))) heap.freelist heap.chunk)
    (bits : ∀ addr ∈ heap.managed, ∃ bit, heap.allocatedInMap addr = .ok bit ∧
      (bit = true ↔ addr ∉ F)) :
    ∃ goOn, heap.mergeable (buddy f (order + pageShift)) order = .ok goOn ∧
      (goOn = true ↔ block (buddy f (order + pageShift)) (order + pageShift) ⊆ F) ∧
      (heap.addrIsManaged (buddy f (order + pageShift)) = true →
        heap.allocatedInMap (buddy f (order + pageShift)) = .ok false →
        ∃ level ≤ order, buddy f (order + pageShift) ∈ heap.freelist level) := by
  have buddyAligned := buddy_aligned aligned
  have buddyMem := left_mem_block (buddy f (order + pageShift)) (order + pageShift)
  unfold mergeable
  by_cases managed : buddy f (order + pageShift) ∈ heap.managed
  · have managedBool := addrIsManaged_iff.mpr managed
    obtain ⟨bit, bitRun, bitIff⟩ := bits _ managed
    simp only [managedBool, Bool.not_true, Bool.false_eq_true, if_false, bitRun, ok_bind]
    cases bitVal : bit with
    | true =>
      refine ⟨false, by simp only [if_true]; rfl, ?_, fun _ is => by cases is⟩
      simp only [Bool.false_eq_true, false_iff]
      intro sub
      exact bitIff.mp bitVal (sub buddyMem)
    | false =>
      have inF : buddy f (order + pageShift) ∈ F := by
        by_contra notIn
        have := bitIff.mpr notIn
        rw [bitVal] at this
        cases this
      obtain ⟨level, le, max⟩ := buddy_starts_chunk granular zero aligned inF
      have onList := (linked.mem_iff _ _).mpr max
      have header := linked.header _ _ onList
      refine ⟨level == order, ?_, ?_, fun _ _ => ⟨level, le, onList⟩⟩
      · simp only [Bool.false_eq_true, if_false]
        rw [chunklevel, bmkAssert_bind _ (by simp [header]), header]
        rfl
      · rw [beq_iff_eq]
        constructor
        · rintro rfl
          exact fun x mem => (max.inside mem).1
        · intro sub
          have small : block (buddy f (order + pageShift)) (level + pageShift) ⊆
              block (buddy f (order + pageShift)) (order + pageShift) :=
            block_subset_of_mem max.aligned buddyAligned (by omega) (left_mem_block _ _) buddyMem
          have := (max.largest _ _ buddyAligned small
            (fun x mem => ⟨sub mem, fun here => buddy_disjoint aligned here mem⟩)).2
          omega
  · have managedBool : heap.addrIsManaged (buddy f (order + pageShift)) = false :=
      Bool.eq_false_iff.mpr (mt addrIsManaged_iff.mp managed)
    refine ⟨false, by simp only [managedBool, Bool.not_false, if_true]; rfl, ?_, ?_⟩
    · simp only [Bool.false_eq_true, false_iff]
      intro sub
      exact managed (inside (sub buddyMem))
    · intro is
      rw [managedBool] at is
      cases is

theorem buddy_word (fits : f + 2 ^ (order + pageShift) < 2 ^ 64) :
    (if (f &&& order2size order) != 0 then add f (neg (order2size order))
      else add f (order2size order)) = buddy f (order + pageShift) := by
  have bit := and_two_pow_ne_zero_iff f (order + pageShift)
  have pos := Nat.two_pow_pos (order + pageShift)
  rw [buddy, order2size]
  by_cases odd : f / 2 ^ (order + pageShift) % 2 = 1
  · have below : 2 ^ (order + pageShift) ≤ f := by
      by_contra small
      rw [Nat.div_eq_of_lt (by omega)] at odd
      omega
    rw [if_pos (by simpa using bit.mpr odd), if_neg (by omega), add_neg_eq pos below (by omega)]
  · have clear : ¬ ((f &&& 2 ^ (order + pageShift)) != 0) = true := by
      simpa using mt bit.mp odd
    rw [if_neg clear, if_pos (by omega), add_eq fits]

theorem merged_start (aligned : 2 ^ (order + pageShift) ∣ f) :
    (if (f &&& order2size order) != 0 then buddy f (order + pageShift) else f) =
      enclosing f (order + 1 + pageShift) := by
  have bit := and_two_pow_ne_zero_iff f (order + pageShift)
  rw [order2size, show order + 1 + pageShift = order + pageShift + 1 by omega]
  by_cases odd : f / 2 ^ (order + pageShift) % 2 = 1
  · have start := enclosing_succ_of_odd aligned odd
    rw [if_pos (by simpa using bit.mpr odd), buddy, if_neg (by omega)]
    omega
  · have clear : ¬ ((f &&& 2 ^ (order + pageShift)) != 0) = true := by
      simpa using mt bit.mp odd
    rw [if_neg clear, enclosing_succ_of_even aligned (by omega)]

theorem mergeLoop_spec (granular : PageGranular F) (zero : 0 ∉ F) :
    ∀ (count : Nat) (heap : PageHeap) (f order : Nat), order + count = freelistLevels →
      heap.maxpageAddr < 2 ^ 64 → F ⊆ heap.managed → 2 ^ (order + pageShift) ∣ f →
      block f (order + pageShift) ⊆ F →
      Linked (Maximal (F \ block f (order + pageShift))) heap.freelist heap.chunk →
      (∀ addr ∈ heap.managed, ∃ bit, heap.allocatedInMap addr = .ok bit ∧ (bit = true ↔ addr ∉ F)) →
      ∃ freelist chunk f' order',
        mergeLoop count heap f order =
          .ok ({ heap with freelist := freelist, chunk := chunk }, f', order') ∧
        order' < freelistLevels ∧ Maximal F f' (order' + pageShift) ∧
        Linked (Maximal (F \ block f' (order' + pageShift))) freelist chunk ∧
        ∀ seen ∈ inspections count heap f order, seen.OnList := by
  intro count
  induction count with
  | zero =>
    intro heap f order levels fits inside _ isFree _ _
    exfalso
    exact absurd (order_lt_of_inside fits (isFree.trans inside)) (by omega)
  | succ count ih =>
    intro heap f order levels fits inside aligned isFree linked bits
    have fitsBlock : f + 2 ^ (order + pageShift) < 2 ^ 64 :=
      (end_le_of_subset (isFree.trans inside)).trans_lt fits
    obtain ⟨goOn, testRun, test, seen⟩ := mergeable_spec granular zero inside aligned linked bits
    rw [mergeLoop, buddy_word fitsBlock, testRun, ok_bind]
    have small : order < freelistLevels := by omega
    have inspected : (∀ unlinked, goOn = true →
        ((heap.clearMagic f).clearMagic (buddy f (order + pageShift))).listRemove
          (buddy f (order + pageShift)) = .ok unlinked →
        ∀ seen ∈ inspections count unlinked (enclosing f (order + 1 + pageShift))
          (order + 1), seen.OnList) →
        ∀ seen ∈ inspections (count + 1) heap f order, seen.OnList := by
      intro later
      apply inspections_succ
      · rw [toMerge, buddy_word fitsBlock]
        intro managed clear
        obtain ⟨level, le, onList⟩ := seen managed clear
        exact ⟨level, by omega, onList⟩
      · rw [toMerge, buddy_word fitsBlock, merged_start aligned, testRun]
        intro unlinked goes
        exact later unlinked (Except.ok.inj goes)
    by_cases whole : block (buddy f (order + pageShift)) (order + pageShift) ⊆ F
    · rw [if_pos (test.mpr whole)]
      have max := buddy_maximal aligned whole
      have onList : buddy f (order + pageShift) ∈ heap.freelist order := (linked.mem_iff _ _).mpr max
      have startFree : ∀ k, ¬ Maximal (F \ block f (order + pageShift)) f k := fun k other =>
        (other.inside (left_mem_block f k)).2 (left_mem_block f _)
      have stored := (linked.update_chunk f { heap.chunk f with magic := 0 } startFree).take max
        { (heap.clearMagic f).chunk (buddy f (order + pageShift)) with magic := 0 }
      have removeRun := ((heap.clearMagic f).clearMagic (buddy f (order + pageShift))).listRemove_run
        small onList
      simp only [removeRun, ok_bind, merged_start aligned]
      have exponent : order + 1 + pageShift = order + pageShift + 1 := by omega
      have parent : block (enclosing f (order + 1 + pageShift)) (order + 1 + pageShift) =
          block f (order + pageShift) ∪ block (buddy f (order + pageShift)) (order + pageShift) := by
        rw [exponent]
        exact parent_eq aligned
      have parentFree : block (enclosing f (order + 1 + pageShift)) (order + 1 + pageShift) ⊆ F := by
        rw [parent]
        exact Set.union_subset isFree whole
      have parentChunks : ∀ b k, _ ↔ Maximal (F \ block (enclosing f (order + 1 + pageShift))
          (order + 1 + pageShift)) b k := fun b k => by
        rw [parent, ← Set.sdiff_sdiff, maximal_remove max]
      obtain ⟨freelist, chunk, f', order', ran, lt, max', linked', later⟩ :=
        ih ((heap.clearMagic f).clearMagic (buddy f (order + pageShift))
          |>.unlink (buddy f (order + pageShift))) _ (order + 1) (by omega) fits inside
        (enclosing_aligned _ _) parentFree (stored.congr fun b k _ => parentChunks b k) bits
      refine ⟨freelist, chunk, f', order', ran, lt, max', linked', inspected ?_⟩
      intro unlinked _ removed
      rw [removeRun] at removed
      cases removed
      exact later
    · have stop : goOn = false := by
        cases value : goOn with
        | false => rfl
        | true => exact absurd (test.mp value) whole
      rw [stop, if_neg Bool.false_ne_true]
      refine ⟨heap.freelist, heap.chunk, f, order, rfl, small, ?_, linked,
        inspected fun _ goes => by rw [stop] at goes; cases goes⟩
      apply maximal_of_parent aligned isFree
      intro parentIn
      exact whole ((buddy_subset_parent aligned).trans parentIn)

variable (inv : HeapInv heap live)
include inv

theorem apart_cons_erase (mem : b ∈ live) :
    (b :: live.erase b).Pairwise fun b c => Disjoint b.bytes c.bytes :=
  ((List.perm_cons_erase mem).pairwise_iff fun h => h.symm).mp inv.liveApart

theorem liveBytes_erase (mem : b ∈ live) (x : Nat) :
    x ∈ liveBytes (live.erase b) ↔ x ∈ liveBytes live ∧ x ∉ b.bytes := by
  have apart := List.pairwise_cons.mp (inv.apart_cons_erase mem)
  constructor
  · intro h
    obtain ⟨c, hc, here⟩ := h
    exact ⟨⟨c, List.mem_of_mem_erase hc, here⟩, fun inB =>
      Set.disjoint_left.mp (apart.1 c hc) inB here⟩
  · intro h
    obtain ⟨⟨c, hc, here⟩, notB⟩ := h
    refine ⟨c, ?_, here⟩
    have ne : c ≠ b := fun same => notB (same ▸ here)
    exact (List.mem_erase_of_ne ne).mpr hc

theorem freeBytes_erase (mem : b ∈ live) :
    heap.freeBytes (live.erase b) \ b.bytes = heap.freeBytes live := by
  ext x
  simp only [freeBytes, Set.mem_sdiff, inv.liveBytes_erase mem]
  constructor
  · intro h
    exact ⟨h.1.1, fun isLive => h.1.2 ⟨isLive, h.2⟩⟩
  · intro h
    exact ⟨⟨h.1, fun isLive => h.2 isLive.1⟩, fun inB => h.2 ⟨b, mem, inB⟩⟩

theorem bmkPgfree_spec (mem : b ∈ live) :
    ∃ next, heap.bmkPgfree b.addr b.order = .ok next ∧ HeapInv next (live.erase b) ∧
      next.minpageAddr = heap.minpageAddr ∧ next.maxpageAddr = heap.maxpageAddr ∧ SafeMerge heap b := by
  have aligned := inv.liveAligned b mem
  have inManaged := inv.liveManaged b mem
  have startMem : b.addr ∈ heap.managed := inManaged (left_mem_block _ _)
  have apart := inv.apart_cons_erase mem
  have orderLt := order_lt_of_inside inv.fits inManaged
  obtain ⟨bitmap, mapRun, bits⟩ := heap.mapFree_spec b.addr (2 ^ b.order)
    (inv.run_room startMem (block_ends inManaged))
  have newBits : ∀ addr ∈ heap.managed, bitmapBit bitmap (heap.vaToPg addr) = true ↔
      addr ∈ liveBytes (live.erase b) := by
    intro addr addrMem
    rw [inv.liveBytes_erase mem, bits, ← inv.bits addr addrMem, ← inv.run_bits_iff aligned startMem addrMem]
    split <;> simp_all
  have counter : sub heap.pgallocUsedkb (order2size b.order / 2 ^ 10) =
      ((live.erase b).map fun c => c.size / 2 ^ 10).sum := by
    have bound := sum_kb_lt inv.fits inv.liveManaged inv.liveApart
    have split := ((List.perm_cons_erase mem).map fun c => c.size / 2 ^ 10).sum_eq
    simp only [List.map_cons, List.sum_cons] at split
    have size : order2size b.order = b.size := rfl
    rw [inv.used, size, sub_eq (by omega) bound]
    omega
  -- the state the merge loop starts from
  generalize startEq : ({ heap with
      allocBitmap := bitmap
      pgallocUsedkb := sub heap.pgallocUsedkb (order2size b.order / 2 ^ 10) } : PageHeap) = mid
  have midManaged : mid.managed = heap.managed := by rw [← startEq]; rfl
  have granular : PageGranular (heap.freeBytes (live.erase b)) := by
    intro x y same h
    refine ⟨pageGranular_interval inv.minAligned inv.maxAligned x y same h.1, ?_⟩
    intro isLive
    rw [inv.liveBytes_erase mem] at isLive
    refine h.2 ((inv.liveBytes_erase mem x).mpr ⟨inv.liveBytes_granular y x same.symm isLive.1, ?_⟩)
    intro inB
    exact isLive.2 (pageGranular_block aligned x y same inB)
  have zero : 0 ∉ heap.freeBytes (live.erase b) := by
    intro h
    have low := h.1.1
    have := inv.minPos
    omega
  have isFree : b.bytes ⊆ heap.freeBytes (live.erase b) := by
    intro x inB
    refine ⟨inManaged inB, ?_⟩
    intro isLive
    exact ((inv.liveBytes_erase mem x).mp isLive).2 inB
  have linked : Linked (Maximal (heap.freeBytes (live.erase b) \ b.bytes)) mid.freelist
      mid.chunk := by
    rw [inv.freeBytes_erase mem, ← startEq]
    exact inv.chunks
  have midBits : ∀ addr ∈ mid.managed, ∃ bit, mid.allocatedInMap addr = .ok bit ∧
      (bit = true ↔ addr ∉ heap.freeBytes (live.erase b)) := by
    intro addr addrMem
    subst startEq
    refine ⟨_, PageHeap.allocatedInMap_eq _ addr (addrIsManaged_iff.mpr addrMem)
      (inv.page_room addrMem), ?_⟩
    apply (newBits addr addrMem).trans
    simp only [freeBytes, Set.mem_sdiff, not_and, not_not]
    exact ⟨fun h _ => h, fun h => h addrMem⟩
  obtain ⟨freelist, chunk, f, order, loopRun, small, max, merged, seen⟩ :=
    mergeLoop_spec granular zero (freelistLevels - b.order) mid b.addr b.order (by omega)
      (by rw [← startEq]; exact inv.fits) (by rw [midManaged]; exact fun x h => h.1) aligned isFree
      linked midBits
  obtain ⟨freelist', chunk', linkRun, final⟩ :=
    ({ mid with freelist := freelist, chunk := chunk } : PageHeap).freechunkLink_spec f order merged
      (fun k other => (other.inside (left_mem_block f k)).2 (left_mem_block f _)) small
  refine ⟨{ mid with freelist := freelist', chunk := chunk' }, ?_, ?_, ?_, ?_,
    inv.run_room startMem (block_ends inManaged), _, { mid with freelist := freelist, chunk := chunk },
    f, order, mapRun, ?_, small, ?_⟩
  · rw [bmkPgfree, mapRun, ok_bind]
    simp only [startEq, loopRun, ok_bind, linkRun]
  · subst startEq
    exact { inv with
      liveAligned := fun c hc => inv.liveAligned c (List.mem_of_mem_erase hc)
      liveManaged := fun c hc => inv.liveManaged c (List.mem_of_mem_erase hc)
      liveApart := (List.pairwise_cons.mp apart).2
      chunks := by
        apply final.congr
        intro a k _
        change _ ↔ Maximal (heap.freeBytes (live.erase b)) a k
        rw [maximal_remove max]
        constructor
        · intro h
          rcases h with h | h
          · exact h.1
          · cases h
            exact max
        · intro h
          by_cases same : (a, k) = (f, order + pageShift)
          · exact .inr same
          · exact .inl ⟨h, same⟩
      bits := newBits
      used := counter }
  · rw [← startEq]
  · rw [← startEq]
  · dsimp only
    rw [startEq]
    exact loopRun
  · dsimp only
    rw [startEq]
    exact seen

theorem perm {live' : List Block} (same : live.Perm live') : HeapInv heap live' := by
  have sameBytes : liveBytes live' = liveBytes live := by
    ext x
    simp only [liveBytes, Set.mem_ofPred_eq, same.mem_iff]
  have sameFree : heap.freeBytes live' = heap.freeBytes live := by
    rw [freeBytes, freeBytes, sameBytes]
  exact { inv with
    liveAligned := fun b mem => inv.liveAligned b (same.mem_iff.mpr mem)
    liveManaged := fun b mem => inv.liveManaged b (same.mem_iff.mpr mem)
    liveApart := (same.pairwise_iff fun apart => apart.symm).mp inv.liveApart
    chunks := by
      rw [sameFree]
      exact inv.chunks
    bits := by
      rw [sameBytes]
      exact inv.bits
    used := inv.used.trans ((same.map _).sum_eq) }

theorem bmkPgalloc_spec (orderLt : order < freelistLevels) :
    (heap.bmkPgalloc order = .ok (0, heap) ∧
      ∀ level, order ≤ level → level < freelistLevels → heap.freelist level = []) ∨
    ∃ p next, heap.bmkPgalloc order = .ok (p, next) ∧ p ≠ 0 ∧
      HeapInv next ({ addr := p, order := order } :: live) ∧ next.managed = heap.managed := by
  rcases inv.bmkPgallocAlign_spec orderLt (le_refl _) (by decide) with
    ⟨run, none⟩ | ⟨p, next, run, pos, -, inv', sameLo, sameHi⟩
  · refine .inl ⟨run, ?_⟩
    intro level lower upper
    rw [List.eq_nil_iff_forall_not_mem]
    intro ch mem
    have aligned := ((inv.chunks.mem_iff ch level).mp mem).aligned
    apply none level lower upper ch mem
    rw [pageSize, and_mask_eq_zero_iff]
    exact (pageSize_dvd_two_pow level).trans aligned
  · refine .inr ⟨p, next, run, pos, inv', ?_⟩
    rw [managed, sameLo, sameHi, managed]

end HeapInv
end Rumprun.Core.PageAllocator
