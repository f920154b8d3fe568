import Rumprun.Core.PageLoading

/-! # The memory of the seL4 heap

`provide_vmem` maps whole pages of the size that was chosen for the region, and loads the page
allocator with the size in bytes. -/

namespace Rumprun.Sel4
open Core Core.PageAllocator MachineWord StepRuns

/-- The end of `provide_vmem`; `osend` is what `vspace_new_pages_with_config` returned. -/
def provideVmem (heap : PageHeap) (osend rumprunSize : Nat) : Except Stop PageHeap :=
  heap.bmkPgallocLoadmem osend (add osend rumprunSize)

/-- The pages that are mapped from `osend` on: `rumprun_pages` of `page_size_bits`. -/
def mapped (osend rumprunSize pageSizeBits : Nat) : Set Nat :=
  Set.Ico osend (osend + rumprunSize / 2 ^ pageSizeBits * 2 ^ pageSizeBits)

/-- There is a page for the bitmap, and either no other one or less than one in what the large
pages cut off. -/
def GoodSize (rumprunSize pageSizeBits : Nat) : Prop :=
  pageSize ≤ rumprunSize ∧ (rumprunSize < 2 * pageSize ∨ rumprunSize % 2 ^ pageSizeBits < pageSize)

instance (rumprunSize pageSizeBits : Nat) : Decidable (GoodSize rumprunSize pageSizeBits) :=
  inferInstanceAs (Decidable (_ ∧ _))

/-- The allocator is loaded, and in every state of every history after that the blocks it has handed
out are in the mapped pages. -/
def StaysMapped (boot : PageHeap) (osend rumprunSize pageSizeBits : Nat) : Prop :=
  ∃ loaded, provideVmem boot osend rumprunSize = .ok loaded ∧
    ∀ ops, Admissible PageSystem.Admits PageSystem.step ops { heap := loaded, live := [] } →
      Throughout (fun sys => ∀ b ∈ sys.live, b.bytes ⊆ mapped osend rumprunSize pageSizeBits)
        PageSystem.step ops { heap := loaded, live := [] }

/-! ## Every page is handed out -/

theorem pgalloc_progress {lo hi x : Nat} (managed : x ∈ Set.Ico lo hi) (sys : PageSystem)
    (inv : PageSystem.Inv lo hi sys) (free : x ∉ liveBytes sys.live) :
    ∃ next, sys.step (.pgallocAlign 0 pageSize) = .ok next ∧ PageSystem.Inv lo hi next ∧
      hi - lo - (next.live.map fun b => 2 ^ (b.order + pageShift)).sum <
        hi - lo - (sys.live.map fun b => 2 ^ (b.order + pageShift)).sum := by
  obtain ⟨heapInv, loEq, hiEq⟩ := inv
  rcases heapInv.bmkPgallocAlign_spec (by decide : 0 < freelistLevels) le_rfl (by decide) with
    ⟨-, none⟩ | ⟨p, heap, ran, pos, -, after, sameLo, sameHi⟩
  · -- a chunk of any level is aligned to a page, so a failure means that no page is free
    have empty := heapInv.full fun level below => by
      rw [List.eq_nil_iff_forall_not_mem]
      intro ch mem
      apply none level (Nat.zero_le _) below ch mem
      rw [pageSize, and_mask_eq_zero_iff]
      exact (pageSize_dvd_two_pow level).trans ((heapInv.chunks.mem_iff ch level).mp mem).aligned
    refine absurd ?_ (Set.eq_empty_iff_forall_notMem.mp empty x)
    exact ⟨by rwa [PageHeap.managed, loEq, hiEq], free⟩
  · refine ⟨{ heap := heap, live := { addr := p, order := 0 } :: sys.live }, ?_,
      ⟨after, sameLo.trans loEq, sameHi.trans hiEq⟩, ?_⟩
    · simp only [PageSystem.step, ran, if_neg pos]
    · have room := DyadicBlocks.sum_sizes_le Block.addr (fun b => b.order + pageShift)
        after.liveApart after.liveManaged
      rw [sameLo, sameHi, loEq, hiEq] at room
      simp only [List.map_cons, List.sum_cons, zero_add] at room ⊢
      have page : 0 < 2 ^ pageShift := Nat.two_pow_pos _
      omega

/-- Single pages until `x` is in one of them. -/
theorem page_handed_out {lo hi x : Nat} (managed : x ∈ Set.Ico lo hi) {sys : PageSystem}
    (inv : PageSystem.Inv lo hi sys) :
    ∃ ops final, Admissible PageSystem.Admits PageSystem.step ops sys ∧
      run PageSystem.step ops sys = .ok final ∧ ∃ b ∈ final.live, x ∈ b.bytes := by
  obtain ⟨n, final, ran, -, reached⟩ := run_replicate_ends (PageSystem.Inv lo hi)
    (fun sys => x ∈ liveBytes sys.live) _ (fun sys inv => pgalloc_progress managed sys inv) sys inv
  refine ⟨_, final, admissible_replicate ?_ n sys, ran, reached⟩
  intro s
  exact ⟨by decide, le_rfl, by decide⟩

/-! ## The region -/

section Region
variable {boot : PageHeap} (fresh : boot.called = false) {osend rumprunSize pageSizeBits : Nat}
  (aligned : pageSize ∣ osend) (fits : osend + rumprunSize < 2 ^ 64)

include aligned in
theorem firstPage_osend : firstPage osend = osend := by
  obtain ⟨frames, rfl⟩ := aligned
  simp only [firstPage, pageSize, pageShift]
  omega

include aligned in
theorem lastPage_osend : lastPage (osend + rumprunSize) = osend + rumprunSize / pageSize * pageSize := by
  obtain ⟨frames, rfl⟩ := aligned
  simp only [lastPage, pageSize, pageShift]
  omega

include aligned fits in
theorem holdsBitmap_osend (page : pageSize ≤ rumprunSize) : HoldsBitmap osend (osend + rumprunSize) := by
  refine ⟨fits, ?_⟩
  rw [firstPage_osend aligned, lastPage_osend aligned]
  simp only [bitmapBytes, firstPage, pageSize, pageShift] at *
  omega

include fresh fits in
theorem provideVmem_zero (none : rumprunSize = 0) :
    provideVmem boot osend rumprunSize = .error (.halt "assert \"max > min\" FAILED\n") := by
  subst none
  rw [provideVmem, add_eq fits, PageHeap.bmkPgallocLoadmem, fresh]
  simp only [add_zero, lt_irrefl, bmkAssert]
  rfl

include fresh aligned fits in
/-- Less than a page: the rounded end is the start, so the size of what is behind the bitmap wraps. -/
theorem provideVmem_small (some : 0 < rumprunSize) (small : rumprunSize < pageSize) :
    provideVmem boot osend rumprunSize = .error (.undefined "alloc_bitmap index") := by
  have start : roundPage osend = osend := by
    obtain ⟨frames, rfl⟩ := aligned
    rw [roundPage_eq (by simp only [pageSize, pageShift] at *; omega), firstPage_osend ⟨frames, rfl⟩]
  have stop : truncPage (osend + rumprunSize) = osend := by
    rw [truncPage_eq fits, lastPage_osend aligned, Nat.div_eq_of_lt small, zero_mul, add_zero]
  have bitmap : roundPage (add (sub osend osend / 2 ^ (pageShift + 3)) 1) = pageSize := by
    have none : sub osend osend = 0 := by rw [sub_eq le_rfl (by omega), Nat.sub_self]
    rw [none]
    rfl
  have range : sub osend (add osend pageSize) = 2 ^ 64 - pageSize := by
    simp only [add, sub, pageSize, pageShift] at *
    omega
  rw [provideVmem, add_eq fits, PageHeap.bmkPgallocLoadmem, fresh]
  simp only [Bool.false_eq_true, if_false]
  rw [bmkAssert_bind _ (decide_eq_true (by omega))]
  have first : sub (add osend pageSize) (add osend pageSize) = 0 := by
    rw [sub_eq le_rfl (add_lt _ _), Nat.sub_self]
  have beyond : pageSize / 8 ≤ (0 / 2 ^ pageShift + (2 ^ 64 - pageSize) / 2 ^ pageShift) /
      pagesPerMapword := by decide
  simp only [start, stop, bitmap, range, PageHeap.mapFree, PageHeap.vaToPg, first]
  rw [if_pos beyond]
  rfl

include fresh aligned fits in
theorem provideVmem_loads (page : pageSize ≤ rumprunSize) :
    ∃ loaded, provideVmem boot osend rumprunSize = .ok loaded ∧
      PageSystem.Inv (osend + bitmapBytes osend (osend + rumprunSize / pageSize * pageSize))
        (osend + rumprunSize / pageSize * pageSize) { heap := loaded, live := [] } := by
  obtain ⟨loaded, ran, inv, -, minpage, maxpage, -⟩ :=
    boot.bmkPgallocLoadmem_spec fresh (holdsBitmap_osend aligned fits page)
  rw [firstPage_osend aligned, lastPage_osend aligned] at minpage
  rw [lastPage_osend aligned] at maxpage
  exact ⟨loaded, by rw [provideVmem, add_eq fits, ran], inv, minpage, maxpage⟩

end Region

/-- What is mapped ends at a page, and the allocator's last page is in it when the large pages cut
off less than one. -/
theorem mapped_iff_cut (rumprunSize : Nat) {pageSizeBits : Nat} (large : pageShift ≤ pageSizeBits) :
    rumprunSize / pageSize * pageSize ≤ rumprunSize / 2 ^ pageSizeBits * 2 ^ pageSizeBits ↔
      rumprunSize % 2 ^ pageSizeBits < pageSize := by
  have whole := Nat.div_add_mod rumprunSize (2 ^ pageSizeBits)
  obtain ⟨pages, same⟩ : pageSize ∣ 2 ^ pageSizeBits * (rumprunSize / 2 ^ pageSizeBits) :=
    (pow_dvd_pow 2 large).mul_right _
  rw [mul_comm (rumprunSize / 2 ^ pageSizeBits), same]
  rw [same] at whole
  simp only [pageSize, pageShift] at *
  omega

/-- The heap is mapped for the good sizes and for no others. Without memory the load halts at its
assertion. -/
theorem heap_stays_mapped (boot : PageHeap) (fresh : boot.called = false)
    (osend rumprunSize pageSizeBits : Nat) (large : pageShift ≤ pageSizeBits)
    (aligned : pageSize ∣ osend) (fits : osend + rumprunSize < 2 ^ 64) :
    (StaysMapped boot osend rumprunSize pageSizeBits ↔ GoodSize rumprunSize pageSizeBits) ∧
      (rumprunSize = 0 →
        provideVmem boot osend rumprunSize = .error (.halt "assert \"max > min\" FAILED\n")) := by
  refine ⟨?_, provideVmem_zero fresh fits⟩
  have cut := mapped_iff_cut rumprunSize large
  have bitmapPos := pageSize_le_bitmapBytes osend (osend + rumprunSize / pageSize * pageSize)
  by_cases page : pageSize ≤ rumprunSize
  · obtain ⟨loaded, ran, inv⟩ := provideVmem_loads fresh aligned fits page
    constructor
    · rintro ⟨loaded', ran', stays⟩
      cases ran.symm.trans ran'
      refine ⟨page, ?_⟩
      by_contra! neither
      obtain ⟨two, outside⟩ := neither
      rw [← not_lt, ← cut, not_le] at outside
      -- the last page is managed and not mapped
      have last : osend + rumprunSize / pageSize * pageSize - 1 ∈ Set.Ico
          (osend + bitmapBytes osend (osend + rumprunSize / pageSize * pageSize))
          (osend + rumprunSize / pageSize * pageSize) := by
        simp only [Set.mem_Ico, bitmapBytes, firstPage, pageSize, pageShift] at *
        omega
      obtain ⟨ops, final, allowed, reached, b, mem, inside⟩ := page_handed_out last inv
      obtain ⟨final', reached', all⟩ := (stays ops allowed).ends
      cases reached.symm.trans reached'
      have below := (all b mem inside).2
      omega
    · rintro ⟨-, room⟩
      refine ⟨loaded, ran, ?_⟩
      intro ops allowed
      refine throughout_of_invariant (PageSystem.Inv _ _) ?_ PageSystem.step_inv ops _ inv allowed
      rintro sys ⟨heapInv, lo, hi⟩ b mem x inside
      have managed := heapInv.liveManaged b mem inside
      rw [PageHeap.managed, lo, hi] at managed
      obtain ⟨above, below⟩ := managed
      refine ⟨by omega, ?_⟩
      rcases room with small | less
      · simp only [pageSize, pageShift] at *
        omega
      · exact below.trans_le (Nat.add_le_add_left (cut.mpr less) _)
  · refine iff_of_false ?_ fun good => page good.1
    rintro ⟨loaded, ran, -⟩
    rcases Nat.eq_zero_or_pos rumprunSize with none | some
    · cases (provideVmem_zero fresh fits none).symm.trans ran
    · cases (provideVmem_small fresh aligned fits some (not_le.mp page)).symm.trans ran

theorem heap_stays_mapped_large :
    StaysMapped PageHeap.boot 0x10000000 0x200800 21 ∧
      ¬ StaysMapped PageHeap.boot 0x10000000 0x300000 21 := by
  constructor
  · exact (heap_stays_mapped PageHeap.boot rfl 0x10000000 0x200800 21 (by decide) (by decide)
      (by decide)).1.mpr (by decide)
  · intro stays
    exact absurd ((heap_stays_mapped PageHeap.boot rfl 0x10000000 0x300000 21 (by decide)
      (by decide) (by decide)).1.mp stays) (by decide)

/-- Three megabytes in pages of two: the first block of a megabyte is behind the mapped one. -/
theorem three_mb_not_mapped :
    ∃ loaded final, provideVmem PageHeap.boot 0x10000000 0x300000 = .ok loaded ∧
      PageSystem.step { heap := loaded, live := [] } (.pgallocAlign 8 0x1000) = .ok final ∧
      final.live = [{ addr := 0x10200000, order := 8 }] ∧
      0x10200000 ∉ mapped 0x10000000 0x300000 21 := by
  have evaluated : ∃ loaded ∈ (provideVmem PageHeap.boot 0x10000000 0x300000).toOption,
      ∃ final ∈ (PageSystem.step { heap := loaded, live := [] } (.pgallocAlign 8 0x1000)).toOption,
        final.live = [{ addr := 0x10200000, order := 8 }] := by
    decide +kernel
  obtain ⟨loaded, ran, final, stepped, live⟩ := evaluated
  refine ⟨loaded, final, eq_ok_of_mem ran, eq_ok_of_mem stepped, live, ?_⟩
  rintro ⟨-, below⟩
  exact absurd below (by decide)

end Rumprun.Sel4
