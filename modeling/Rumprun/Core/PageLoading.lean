import Rumprun.Core.PageHeapRuns

/-! # Loading any range

`bmk_pgalloc_loadmem` asserts only that `max` is above `min`. It rounds both, takes the bitmap
off and carves up the rest, and all of that fits exactly when the rounded range holds the bitmap. -/

namespace Rumprun.Core.PageAllocator
open MachineWord PageHeap

/-- No chunk that `carverange` takes is larger than what is left of the range. -/
def CarvesExactly : Nat → Nat → Nat → Prop
  | 0, _, _ => True
  | fuel + 1, addr, range => range ≠ 0 →
    order2size (PageHeap.carveExponent addr range - pageShift) ≤ range ∧
      CarvesExactly fuel (add addr (order2size (PageHeap.carveExponent addr range - pageShift)))
        (sub range (order2size (PageHeap.carveExponent addr range - pageShift)))

structure Loaded (min max : Nat) (heap : PageHeap) : Prop where
  exactly : roundPage min ≤ truncPage max ∧ heap.minpageAddr ≤ truncPage max ∧
    CarvesExactly (truncPage max - heap.minpageAddr) heap.minpageAddr
      (truncPage max - heap.minpageAddr)
  managed : min ≤ heap.minpageAddr ∧ heap.maxpageAddr ≤ max
  bitmap : min ≤ heap.bitmapAddr ∧ heap.bitmapAddr + 8 * heap.bitmapWords ≤ max
  apart : heap.bitmapAddr + 8 * heap.bitmapWords ≤ heap.minpageAddr
  /-- Nothing is allocated, and the chunks on the free lists cover the managed range. -/
  free : HeapPartition heap []
  total : heap.pgallocTotalkb * 2 ^ 10 = heap.maxpageAddr - heap.minpageAddr

theorem carvesExactly_of_dvd : ∀ fuel addr range : Nat, pageSize ∣ range → range < 2 ^ 64 →
    CarvesExactly fuel addr range := by
  intro fuel
  induction fuel with
  | zero => intro addr range _ _; trivial
  | succ fuel ih =>
    intro addr range page fits some
    have size : order2size (carveExponent addr range - pageShift) ≤ range := by
      have limited : carveExponent addr range ≤ range.log2 := by
        unfold carveExponent
        rw [top_bit_eq some fits]
        dsimp only
        split <;> omega
      rw [order2size]
      by_cases small : carveExponent addr range ≤ pageShift
      · rw [Nat.sub_eq_zero_of_le small, zero_add]
        exact Nat.le_of_dvd (pos_of_ne_zero some) page
      · rw [Nat.sub_add_cancel (by omega)]
        exact (Nat.pow_le_pow_right (by decide) limited).trans (Nat.log2_self_le some)
    refine ⟨size, ih _ _ ?_ ?_⟩ <;> rw [sub_eq size fits]
    · exact Nat.dvd_sub page (pageSize_dvd_two_pow _)
    · omega

namespace PageHeap

theorem carveLoop_cases : ∀ (fuel : Nat) (heap : PageHeap) (addr range : Nat),
    (∃ what, carveLoop fuel heap addr range = .error (.undefined what)) ∨
      ∃ freelist chunk,
        carveLoop fuel heap addr range = .ok { heap with freelist := freelist, chunk := chunk } := by
  intro fuel
  induction fuel with
  | zero =>
    intro heap addr range
    rw [carveLoop]
    split
    · exact .inr ⟨heap.freelist, heap.chunk, rfl⟩
    · exact .inl ⟨_, rfl⟩
  | succ fuel ih =>
    intro heap addr range
    rw [carveLoop]
    split
    · exact .inr ⟨heap.freelist, heap.chunk, rfl⟩
    split
    · exact .inl ⟨_, rfl⟩
    split
    · exact .inl ⟨_, rfl⟩
    dsimp only
    by_cases small : carveExponent addr range - pageShift < freelistLevels
    · rw [freechunkLink, if_pos small]
      exact ih _ _ _
    · rw [freechunkLink, if_neg small]
      exact .inl ⟨_, rfl⟩

theorem mapFree_cases (heap : PageHeap) (virt nrPages : Nat) :
    (∃ what, heap.mapFree virt nrPages = .error (.undefined what)) ∨
      ∃ bitmap, heap.mapFree virt nrPages = .ok { heap with allocBitmap := bitmap } := by
  unfold mapFree
  dsimp only
  split
  · exact .inl ⟨_, rfl⟩
  split
  · exact .inr ⟨_, rfl⟩
  · exact .inr ⟨_, rfl⟩

theorem bmkPgallocLoadmem_cases (heap : PageHeap) (fresh : heap.called = false) {min max : Nat}
    (less : min < max) :
    (∃ what, heap.bmkPgallocLoadmem min max = .error (.undefined what)) ∨
      ∃ loaded, heap.bmkPgallocLoadmem min max = .ok loaded ∧ loaded.bitmapAddr = roundPage min ∧
        loaded.minpageAddr = add (roundPage min)
          (roundPage (add (sub (truncPage max) (roundPage min) / 2 ^ (pageShift + 3)) 1)) := by
  unfold bmkPgallocLoadmem
  simp only [fresh, Bool.false_eq_true, if_false]
  rw [bmkAssert_bind _ (decide_eq_true less)]
  rcases mapFree_cases _ _ _ with ⟨what, mapped⟩ | ⟨bitmap, mapped⟩
  · exact .inl ⟨what, by rw [mapped]; rfl⟩
  rw [mapped, ok_bind, carverange]
  rcases carveLoop_cases _ _ _ _ with ⟨what, carved⟩ | ⟨freelist, chunk, carved⟩
  · exact .inl ⟨what, carved⟩
  · exact .inr ⟨_, carved, rfl, rfl⟩

end PageHeap

/-- Above its assertion, a load never halts, and it is sound exactly for the ranges
that hold their bitmap. -/
theorem loadmem_sound_iff (boot : PageHeap) (fresh : boot.called = false) (min max : Nat)
    (less : min < max) (fits : max < 2 ^ 64) :
    ((∃ text, boot.bmkPgallocLoadmem min max = .error (.halt text)) ∨
      ∃ heap, boot.bmkPgallocLoadmem min max = .ok heap ∧ Loaded min max heap) ↔
    HoldsBitmap min max := by
  have below : lastPage max ≤ max := Nat.div_mul_le_self _ _
  have pages : pageSize = 4096 := rfl
  constructor
  · intro sound
    rcases boot.bmkPgallocLoadmem_cases fresh less with ⟨what, ran⟩ | ⟨loaded, ran, bitmapAddr, minpage⟩
    · rw [ran] at sound
      rcases sound with ⟨text, halts⟩ | ⟨heap, returns, -⟩
      · cases halts
      · cases returns
    rw [ran] at sound
    rcases sound with ⟨text, halts⟩ | ⟨heap, returns, load⟩
    · cases halts
    cases returns
    obtain ⟨ordered, room, -⟩ := load.exactly
    have start := load.bitmap.1
    have inside := load.managed.1
    rw [truncPage_eq fits] at ordered room minpage
    rw [bitmapAddr] at start
    -- an address that wraps is rounded to zero
    have low : min + (pageSize - 1) < 2 ^ 64 := by
      by_contra high
      have wrapped : add min (pageSize - 1) < pageSize := by
        unfold add
        omega
      have zero : roundPage min ≤ add min (pageSize - 1) := Nat.and_le_left
      omega
    rw [roundPage_eq low] at ordered minpage
    rw [bitmapSize_eq ordered (by omega)] at minpage
    have bytes : bitmapBytes (firstPage min) (lastPage max) < 2 ^ 50 ∧ firstPage min < min + pageSize := by
      simp only [bitmapBytes, firstPage, pageSize, pageShift] at *
      omega
    refine ⟨fits, ?_⟩
    by_cases wraps : firstPage min + bitmapBytes (firstPage min) (lastPage max) < 2 ^ 64
    · rw [add_eq wraps] at minpage
      exact minpage ▸ room
    · unfold add at minpage
      omega
  · intro holds
    obtain ⟨heap, ran, inv, -, minpage, maxpage, bitmapAddr, words⟩ :=
      boot.bmkPgallocLoadmem_spec fresh holds
    have room := holds.2
    have bitmapPos := pageSize_le_bitmapBytes (firstPage min) (lastPage max)
    have first : min ≤ firstPage min := by
      simp only [firstPage, pageSize, pageShift]
      omega
    have bytes : 8 * (bitmapBytes (firstPage min) (lastPage max) / 8) =
        bitmapBytes (firstPage min) (lastPage max) :=
      Nat.mul_div_cancel' ((by decide : 8 ∣ pageSize).trans (dvd_mul_left _ _))
    have start : roundPage min = firstPage min := roundPage_eq (by omega)
    refine .inr ⟨heap, ran, ?_, ?_, ?_, ?_, inv.partition, ?_⟩
    · rw [truncPage_eq fits, start, minpage]
      exact ⟨by omega, room, carvesExactly_of_dvd _ _ _ (Nat.dvd_sub (dvd_mul_left _ _)
        (minpage ▸ inv.minAligned)) (by omega)⟩
    · rw [minpage, maxpage]
      omega
    · rw [bitmapAddr, words, bytes]
      omega
    · rw [bitmapAddr, words, bytes, minpage]
    · rw [inv.total]
      exact Nat.div_mul_cancel
        ((by decide : 2 ^ 10 ∣ pageSize).trans (Nat.dvd_sub inv.maxAligned inv.minAligned))

theorem loadmem_sound_half_mb :
    (∃ text, PageHeap.boot.bmkPgallocLoadmem 0x1000 0x80000 = .error (.halt text)) ∨
      ∃ heap, PageHeap.boot.bmkPgallocLoadmem 0x1000 0x80000 = .ok heap ∧ Loaded 0x1000 0x80000 heap :=
  (loadmem_sound_iff boot rfl 0x1000 0x80000 (by decide) (by decide)).mpr (by decide)

/-- Two bytes inside one page: rounded, `max` is a page below `min`, and the size of the range
wraps. -/
theorem loadmem_inside_one_page :
    sub (truncPage 0x1003) (roundPage 0x1001) = 2 ^ 64 - 0x1000 ∧
      ¬ ((∃ text, PageHeap.boot.bmkPgallocLoadmem 0x1001 0x1003 = .error (.halt text)) ∨
        ∃ heap, PageHeap.boot.bmkPgallocLoadmem 0x1001 0x1003 = .ok heap ∧
          Loaded 0x1001 0x1003 heap) := by
  refine ⟨by decide, ?_⟩
  rintro (⟨text, halts⟩ | ⟨heap, -, load⟩)
  · rcases boot.bmkPgallocLoadmem_cases rfl (by decide : 0x1001 < 0x1003) with
      ⟨what, ran⟩ | ⟨loaded, ran, -⟩
    · rw [ran] at halts
      cases halts
    · rw [ran] at halts
      cases halts
  · exact absurd load.exactly.1 (by decide)

/-! ## Ranges of the map -/

/-- The map has a word for the page behind the last one, so a range may end with the last page. -/
theorem bitmap_ranges_exact (boot : PageHeap) (fresh : boot.called = false) {min max : Nat}
    (holds : HoldsBitmap min max) :
    ∃ loaded, boot.bmkPgallocLoadmem min max = .ok loaded ∧
      ∀ (heap : PageHeap) (first n : Nat), heap.minpageAddr = loaded.minpageAddr →
        heap.bitmapWords = loaded.bitmapWords →
        first + n ≤ (loaded.maxpageAddr - loaded.minpageAddr) / pageSize →
        (∃ bitmap, heap.mapAlloc (heap.minpageAddr + first * pageSize) n =
          .ok { heap with allocBitmap := bitmap } ∧
          RangeStored true heap.allocBitmap bitmap first (first + n)) ∧
        ∃ bitmap, heap.mapFree (heap.minpageAddr + first * pageSize) n =
          .ok { heap with allocBitmap := bitmap } ∧
          RangeStored false heap.allocBitmap bitmap first (first + n) := by
  obtain ⟨loaded, ran, inv, -⟩ := boot.bmkPgallocLoadmem_spec fresh holds
  refine ⟨loaded, ran, ?_⟩
  intro heap first n base words inside
  have fits : heap.minpageAddr + first * pageSize < 2 ^ 64 := by
    have ordered := inv.ordered
    have top := inv.fits
    have whole := (Nat.le_div_iff_mul_le (by decide : 0 < pageSize)).mp inside
    rw [Nat.add_mul] at whole
    omega
  have at_ : heap.vaToPg (heap.minpageAddr + first * pageSize) = first := by
    rw [vaToPg, sub_eq (Nat.le_add_right ..) fits, Nat.add_sub_cancel_left]
    exact Nat.mul_div_cancel first (by decide)
  have room : (heap.vaToPg (heap.minpageAddr + first * pageSize) + n) / pagesPerMapword <
      heap.bitmapWords := by
    rw [at_, words]
    exact (Nat.div_le_div_right inside).trans_lt inv.bitmapRoom
  obtain ⟨taken, takes, set⟩ := heap.mapAlloc_spec _ n room
  obtain ⟨freed, frees, cleared⟩ := heap.mapFree_spec _ n room
  rw [at_] at set cleared
  exact ⟨⟨taken, takes, set⟩, freed, frees, cleared⟩

theorem bitmap_ranges_exact_thirty_pages :
    ∃ loaded bitmap, boot.bmkPgallocLoadmem 0x1000 0x20000 = .ok loaded ∧
      loaded.mapAlloc (loaded.minpageAddr + 3 * pageSize) 4 =
        .ok { loaded with allocBitmap := bitmap } ∧
      RangeStored true loaded.allocBitmap bitmap 3 7 := by
  obtain ⟨loaded, ran, exactly⟩ := bitmap_ranges_exact boot rfl (by decide : HoldsBitmap 0x1000 0x20000)
  have inside : ∀ heap ∈ (boot.bmkPgallocLoadmem 0x1000 0x20000).toOption,
      3 + 4 ≤ (heap.maxpageAddr - heap.minpageAddr) / pageSize := by
    decide +kernel
  obtain ⟨⟨bitmap, taken, set⟩, -⟩ := exactly loaded 3 4 rfl rfl (inside loaded (by rw [ran]; rfl))
  exact ⟨loaded, bitmap, ran, taken, set⟩

end Rumprun.Core.PageAllocator
