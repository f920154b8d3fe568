import Rumprun.Core.PageHeapRuns

/-! # Page requests fail only when there is no room

`bmk_pgalloc_align` looks at the starts of the free chunks only. That is enough: a
chunk at least as large as the alignment starts at a multiple of it, and a smaller one
that holds an aligned place starts there. -/

namespace Rumprun.Core.PageAllocator
open MachineWord DyadicBlocks StepRuns PageHeap

/-- All `2 ^ order` pages from `addr` are managed and free, by the tests the code has. -/
def PageHeap.FreePages (heap : PageHeap) (order addr : Nat) : Prop :=
  ∀ x, addr ≤ x → x < addr + 2 ^ order * pageSize →
    heap.addrIsManaged x = true ∧ heap.allocatedInMap x = .ok false

/-- A place for `2 ^ order` pages at a multiple of `align` and of their own size. -/
structure PageHeap.Fits (heap : PageHeap) (order align addr : Nat) : Prop where
  aligned : align ∣ addr
  natural : 2 ^ order * pageSize ∣ addr
  free : heap.FreePages order addr

theorem exists_two_pow {align : Nat} (large : pageSize ≤ align)
    (power : align &&& (align - 1) = 0) : ∃ m, align = 2 ^ m := by
  have positive : align ≠ 0 := by
    have : 0 < pageSize := Nat.two_pow_pos _
    omega
  exact (Nat.and_sub_one_eq_zero_iff_isPowerOfTwo positive).mp power

namespace HeapInv
variable {heap : PageHeap} {live : List Block} {order addr m : Nat}
variable (inv : HeapInv heap live)
include inv

theorem mem_freeBytes_iff {x : Nat} :
    x ∈ heap.freeBytes live ↔ heap.addrIsManaged x = true ∧ heap.allocatedInMap x = .ok false := by
  rw [addrIsManaged_iff, freeBytes, Set.mem_sdiff]
  apply and_congr_right
  intro mem
  obtain ⟨bit, ran, iff⟩ := inv.allocatedInMap_eq mem
  rw [ran, ← iff, Except.ok.injEq, Bool.not_eq_true]

theorem freePages_iff :
    heap.FreePages order addr ↔ block addr (order + pageShift) ⊆ heap.freeBytes live := by
  have length : 2 ^ order * pageSize = 2 ^ (order + pageShift) := by rw [pageSize, ← pow_add]
  unfold PageHeap.FreePages
  rw [length]
  constructor
  · intro free x mem
    exact inv.mem_freeBytes_iff.mpr (free x mem.1 mem.2)
  · intro inside x low high
    exact inv.mem_freeBytes_iff.mp (inside ⟨low, high⟩)

theorem chunk_of_fits (fits : heap.Fits order (2 ^ m) addr) :
    ∃ level, order ≤ level ∧ level < freelistLevels ∧
      ∃ ch ∈ heap.freelist level, ch &&& (2 ^ m - 1) = 0 := by
  have natural := fits.natural
  rw [pageSize, ← pow_add] at natural
  obtain ⟨ch, k, max, large, aligned⟩ := exists_maximal_aligned inv.zero_not_free natural
    fits.aligned (inv.freePages_iff.mp fits.free)
  obtain ⟨page, onList⟩ := inv.on_list max
  exact ⟨k - pageShift, by omega, inv.level_lt onList, ch, onList,
    (and_mask_eq_zero_iff ch m).mpr aligned⟩

theorem fits_of_new {next : PageHeap} {p : Nat}
    (after : HeapInv next ({ addr := p, order := order } :: live))
    (lo : next.minpageAddr = heap.minpageAddr) (hi : next.maxpageAddr = heap.maxpageAddr)
    (aligned : p &&& (2 ^ m - 1) = 0) : heap.Fits order (2 ^ m) p where
  aligned := (and_mask_eq_zero_iff p m).mp aligned
  natural := by
    have own : 2 ^ (order + pageShift) ∣ p :=
      after.liveAligned { addr := p, order := order } List.mem_cons_self
    rwa [pageSize, ← pow_add]
  free := by
    rw [inv.freePages_iff]
    intro x mem
    have managed := after.liveManaged { addr := p, order := order } List.mem_cons_self mem
    rw [PageHeap.managed, lo, hi] at managed
    refine ⟨managed, ?_⟩
    rintro ⟨b, old, inside⟩
    have apart := (List.pairwise_cons.mp after.liveApart).1 b old
    exact Set.disjoint_left.mp apart mem inside

theorem bmkPgallocAlign_decides {align : Nat} (orderLt : order < freelistLevels)
    (alignGe : pageSize ≤ align) (alignPow : align &&& (align - 1) = 0) :
    ∃ p next, heap.bmkPgallocAlign order align = .ok (p, next) ∧
      (p ≠ 0 ↔ ∃ addr, heap.Fits order align addr) ∧
      (p ≠ 0 → heap.Fits order align p) ∧ (p = 0 → next = heap) := by
  obtain ⟨m, power⟩ := exists_two_pow alignGe alignPow
  rcases inv.bmkPgallocAlign_spec orderLt alignGe alignPow with
    ⟨ran, none⟩ | ⟨p, next, ran, nonzero, aligned, after, lo, hi⟩
  · refine ⟨0, heap, ran, ?_, fun absurd => (absurd rfl).elim, fun _ => rfl⟩
    apply iff_of_false (fun absurd => absurd rfl)
    rintro ⟨addr, fits⟩
    rw [power] at fits none
    obtain ⟨level, lower, upper, ch, onList, aligned⟩ := inv.chunk_of_fits fits
    exact none level lower upper ch onList aligned
  · have fits : heap.Fits order align p := by
      rw [power] at aligned ⊢
      exact inv.fits_of_new after lo hi aligned
    exact ⟨p, next, ran, iff_of_true nonzero ⟨p, fits⟩, fun _ => fits, fun zero => (nonzero zero).elim⟩

end HeapInv

/-- In every state that a load and a history lead to,
a request that the asserts admit returns a page run if and only if there is one. -/
theorem pgalloc_finds_room (boot : PageHeap) (fresh : boot.called = false) (min max : Nat)
    (holds : HoldsBitmap min max) :
    ∃ loaded, boot.bmkPgallocLoadmem min max = .ok loaded ∧
      ∀ ops, Admissible PageSystem.Admits PageSystem.step ops { heap := loaded, live := [] } →
        ∃ final, run PageSystem.step ops { heap := loaded, live := [] } = .ok final ∧
          ∀ order align, order < freelistLevels → pageSize ≤ align → align &&& (align - 1) = 0 →
            ∃ p next, final.heap.bmkPgallocAlign order align = .ok (p, next) ∧
              (p ≠ 0 ↔ ∃ addr, final.heap.Fits order align addr) ∧
              (p ≠ 0 → final.heap.Fits order align p) ∧ (p = 0 → next = final.heap) := by
  obtain ⟨loaded, loadRun, -, reached⟩ := history_inv boot fresh holds
  refine ⟨loaded, loadRun, ?_⟩
  intro ops allowed
  obtain ⟨final, ran, finalInv, -, -⟩ := reached ops allowed
  refine ⟨final, ran, ?_⟩
  intro order align orderLt alignGe alignPow
  exact finalInv.bmkPgallocAlign_decides orderLt alignGe alignPow

theorem pgalloc_finds_room_eight_pages :
    ∃ loaded final, PageHeap.boot.bmkPgallocLoadmem 0x1000 0x20000 = .ok loaded ∧
      run PageSystem.step [.pgallocAlign 0 0x1000] { heap := loaded, live := [] } = .ok final ∧
      ∃ p next, final.heap.bmkPgallocAlign 3 0x8000 = .ok (p, next) ∧
        (p ≠ 0 ↔ ∃ addr, final.heap.Fits 3 0x8000 addr) ∧
        (p ≠ 0 → final.heap.Fits 3 0x8000 p) ∧ (p = 0 → next = final.heap) := by
  obtain ⟨loaded, loadRun, history⟩ := pgalloc_finds_room boot rfl 0x1000 0x20000 (by decide)
  have allowed : ∀ heap ∈ (boot.bmkPgallocLoadmem 0x1000 0x20000).toOption,
      Admissible PageSystem.Admits PageSystem.step [.pgallocAlign 0 0x1000]
        { heap := heap, live := [] } := by
    decide +kernel
  obtain ⟨final, ran, decides⟩ := history _ (allowed loaded (by rw [loadRun]; rfl))
  exact ⟨loaded, final, loadRun, ran, decides 3 0x8000 (by decide) (by decide) (by decide)⟩

end Rumprun.Core.PageAllocator
