import Rumprun.Core.MemoryRuns
import Rumprun.Core.PageSearch

/-! # Which requests `bmk_memalloc` serves

The size of a request is `nbytes` plus the alignment, modulo `2 ^ 64`. A sum above
`2 ^ 63` needs an order that `bmk_pgalloc_align` refuses with an assert; a sum that
wraps is small again, and the block taken for it far too small. -/

namespace Rumprun.Core.MemoryAllocator
open MachineWord ByteMemory DyadicBlocks PageAllocator StepRuns MemHeap MemSystem PageHeap
variable {sys : MemSystem} {align nbytes : Nat} {who : Memwho}

/-- The states that a load and a history of admitted operations lead to. -/
def MemSystem.Reachable (sys : MemSystem) : Prop :=
  ∃ (pages : PageHeap) (memory : Memory) (base min max : Nat) (loaded : PageHeap)
    (ops : List MemOp), pages.called = false ∧ HoldsBitmap min max ∧
    pages.bmkPgallocLoadmem min max = .ok loaded ∧
    Admissible MemSystem.Admits MemSystem.step ops
      (MemSystem.start (MemHeap.bss loaded memory base)) ∧
    run MemSystem.step ops (MemSystem.start (MemHeap.bss loaded memory base)) = .ok sys

theorem MemSystem.Reachable.inv (reachable : sys.Reachable) : MemInv sys := by
  obtain ⟨pages, memory, base, min, max, loaded, ops, fresh, holds, loadRun, allowed, ran⟩ := reachable
  obtain ⟨heap, heapRun, inv, -, -, -⟩ := pages.bmkPgallocLoadmem_spec fresh holds
  rw [loadRun, Except.ok.injEq] at heapRun
  subst heapRun
  obtain ⟨final, finalRun, finalInv⟩ := run_invariant step_inv ops _
    (start_inv inv memory base) allowed
  rw [ran, Except.ok.injEq] at finalRun
  rw [finalRun]
  exact finalInv

/-- The bucket, and the block of it, that a request takes. -/
def requestBucket (nbytes align : Nat) : Nat := bucketFor (allocbytes nbytes (atLeastMinAlign align))

def MemHeap.pieceFor (heap : MemHeap) (nbytes align : Nat) : Piece :=
  { start := heap.blockTaken (requestBucket nbytes align), bucket := requestBucket nbytes align }

/-- `bmk_memalloc` returns NULL and changes nothing, or returns an aligned pointer with all bytes
asked for inside of the block taken. -/
def Served (heap : MemHeap) (nbytes align : Nat) (who : Memwho) : Prop :=
  ∃ rv next, heap.bmkMemalloc nbytes align who = .ok (rv, next) ∧ (rv = 0 → next = heap) ∧
    (rv ≠ 0 → atLeastMinAlign align ∣ rv ∧ (heap.pieceFor nbytes align).start ≤ rv ∧
      rv + nbytes ≤ (heap.pieceFor nbytes align).start +
        2 ^ ((heap.pieceFor nbytes align).bucket + minShift))

/-- Every byte that `bmk_memcalloc` clears is in the block taken. -/
def FillStays (heap : MemHeap) (n size : Nat) (who : Memwho) : Prop :=
  ∀ v next, heap.bmkMemcalloc n size who = .ok (v, next) → v ≠ 0 →
    ∀ i < mul n size, add v i ∈ (heap.pieceFor (mul n size) minAlign).bytes

/-- The alignments that callers may ask for. -/
def AlignAllowed (align : Nat) : Prop := align = 0 ∨ ∃ k, k ≤ 31 ∧ align = 2 ^ k

theorem AlignAllowed.power (allowed : AlignAllowed align) :
    align &&& (align - 1) = 0 ∧ align ≤ 2 ^ 31 := by
  rcases allowed with zero | ⟨k, small, power⟩
  · rw [zero]
    decide
  · rw [power]
    exact ⟨(Nat.and_sub_one_eq_zero_iff_isPowerOfTwo (Nat.two_pow_pos k).ne').mpr ⟨k, rfl⟩,
      Nat.pow_le_pow_right (by decide) small⟩

/-! ## Requests that are served -/

theorem MemInv.placed (inv : MemInv sys) (allowed : sys.Admits (.memalloc nbytes align who))
    {rv : Nat} {next : MemHeap} (ran : sys.heap.bmkMemalloc nbytes align who = .ok (rv, next))
    (nonzero : rv ≠ 0) :
    ∃ a, a = { ptr := rv, nbytes := nbytes, align := atLeastMinAlign align, who := who,
               piece := sys.heap.pieceFor nbytes align } ∧
      Untouched (sys.live.map Alloc.piece) sys.heap next ∧
      MemInv { sys with
        heap := next
        live := a :: sys.live
        cores := sys.heap.coresAfter (requestBucket nbytes align) a.piece.start sys.cores } := by
  have result := inv.memalloc_step allowed
  simp only [step, ran, if_neg nonzero] at result
  rcases result with ⟨same, -⟩ | ⟨other, a, more, -, -, untouched, after⟩
  · have longer := congrArg (fun s : MemSystem => s.live.length) (Except.ok.inj same)
    simp at longer
  · have first := congrArg (fun s : MemSystem => s.live.head?) (Except.ok.inj more)
    have heap := congrArg heap (Except.ok.inj more)
    simp only [List.head?_cons, Option.some.injEq] at first
    rw [← first] at after
    dsimp only at heap
    rw [← heap] at after untouched
    exact ⟨_, rfl, untouched, after⟩

theorem MemInv.served (inv : MemInv sys) (allowed : sys.Admits (.memalloc nbytes align who)) :
    Served sys.heap nbytes align who := by
  cases ran : sys.heap.bmkMemalloc nbytes align who with
  | error stop =>
    have result := inv.memalloc_step allowed
    simp [step, ran] at result
  | ok pair =>
    obtain ⟨rv, next⟩ := pair
    refine ⟨rv, next, ran, ?_, ?_⟩
    · intro zero
      have result := inv.memalloc_step allowed
      simp only [step, ran, if_pos zero] at result
      rcases result with ⟨same, -⟩ | ⟨other, a, more, -⟩
      · exact congrArg heap (Except.ok.inj same)
      · have longer := congrArg (fun s : MemSystem => s.live.length) (Except.ok.inj more)
        simp at longer
    · intro nonzero
      obtain ⟨a, is, -, after⟩ := inv.placed allowed ran nonzero
      have sound := after.sound a List.mem_cons_self
      rw [is] at sound
      exact ⟨sound.aligned, le_trans (Nat.le_add_right _ _) sound.lower, sound.upper⟩

theorem admits_of_fits (sys : MemSystem) (who : Memwho) (allowed : AlignAllowed align)
    (fits : nbytes + atLeastMinAlign align ≤ 2 ^ 63) : sys.Admits (.memalloc nbytes align who) := by
  obtain ⟨pow, alignLe⟩ := allowed.power
  obtain ⟨j, isPow, lower, upper⟩ := atLeastMinAlign_pow pow alignLe
  have padding : hdrPadding (atLeastMinAlign align) = atLeastMinAlign align := by
    rw [isPow, hdrPadding_eq lower upper]
  refine ⟨pow, alignLe, ?_, ?_⟩
  · rw [padding]
    omega
  · rw [padding]
    exact fits

/-! ## Requests that are not -/

section
variable {heap : MemHeap} {nbytes align : Nat} {who : Memwho}

theorem allocbytes_eq (nbytes : Nat) (allowed : AlignAllowed align) :
    ∃ j, atLeastMinAlign align = 2 ^ j ∧ 4 ≤ j ∧ j ≤ 31 ∧
      allocbytes nbytes (atLeastMinAlign align) = add nbytes (2 ^ j) := by
  obtain ⟨pow, alignLe⟩ := allowed.power
  obtain ⟨j, isPow, lower, upper⟩ := atLeastMinAlign_pow pow alignLe
  exact ⟨j, isPow, lower, upper, by rw [allocbytes, isPow, hdrPadding_eq lower upper]⟩

theorem bmkMemalloc_eq (heap : MemHeap) (nbytes : Nat) (who : Memwho) (allowed : AlignAllowed align)
    {j : Nat} (isPow : atLeastMinAlign align = 2 ^ j) (upper : j ≤ 31) :
    heap.bmkMemalloc nbytes align who = (do
      let (hdr, next) ← heap.takeBlock (requestBucket nbytes align)
      if hdr = 0 then
        return (0, next)
      else
        let memory := storeHdr next.lists.memory (sub (userPointer hdr (2 ^ j)) hdrSize)
          { alignpad := sub (userPointer hdr (2 ^ j)) hdr, magic := memMagic,
            index := requestBucket nbytes align, who := who.code }
        return (userPointer hdr (2 ^ j), { next with lists := { next.lists with memory := memory } })) := by
  have asserted : decide (2 ^ j ≤ 2 ^ 31) = true :=
    decide_eq_true (Nat.pow_le_pow_right (by decide) upper)
  unfold bmkMemalloc
  rw [if_neg (not_not.mpr allowed.power.1)]
  simp only [isPow, requestBucket]
  rw [bmkAssert_bind _ asserted]

theorem memalloc_halts (allowed : AlignAllowed align) (large : 2 ^ 63 < nbytes + atLeastMinAlign align)
    (noWrap : nbytes + atLeastMinAlign align < 2 ^ 64) :
    heap.bmkMemalloc nbytes align who =
      .error (.halt "assert \"(unsigned)order < FREELIST_LEVELS\" FAILED\n") := by
  obtain ⟨j, isPow, lower, upper, total⟩ := allocbytes_eq nbytes allowed
  rw [isPow] at large noWrap
  rw [add_eq noWrap] at total
  have bucket : 58 < requestBucket nbytes align := by
    rw [requestBucket, total, ← not_le, bucketFor_le_iff noWrap, not_le]
    exact large
  have notSmall : ¬ requestBucket nbytes align < localBuckets := by
    simp only [localBuckets, pageShift, minShift]
    omega
  have order : ¬ pageOrder (requestBucket nbytes align) < freelistLevels := by
    simp only [pageOrder, freelistLevels, pageShift, minShift]
    omega
  have refused : heap.takeBlock (requestBucket nbytes align) =
      .error (.halt "assert \"(unsigned)order < FREELIST_LEVELS\" FAILED\n") := by
    rw [MemHeap.takeBlock, dif_neg notSmall, bmkPgalloc, bmkPgallocAlign,
      bmkAssert_bind _ (by decide), bmkAssert, if_neg (by simpa using order)]
    rfl
  rw [bmkMemalloc_eq heap nbytes who allowed isPow upper, refused]
  rfl

end

/-! ## A heap with room for the small block of a sum that wraps -/

structure Roomy (heap : MemHeap) : Prop where
  empty : ∃ store, StoreInv heap store ∧ store.held = []
  low : heap.pages.minpageAddr ≤ 2 ^ 31
  high : heap.pages.maxpageAddr = 2 ^ 38

theorem exists_roomy : ∃ sys : MemSystem, sys.Reachable ∧ Roomy sys.heap := by
  obtain ⟨loaded, loadRun, inv, -, lo, hi, -⟩ :=
    boot.bmkPgallocLoadmem_spec rfl (by decide : HoldsBitmap 0x1000 (2 ^ 38))
  refine ⟨start (bss loaded (fun _ => 0) 0x100000), ?_, ?_⟩
  · exact ⟨_, _, _, _, _, loaded, [], rfl, by decide, loadRun, trivial, rfl⟩
  · obtain ⟨free, holds⟩ := (start_inv inv (fun _ => 0) 0x100000).represented
    refine ⟨⟨_, holds, rfl⟩, ?_, ?_⟩
    · show loaded.minpageAddr ≤ 2 ^ 31
      rw [lo]
      decide
    · show loaded.maxpageAddr = 2 ^ 38
      rw [hi]
      decide

namespace Roomy
variable {heap : MemHeap}

theorem fits (roomy : Roomy heap) (order : Nat) (small : order + pageShift ≤ 31) :
    heap.pages.Fits order pageSize (2 ^ 31) := by
  obtain ⟨store, holds, empty⟩ := roomy.empty
  have inv := holds.pages
  rw [empty] at inv
  refine ⟨pow_dvd_pow 2 (by decide), ?_, ?_⟩
  · rw [pageSize, ← pow_add]
    exact pow_dvd_pow 2 small
  · rw [inv.freePages_iff, freeBytes_nil]
    intro x mem
    have bound : 2 ^ (order + pageShift) ≤ 2 ^ 31 := Nat.pow_le_pow_right (by decide) small
    have low := roomy.low
    have high := roomy.high
    rw [mem_block] at mem
    show heap.pages.minpageAddr ≤ x ∧ x < heap.pages.maxpageAddr
    omega

theorem takeBlock (roomy : Roomy heap) {bucket : Nat} (small : bucket ≤ 26) :
    ∃ s next, heap.takeBlock bucket = .ok (s, next) ∧ s ≠ 0 ∧ s + 2 ^ (bucket + minShift) ≤ 2 ^ 38 := by
  obtain ⟨store, holds, empty⟩ := roomy.empty
  have order : pageOrder bucket + pageShift ≤ 31 := by
    simp only [pageOrder, pageShift, minShift]
    omega
  have orderLt : pageOrder bucket < freelistLevels := by
    simp only [freelistLevels, pageShift] at order ⊢
    omega
  rcases holds.takeBlock_spec orderLt with ⟨failed, full⟩ | ⟨s, next, store', ran, took⟩
  · exfalso
    by_cases local_ : bucket < localBuckets
    · -- a bucket is refilled with any free page
      have none := (full local_).2
      have page := roomy.fits 0 (by decide)
      have inv := holds.pages
      have free := inv.freePages_iff.mp page.free (left_mem_block _ _)
      rw [none] at free
      exact free
    · obtain ⟨p, pages, ran, iff, -, -⟩ :=
        holds.pages.bmkPgallocAlign_decides orderLt (le_refl pageSize) (by decide)
      have found := iff.mpr ⟨_, roomy.fits _ order⟩
      have ran : heap.pages.bmkPgalloc (pageOrder bucket) = .ok (p, pages) := ran
      rw [MemHeap.takeBlock, dif_neg local_, ran] at failed
      exact found (congrArg Prod.fst (Except.ok.inj failed))
  · refine ⟨s, next, ran, took.nonzero, ?_⟩
    have mem : { start := s, bucket := bucket } ∈ store'.live := by
      rw [took.live]
      exact List.mem_cons_self
    obtain ⟨c, held, inside, -⟩ := took.inv.live_held mem
    have width := Nat.two_pow_pos (bucket + minShift)
    have last : s + 2 ^ (bucket + minShift) - 1 ∈ ({ start := s, bucket := bucket } : Piece).bytes := by
      rw [Piece.bytes, mem_block]
      dsimp only
      omega
    have managed := took.inv.pages.liveManaged c held (inside last)
    rw [took.managed, PageHeap.managed, roomy.high] at managed
    have upper := managed.2
    omega

end Roomy

theorem userPointer_bounds {s j : Nat} (low : s ≤ 2 ^ 38) (upper : j ≤ 31) :
    s < userPointer s (2 ^ j) ∧ userPointer s (2 ^ j) ≤ s + 8 + 2 ^ j := by
  have atMost : 2 ^ j ≤ 2 ^ 31 := Nat.pow_le_pow_right (by decide) upper
  have positive := Nat.two_pow_pos j
  have sum : sub (add (add s hdrSize) (2 ^ j)) 1 = s + 7 + 2 ^ j := by
    unfold hdrSize
    rw [add_eq (a := s) (by omega), add_eq (by omega), sub_eq (by omega) (by omega)]
    omega
  have split := Nat.div_add_mod (s + 7 + 2 ^ j) (2 ^ j)
  have rest := Nat.mod_lt (s + 7 + 2 ^ j) positive
  rw [userPointer, sum, and_compl_mask (by omega) (by omega), mul_comm]
  omega

section
variable {heap : MemHeap} {align n size : Nat}

theorem memalloc_wraps (roomy : Roomy heap) (nbytes : Nat) (who : Memwho) (word : nbytes < 2 ^ 64)
    (allowed : AlignAllowed align) (wraps : 2 ^ 64 ≤ nbytes + atLeastMinAlign align) :
    ∃ rv next, heap.bmkMemalloc nbytes align who = .ok (rv, next) ∧ rv ≠ 0 ∧ rv ≤ 2 ^ 39 ∧
      (heap.pieceFor nbytes align).start + 2 ^ ((heap.pieceFor nbytes align).bucket + minShift) ≤
        2 ^ 38 := by
  obtain ⟨j, isPow, lower, upper, total⟩ := allocbytes_eq nbytes allowed
  have atMost : 2 ^ j ≤ 2 ^ 31 := Nat.pow_le_pow_right (by decide) upper
  rw [isPow] at wraps
  have small : requestBucket nbytes align ≤ 26 := by
    rw [requestBucket, bucketFor_le_iff (by rw [total]; exact add_lt _ _), total, add]
    have : (2 : Nat) ^ (26 + minShift) = 2 ^ 31 := rfl
    omega
  obtain ⟨s, next, ran, nonzero, room⟩ := roomy.takeBlock small
  have low : s ≤ 2 ^ 38 := le_trans (Nat.le_add_right _ _) room
  obtain ⟨above, below⟩ := userPointer_bounds low upper
  have taken : (heap.pieceFor nbytes align).start = s := by
    simp only [pieceFor, blockTaken, ran]
  have result := bmkMemalloc_eq heap nbytes who allowed isPow upper
  simp only [ran, ok_bind, if_neg nonzero] at result
  exact ⟨_, _, result, by omega, by omega, by rw [taken]; exact room⟩

/-! ## `bmk_memcalloc` -/

theorem memcalloc_product (n size : Nat) :
    2 ^ 64 ≤ n * size ∧ size ≠ 0 ∧ mul n size / size ≠ n ∨
      mul n size = n * size ∧ ¬ (size ≠ 0 ∧ mul n size / size ≠ n) := by
  by_cases wraps : 2 ^ 64 ≤ n * size
  · left
    refine ⟨wraps, by rintro rfl; simp at wraps, ?_⟩
    intro exact_
    have back := Nat.div_mul_le_self (mul n size) size
    have word : mul n size < 2 ^ 64 := Nat.mod_lt _ (by decide)
    rw [exact_] at back
    omega
  · right
    have whole : mul n size = n * size := Nat.mod_eq_of_lt (by omega)
    refine ⟨whole, ?_⟩
    rintro ⟨nonzero, differs⟩
    rw [whole, Nat.mul_div_cancel _ (pos_of_ne_zero nonzero)] at differs
    exact differs rfl

theorem alignAllowed_minAlign : AlignAllowed minAlign := Or.inr ⟨4, by decide, rfl⟩

theorem MemInv.fillStays {sys : MemSystem} (inv : MemInv sys) (who : Memwho)
    (fits : n * size + minAlign < 2 ^ 64 ∨ 2 ^ 64 ≤ n * size) : FillStays sys.heap n size who := by
  intro v next ran nonzero i within
  rcases memcalloc_product n size with ⟨wraps, noticed⟩ | ⟨whole, unnoticed⟩
  · simp only [bmkMemcalloc, if_pos noticed] at ran
    exact absurd (congrArg Prod.fst (Except.ok.inj ran)).symm nonzero
  · simp only [bmkMemcalloc, if_neg unnoticed] at ran
    have align : atLeastMinAlign minAlign = minAlign := rfl
    have word : mul n size < 2 ^ 64 := Nat.mod_lt _ (by decide)
    obtain ⟨pair, took, ran⟩ := bind_eq_ok ran
    by_cases large : 2 ^ 63 < mul n size + minAlign
    · rw [memalloc_halts alignAllowed_minAlign large (by rw [align]; omega)] at took
      cases took
    · have total : mul n size + atLeastMinAlign minAlign ≤ 2 ^ 63 := by
        rw [align]
        omega
      obtain ⟨rv, heap⟩ := pair
      by_cases zero : rv = 0
      · simp only [if_pos zero] at ran
        exact absurd (congrArg Prod.fst (Except.ok.inj ran)).symm nonzero
      · simp only [if_neg zero] at ran
        have same : rv = v := congrArg Prod.fst (Except.ok.inj ran)
        obtain ⟨a, is, -, after⟩ :=
          inv.placed (admits_of_fits sys who alignAllowed_minAlign total) took zero
        have sound := after.sound a List.mem_cons_self
        have managed := (after.live_managed List.mem_cons_self).2
        rw [is] at sound managed
        have lower := sound.lower
        have upper := sound.upper
        dsimp only at lower upper managed
        rw [Piece.bytes, mem_block, ← same, add_eq (by omega)]
        omega

theorem Roomy.fill_leaves {heap : MemHeap} (roomy : Roomy heap) (who : Memwho)
    (small : n * size < 2 ^ 64) (wraps : 2 ^ 64 ≤ n * size + minAlign) :
    ¬ FillStays heap n size who := by
  have align : atLeastMinAlign minAlign = minAlign := rfl
  have least : minAlign = 16 := rfl
  rcases memcalloc_product n size with ⟨wrapped, -⟩ | ⟨whole, unnoticed⟩
  · omega
  · obtain ⟨rv, next, took, nonzero, low, room⟩ := memalloc_wraps roomy (mul n size) who
      (by omega) alignAllowed_minAlign (by rw [align]; omega)
    intro stays
    have ran : heap.bmkMemcalloc n size who = .ok (rv, { next with
        lists := { next.lists with memory := bmkMemset next.lists.memory rv 0 (mul n size) } }) := by
      simp only [bmkMemcalloc, if_neg unnoticed, took, ok_bind, if_neg nonzero]
      rfl
    have inside := stays _ _ ran nonzero (2 ^ 40) (by omega)
    rw [Piece.bytes, mem_block, add_eq (by omega)] at inside
    omega

end

/-- Every reachable heap serves a request exactly when the size and
the alignment (at least 16) come to no more than `2 ^ 63`; what `bmk_memcalloc` clears is in its
own block exactly when the size does not wrap with the header. -/
theorem memalloc_serves_iff (nbytes align n size : Nat) (word : nbytes < 2 ^ 64)
    (allowed : AlignAllowed align) :
    ((∀ sys : MemSystem, sys.Reachable → ∀ who, Served sys.heap nbytes align who) ↔
        nbytes + atLeastMinAlign align ≤ 2 ^ 63) ∧
      ((∀ sys : MemSystem, sys.Reachable → ∀ who, FillStays sys.heap n size who) ↔
        n * size + minAlign < 2 ^ 64 ∨ 2 ^ 64 ≤ n * size) := by
  obtain ⟨big, reachable, roomy⟩ := exists_roomy
  constructor
  · constructor
    · intro served
      by_contra over_
      obtain ⟨rv, next, ran, -, inside⟩ := served big reachable .user
      by_cases wraps : 2 ^ 64 ≤ nbytes + atLeastMinAlign align
      · obtain ⟨rv', next', ran', nonzero, low, room⟩ := memalloc_wraps roomy nbytes .user word
          allowed wraps
        rw [ran, Except.ok.injEq, Prod.mk.injEq] at ran'
        rw [← ran'.1] at nonzero
        obtain ⟨-, -, upper⟩ := inside nonzero
        obtain ⟨j, isPow, -, small, -⟩ := allocbytes_eq nbytes allowed
        have atMost : 2 ^ j ≤ 2 ^ 31 := Nat.pow_le_pow_right (by decide) small
        omega
      · rw [memalloc_halts allowed (by omega) (by omega)] at ran
        cases ran
    · intro fits sys reachable who
      exact reachable.inv.served (admits_of_fits sys who allowed fits)
  · constructor
    · intro stays
      by_contra not_
      rw [not_or, not_lt, not_le] at not_
      exact roomy.fill_leaves .user not_.2 not_.1 (stays big reachable .user)
    · intro fits sys reachable who
      exact reachable.inv.fillStays who fits

theorem memalloc_serves_iff_page :
    (∀ sys : MemSystem, sys.Reachable → ∀ who, Served sys.heap 4096 4096 who) ∧
      ∀ sys : MemSystem, sys.Reachable → ∀ who, FillStays sys.heap 10 100 who := by
  obtain ⟨served, stays⟩ := memalloc_serves_iff 4096 4096 10 100 (by decide)
    (.inr ⟨12, by decide, rfl⟩)
  exact ⟨served.mpr (by decide), stays.mpr (by decide)⟩

/-- After a load of thirty pages, a request of `2 ^ 64 - 1` bytes gets the 32 bytes at `0x2000`,
and one of `2 ^ 63` bytes stops in the assert of the page allocator. -/
theorem memalloc_hands_out_too_little :
    ∃ loaded, PageHeap.boot.bmkPgallocLoadmem 0x1000 0x20000 = .ok loaded ∧
      (∃ next ∈ ((MemHeap.bss loaded (fun _ => 0) 0x100000).bmkMemalloc (2 ^ 64 - 1) 0 .user).toOption,
        next.1 = 0x2010 ∧ (MemHeap.bss loaded (fun _ => 0) 0x100000).pieceFor (2 ^ 64 - 1) 0 =
          { start := 0x2000, bucket := 0 }) ∧
      (∃ next ∈ ((MemHeap.bss loaded (fun _ => 0) 0x100000).bmkMemalloc (2 ^ 64 - 1) 16
        .user).toOption, mul 1 (2 ^ 64 - 1) = 2 ^ 64 - 1 ∧ next.1 = 0x2010) ∧
      faultOf ((MemHeap.bss loaded (fun _ => 0) 0x100000).bmkMemalloc (2 ^ 63) 0 .user) =
        some (.halt "assert \"(unsigned)order < FREELIST_LEVELS\" FAILED\n") := by
  obtain ⟨loaded, loadRun, -⟩ :=
    boot.bmkPgallocLoadmem_spec rfl (by decide : HoldsBitmap 0x1000 0x20000)
  have evaluated : ∀ heap ∈ (boot.bmkPgallocLoadmem 0x1000 0x20000).toOption,
      (∃ next ∈ ((bss heap (fun _ => 0) 0x100000).bmkMemalloc (2 ^ 64 - 1) 0 .user).toOption,
        next.1 = 0x2010 ∧ (bss heap (fun _ => 0) 0x100000).pieceFor (2 ^ 64 - 1) 0 =
          { start := 0x2000, bucket := 0 }) ∧
      (∃ next ∈ ((bss heap (fun _ => 0) 0x100000).bmkMemalloc (2 ^ 64 - 1) 16
        .user).toOption, mul 1 (2 ^ 64 - 1) = 2 ^ 64 - 1 ∧ next.1 = 0x2010) ∧
      faultOf ((bss heap (fun _ => 0) 0x100000).bmkMemalloc (2 ^ 63) 0 .user) =
        some (.halt "assert \"(unsigned)order < FREELIST_LEVELS\" FAILED\n") := by
    decide +kernel
  exact ⟨loaded, loadRun, evaluated loaded (by rw [loadRun]; rfl)⟩

end Rumprun.Core.MemoryAllocator
