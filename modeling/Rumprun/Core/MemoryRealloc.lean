import Rumprun.Core.MemoryRequests

/-! # The contract of `bmk_memrealloc_user`

The capacity of the old block is computed again from its header, as
`(1<<(index+MINSHIFT)) - alignpad` with an `int` shift, so that a block of `2 ^ 31`
bytes or more has none that C defines. -/

namespace Rumprun.Core.MemoryAllocator
open MachineWord ByteMemory DyadicBlocks PageAllocator StepRuns MemSystem MemHeap List

/-- The bytes from the pointer to the end of the block. -/
def Alloc.usable (a : Alloc) : Nat := 2 ^ (a.piece.bucket + minShift) - (a.ptr - a.piece.start)

/-- The allocation that a call which returned `np` has made. -/
def MemHeap.newAlloc (heap : MemHeap) (np nbytes : Nat) : Alloc :=
  { ptr := np, nbytes := nbytes, align := minAlign, who := .user, piece := heap.pieceFor nbytes 8 }

/-- A new block has taken the place of `a`: it is large enough and starts with the old bytes, it is
live and `a` is not, and nothing happened to the others. -/
structure Moved (sys : MemSystem) (a : Alloc) (nbytes np : Nat) (next : MemHeap) : Prop where
  other : np ≠ 0 ∧ np ≠ a.ptr
  room : nbytes ≤ (sys.heap.newAlloc np nbytes).usable
  contents : ∀ i < Nat.min a.usable nbytes, next.lists.memory (np + i) = sys.heap.lists.memory (a.ptr + i)
  untouched : ∀ c ∈ sys.live, c ≠ a → ∀ x ∈ c.piece.bytes, next.lists.memory x = sys.heap.lists.memory x
  live : ∃ after : MemSystem, after.heap = next ∧ (∃ free, BucketHeap after free) ∧
    ∀ c, c ∈ after.live ↔ c = sys.heap.newAlloc np nbytes ∨ c ∈ sys.live ∧ c ≠ a

/-- NULL with everything as it was, the same pointer to a block that is large enough, or a new
block. -/
def Reallocates (sys : MemSystem) (a : Alloc) (nbytes : Nat) : Prop :=
  ∃ rv next, sys.heap.bmkMemreallocUser a.ptr nbytes = .ok (rv, next) ∧
    (rv = 0 ∧ next = sys.heap ∨ rv = a.ptr ∧ next = sys.heap ∧ nbytes ≤ a.usable ∨
      Moved sys a nbytes rv next)

/-! ## Live allocations -/

namespace MemInv
variable {sys : MemSystem} {a c : Alloc}

theorem ptr_bounds (inv : MemInv sys) (mem : a ∈ sys.live) :
    a.piece.start + hdrSize ≤ a.ptr ∧ a.ptr + a.usable = a.piece.start + 2 ^ (a.piece.bucket + minShift) ∧
      a.ptr + a.usable + pageSize ≤ 2 ^ 64 ∧ a.nbytes ≤ a.usable := by
  have lower := (inv.sound a mem).lower
  have upper := (inv.sound a mem).upper
  have managed := (inv.live_managed mem).2
  unfold Alloc.usable
  omega

theorem ptr_unique (inv : MemInv sys) (memA : a ∈ sys.live) (memC : c ∈ sys.live)
    (same : a.ptr = c.ptr) : a = c := by
  by_contra differs
  have lowerA := (inv.sound a memA).lower
  have lowerC := (inv.sound c memC).lower
  have inA := (inv.sound a memA).hdr_mem (x := a.ptr - 1) (by unfold hdrSize; omega)
    (by unfold hdrSize at lowerA; omega)
  have inC := (inv.sound c memC).hdr_mem (x := c.ptr - 1) (by unfold hdrSize; omega)
    (by unfold hdrSize at lowerC; omega)
  have apart := disjoint_of_ne (f := fun a : Alloc => a.piece.bytes) inv.live_apart memA memC differs
  rw [same] at inA
  exact Set.disjoint_left.mp apart inA inC

theorem live_nodup (inv : MemInv sys) : sys.live.Nodup := by
  apply inv.live_apart.imp
  intro a c apart same
  subst same
  exact Set.disjoint_left.mp apart (left_mem_block _ _) (left_mem_block _ _)

theorem realloc_eq (inv : MemInv sys) (mem : a ∈ sys.live) {nbytes : Nat} (positive : 0 < nbytes)
    (narrow : a.piece.bucket + minShift < 31) :
    sys.heap.bmkMemreallocUser a.ptr nbytes = if nbytes ≤ a.usable then .ok (a.ptr, sys.heap)
      else do
        let (np, heap) ← sys.heap.bmkMemalloc nbytes 8 .user
        if np = 0 then
          return (0, heap)
        else
          let memory := bmkMemcpy heap.lists.memory np a.ptr a.usable
          let heap ← bmkMemfree
            { heap with lists := { heap.lists with memory := memory } } a.ptr .user
          return (np, heap) := by
  obtain ⟨lower, ends, fits, -⟩ := inv.ptr_bounds mem
  have nonzero : a.ptr ≠ 0 := by
    unfold hdrSize at lower
    omega
  have header := (inv.recovers mem).1
  have width : 2 ^ (a.piece.bucket + minShift) < 2 ^ 31 := Nat.pow_lt_pow_right (by decide) narrow
  have shifted : intShift (a.piece.bucket + minShift) = .ok (2 ^ (a.piece.bucket + minShift)) :=
    if_pos narrow
  have room : sub (2 ^ (a.piece.bucket + minShift)) (a.ptr - a.piece.start) = a.usable := by
    rw [sub_eq (by omega) (by omega)]
    rfl
  unfold bmkMemreallocUser
  rw [if_neg nonzero, if_neg positive.ne']
  simp only [header, Alloc.hdr, shifted, ok_bind, room]
  rfl

/-! ## The move to a new block -/

theorem stretches_apart {p q : Piece} {x y n : Nat} (apart : Disjoint p.bytes q.bytes)
    (lowerX : p.start ≤ x) (upperX : x + n ≤ p.start + 2 ^ (p.bucket + minShift))
    (lowerY : q.start ≤ y) (upperY : y + n ≤ q.start + 2 ^ (q.bucket + minShift)) :
    x + n ≤ y ∨ y + n ≤ x := by
  by_contra meet
  have inP : max x y ∈ p.bytes := by
    rw [Piece.bytes, mem_block]
    omega
  have inQ : max x y ∈ q.bytes := by
    rw [Piece.bytes, mem_block]
    omega
  exact Set.disjoint_left.mp apart inP inQ

section
variable {nbytes np : Nat} {heap : MemHeap}

theorem moves (inv : MemInv sys) (mem : a ∈ sys.live) (user : a.who = .user)
    (more : a.usable < nbytes) (fits : nbytes + minAlign ≤ 2 ^ 63)
    (took : sys.heap.bmkMemalloc nbytes 8 .user = .ok (np, heap)) (nonzero : np ≠ 0) :
    ∃ next, bmkMemfree { heap with lists := { heap.lists with
        memory := bmkMemcpy heap.lists.memory np a.ptr a.usable } } a.ptr .user = .ok next ∧
      Moved sys a nbytes np next := by
  have allowed := admits_of_fits sys .user (.inr ⟨3, by decide, rfl⟩ : AlignAllowed 8) fits
  obtain ⟨b, is, untouched, mid⟩ := inv.placed allowed took nonzero
  have isNew : b = sys.heap.newAlloc np nbytes := is
  have ptr : b.ptr = np := by rw [is]
  have asked : b.nbytes = nbytes := by rw [is]
  obtain ⟨lowerA, endsA, fitsA, -⟩ := inv.ptr_bounds mem
  obtain ⟨lowerB, endsB, fitsB, roomB⟩ := mid.ptr_bounds mem_cons_self
  rw [ptr] at lowerB endsB fitsB
  rw [asked] at roomB
  have apartB : ∀ c ∈ sys.live, Disjoint b.piece.bytes c.piece.bytes :=
    (pairwise_cons.mp mid.live_apart).1
  have page : 0 < pageSize := Nat.two_pow_pos _
  have stretches := stretches_apart (apartB a mem) (x := np) (y := a.ptr) (n := a.usable)
    (by omega) (by omega) (by omega) (by omega)
  have outside : ∀ x, x < np ∨ np + a.usable ≤ x →
      bmkMemcpy heap.lists.memory np a.ptr a.usable x = heap.lists.memory x :=
    fun x apart => bmkMemcpy_outside (by omega) apart
  -- the copy goes to bytes that the new block was asked for
  have copied := mid.rewrite (bmkMemcpy heap.lists.memory np a.ptr a.usable) (by
    intro x differs
    refine .inl ⟨b, mem_cons_self, ?_⟩
    rw [ptr, asked]
    by_contra elsewhere
    exact differs (outside x (by omega)))
  obtain ⟨next, a', rest, freed, -, samePtr, perm, kept, after⟩ :=
    copied.memfree_step (⟨a, mem_cons_of_mem b mem, rfl, user⟩ :
      MemSystem.Admits _ (.memfree a.ptr .user))
  have memA' : a' ∈ b :: sys.live := perm.mem_iff.mpr mem_cons_self
  obtain rfl : a' = a := copied.ptr_unique memA' (mem_cons_of_mem b mem) samePtr
  have notRest : a' ∉ rest := (nodup_cons.mp (perm.nodup_iff.mp copied.live_nodup)).1
  have notLive : b ∉ sys.live := (nodup_cons.mp copied.live_nodup).1
  have differs : b ≠ a' := fun same => notLive (same ▸ mem)
  have memRest : ∀ c, c ∈ rest ↔ c = b ∨ c ∈ sys.live ∧ c ≠ a' := by
    intro c
    have both : c ∈ b :: sys.live ↔ c ∈ a' :: rest := perm.mem_iff
    rw [mem_cons, mem_cons] at both
    constructor
    · intro within
      have other : c ≠ a' := fun same => notRest (same ▸ within)
      exact (both.mpr (.inr within)).imp_right fun old => ⟨old, other⟩
    · rintro (new | ⟨old, other⟩)
      · exact (both.mp (.inl new)).resolve_left (new ▸ differs)
      · exact (both.mp (.inr old)).resolve_left other
  refine ⟨next, freed, ?_⟩
  exact
    { other := ⟨nonzero, fun same => differs
        (copied.ptr_unique mem_cons_self memA' (ptr.trans same))⟩
      room := by
        rw [← isNew]
        exact roomB
      contents := by
        intro i within
        have small : i < a'.usable := lt_of_lt_of_le within (Nat.min_le_left _ _)
        have inB : np + i ∈ b.piece.bytes := by
          rw [Piece.bytes, mem_block]
          omega
        have inA : a'.ptr + i ∈ a'.piece.bytes := by
          rw [Piece.bytes, mem_block]
          omega
        have last := kept b.piece (mem_map_of_mem ((memRest b).mpr (.inl rfl))) _ inB
        rw [last]
        exact (bmkMemcpy_inside (by omega) (by omega) stretches small).trans
          (untouched a'.piece (mem_map_of_mem mem) _ inA)
      untouched := by
        intro c memC other x inC
        have last := kept c.piece (mem_map_of_mem ((memRest c).mpr (.inr ⟨memC, other⟩))) x inC
        have notInB := fun inB => Set.disjoint_left.mp (apartB c memC) inB inC
        rw [last]
        refine (outside x ?_).trans (untouched c.piece (mem_map_of_mem memC) x inC)
        by_contra inside
        apply notInB
        rw [Piece.bytes, mem_block]
        omega
      live := ⟨_, rfl, after.bucketHeap, by rw [← isNew]; exact memRest⟩ }

/-! ## When it holds -/

theorem reallocates (inv : MemInv sys) (mem : a ∈ sys.live) (user : a.who = .user)
    (positive : 0 < nbytes) (narrow : a.piece.bucket + minShift < 31)
    (fits : nbytes + minAlign ≤ 2 ^ 63) : Reallocates sys a nbytes := by
  unfold Reallocates
  rw [inv.realloc_eq mem positive narrow]
  by_cases enough : nbytes ≤ a.usable
  · rw [if_pos enough]
    exact ⟨_, _, rfl, .inr (.inl ⟨rfl, rfl, enough⟩)⟩
  · rw [if_neg enough]
    obtain ⟨np, heap, took, failed, -⟩ :=
      inv.served (admits_of_fits sys .user (.inr ⟨3, by decide, rfl⟩ : AlignAllowed 8) fits)
    simp only [took, ok_bind]
    by_cases zero : np = 0
    · rw [if_pos zero]
      exact ⟨_, _, rfl, .inl ⟨rfl, failed zero⟩⟩
    · obtain ⟨next, freed, moved⟩ := inv.moves mem user (by omega) fits took zero
      simp only [if_neg zero, freed, ok_bind]
      exact ⟨_, _, rfl, .inr (.inr moved)⟩

theorem requestBucket_wraps (word : nbytes < 2 ^ 64) (wraps : 2 ^ 64 ≤ nbytes + minAlign) :
    requestBucket nbytes 8 = 0 := by
  obtain ⟨j, isPow, -, -, total⟩ := allocbytes_eq nbytes (.inr ⟨3, by decide, rfl⟩ : AlignAllowed 8)
  have sixteen : 2 ^ j = minAlign := isPow.symm
  have least : minAlign = 16 := rfl
  apply Nat.le_zero.mp
  rw [requestBucket, bucketFor_le_iff (by rw [total]; exact add_lt _ _), total, sixteen, add]
  have : (2 : Nat) ^ (0 + minShift) = 32 := rfl
  omega

theorem realloc_wraps (inv : MemInv sys) (word : nbytes < 2 ^ 64) (wraps : 2 ^ 64 ≤ nbytes + minAlign) :
    sys.heap.blockTaken 0 = 0 ∧ sys.heap.bmkMemalloc nbytes 8 .user = .ok (0, sys.heap) ∨
      sys.heap.blockTaken 0 ≠ 0 ∧ ∃ heap, sys.heap.bmkMemalloc nbytes 8 .user =
        .ok (sys.heap.blockTaken 0 + minAlign, heap) := by
  obtain ⟨free, holds⟩ := inv.represented
  have result := bmkMemalloc_eq sys.heap nbytes .user
    (.inr ⟨3, by decide, rfl⟩ : AlignAllowed 8) (j := 4) rfl (by decide)
  rw [requestBucket_wraps word wraps] at result
  rcases holds.takeBlock_spec (by decide : pageOrder 0 < freelistLevels) with
    ⟨ran, -⟩ | ⟨s, next, store, ran, took⟩
  · left
    rw [ran] at result
    exact ⟨by rw [blockTaken, ran], result⟩
  · right
    have taken : sys.heap.blockTaken 0 = s := by rw [blockTaken, ran]
    have mem : { start := s, bucket := 0 } ∈ store.live := by
      rw [took.live]
      exact mem_cons_self
    obtain ⟨c, -, -, aligned⟩ := took.inv.live_held mem
    have managed := (took.inv.live_managed mem).2
    have page : pageSize = 2 ^ 12 := rfl
    dsimp only at aligned managed
    have pointer : userPointer s (2 ^ 4) = s + minAlign :=
      userPointer_eq (by decide) (by decide) ((pow_dvd_pow 2 (by decide)).trans aligned) (by omega)
    simp only [ran, ok_bind, if_neg took.nonzero, pointer] at result
    rw [taken]
    exact ⟨took.nonzero, _, result⟩

theorem reallocates_wrapped (inv : MemInv sys) (mem : a ∈ sys.live) (word : nbytes < 2 ^ 64)
    (narrow : a.piece.bucket + minShift < 31) (wraps : 2 ^ 64 ≤ nbytes + minAlign) :
    Reallocates sys a nbytes ↔ sys.heap.blockTaken 0 = 0 := by
  have least : minAlign = 16 := rfl
  have small : a.usable < 2 ^ 31 :=
    lt_of_le_of_lt (Nat.sub_le _ _) (Nat.pow_lt_pow_right (by decide) narrow)
  unfold Reallocates
  rw [inv.realloc_eq mem (by omega) narrow, if_neg (by omega)]
  rcases inv.realloc_wraps word wraps with ⟨none, took⟩ | ⟨nonzero, heap, took⟩
  · simp only [took, ok_bind, if_true]
    exact iff_of_true ⟨_, _, rfl, .inl ⟨rfl, rfl⟩⟩ none
  · refine iff_of_false ?_ nonzero
    rintro ⟨rv, next, ran, kept⟩
    rw [took, ok_bind] at ran
    simp only [if_neg (show sys.heap.blockTaken 0 + minAlign ≠ 0 by omega)] at ran
    obtain ⟨freed, -, ran⟩ := bind_eq_ok ran
    have same : sys.heap.blockTaken 0 + minAlign = rv := congrArg Prod.fst (Except.ok.inj ran)
    rcases kept with ⟨zero, -⟩ | ⟨-, -, enough⟩ | moved
    · omega
    · omega
    · have room := moved.room
      have bound : (sys.heap.newAlloc rv nbytes).usable ≤ 2 ^ (requestBucket nbytes 8 + minShift) :=
        Nat.sub_le _ _
      rw [requestBucket_wraps word wraps] at bound
      have : (2 : Nat) ^ (0 + minShift) = 32 := rfl
      omega

theorem realloc_undefined (inv : MemInv sys) (mem : a ∈ sys.live) (positive : 0 < nbytes)
    (wide : ¬ a.piece.bucket + minShift < 31) :
    sys.heap.bmkMemreallocUser a.ptr nbytes = .error (.undefined "1<<k") := by
  have lower := (inv.ptr_bounds mem).1
  have nonzero : a.ptr ≠ 0 := by
    unfold hdrSize at lower
    omega
  have header := (inv.recovers mem).1
  have shifted : intShift (a.piece.bucket + minShift) = .error (.undefined "1<<k") := if_neg wide
  unfold bmkMemreallocUser
  rw [if_neg nonzero, if_neg positive.ne']
  simp only [header, Alloc.hdr, shifted]
  rfl

end
end MemInv

/-- It holds for a live user block exactly when the block is smaller
than `2 ^ 31` bytes and the size with the header is at most `2 ^ 63`, or wraps while there is not
even a block of the smallest bucket. -/
theorem realloc_contract_iff (sys : MemSystem) (reachable : sys.Reachable) (a : Alloc)
    (mem : a ∈ sys.live) (user : a.who = .user) (nbytes : Nat) (positive : 0 < nbytes)
    (word : nbytes < 2 ^ 64) :
    Reallocates sys a nbytes ↔ a.piece.bucket + minShift < 31 ∧
      (nbytes + minAlign ≤ 2 ^ 63 ∨ 2 ^ 64 ≤ nbytes + minAlign ∧ sys.heap.blockTaken 0 = 0) := by
  have inv := reachable.inv
  by_cases narrow : a.piece.bucket + minShift < 31
  · by_cases fits : nbytes + minAlign ≤ 2 ^ 63
    · exact iff_of_true (inv.reallocates mem user positive narrow fits) ⟨narrow, .inl fits⟩
    · by_cases wraps : 2 ^ 64 ≤ nbytes + minAlign
      · rw [inv.reallocates_wrapped mem word narrow wraps]
        simp only [narrow, fits, wraps, true_and, false_or]
      · -- the request stops in the page allocator
        refine iff_of_false ?_ (by simp only [fits, wraps, false_and, or_false, and_false, not_false_eq_true])
        rintro ⟨rv, next, ran, -⟩
        have small : a.usable < 2 ^ 31 :=
          lt_of_le_of_lt (Nat.sub_le _ _) (Nat.pow_lt_pow_right (by decide) narrow)
        have least : minAlign = 16 := rfl
        rw [inv.realloc_eq mem positive narrow, if_neg (by omega), memalloc_halts
          (.inr ⟨3, by decide, rfl⟩ : AlignAllowed 8) (not_le.mp fits) (not_le.mp wraps)] at ran
        cases ran
  · refine iff_of_false ?_ fun both => narrow both.1
    rintro ⟨rv, next, ran, -⟩
    rw [inv.realloc_undefined mem positive narrow] at ran
    cases ran

/-- One allocation of 100 bytes after a load of thirty pages. -/
def hundredBytes : Alloc :=
  { ptr := 0x2010, nbytes := 100, align := 16, who := .user, piece := { start := 0x2000, bucket := 2 } }

theorem realloc_contract_iff_grows :
    ∃ sys : MemSystem, sys.Reachable ∧ hundredBytes ∈ sys.live ∧ Reallocates sys hundredBytes 1000 := by
  obtain ⟨loaded, loadRun, -⟩ :=
    PageHeap.boot.bmkPgallocLoadmem_spec rfl (by decide : HoldsBitmap 0x1000 0x20000)
  have evaluated : ∀ heap ∈ (PageHeap.boot.bmkPgallocLoadmem 0x1000 0x20000).toOption,
      Admissible MemSystem.Admits step [.memalloc 100 0 .user]
        (start (bss heap (fun _ => 0) 0x100000)) ∧
      ∃ sys ∈ (run step [.memalloc 100 0 .user]
        (start (bss heap (fun _ => 0) 0x100000))).toOption,
        sys.live = [hundredBytes] := by
    decide +kernel
  obtain ⟨allowed, sys, ran, live⟩ := evaluated loaded (by rw [loadRun]; rfl)
  have reachable : sys.Reachable :=
    ⟨_, _, _, _, _, loaded, _, rfl, by decide, loadRun, allowed, eq_ok_of_mem ran⟩
  have mem : hundredBytes ∈ sys.live := by
    rw [live]
    exact mem_singleton_self _
  refine ⟨sys, reachable, mem, ?_⟩
  exact (realloc_contract_iff sys reachable hundredBytes mem rfl 1000 (by decide) (by decide)).mpr
    ⟨by decide, .inl (by decide)⟩

/-- A block of `2 ^ 31` bytes cannot be reallocated; a request of `2 ^ 64 - 1` bytes gets a block
of 32 bytes, into which the 112 bytes of the old one are copied. -/
theorem realloc_contract_broken :
    (∃ loaded ∈ (PageHeap.boot.bmkPgallocLoadmem 0x1000 (2 ^ 32 + 0x1000)).toOption,
      Admissible MemSystem.Admits MemSystem.step [.memalloc (2 ^ 31 - 16) 0 .user]
        (MemSystem.start (MemHeap.bss loaded (fun _ => 0) 0x100000)) ∧
      ∃ sys ∈ (run MemSystem.step [.memalloc (2 ^ 31 - 16) 0 .user]
        (MemSystem.start (MemHeap.bss loaded (fun _ => 0) 0x100000))).toOption,
        sys.live = [{ ptr := 2 ^ 31 + 16, nbytes := 2 ^ 31 - 16, align := 16, who := .user,
                      piece := { start := 2 ^ 31, bucket := 26 } }] ∧
        faultOf (sys.heap.bmkMemreallocUser (2 ^ 31 + 16) (2 ^ 32)) = some (.undefined "1<<k")) ∧
    ∃ loaded ∈ (PageHeap.boot.bmkPgallocLoadmem 0x1000 0x20000).toOption,
      Admissible MemSystem.Admits MemSystem.step [.memalloc 100 0 .user]
        (MemSystem.start (MemHeap.bss loaded (fun _ => 0) 0x100000)) ∧
      ∃ sys ∈ (run MemSystem.step [.memalloc 100 0 .user]
        (MemSystem.start (MemHeap.bss loaded (fun _ => 0) 0x100000))).toOption,
        sys.live = [hundredBytes] ∧ hundredBytes.usable = 112 ∧
        ∃ next ∈ (sys.heap.bmkMemreallocUser 0x2010 (2 ^ 64 - 1)).toOption,
          next.1 = 0x3010 ∧ sys.heap.pieceFor (2 ^ 64 - 1) 8 = { start := 0x3000, bucket := 0 } := by
  decide +kernel

end Rumprun.Core.MemoryAllocator
