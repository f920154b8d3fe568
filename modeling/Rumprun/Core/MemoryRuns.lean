import Rumprun.Core.BlockMoves

/-! # Every history of the memory allocator

Any sequence of allocations and frees, with the callers writing into the bytes they
asked for and other clients of the page allocator in between. The header of a live
allocation keeps pointing back to its block, because it lies inside it and before the
caller's bytes. -/

namespace Rumprun.Core.MemoryAllocator
open MachineWord ByteMemory IntrusiveList DyadicBlocks PageAllocator StepRuns MemHeap

/-! ## Headers -/

section Headers
variable {memory other : Memory} {addr : Nat} {hdr : MemallocHdr}

theorem storeHdr_apart {x : Nat} (apart : x < addr ∨ addr + hdrSize ≤ x) :
    storeHdr memory addr hdr x = memory x := by
  unfold hdrSize at apart
  rw [storeHdr, store_apart _ (by omega), store_apart _ (by omega), store_apart _ (by omega),
    store_apart _ (by omega)]

theorem loadHdr_congr (same : ∀ x, addr ≤ x → x < addr + hdrSize → other x = memory x) :
    loadHdr other addr = loadHdr memory addr := by
  unfold hdrSize at same
  have alignpad : load other addr 4 = load memory addr 4 :=
    load_congr fun x lower upper => same x lower (by omega)
  have magic : load other (addr + 4) 2 = load memory (addr + 4) 2 :=
    load_congr fun x lower upper => same x (by omega) (by omega)
  have index : load other (addr + 6) 1 = load memory (addr + 6) 1 :=
    load_congr fun x lower upper => same x (by omega) (by omega)
  have who : load other (addr + 7) 1 = load memory (addr + 7) 1 :=
    load_congr fun x lower upper => same x (by omega) (by omega)
  rw [loadHdr, loadHdr, alignpad, magic, index, who]

theorem loadHdr_storeHdr (alignpad : hdr.alignpad < 2 ^ 32) (magic : hdr.magic < 2 ^ 16)
    (index : hdr.index < 2 ^ 8) (who : hdr.who < 2 ^ 8) :
    loadHdr (storeHdr memory addr hdr) addr = hdr := by
  simp only [loadHdr, storeHdr]
  rw [load_store_apart _ (by omega), load_store alignpad,
    load_store_apart _ (by omega), load_store_apart _ (by omega), load_store_apart _ (by omega),
    load_store magic,
    load_store_apart _ (by omega), load_store_apart _ (by omega), load_store index,
    load_store who]

end Headers

/-! ## Allocations -/

theorem Memwho.code_lt (who : Memwho) : who.code < 2 ^ 8 := by
  cases who <;> decide

structure Alloc where
  ptr : Nat
  nbytes : Nat
  align : Nat
  who : Memwho
  piece : Piece
  deriving DecidableEq, Repr

/-- The header that leads back to the block. -/
def Alloc.hdr (a : Alloc) : MemallocHdr :=
  { alignpad := a.ptr - a.piece.start
    magic := memMagic
    index := a.piece.bucket
    who := a.who.code }

/-- The pointer and its header lie inside the block, and the header is there. -/
structure Alloc.Sound (memory : Memory) (a : Alloc) : Prop where
  lower : a.piece.start + hdrSize ≤ a.ptr
  upper : a.ptr + a.nbytes ≤ a.piece.start + 2 ^ (a.piece.bucket + minShift)
  aligned : a.align ∣ a.ptr
  within : a.ptr ≤ a.piece.start + 2 ^ 31
  header : loadHdr memory (a.ptr - hdrSize) = a.hdr

theorem Alloc.Sound.hdr_mem {memory : Memory} {a : Alloc} (sound : a.Sound memory) {x : Nat}
    (lower : a.ptr - hdrSize ≤ x) (upper : x < a.ptr) : x ∈ a.piece.bytes := by
  have start := sound.lower
  have ends := sound.upper
  rw [Piece.bytes, mem_block]
  omega

theorem Alloc.Sound.congr {memory other : Memory} {a : Alloc} (sound : a.Sound memory)
    (same : ∀ x, a.ptr - hdrSize ≤ x → x < a.ptr → other x = memory x) : a.Sound other := by
  have start := sound.lower
  refine { sound with header := ?_ }
  rw [loadHdr_congr fun x lower upper => same x lower (by omega)]
  exact sound.header

inductive MemOp where
  | memalloc (nbytes align : Nat) (who : Memwho)
  | memfree (cp : Nat) (who : Memwho)
  /-- A caller writes a byte of its own. -/
  | store (addr : Nat) (value : UInt8)
  /-- Another client of the page allocator. -/
  | pgallocAlign (order align : Nat)
  | pgfree (pointer order : Nat)

structure MemSystem where
  heap : MemHeap
  live : List Alloc
  cores : List CorePage
  others : List Block

def MemHeap.blockTaken (heap : MemHeap) (bucket : Nat) : Nat :=
  match heap.takeBlock bucket with
  | .error _ => 0
  | .ok (s, _) => s

namespace MemSystem

def start (heap : MemHeap) : MemSystem :=
  { heap := heap.bmkMemallocInit, live := [], cores := [], others := [] }

def step (sys : MemSystem) : MemOp → Except Stop MemSystem
  | .memalloc nbytes align who =>
    match sys.heap.bmkMemalloc nbytes align who with
    | .error stop => .error stop
    | .ok (rv, next) =>
      if rv = 0 then
        .ok { sys with heap := next }
      else
        let align := atLeastMinAlign align
        let bucket := bucketFor (allocbytes nbytes align)
        let s := sys.heap.blockTaken bucket
        .ok { sys with
          heap := next
          live := { ptr := rv, nbytes := nbytes, align := align, who := who,
                    piece := { start := s, bucket := bucket } } :: sys.live
          cores := sys.heap.coresAfter bucket s sys.cores }
  | .memfree cp who =>
    match sys.heap.bmkMemfree cp who with
    | .error stop => .error stop
    | .ok next =>
      .ok { sys with
        heap := next
        live := sys.live.eraseP fun a => a.ptr = cp ∧ a.who = who }
  | .store addr value =>
    let memory := Function.update sys.heap.lists.memory addr value
    .ok { sys with heap := { sys.heap with lists := { sys.heap.lists with memory := memory } } }
  | .pgallocAlign order align =>
    match sys.heap.pages.bmkPgallocAlign order align with
    | .error stop => .error stop
    | .ok (p, pages) =>
      let heap := { sys.heap with pages := pages }
      if p = 0 then .ok { sys with heap := heap }
      else .ok { sys with
        heap := heap
        others := { addr := p, order := order } :: sys.others }
  | .pgfree pointer order =>
    match sys.heap.pages.bmkPgfree pointer order with
    | .error stop => .error stop
    | .ok pages =>
      .ok { sys with
        heap := { sys.heap with pages := pages }
        others := sys.others.erase { addr := pointer, order := order } }

def Requested (sys : MemSystem) (x : Nat) : Prop := ∃ a ∈ sys.live, a.ptr ≤ x ∧ x < a.ptr + a.nbytes

/-- The bytes of the pages that another client of the page allocator holds. -/
def HeldElsewhere (sys : MemSystem) (x : Nat) : Prop :=
  ∃ c ∈ sys.others, c.addr ≤ x ∧ x < c.addr + 2 ^ (c.order + pageShift)

/-- What the callers keep to. A request has an alignment of zero or a power of two up to `2 ^ 31`,
and a size that does not wrap with the header's padding and fits the largest order; frees are of
live pointers by their owner; writes are to requested bytes or to a page of another client. No
one writes to a free page, where the page allocator keeps its chunk heads and links. -/
def Admits (sys : MemSystem) : MemOp → Prop
  | .memalloc nbytes align _ =>
    align &&& (align - 1) = 0 ∧ align ≤ 2 ^ 31 ∧ nbytes + hdrPadding (atLeastMinAlign align) < 2 ^ 64 ∧
      nbytes + hdrPadding (atLeastMinAlign align) ≤ order2size (freelistLevels - 1)
  | .memfree cp who => ∃ a ∈ sys.live, a.ptr = cp ∧ a.who = who
  | .store addr _ => sys.Requested addr ∨ sys.HeldElsewhere addr
  | .pgallocAlign order align =>
    order < freelistLevels ∧ pageSize ≤ align ∧ align &&& (align - 1) = 0
  | .pgfree pointer order => { addr := pointer, order := order } ∈ sys.others

instance decidableRequested (sys : MemSystem) (x : Nat) : Decidable (sys.Requested x) :=
  inferInstanceAs (Decidable (∃ a ∈ sys.live, _))

instance decidableHeldElsewhere (sys : MemSystem) (x : Nat) : Decidable (sys.HeldElsewhere x) :=
  inferInstanceAs (Decidable (∃ c ∈ sys.others, _))

instance decidableAdmits (sys : MemSystem) : ∀ op, Decidable (sys.Admits op) := by
  intro event
  unfold Admits
  split <;> infer_instance

/-- The step neither frees `a` nor stores into the byte at `x`. -/
def Spares (a : Alloc) (x : Nat) : MemOp → Prop
  | .memfree cp _ => cp ≠ a.ptr
  | .store addr _ => addr ≠ x
  | _ => True

instance decidableSpares (a : Alloc) (x : Nat) : ∀ op, Decidable (Spares a x op) := by
  intro event
  unfold Spares
  split <;> infer_instance

def Holding (a : Alloc) (x : Nat) (v : UInt8) (sys : MemSystem) : Prop :=
  a ∈ sys.live ∧ sys.heap.lists.memory x = v

/-- The store that the ghost data describes. -/
def store (sys : MemSystem) (free : Fin localBuckets → List Nat) : Store :=
  { live := sys.live.map Alloc.piece, free := free, cores := sys.cores, others := sys.others }

end MemSystem
open MemSystem

structure MemInv (sys : MemSystem) : Prop where
  represented : ∃ free, StoreInv sys.heap (sys.store free)
  sound : ∀ a ∈ sys.live, a.Sound sys.heap.lists.memory

/-! ## One step -/

theorem request_sizes {nbytes align : Nat} (pow : align &&& (align - 1) = 0)
    (alignLe : align ≤ 2 ^ 31) (noWrap : nbytes + hdrPadding (atLeastMinAlign align) < 2 ^ 64)
    (fits : nbytes + hdrPadding (atLeastMinAlign align) ≤ order2size (freelistLevels - 1)) :
    ∃ j, atLeastMinAlign align = 2 ^ j ∧ 4 ≤ j ∧ j ≤ 31 ∧
      nbytes + 2 ^ j ≤ 2 ^ (bucketFor (allocbytes nbytes (atLeastMinAlign align)) + minShift) ∧
      bucketFor (allocbytes nbytes (atLeastMinAlign align)) ≤ 58 := by
  obtain ⟨j, isPow, lower, upper⟩ := atLeastMinAlign_pow pow alignLe
  rw [isPow, hdrPadding_eq lower upper] at noWrap fits
  have total : allocbytes nbytes (atLeastMinAlign align) = nbytes + 2 ^ j := by
    rw [isPow, allocbytes, hdrPadding_eq lower upper, add_eq noWrap]
  rw [total]
  exact ⟨j, isPow, lower, upper, (bucketFor_le_iff noWrap).mp (le_refl _),
    (bucketFor_le_iff noWrap).mpr fits⟩

theorem place_sound (memory : Memory) (who : Memwho) {nbytes j bucket s : Nat} (lower : 4 ≤ j)
    (upper : j ≤ 31) (room : nbytes + 2 ^ j ≤ 2 ^ (bucket + minShift)) (index : bucket ≤ 58)
    (aligned : 2 ^ (bucket + minShift) ∣ s) (fits : s + 2 ^ (bucket + minShift) + pageSize ≤ 2 ^ 64) :
    userPointer s (2 ^ j) = s + 2 ^ j ∧ sub (s + 2 ^ j) s = 2 ^ j ∧
    sub (s + 2 ^ j) hdrSize = s + 2 ^ j - hdrSize ∧
    Alloc.Sound (storeHdr memory (s + 2 ^ j - hdrSize)
        { alignpad := 2 ^ j, magic := memMagic, index := bucket, who := who.code })
      { ptr := s + 2 ^ j, nbytes := nbytes, align := 2 ^ j, who := who,
        piece := { start := s, bucket := bucket } } := by
  obtain ⟨atLeast, atMost⟩ := align_bounds lower upper
  have page : pageSize = 2 ^ 12 := rfl
  have narrow : j ≤ bucket + minShift :=
    (Nat.pow_le_pow_iff_right (by decide)).mp (le_trans (Nat.le_add_left _ _) room)
  have divides : 2 ^ j ∣ s := (pow_dvd_pow 2 narrow).trans aligned
  refine ⟨userPointer_eq lower upper divides (by omega), ?_,
    sub_eq (by unfold hdrSize; omega) (by omega), ?_⟩
  · rw [sub_eq (by omega) (by omega), Nat.add_sub_cancel_left]
  refine ⟨?_, ?_, Nat.dvd_add divides (Nat.dvd_refl _), ?_, ?_⟩
  · dsimp only [hdrSize]
    omega
  · dsimp only
    omega
  · dsimp only
    omega
  · dsimp only [Alloc.hdr]
    rw [Nat.add_sub_cancel_left]
    apply loadHdr_storeHdr
    · dsimp only
      omega
    · exact (by decide : memMagic < 2 ^ 16)
    · dsimp only
      omega
    · exact who.code_lt

namespace MemInv
variable {sys : MemSystem} {who : Memwho} {a : Alloc} {addr : Nat}
  {free : Fin localBuckets → List Nat}
variable (inv : MemInv sys)
include inv

theorem memalloc_step {nbytes align : Nat} (allowed : sys.Admits (.memalloc nbytes align who)) :
    let bucket := bucketFor (allocbytes nbytes (atLeastMinAlign align))
    (sys.step (.memalloc nbytes align who) = .ok sys ∧ ∃ free, StoreInv sys.heap (sys.store free) ∧
      ∀ small : bucket < localBuckets,
        free ⟨bucket, small⟩ = [] ∧ sys.heap.pages.freeBytes (sys.store free).held = ∅) ∨
    ∃ next a, sys.step (.memalloc nbytes align who) = .ok { sys with
          heap := next
          live := a :: sys.live
          cores := sys.heap.coresAfter bucket a.piece.start sys.cores } ∧
        a.piece.bucket = bucket ∧ next.pages.managed = sys.heap.pages.managed ∧
        Untouched (sys.live.map Alloc.piece) sys.heap next ∧
        MemInv { sys with
          heap := next
          live := a :: sys.live
          cores := sys.heap.coresAfter bucket a.piece.start sys.cores } := by
  intro bucket
  obtain ⟨pow, alignLe, noWrap, fits⟩ := allowed
  obtain ⟨j, isPow, lower, upper, room, index⟩ := request_sizes pow alignLe noWrap fits
  obtain ⟨free, holds⟩ := inv.represented
  have bucketEq : bucketFor (allocbytes nbytes (2 ^ j)) = bucket := by
    rw [← isPow]
  have orderLt : pageOrder bucket < freelistLevels := by
    have le : bucket ≤ 58 := index
    simp only [pageOrder, freelistLevels, pageShift, minShift]
    omega
  have asserted : decide (2 ^ j ≤ 2 ^ 31) = true := decide_eq_true (align_bounds lower upper).2
  rcases holds.takeBlock_spec orderLt with ⟨run, full⟩ | ⟨s, mid, store, run, took⟩
  · left
    refine ⟨?_, free, holds, full⟩
    have failed : sys.heap.bmkMemalloc nbytes align who = .ok (0, sys.heap) := by
      simp only [bmkMemalloc, pow, ne_eq, not_true_eq_false, if_false, isPow,
        bmkAssert_bind _ asserted, bucketEq, run, ok_bind, if_true]
      rfl
    simp only [MemSystem.step, failed, if_true]
  · right
    have mem : { start := s, bucket := bucket } ∈ store.live := by
      rw [took.live]
      exact List.mem_cons_self
    obtain ⟨c, -, -, aligned⟩ := took.inv.live_held mem
    obtain ⟨pointer, pad, hdrAddr, sound⟩ := place_sound mid.lists.memory who lower upper room
      index aligned (took.inv.live_managed mem).2
    generalize memoryEq : storeHdr mid.lists.memory (s + 2 ^ j - hdrSize)
      { alignpad := 2 ^ j, magic := memMagic, index := bucket, who := who.code } = memory at sound
    have succeeded : sys.heap.bmkMemalloc nbytes align who =
        .ok (s + 2 ^ j, { mid with lists := { mid.lists with memory := memory } }) := by
      simp only [bmkMemalloc, pow, ne_eq, not_true_eq_false, if_false, isPow,
        bmkAssert_bind _ asserted, bucketEq, run, ok_bind, if_neg took.nonzero, pointer, pad,
        hdrAddr, memoryEq]
      rfl
    have taken : sys.heap.blockTaken bucket = s := by
      rw [blockTaken, run]
    have nonzero : s + 2 ^ j ≠ 0 := by
      have := took.nonzero
      omega
    have outside : ∀ x, x ∉ ({ start := s, bucket := bucket } : Piece).bytes →
        memory x = mid.lists.memory x := by
      intro x notIn
      rw [← memoryEq]
      apply storeHdr_apart
      by_contra inside
      have room := sound.lower
      dsimp only at room
      exact notIn (sound.hdr_mem (by dsimp only; omega) (by dsimp only; omega))
    have untouched : Untouched (sys.live.map Alloc.piece) sys.heap
        { mid with lists := { mid.lists with memory := memory } } := by
      intro p memP x inP
      have apart := took.inv.live_apart
      rw [took.live] at apart
      have notIn := fun inNew =>
        Set.disjoint_left.mp ((List.pairwise_cons.mp apart).1 p memP) inNew inP
      exact (outside x notIn).trans (took.untouched p memP x inP)
    refine ⟨{ mid with lists := { mid.lists with memory := memory } },
      { ptr := s + 2 ^ j, nbytes := nbytes, align := 2 ^ j, who := who,
        piece := { start := s, bucket := bucket } }, ?_, rfl, took.managed, untouched, ?_, ?_⟩
    · simp only [MemSystem.step, succeeded, if_neg nonzero, isPow, bucketEq, taken]
    · refine ⟨store.free, ?_⟩
      have same : store = MemSystem.store { sys with
          live := { ptr := s + 2 ^ j, nbytes := nbytes, align := 2 ^ j, who := who,
                    piece := { start := s, bucket := bucket } } :: sys.live
          cores := sys.heap.coresAfter bucket s sys.cores } store.free := by
        have live := took.live
        have cores := took.cores
        have others := took.others
        obtain ⟨_, _, _, _⟩ := store
        dsimp only at live cores others
        subst live cores others
        rfl
      have kept : ∀ b x, InCells (store.free b) x → memory x = mid.lists.memory x :=
        fun b x inCells => outside x fun inP => took.inv.live_not_inCells mem inP b inCells
      have holds := took.inv.scribble kept
      rw [same] at holds
      exact holds
    · intro a memA
      rcases List.mem_cons.mp memA with new | old
      · rw [new]
        exact sound
      · apply (inv.sound a old).congr
        intro x lower upper
        exact untouched a.piece (List.mem_map_of_mem old) x ((inv.sound a old).hdr_mem lower upper)

theorem live_managed (mem : a ∈ sys.live) :
    a.piece.start ≠ 0 ∧ a.piece.start + 2 ^ (a.piece.bucket + minShift) + pageSize ≤ 2 ^ 64 := by
  obtain ⟨free, holds⟩ := inv.represented
  exact holds.live_managed (List.mem_map_of_mem mem)

theorem live_apart : sys.live.Pairwise fun a c => Disjoint a.piece.bytes c.piece.bytes := by
  obtain ⟨free, holds⟩ := inv.represented
  have apart := holds.live_apart
  rwa [MemSystem.store, List.pairwise_map] at apart

theorem recovers (mem : a ∈ sys.live) :
    sys.heap.hdrOf a.ptr = a.hdr ∧ sys.heap.origp a.ptr = a.piece.start := by
  have sound := inv.sound a mem
  have start := sound.lower
  have ends := sound.upper
  have fits := (inv.live_managed mem).2
  rw [pageSize_eq] at fits
  have header : sys.heap.hdrOf a.ptr = a.hdr := by
    rw [hdrOf, sub_eq (by omega) (by omega)]
    exact sound.header
  refine ⟨header, ?_⟩
  have back : a.hdr.alignpad = a.ptr - a.piece.start := rfl
  rw [origp, header, back, sub_eq (by omega) (by omega)]
  omega

theorem memfree_step {cp : Nat} (allowed : sys.Admits (.memfree cp who)) :
    ∃ next a rest, sys.heap.bmkMemfree cp who = .ok next ∧
      sys.step (.memfree cp who) = .ok { sys with heap := next, live := rest } ∧
      a.ptr = cp ∧ sys.live.Perm (a :: rest) ∧ Untouched (rest.map Alloc.piece) sys.heap next ∧
      MemInv { sys with heap := next, live := rest } := by
  obtain ⟨found, memFound, isFound⟩ := allowed
  obtain ⟨a, before, after, -, isA, split, erased⟩ :=
    List.exists_of_eraseP (p := fun a : Alloc => a.ptr = cp ∧ a.who = who) memFound
      (by simpa using isFound)
  obtain ⟨isPtr, isWho⟩ : a.ptr = cp ∧ a.who = who := by simpa using isA
  subst isPtr
  subst isWho
  have mem : a ∈ sys.live := by
    rw [split]
    simp
  have perm : sys.live.Perm (a :: (before ++ after)) := by
    rw [split]
    exact List.perm_middle
  obtain ⟨header, origin⟩ := inv.recovers mem
  have nonzero : a.ptr ≠ 0 := by
    have := (inv.sound a mem).lower
    unfold hdrSize at this
    omega
  obtain ⟨free, holds⟩ := inv.represented
  have memPiece : a.piece ∈ (sys.store free).live := List.mem_map_of_mem mem
  obtain ⟨next, free', run, holds', untouched⟩ := holds.giveBlock_spec memPiece
  have rest : ((sys.store free).live.erase a.piece).Perm ((before ++ after).map Alloc.piece) := by
    have pieces := (perm.map Alloc.piece).erase a.piece
    rwa [List.map_cons, List.erase_cons_head] at pieces
  have freed : sys.heap.bmkMemfree a.ptr a.who = .ok next := by
    simp only [bmkMemfree, if_neg nonzero, header, origin, Alloc.hdr, ne_eq,
      not_true_eq_false, if_false]
    exact run
  have kept : Untouched ((before ++ after).map Alloc.piece) sys.heap next := by
    intro p memP x inP
    exact untouched p (rest.mem_iff.mpr memP) x inP
  refine ⟨next, a, before ++ after, freed, ?_, rfl, perm, kept, ⟨free', ?_⟩, ?_⟩
  · simp only [MemSystem.step, freed, erased]
  · exact holds'.reorder rest
  · intro c memC
    have memLive : c ∈ sys.live := perm.mem_iff.mpr (List.mem_cons_of_mem a memC)
    apply (inv.sound c memLive).congr
    intro x lower upper
    exact kept c.piece (List.mem_map_of_mem memC) x ((inv.sound c memLive).hdr_mem lower upper)

theorem store_apart_from (allowed : sys.Requested addr ∨ sys.HeldElsewhere addr)
    (holds : StoreInv sys.heap (sys.store free)) :
    (∀ b, ¬ InCells (free b) addr) ∧ ∀ a ∈ sys.live, ¬ (a.ptr - hdrSize ≤ addr ∧ addr < a.ptr) := by
  rcases allowed with ⟨owner, memOwner, lower, upper⟩ | ⟨c, memC, inC⟩
  · have sound := inv.sound owner memOwner
    have inPiece : addr ∈ owner.piece.bytes := by
      have := sound.lower
      have := sound.upper
      rw [Piece.bytes, mem_block]
      omega
    constructor
    · exact holds.live_not_inCells (List.mem_map_of_mem memOwner) inPiece
    · intro a mem inHeader
      have inA := (inv.sound a mem).hdr_mem inHeader.1 inHeader.2
      have apart := inv.live_apart
      by_cases same : a = owner
      · subst same
        omega
      · have disjoint := disjoint_of_ne (f := fun a : Alloc => a.piece.bytes) apart mem memOwner same
        exact Set.disjoint_left.mp disjoint inA inPiece
  · constructor
    · intro b inCells
      obtain ⟨f, memF, inF⟩ := inCells_block b inCells
      obtain ⟨core, memCore, ofBucket, inUnits⟩ := holds.in_core (List.mem_append_right _ memF)
      subst ofBucket
      have apart := holds.others_apart memC
        (List.mem_append_right _ (List.mem_map_of_mem memCore))
      exact Set.disjoint_left.mp apart (CorePage.unit_inside inUnits inF) inC
    · intro a mem inHeader
      have inA := (inv.sound a mem).hdr_mem inHeader.1 inHeader.2
      obtain ⟨d, own, inside, -⟩ := holds.live_own (List.mem_map_of_mem mem)
      exact Set.disjoint_left.mp (holds.others_apart memC own) (inside inA) inC

theorem rewrite (memory : Memory)
    (allowed : ∀ x, memory x ≠ sys.heap.lists.memory x → sys.Requested x ∨ sys.HeldElsewhere x) :
    MemInv { sys with heap := { sys.heap with lists := { sys.heap.lists with memory := memory } } } := by
  obtain ⟨free, holds⟩ := inv.represented
  refine ⟨⟨free, ?_⟩, ?_⟩
  · apply holds.scribble
    intro b x inCells
    by_contra differs
    exact (inv.store_apart_from (allowed x differs) holds).1 b inCells
  · intro a mem
    apply (inv.sound a mem).congr
    intro x lower upper
    by_contra differs
    exact (inv.store_apart_from (allowed x differs) holds).2 a mem ⟨lower, upper⟩

theorem store_step (value : UInt8) (allowed : sys.Requested addr ∨ sys.HeldElsewhere addr) :
    ∃ next, sys.step (.store addr value) = .ok next ∧ MemInv next := by
  refine ⟨_, rfl, inv.rewrite _ ?_⟩
  intro x differs
  by_cases same : x = addr
  · rw [same]
    exact allowed
  · exact absurd (Function.update_of_ne same ..) differs

theorem withOthers {pages : PageHeap} {others : List Block}
    (holds : StoreInv sys.heap (sys.store free))
    (got : HeapInv pages ({ sys.store free with others := others } : Store).held) :
    MemInv { sys with heap := { sys.heap with pages := pages }, others := others } :=
  ⟨⟨free, got, holds.linked, holds.tiles, holds.counted⟩, inv.sound⟩

theorem holding {next : MemSystem} {op : MemOp} {x : Nat} {v : UInt8} (allowed : sys.Admits op)
    (spares : Spares a x op) (inside : x ∈ a.piece.bytes) (held : Holding a x v sys)
    (stepped : sys.step op = .ok next) : Holding a x v next := by
  obtain ⟨mem, rfl⟩ := held
  cases op with
  | memalloc nbytes align who =>
    rcases inv.memalloc_step allowed with ⟨failed, -⟩ | ⟨after, b, ran, -, -, untouched, -⟩
    · cases failed.symm.trans stepped
      exact ⟨mem, rfl⟩
    · cases ran.symm.trans stepped
      exact ⟨List.mem_cons_of_mem b mem, untouched _ (List.mem_map_of_mem mem) x inside⟩
  | memfree cp who =>
    obtain ⟨after, b, rest, -, ran, is, perm, untouched, -⟩ := inv.memfree_step allowed
    cases ran.symm.trans stepped
    have left : a ∈ rest := by
      rcases List.mem_cons.mp (perm.mem_iff.mp mem) with rfl | left
      · exact absurd is.symm spares
      · exact left
    exact ⟨left, untouched _ (List.mem_map_of_mem left) x inside⟩
  | store addr value =>
    cases stepped
    exact ⟨mem, Function.update_of_ne (Ne.symm spares) ..⟩
  | pgallocAlign order align =>
    simp only [MemSystem.step] at stepped
    split at stepped
    · cases stepped
    · split at stepped <;> cases stepped <;> exact ⟨mem, rfl⟩
  | pgfree pointer order =>
    simp only [MemSystem.step] at stepped
    split at stepped <;> cases stepped
    exact ⟨mem, rfl⟩

end MemInv

theorem Store.held_cons (store : Store) (c : Block) :
    (c :: store.held).Perm ({ store with others := c :: store.others } : Store).held := by
  have inner : (c :: (store.cores.map CorePage.block ++ store.others)).Perm
      (store.cores.map CorePage.block ++ c :: store.others) := List.perm_middle.symm
  exact List.perm_middle.symm.trans (inner.append_left _)

theorem Store.held_erase (store : Store) {c : Block} (mem : c ∈ store.others) :
    store.held.Perm (c :: ({ store with others := store.others.erase c } : Store).held) := by
  have first := ((List.perm_cons_erase mem).append_left
    (store.cores.map CorePage.block)).append_left ((largeOf store.live).map Piece.pageBlock)
  exact first.trans (Store.held_cons { store with others := store.others.erase c } c).symm

namespace MemSystem

theorem step_inv (sys : MemSystem) (op : MemOp) (inv : MemInv sys) (allowed : sys.Admits op) :
    ∃ next, sys.step op = .ok next ∧ MemInv next := by
  cases op with
  | memalloc nbytes align who =>
    rcases inv.memalloc_step allowed with ⟨failed, -⟩ | ⟨next, a, ran, -, -, -, inv'⟩
    · exact ⟨sys, failed, inv⟩
    · exact ⟨_, ran, inv'⟩
  | memfree cp who =>
    obtain ⟨next, a, rest, -, ran, -, -, -, inv'⟩ := inv.memfree_step allowed
    exact ⟨_, ran, inv'⟩
  | store addr value => exact inv.store_step value allowed
  | pgallocAlign order align =>
    obtain ⟨orderLt, alignGe, alignPow⟩ := allowed
    obtain ⟨free, holds⟩ := inv.represented
    rcases holds.pages.bmkPgallocAlign_spec orderLt alignGe alignPow with
      ⟨ran, -⟩ | ⟨p, pages, ran, nonzero, -, got, -, -⟩
    · refine ⟨sys, ?_, inv⟩
      simp only [step, ran, if_true]
    · refine ⟨_, ?_, inv.withOthers holds (got.perm (Store.held_cons _ _))⟩
      simp only [step, ran, if_neg nonzero]
      rfl
  | pgfree pointer order =>
    obtain ⟨free, holds⟩ := inv.represented
    have pages := holds.pages.perm (Store.held_erase (sys.store free) allowed)
    obtain ⟨next, ran, got, -, -⟩ := pages.bmkPgfree_spec List.mem_cons_self
    rw [List.erase_cons_head] at got
    refine ⟨_, ?_, inv.withOthers holds got⟩
    simp only [step, ran]
    rfl

theorem start_inv {pages : PageHeap} (loaded : HeapInv pages []) (memory : Memory) (base : Nat) :
    MemInv (start (bss pages memory base)) := by
  refine ⟨⟨fun _ => [], loaded, ?_, ?_, ?_⟩, ?_⟩
  · intro b
    rfl
  · intro b
    exact List.Perm.refl _
  · intro b
    rfl
  · intro a mem
    cases mem

end MemSystem

/-! ## The bucket heap -/

/-- The allocator's state, with `free b` the blocks on `freebuckets[b]`. -/
structure BucketHeap (sys : MemSystem) (free : Fin localBuckets → List Nat) : Prop where
  linked : ∀ b, Chain sys.heap.lists.memory (sys.heap.heads.addr b) (sys.heap.lists.first b) (free b)
  /-- The blocks of live allocations meet neither each other nor a free block. -/
  liveApart : sys.live.Pairwise fun a c => Disjoint a.piece.bytes c.piece.bytes
  freeApart : ∀ a ∈ sys.live, ∀ b, ∀ f ∈ free b, Disjoint a.piece.bytes (block f (b + minShift))
  /-- The live and the free blocks of a bucket tile its pages. -/
  tilesApart : ∀ b : Fin localBuckets, (startsOf (sys.live.map Alloc.piece) b ++ free b).Pairwise
    fun s t => Disjoint (block s (b + minShift)) (block t (b + minShift))
  tilesAligned : ∀ b : Fin localBuckets, ∀ s ∈ startsOf (sys.live.map Alloc.piece) b ++ free b,
    2 ^ (b + minShift) ∣ s
  tilesCover : ∀ (b : Fin localBuckets) (x : Nat),
    (∃ s ∈ startsOf (sys.live.map Alloc.piece) b ++ free b, x ∈ block s (b + minShift)) ↔
      ∃ core ∈ sys.cores, core.bucket = b ∧ x ∈ core.block.bytes
  requestedInside : ∀ a ∈ sys.live, Set.Ico a.ptr (a.ptr + a.nbytes) ⊆ a.piece.bytes
  headerInside : ∀ a ∈ sys.live, Set.Ico (a.ptr - hdrSize) a.ptr ⊆ a.piece.bytes
  recovered : ∀ a ∈ sys.live, sys.heap.origp a.ptr = a.piece.start ∧
    (sys.heap.hdrOf a.ptr).index = a.piece.bucket
  counted : ∀ b : Fin localBuckets,
    (sys.heap.nmalloc b).toNat = (startsOf (sys.live.map Alloc.piece) b).length % 2 ^ 32

namespace StoreInv
variable {heap : MemHeap} {store : Store}

theorem tiles_cover (inv : StoreInv heap store) (b : Fin localBuckets) (x : Nat) :
    (∃ s ∈ startsOf store.live b ++ store.free b, x ∈ block s (b + minShift)) ↔
      ∃ core ∈ store.cores, core.bucket = b ∧ x ∈ core.block.bytes := by
  constructor
  · intro h
    obtain ⟨s, mem, inUnit⟩ := h
    obtain ⟨core, memCore, ofBucket, inUnits⟩ := inv.in_core mem
    subst ofBucket
    exact ⟨core, memCore, rfl, CorePage.unit_inside inUnits inUnit⟩
  · intro h
    obtain ⟨core, memCore, ofBucket, inPage⟩ := h
    subst ofBucket
    have inRun : core.page ≤ x ∧ x < core.page + pageSize / 2 ^ (core.bucket + minShift) *
        2 ^ (core.bucket + minShift) := by
      rw [units_fill_page]
      exact inPage
    obtain ⟨s, inUnits, inUnit⟩ := mem_block_units.mpr inRun
    refine ⟨s, (inv.tiles core.bucket).mem_iff.mpr ?_, inUnit⟩
    exact List.mem_flatMap.mpr ⟨core, List.mem_filter.mpr ⟨memCore, by simp⟩, inUnits⟩

end StoreInv

theorem MemInv.bucketHeap {sys : MemSystem} (inv : MemInv sys) : ∃ free, BucketHeap sys free := by
  obtain ⟨free, holds⟩ := inv.represented
  refine ⟨free, ?_⟩
  exact
    { linked := holds.linked
      liveApart := inv.live_apart
      freeApart := fun a mem b f memF => holds.live_free_apart (List.mem_map_of_mem mem) memF
      tilesApart := holds.bucket_apart
      tilesAligned := fun b s mem => holds.tiles_aligned mem
      tilesCover := holds.tiles_cover
      requestedInside := by
        intro a mem x inRequested
        have lower := (inv.sound a mem).lower
        have upper := (inv.sound a mem).upper
        have bounds := Set.mem_Ico.mp inRequested
        rw [Piece.bytes, mem_block]
        omega
      headerInside := fun a mem x inHeader => (inv.sound a mem).hdr_mem inHeader.1 inHeader.2
      recovered := by
        intro a mem
        obtain ⟨header, origin⟩ := inv.recovers mem
        exact ⟨origin, congrArg MemallocHdr.index header⟩
      counted := by
        intro b
        rw [holds.counted b, BitVec.toNat_ofNat]
        rfl }

/-- A bucket's live blocks fit the 32 bits of its counter. -/
def Countable (sys : MemSystem) : Prop :=
  ∀ b : Fin localBuckets, (startsOf (sys.live.map Alloc.piece) b).length < 2 ^ 32

theorem BucketHeap.exact_iff {sys : MemSystem} {free : Fin localBuckets → List Nat}
    (heap : BucketHeap sys free) :
    (∀ b : Fin localBuckets, (sys.heap.nmalloc b).toNat =
      (startsOf (sys.live.map Alloc.piece) b).length) ↔ Countable sys := by
  constructor
  · intro exact b
    rw [← exact b]
    exact (sys.heap.nmalloc b).isLt
  · intro countable b
    rw [heap.counted b, Nat.mod_eq_of_lt (countable b)]

/-- Whatever the memory held and wherever the linker put the
list heads, every admitted history after loading returns, in a state where live and free blocks
tile the pages of their buckets and every header leads back to its block. There `nmalloc[]` is the
number of live blocks if and only if no bucket has `2 ^ 32` of them. -/
theorem memalloc_history_tiles (pages : PageHeap) (fresh : pages.called = false) (memory : Memory)
    (base min max : Nat) (holds : HoldsBitmap min max) :
    ∃ loaded, pages.bmkPgallocLoadmem min max = .ok loaded ∧
      ∀ ops, Admissible MemSystem.Admits MemSystem.step ops
          (MemSystem.start (MemHeap.bss loaded memory base)) →
        ∃ final, run MemSystem.step ops (MemSystem.start (MemHeap.bss loaded memory base)) =
            .ok final ∧ (∃ free, BucketHeap final free) ∧
          ((∀ b : Fin localBuckets, (final.heap.nmalloc b).toNat =
            (startsOf (final.live.map Alloc.piece) b).length) ↔ Countable final) := by
  obtain ⟨loaded, loadRun, inv, -, -, -⟩ := pages.bmkPgallocLoadmem_spec fresh holds
  refine ⟨loaded, loadRun, ?_⟩
  intro ops allowed
  obtain ⟨final, ran, finalInv⟩ := run_invariant step_inv ops _
    (start_inv inv memory base) allowed
  obtain ⟨free, heap⟩ := finalInv.bucketHeap
  exact ⟨final, ran, ⟨free, heap⟩, heap.exact_iff⟩

theorem memalloc_history_tiles_thirty_pages :
    ∃ loaded final, PageHeap.boot.bmkPgallocLoadmem 0x1000 0x20000 = .ok loaded ∧
      run MemSystem.step [.memalloc 1500 0 .user, .memalloc 100 4096 .rumpkern, .store 0x2010 7,
        .memfree 0x2010 .user, .memfree 0x5000 .rumpkern]
        (MemSystem.start (MemHeap.bss loaded (fun _ => 0) 0x100000)) = .ok final ∧
      (∃ free, BucketHeap final free) ∧
      ((∀ b : Fin localBuckets, (final.heap.nmalloc b).toNat =
        (startsOf (final.live.map Alloc.piece) b).length) ↔ Countable final) := by
  obtain ⟨loaded, loadRun, history⟩ := memalloc_history_tiles PageHeap.boot rfl (fun _ => 0)
    0x100000 0x1000 0x20000 (by decide)
  have allowed : ∀ heap ∈ (PageHeap.boot.bmkPgallocLoadmem 0x1000 0x20000).toOption,
      Admissible MemSystem.Admits MemSystem.step [.memalloc 1500 0 .user,
        .memalloc 100 4096 .rumpkern, .store 0x2010 7, .memfree 0x2010 .user,
        .memfree 0x5000 .rumpkern]
        (start (bss heap (fun _ => 0) 0x100000)) := by
    decide +kernel
  obtain ⟨final, ran, tiles⟩ := history _ (allowed loaded (by rw [loadRun]; rfl))
  exact ⟨loaded, final, loadRun, ran, tiles⟩

/-- A live block keeps a byte until the block is freed or a caller stores into the byte. -/
def KeepsBytes (start : MemSystem) : Prop :=
  ∀ before, Admissible Admits step before start →
    Throughout (fun sys => ∀ a ∈ sys.live, ∀ x ∈ a.piece.bytes, ∀ ops,
      Admissible (fun s op => s.Admits op ∧ Spares a x op) step ops sys →
        Throughout (Holding a x (sys.heap.lists.memory x)) step ops sys) step before start

theorem live_bytes_kept (pages : PageHeap) (fresh : pages.called = false) (memory : Memory)
    (base min max : Nat) (holds : HoldsBitmap min max) :
    ∃ loaded, pages.bmkPgallocLoadmem min max = .ok loaded ∧
      KeepsBytes (start (bss loaded memory base)) := by
  obtain ⟨loaded, loadRun, inv, -, -, -⟩ := pages.bmkPgallocLoadmem_spec fresh holds
  refine ⟨loaded, loadRun, fun before allowed => ?_⟩
  refine throughout_of_invariant MemInv ?_ step_inv before _ (start_inv inv memory base) allowed
  intro sys inv a mem x inside ops spared
  refine throughout_of_invariant (fun s => MemInv s ∧ Holding a x (sys.heap.lists.memory x) s)
    (fun _ held => held.2) ?_ ops sys ⟨inv, mem, rfl⟩ spared
  rintro s op ⟨inv, held⟩ ⟨ok, spares⟩
  obtain ⟨next, stepped, after⟩ := step_inv s op inv ok
  exact ⟨next, stepped, after, inv.holding ok spares inside held stepped⟩

/-- A block that is written to, and what others do after that. -/
def writtenBlock : Alloc :=
  { ptr := 0x2010, nbytes := 1500, align := 16, who := .user, piece := { start := 0x2000, bucket := 6 } }

def written : List MemOp := [.memalloc 1500 0 .user, .store 0x2010 7]

def afterwards : List MemOp :=
  [.memalloc 100 4096 .rumpkern, .pgallocAlign 0 4096, .memfree 0x5000 .rumpkern, .store 0x2011 8,
    .memalloc 4 0 .user]

theorem live_bytes_kept_thirty_pages :
    ∃ loaded mid final, PageHeap.boot.bmkPgallocLoadmem 0x1000 0x20000 = .ok loaded ∧
      run step written (start (bss loaded (fun _ => 0) 0x100000)) = .ok mid ∧
      run step afterwards mid = .ok final ∧ Holding writtenBlock 0x2010 7 final := by
  obtain ⟨loaded, loadRun, keeps⟩ := live_bytes_kept PageHeap.boot rfl (fun _ => 0) 0x100000
    0x1000 0x20000 (by decide)
  have allowed : ∀ heap ∈ (PageHeap.boot.bmkPgallocLoadmem 0x1000 0x20000).toOption,
      Admissible Admits step written (start (bss heap (fun _ => 0) 0x100000)) ∧
        ∀ mid ∈ (run step written (start (bss heap (fun _ => 0) 0x100000))).toOption,
          writtenBlock ∈ mid.live ∧ mid.heap.lists.memory 0x2010 = 7 ∧
            Admissible (fun s op => s.Admits op ∧ Spares writtenBlock 0x2010 op) step
              afterwards mid := by
    decide +kernel
  obtain ⟨first, second⟩ := allowed loaded (by rw [loadRun]; rfl)
  obtain ⟨mid, ran, kept⟩ := (keeps written first).ends
  obtain ⟨mem, value, later⟩ := second mid (by rw [ran]; rfl)
  have inside : 0x2010 ∈ writtenBlock.piece.bytes := by
    rw [Piece.bytes, mem_block]
    decide
  obtain ⟨final, further, holding⟩ := (kept _ mem _ inside afterwards later).ends
  rw [value] at holding
  exact ⟨loaded, mid, final, loadRun, ran, further, holding⟩

/-! ## The counter wraps

`nmalloc[]` has 32 bits. Smallest blocks until there are `2 ^ 32` of them fit in any heap of 128
gigabytes. -/

def smallest : Fin localBuckets := ⟨0, by decide⟩

/-- Nothing but `count` blocks of the smallest bucket. -/
structure Filled (lo hi count : Nat) (sys : MemSystem) : Prop where
  inv : MemInv sys
  length : sys.live.length = count
  buckets : ∀ a ∈ sys.live, a.piece.bucket = 0
  pages : ∀ core ∈ sys.cores, core.bucket = smallest
  others : sys.others = []
  managed : sys.heap.pages.managed = Set.Ico lo hi

namespace Filled
variable {lo hi count : Nat} {sys : MemSystem}

theorem starts_length (filled : Filled lo hi count sys) :
    (startsOf (sys.live.map Alloc.piece) 0).length = count := by
  have all : (sys.live.map Alloc.piece).filter (fun p => p.bucket = 0) =
      sys.live.map Alloc.piece := by
    rw [List.filter_eq_self]
    intro p mem
    obtain ⟨a, memA, isPiece⟩ := List.mem_map.mp mem
    rw [← isPiece]
    simpa using filled.buckets a memA
  rw [startsOf, all, List.length_map, List.length_map, filled.length]

theorem exhausted (filled : Filled lo hi count sys) {free : Fin localBuckets → List Nat}
    (holds : StoreInv sys.heap (sys.store free)) (empty : free smallest = [])
    (full : sys.heap.pages.freeBytes (sys.store free).held = ∅) : count * 2 ^ 5 = hi - lo := by
  have noLarge : largeOf (sys.live.map Alloc.piece) = [] := by
    rw [largeOf, List.filter_eq_nil_iff]
    intro p mem
    obtain ⟨a, memA, isPiece⟩ := List.mem_map.mp mem
    rw [← isPiece, filled.buckets a memA]
    decide
  have held : (sys.store free).held = sys.cores.map CorePage.block := by
    simp only [Store.held, MemSystem.store, noLarge, filled.others, List.map_nil, List.nil_append,
      List.append_nil]
  have cover : ∀ x, x ∈ Set.Ico lo hi ↔ ∃ c ∈ (sys.store free).held, x ∈ c.bytes := by
    intro x
    rw [← filled.managed]
    constructor
    · intro mem
      by_contra notLive
      exact Set.eq_empty_iff_forall_notMem.mp full x ⟨mem, notLive⟩
    · intro h
      obtain ⟨c, memC, inC⟩ := h
      exact holds.pages.liveManaged c memC inC
  have sizes := sum_sizes_eq Block.addr (fun c => c.order + pageShift) holds.pages.liveApart cover
  have whole : (sys.cores.map fun _ => 2 ^ pageShift).sum = hi - lo := by
    rw [← sizes, held, List.map_map]
    rfl
  have pagesOf : coresOf sys.cores smallest = sys.cores := by
    rw [coresOf, List.filter_eq_self]
    intro core mem
    simpa using filled.pages core mem
  have unitsOf : sys.cores.map (fun core => core.units.length) = sys.cores.map fun _ => 2 ^ 7 := by
    apply List.map_congr_left
    intro core mem
    rw [CorePage.units, length_units, filled.pages core mem]
    rfl
  have tiles : (startsOf (sys.live.map Alloc.piece) 0).length =
      (sys.cores.map fun core => core.units.length).sum := by
    have lengths := (holds.tiles smallest).length_eq
    have emptyStore : (sys.store free).free smallest = [] := empty
    rw [emptyStore, List.append_nil, List.length_flatMap] at lengths
    rw [← pagesOf]
    exact lengths
  rw [filled.starts_length, unitsOf, List.map_const', List.sum_replicate_nat] at tiles
  rw [List.map_const', List.sum_replicate_nat] at whole
  rw [← whole, tiles, pageShift]
  ring

theorem step (filled : Filled lo hi count sys) (room : count * 2 ^ 5 < hi - lo) :
    ∃ next, sys.step (.memalloc 0 0 .user) = .ok next ∧ Filled lo hi (count + 1) next := by
  have allowed : sys.Admits (.memalloc 0 0 .user) := by
    refine ⟨by decide, by decide, by decide, by decide⟩
  have bucket : bucketFor (allocbytes 0 (atLeastMinAlign 0)) = 0 := by decide
  have result := filled.inv.memalloc_step allowed
  simp only [bucket] at result
  rcases result with ⟨-, free, holds, exhausted⟩ | ⟨next, a, ran, ofBucket, managed, -, inv⟩
  · obtain ⟨empty, full⟩ := exhausted (by decide)
    have := filled.exhausted holds empty full
    omega
  · refine ⟨_, ran, inv, ?_, ?_, ?_, filled.others, managed.trans filled.managed⟩
    · rw [List.length_cons, filled.length]
    · intro c mem
      rcases List.mem_cons.mp mem with new | old
      · rw [new, ofBucket]
      · exact filled.buckets c old
    · intro core mem
      have small : 0 < localBuckets := by decide
      simp only [coresAfter, small, dite_true] at mem
      split at mem
      · rcases List.mem_cons.mp mem with new | old
        · rw [new]
          rfl
        · exact filled.pages core old
      · exact filled.pages core mem

theorem leads {sys : MemSystem} (filled : Filled lo hi 0 sys) {count : Nat}
    (room : count * 2 ^ 5 ≤ hi - lo) :
    ∃ final, Leads MemSystem.Admits MemSystem.step (List.replicate count (.memalloc 0 0 .user)) sys
      final ∧ Filled lo hi count final := by
  have turn : ∀ n sys, n < count → Filled lo hi n sys →
      ∃ next, Leads MemSystem.Admits MemSystem.step [.memalloc 0 0 .user] sys next ∧
        Filled lo hi (n + 1) next := by
    intro n sys less filled
    obtain ⟨next, stepped, after⟩ := filled.step (by omega)
    exact ⟨next, .cons ⟨by decide, by decide, by decide, by decide⟩ stepped .nil, after⟩
  obtain ⟨final, leads, reached⟩ := leads_rounds (Filled lo hi) turn filled count le_rfl
  rw [List.flatMap_def, List.map_const', List.length_range, List.flatten_replicate_singleton] at leads
  exact ⟨final, leads, reached⟩

end Filled

/-- After `2 ^ 32` allocations of nothing, `nmalloc[0]` is zero. -/
theorem nmalloc_wraps :
    ∃ loaded final, PageHeap.boot.bmkPgallocLoadmem 0x1000 (2 ^ 38) = .ok loaded ∧
      Admissible MemSystem.Admits MemSystem.step (List.replicate (2 ^ 32) (.memalloc 0 0 .user))
        (MemSystem.start (MemHeap.bss loaded (fun _ => 0) 0x100000)) ∧
      run MemSystem.step (List.replicate (2 ^ 32) (.memalloc 0 0 .user))
        (MemSystem.start (MemHeap.bss loaded (fun _ => 0) 0x100000)) = .ok final ∧
      (startsOf (final.live.map Alloc.piece) 0).length = 2 ^ 32 ∧ final.heap.nmalloc smallest = 0#32 := by
  obtain ⟨loaded, loadRun, inv, -, lo, hi, -⟩ :=
    PageHeap.boot.bmkPgallocLoadmem_spec rfl (by decide : HoldsBitmap 0x1000 (2 ^ 38))
  have filled : Filled loaded.minpageAddr loaded.maxpageAddr 0
      (start (bss loaded (fun _ => 0) 0x100000)) :=
    { inv := start_inv inv _ _
      length := rfl
      buckets := fun a mem => by cases mem
      pages := fun core mem => by cases mem
      others := rfl
      managed := rfl }
  have room : 2 ^ 32 * 2 ^ 5 ≤ loaded.maxpageAddr - loaded.minpageAddr := by
    rw [lo, hi]
    decide
  obtain ⟨final, ⟨allowed, ran⟩, filledFinal⟩ := filled.leads room
  have length := filledFinal.starts_length
  refine ⟨loaded, final, loadRun, allowed, ran, length, ?_⟩
  obtain ⟨free, holds⟩ := filledFinal.inv.represented
  have counted := holds.counted smallest
  have same : (startsOf (final.store free).live smallest).length = 2 ^ 32 := length
  rw [counted, same]
  decide

end Rumprun.Core.MemoryAllocator
