import Rumprun.Core.BlockStore

/-! # What an operation does to the store

Each operation keeps `StoreInv` and leaves the bytes of the other live blocks alone
(`Untouched`), because every cell it writes lies in a block that was free or is its own. -/

namespace Rumprun.Core.MemoryAllocator
open MachineWord ByteMemory IntrusiveList DyadicBlocks PageAllocator Function MemHeap List

/-! ## One block more -/

section OneMore
variable {p : Piece} {live live' : List Piece} {b : Nat}

theorem startsOf_cons_self (s b : Nat) (live : List Piece) :
    startsOf ({ start := s, bucket := b } :: live) b = s :: startsOf live b := by
  rw [startsOf, filter_cons_of_pos (by simp)]
  rfl

theorem startsOf_cons_ne (ne : p.bucket ≠ b) : startsOf (p :: live) b = startsOf live b := by
  rw [startsOf, filter_cons_of_neg (by simpa using ne)]
  rfl

theorem largeOf_cons_small (small : p.bucket < localBuckets) : largeOf (p :: live) = largeOf live := by
  rw [largeOf, filter_cons_of_neg (by simpa using small)]
  rfl

theorem largeOf_cons_large (large : localBuckets ≤ p.bucket) :
    largeOf (p :: live) = p :: largeOf live := by
  rw [largeOf, filter_cons_of_pos (by simpa using large)]
  rfl

theorem coresOf_cons_self (core : CorePage) (cores : List CorePage) :
    coresOf (core :: cores) core.bucket = core :: coresOf cores core.bucket := by
  rw [coresOf, filter_cons_of_pos (by simp)]
  rfl

theorem coresOf_cons_ne {core : CorePage} {cores : List CorePage} {b : Fin localBuckets}
    (ne : core.bucket ≠ b) : coresOf (core :: cores) b = coresOf cores b := by
  rw [coresOf, filter_cons_of_neg (by simpa using ne)]
  rfl

theorem startsOf_perm (same : live.Perm live') (b : Nat) : (startsOf live b).Perm (startsOf live' b) :=
  (same.filter _).map _

end OneMore

/-! ## Cells -/

theorem apart_of_disjoint {s t k l : Nat} (wideS : 4 ≤ k) (wideT : 4 ≤ l)
    (apart : Disjoint (block s k) (block t l)) : Apart s t := by
  have reachS : 2 ^ 4 ≤ 2 ^ k := Nat.pow_le_pow_right (by decide) wideS
  have reachT : 2 ^ 4 ≤ 2 ^ l := Nat.pow_le_pow_right (by decide) wideT
  by_contra meet
  unfold Apart at meet
  -- the later of the two starts lies in both blocks
  have inS : max s t ∈ block s k := by
    rw [mem_block]
    omega
  have inT : max s t ∈ block t l := by
    rw [mem_block]
    omega
  exact Set.disjoint_left.mp apart inS inT

theorem inCells_block {elms : List Nat} {x : Nat} (b : Nat) (mem : InCells elms x) :
    ∃ f ∈ elms, x ∈ block f (b + minShift) := by
  obtain ⟨f, memF, lower, upper⟩ := mem
  have reach : 2 ^ 4 ≤ 2 ^ (b + minShift) := Nat.pow_le_pow_right (by decide) (by
    unfold minShift
    omega)
  refine ⟨f, memF, ?_⟩
  rw [mem_block]
  omega

/-- The bytes of `live` are the same in both heaps. -/
def Untouched (live : List Piece) (heap next : MemHeap) : Prop :=
  ∀ p ∈ live, ∀ x ∈ p.bytes, next.lists.memory x = heap.lists.memory x

namespace StoreInv
variable {heap : MemHeap} {store : Store} {p : Piece} {x s : Nat} {b : Fin localBuckets}
  {live : List Piece}

section
variable (inv : StoreInv heap store)
include inv

theorem free_cells_apart (b : Fin localBuckets) : (store.free b).Pairwise Apart := by
  apply (pairwise_append.mp (inv.bucket_apart b)).2.1.imp
  intro s t disjoint
  exact apart_of_disjoint (by unfold minShift; omega) (by unfold minShift; omega) disjoint

theorem live_not_inCells (mem : p ∈ store.live) (inP : x ∈ p.bytes) (b : Fin localBuckets) :
    ¬ InCells (store.free b) x := by
  intro inCells
  obtain ⟨f, memF, inF⟩ := inCells_block b inCells
  exact Set.disjoint_left.mp (inv.live_free_apart mem memF) inP inF

theorem cells_ne_apart {c : Fin localBuckets} (ne : b ≠ c) (inB : InCells (store.free b) x) :
    ¬ InCells (store.free c) x := by
  intro inC
  obtain ⟨f, memF, inF⟩ := inCells_block b inB
  obtain ⟨g, memG, inG⟩ := inCells_block c inC
  exact Set.disjoint_left.mp (inv.bucket_ne_apart ne (mem_append_right _ memF)
    (mem_append_right _ memG)) inF inG

theorem reorder (same : store.live.Perm live) : StoreInv heap { store with live := live } where
  pages := inv.pages.perm (((same.filter _).map _).append_right _)
  linked := inv.linked
  tiles := fun b => ((startsOf_perm same b).symm.append_right _).trans (inv.tiles b)
  counted := fun b => (inv.counted b).trans (by rw [(startsOf_perm same b).length_eq])

theorem scribble {memory : Memory}
    (same : ∀ b x, InCells (store.free b) x → memory x = heap.lists.memory x) :
    StoreInv { heap with lists := { heap.lists with memory := memory } } store where
  pages := inv.pages
  linked := fun b => (inv.linked b).congr (same b)
  tiles := inv.tiles
  counted := inv.counted

end

/-! ## The free lists -/

/-- The rule for an operation that concerns one bucket: what it has to show of that bucket, and
that it left the others alone. -/
theorem in_bucket {next : MemHeap} {cores : List CorePage} {elms : List Nat}
    (inv : StoreInv heap store) (b : Fin localBuckets)
    (pages : HeapInv next.pages ({ store with live := live, cores := cores } : Store).held)
    (sameHeads : next.heads = heap.heads)
    (elsewhere : ∀ c, c ≠ b → next.lists.first c = heap.lists.first c ∧
      next.nmalloc c = heap.nmalloc c ∧ startsOf live c = startsOf store.live c ∧
      coresOf cores c = coresOf store.cores c ∧
      ∀ x, InCells (store.free c) x → next.lists.memory x = heap.lists.memory x)
    (linked : Chain next.lists.memory (heap.heads.addr b) (next.lists.first b) elms)
    (tiles : (startsOf live b ++ elms).Perm ((coresOf cores b).flatMap CorePage.units))
    (counted : next.nmalloc b = BitVec.ofNat 32 (startsOf live b).length) :
    StoreInv next { store with
      live := live
      cores := cores
      free := update store.free b elms } := by
  refine ⟨pages, ?_, ?_, ?_⟩
  · intro c
    rw [sameHeads]
    by_cases same : c = b
    · subst same
      simp only [update_self]
      exact linked
    · obtain ⟨first, -, -, -, memory⟩ := elsewhere c same
      simp only [update_of_ne same, first]
      exact (inv.linked c).congr memory
  · intro c
    by_cases same : c = b
    · subst same
      simp only [update_self]
      exact tiles
    · obtain ⟨-, -, starts, pagesOf, -⟩ := elsewhere c same
      simp only [update_of_ne same, starts, pagesOf]
      exact inv.tiles c
  · intro c
    by_cases same : c = b
    · subst same
      exact counted
    · obtain ⟨-, count, starts, -, -⟩ := elsewhere c same
      simp only [count, starts]
      exact inv.counted c

theorem pop {rest : List Nat} (inv : StoreInv heap store) (isFree : store.free b = s :: rest) :
    let next := ({ heap with lists := heap.lists.remove heap.heads s } : MemHeap).countMalloc b
    StoreInv next { store with
      live := { start := s, bucket := b } :: store.live
      free := update store.free b rest } ∧ Untouched store.live heap next := by
  intro next
  have chain := inv.linked b
  have apart := inv.free_cells_apart b
  rw [isFree] at chain apart
  obtain ⟨memory, first, removed, linked, frame⟩ := chain.remove apart
  have lists : next.lists = { memory := memory, first := update heap.lists.first b first } := removed
  have inFree : ∀ x, InCells rest x → InCells (store.free b) x := by
    intro x mem
    obtain ⟨f, memF, bounds⟩ := mem
    exact ⟨f, by rw [isFree]; exact mem_cons_of_mem s memF, bounds⟩
  constructor
  · refine inv.in_bucket b ?_ rfl ?_ ?_ ?_ ?_
    · rw [Store.held, largeOf_cons_small b.isLt]
      exact inv.pages
    · intro c ne
      rw [lists]
      refine ⟨update_of_ne ne .., update_of_ne ne ..,
        startsOf_cons_ne fun eq => ne (Fin.ext eq.symm), rfl, ?_⟩
      intro x inC
      exact frame x fun inRest => inv.cells_ne_apart ne inC (inFree x inRest)
    · rw [lists]
      simp only [update_self]
      exact linked
    · have tiles := inv.tiles b
      rw [isFree] at tiles
      rw [startsOf_cons_self]
      exact perm_middle.symm.trans tiles
    · change update heap.nmalloc b (heap.nmalloc b + 1#32) b = _
      rw [update_self, inv.counted b, startsOf_cons_self, length_cons, BitVec.ofNat_add]
  · intro p mem x inP
    rw [lists]
    exact frame x fun inRest => inv.live_not_inCells mem inP b (inFree x inRest)

theorem live_managed (inv : StoreInv heap store) (mem : p ∈ store.live) :
    p.start ≠ 0 ∧ p.start + 2 ^ (p.bucket + minShift) + pageSize ≤ 2 ^ 64 := by
  obtain ⟨c, held, inside, -⟩ := inv.live_held mem
  have managed := fun x (inP : x ∈ p.bytes) => inv.pages.liveManaged c held (inside inP)
  have width := Nat.two_pow_pos (p.bucket + minShift)
  have lower := (managed p.start (left_mem_block _ _)).1
  have upper := (managed (p.start + 2 ^ (p.bucket + minShift) - 1) (by
    rw [Piece.bytes, mem_block]
    omega)).2
  have minPos := inv.pages.minPos
  have fits := inv.pages.fits
  obtain ⟨m, isPage⟩ := inv.pages.maxAligned
  simp only [pageSize, pageShift] at isPage ⊢
  omega

theorem push (inv : StoreInv heap store) (isLive : store.live = { start := s, bucket := b } :: live)
    :
    let next : MemHeap := { heap with
      lists := heap.lists.insertHead heap.heads b s
      nmalloc := update heap.nmalloc b (heap.nmalloc b - 1#32) }
    StoreInv next { store with
      live := live
      free := update store.free b (s :: store.free b) } ∧ Untouched live heap next := by
  intro next
  have chain := inv.linked b
  have mem : { start := s, bucket := b } ∈ store.live := by
    rw [isLive]
    exact mem_cons_self
  obtain ⟨nonzero, ends⟩ := inv.live_managed mem
  have small : s < 2 ^ 64 := by
    have width := Nat.two_pow_pos (b + minShift)
    dsimp only at ends
    omega
  have fromFree : ∀ f ∈ store.free b, Apart s f := by
    intro f memF
    exact apart_of_disjoint (by unfold minShift; omega) (by unfold minShift; omega)
      (inv.live_free_apart mem memF)
  have linked := chain.insertHead nonzero small
    (pairwise_cons.mpr ⟨fromFree, inv.free_cells_apart b⟩)
  have tiles := inv.tiles b
  have counted := inv.counted b
  rw [isLive, startsOf_cons_self] at tiles counted
  have inOwn : ∀ x, InCells [s] x → x ∈ ({ start := s, bucket := b } : Piece).bytes := by
    intro x inCell
    obtain ⟨f, memF, inF⟩ := inCells_block b inCell
    cases mem_singleton.mp memF
    exact inF
  have split : ∀ x, InCells (s :: store.free b) x → InCells [s] x ∨ InCells (store.free b) x := by
    intro x inCell
    obtain ⟨f, memF, bounds⟩ := inCell
    rcases mem_cons.mp memF with same | inFree
    · exact .inl ⟨f, mem_singleton.mpr same, bounds⟩
    · exact .inr ⟨f, inFree, bounds⟩
  constructor
  · refine inv.in_bucket b ?_ rfl ?_ ?_ ?_ ?_
    · have pages := inv.pages
      rw [Store.held, isLive, largeOf_cons_small b.isLt] at pages
      exact pages
    · intro c ne
      refine ⟨update_of_ne ne .., update_of_ne ne .., ?_, rfl, ?_⟩
      · rw [isLive, startsOf_cons_ne fun eq => ne (Fin.ext eq.symm)]
      · intro x inC
        apply chain.insertHead_apart
        intro inCells
        rcases split x inCells with own | inFree
        · exact inv.live_not_inCells mem (inOwn x own) c inC
        · exact inv.cells_ne_apart ne inC inFree
    · rw [show next.lists.first b = s from update_self ..]
      exact linked
    · exact perm_middle.trans tiles
    · change update heap.nmalloc b (heap.nmalloc b - 1#32) b = _
      rw [update_self, counted, length_cons, BitVec.ofNat_add, BitVec.add_sub_cancel]
  · intro p memP x inP
    have live := inv.live_apart
    rw [isLive] at live
    have memP' : p ∈ store.live := by
      rw [isLive]
      exact mem_cons_of_mem _ memP
    apply chain.insertHead_apart
    intro inCells
    rcases split x inCells with own | inFree
    · exact Set.disjoint_left.mp ((pairwise_cons.mp live).1 p memP) (inOwn x own) inP
    · exact inv.live_not_inCells memP' inP b inFree

end StoreInv

/-! ## More pages -/

/-- The loop of `morecore` threads the blocks behind `p` onto the list, and writes nowhere outside
the run from `base` on. -/
theorem morecoreLoop_spec {heads : Heads (Fin localBuckets)} {b : Fin localBuckets} {k base : Nat}
    (wide : 2 ^ 4 ≤ 2 ^ k) (pos : 0 < base) :
    ∀ (nblks p : Nat) (lists : IntrusiveList.Lists (Fin localBuckets)) (elms : List Nat),
      Chain lists.memory (heads.addr b) (lists.first b) elms → elms.Pairwise Apart →
      (∀ e ∈ elms, base ≤ e ∧ e ≤ p) → base ≤ p → p + (nblks + 1) * 2 ^ k ≤ 2 ^ 64 →
      ∃ memory first elms', morecoreLoop heads b (2 ^ k) nblks p lists =
          { memory := memory, first := update lists.first b first } ∧
        Chain memory (heads.addr b) first elms' ∧
        elms'.Perm (units k (p + 2 ^ k) nblks ++ elms) ∧
        ∀ x, x < base ∨ p + (nblks + 1) * 2 ^ k ≤ x → memory x = lists.memory x := by
  intro nblks
  induction nblks with
  | zero =>
    intro p lists elms chain _ _ _ _
    refine ⟨lists.memory, lists.first b, elms, ?_, chain, List.Perm.refl _, fun x _ => rfl⟩
    rw [morecoreLoop, update_eq_self]
  | succ nblks ih =>
    intro p lists elms chain apart inside above ends
    rw [Nat.succ_mul] at ends
    have next : add p (2 ^ k) = p + 2 ^ k := add_eq (by
      have := Nat.two_pow_pos k
      have : 2 ^ k ≤ (nblks + 1) * 2 ^ k := Nat.le_mul_of_pos_left _ (by omega)
      omega)
    have small : p + 2 ^ k < 2 ^ 64 := next ▸ add_lt _ _
    have fromNew : ∀ e ∈ elms, Apart (p + 2 ^ k) e := by
      intro e mem
      have := (inside e mem).2
      exact .inr (by omega)
    have apart' := pairwise_cons.mpr ⟨fromNew, apart⟩
    have chain' := chain.insertHead (by omega) small apart'
    obtain ⟨memory, first, elms', ran, linked, perm, frame⟩ := ih (p + 2 ^ k)
      (lists.insertHead heads b (p + 2 ^ k)) ((p + 2 ^ k) :: elms)
      (by
        rw [show (lists.insertHead heads b (p + 2 ^ k)).first b = p + 2 ^ k from
          update_self ..]
        exact chain')
      apart'
      (by
        intro e mem
        rcases mem_cons.mp mem with same | old
        · omega
        · have := inside e old
          omega)
      (by omega) (by omega)
    refine ⟨memory, first, elms', ?_, linked, ?_, ?_⟩
    · rw [morecoreLoop, next, ran]
      simp only [IntrusiveList.Lists.insertHead, update_idem]
    · exact perm.trans perm_middle
    · intro x outside
      rw [Nat.succ_mul] at outside
      rw [frame x (by omega)]
      apply chain.insertHead_apart
      intro inCells
      obtain ⟨e, mem, lower, upper⟩ := inCells
      have growth : 2 ^ k ≤ (nblks + 1) * 2 ^ k := Nat.le_mul_of_pos_left _ (by omega)
      rcases mem_cons.mp mem with same | old
      · omega
      · have := inside e old
        omega

namespace StoreInv
variable {heap : MemHeap} {store : Store} {pages : PageHeap}

theorem fresh_apart {c : Block} (inv : StoreInv heap store) (got : HeapInv pages (c :: store.held))
    {x : Nat} (inC : x ∈ c.bytes) :
    (∀ p ∈ store.live, x ∉ p.bytes) ∧ ∀ b, ¬ InCells (store.free b) x := by
  have fromHeld := (pairwise_cons.mp got.liveApart).1
  constructor
  · intro p mem inP
    obtain ⟨d, held, inside, -⟩ := inv.live_held mem
    exact Set.disjoint_left.mp (fromHeld d held) inC (inside inP)
  · intro b inCells
    obtain ⟨f, memF, inF⟩ := inCells_block b inCells
    obtain ⟨d, held, inside⟩ := inv.free_held memF
    exact Set.disjoint_left.mp (fromHeld d held) inC (inside inF)

theorem more {b : Fin localBuckets} {page : Nat} (inv : StoreInv heap store)
    (empty : store.free b = []) (got : HeapInv pages ({ addr := page, order := 0 } :: store.held)) :
    ∃ elms, let next := ({ heap with
        pages := pages
        lists := morecoreLoop heap.heads b (2 ^ (b + minShift))
          (pageSize / 2 ^ (b + minShift) - 1) page heap.lists } : MemHeap).countMalloc b
      StoreInv next { store with
        live := { start := page, bucket := b } :: store.live
        cores := { page := page, bucket := b } :: store.cores
        free := update store.free b elms } ∧ Untouched store.live heap next := by
  have chain := inv.linked b
  rw [empty] at chain
  have le := bucket_le_page b
  have wide : 2 ^ 4 ≤ 2 ^ (b + minShift) := Nat.pow_le_pow_right (by decide) (by
    unfold minShift
    omega)
  have fill := units_fill_page b
  have several : pageSize / 2 ^ (b + minShift) ≠ 0 := by
    intro zero
    rw [zero, zero_mul] at fill
    exact absurd fill (by decide)
  obtain ⟨more, count⟩ := Nat.exists_eq_succ_of_ne_zero several
  have inPage : block page (0 + pageShift) ⊆ pages.managed := got.liveManaged _ mem_cons_self
  have pos : 0 < page := lt_of_lt_of_le got.minPos (inPage (left_mem_block _ _)).1
  have last : page + 2 ^ (0 + pageShift) ≤ 2 ^ 64 := (end_le_of_subset inPage).trans got.fits.le
  rw [count] at fill ⊢
  rw [Nat.succ_eq_add_one] at fill
  obtain ⟨memory, first, elms, ran, linked, perm, frame⟩ := morecoreLoop_spec wide
    pos more page heap.lists [] chain List.Pairwise.nil (fun e mem => by cases mem) (le_refl _)
    (by omega)
  rw [append_nil] at perm
  refine ⟨elms, ?_⟩
  intro next
  have lists : next.lists = { memory := memory, first := update heap.lists.first b first } := ran
  have outside : ∀ x, x ∉ block page (0 + pageShift) → memory x = heap.lists.memory x := by
    intro x notIn
    apply frame
    rw [mem_block] at notIn
    omega
  constructor
  · refine inv.in_bucket b ?_ rfl ?_ ?_ ?_ ?_
    · rw [Store.held, largeOf_cons_small b.isLt]
      exact got.perm perm_middle.symm
    · intro c ne
      rw [lists]
      refine ⟨update_of_ne ne .., update_of_ne ne ..,
        startsOf_cons_ne fun eq => ne (Fin.ext eq.symm), coresOf_cons_ne (Ne.symm ne), ?_⟩
      intro x inC
      exact outside x fun inP => (inv.fresh_apart got inP).2 c inC
    · rw [lists]
      simp only [update_self]
      exact linked
    · have tiles := inv.tiles b
      rw [empty, append_nil] at tiles
      have whole : CorePage.units { page := page, bucket := b } =
          page :: units (b + minShift) (page + 2 ^ (b + minShift)) more := by
        rw [CorePage.units, count]
        rfl
      rw [startsOf_cons_self, show coresOf ({ page := page, bucket := b } :: store.cores) b =
        { page := page, bucket := b } :: coresOf store.cores b from coresOf_cons_self _ _,
        flatMap_cons, whole]
      exact ((tiles.append perm).trans perm_append_comm).cons page
    · change update heap.nmalloc b (heap.nmalloc b + 1#32) b = _
      rw [update_self, inv.counted b, startsOf_cons_self, length_cons, BitVec.ofNat_add]
  · intro p mem x inP
    rw [lists]
    exact outside x fun inPage => (inv.fresh_apart got inPage).1 p mem inP

/-! ## Large blocks -/

theorem bucket_ne_large {bucket : Nat} (large : localBuckets ≤ bucket) (b : Fin localBuckets) :
    bucket ≠ b := by
  have := b.isLt
  omega

theorem withLarge {p : Piece} {live : List Piece} (inv : StoreInv heap store)
    (large : localBuckets ≤ p.bucket) (change : live = p :: store.live ∨ store.live = p :: live)
    (got : HeapInv pages ({ store with live := live } : Store).held) :
    StoreInv { heap with pages := pages } { store with live := live } := by
  have starts : ∀ b : Fin localBuckets, startsOf live b = startsOf store.live b := by
    intro b
    rcases change with added | removed
    · rw [added, startsOf_cons_ne (bucket_ne_large large b)]
    · rw [removed, startsOf_cons_ne (bucket_ne_large large b)]
  refine ⟨got, inv.linked, ?_, ?_⟩
  · intro b
    simp only [starts b]
    exact inv.tiles b
  · intro b
    simp only [starts b]
    exact inv.counted b

end StoreInv

/-! ## Taking a block and giving it back -/

/-- The pages a bucket has once its block `s` has been taken: `morecore` returns the start of the
page it obtained. -/
def MemHeap.coresAfter (heap : MemHeap) (bucket s : Nat) (cores : List CorePage) : List CorePage :=
  if small : bucket < localBuckets then
    if heap.lists.first ⟨bucket, small⟩ = 0 then
      { page := s, bucket := ⟨bucket, small⟩ } :: cores
    else
      cores
  else
    cores

/-- What taking a block comes to: a new live block, or nothing. -/
structure Took (heap : MemHeap) (store : Store) (bucket s : Nat) (next : MemHeap) (store' : Store) :
    Prop where
  nonzero : s ≠ 0
  inv : StoreInv next store'
  live : store'.live = { start := s, bucket := bucket } :: store.live
  cores : store'.cores = heap.coresAfter bucket s store.cores
  others : store'.others = store.others
  untouched : Untouched store.live heap next
  managed : next.pages.managed = heap.pages.managed

namespace StoreInv
variable {heap : MemHeap} {store : Store}

theorem bucketalloc_spec (inv : StoreInv heap store) (b : Fin localBuckets) :
    (heap.bucketalloc b = .ok (0, heap) ∧ store.free b = [] ∧ heap.pages.freeBytes store.held = ∅) ∨
    ∃ s next store', heap.bucketalloc b = .ok (s, next) ∧ Took heap store b s next store' := by
  have small : (b : Nat) < localBuckets := b.isLt
  rcases (inv.linked b).first_eq with ⟨isZero, empty⟩ | ⟨rest, isFree, nonzero, -⟩
  · have several : decide (1 < pageSize / 2 ^ (b + minShift)) = true := by
      have le := bucket_le_page b
      rw [decide_eq_true_eq, pageSize, Nat.pow_div (by omega) (by decide)]
      exact Nat.one_lt_two_pow (by omega)
    rcases inv.pages.bmkPgalloc_spec (show 0 < freelistLevels by decide) with
      ⟨run, none⟩ | ⟨page, pages, run, nonzero, got, managed⟩
    · refine Or.inl ⟨?_, empty, inv.pages.full fun level _ => none level (Nat.zero_le _) ‹_›⟩
      simp only [bucketalloc, isZero, if_true, morecore, bmkAssert_bind _ several, run, ok_bind]
      rfl
    · right
      obtain ⟨elms, inv', untouched⟩ := inv.more empty got
      have cut : heap.morecore b = .ok (page, { heap with
          pages := pages
          lists := morecoreLoop heap.heads b (2 ^ (b + minShift))
            (pageSize / 2 ^ (b + minShift) - 1) page heap.lists }) := by
        simp only [morecore, bmkAssert_bind _ several, run, ok_bind, if_neg nonzero]
        rfl
      refine ⟨page, _, _, ?_, ⟨nonzero, inv', rfl, ?_, rfl, untouched, managed⟩⟩
      · simp only [bucketalloc, isZero, if_true, cut, ok_bind, if_neg nonzero]
        rfl
      · simp only [coresAfter, small, dite_true, isZero, if_true]
  · right
    obtain ⟨inv', untouched⟩ := inv.pop isFree
    refine ⟨heap.lists.first b, _, _, ?_, ⟨nonzero, inv', rfl, ?_, rfl, untouched, rfl⟩⟩
    · simp only [bucketalloc, if_neg nonzero]
      rfl
    · simp only [coresAfter, small, dite_true, if_neg nonzero]

theorem takeBlock_spec (inv : StoreInv heap store) {bucket : Nat}
    (orderLt : pageOrder bucket < freelistLevels) :
    (heap.takeBlock bucket = .ok (0, heap) ∧ ∀ small : bucket < localBuckets,
      store.free ⟨bucket, small⟩ = [] ∧ heap.pages.freeBytes store.held = ∅) ∨
    ∃ s next store', heap.takeBlock bucket = .ok (s, next) ∧ Took heap store bucket s next store' := by
  by_cases small : bucket < localBuckets
  · rw [takeBlock, dif_pos small]
    rcases inv.bucketalloc_spec ⟨bucket, small⟩ with ⟨run, full⟩ | took
    · exact .inl ⟨run, fun _ => full⟩
    · exact .inr took
  · have large : localBuckets ≤ bucket := not_lt.mp small
    rw [takeBlock, dif_neg small]
    rcases inv.pages.bmkPgalloc_spec orderLt with ⟨run, -⟩ | ⟨p, pages, run, nonzero, got, managed⟩
    · refine .inl ⟨?_, fun isSmall => absurd isSmall small⟩
      simp only [run, ok_bind]
      rfl
    · right
      have held : HeapInv pages ({ store with
          live := { start := p, bucket := bucket } :: store.live } : Store).held := by
        rw [Store.held, largeOf_cons_large large]
        exact got
      have inv' := inv.withLarge (p := { start := p, bucket := bucket }) large (.inl rfl) held
      refine ⟨p, _, _, ?_, ⟨nonzero, inv', rfl, ?_, rfl, fun _ _ _ _ => rfl, managed⟩⟩
      · simp only [run, ok_bind]
        rfl
      · simp only [coresAfter, small, dite_false]

theorem giveBlock_spec (inv : StoreInv heap store) {p : Piece} (mem : p ∈ store.live) :
    ∃ next free, heap.giveBlock p.start p.bucket = .ok next ∧
      StoreInv next { store with live := store.live.erase p, free := free } ∧
      Untouched (store.live.erase p) heap next := by
  have first := inv.reorder (perm_cons_erase mem)
  obtain ⟨start, bucket⟩ := p
  by_cases small : bucket < localBuckets
  · obtain ⟨inv', untouched⟩ := first.push (b := ⟨bucket, small⟩) rfl
    refine ⟨_, _, ?_, inv', untouched⟩
    rw [giveBlock, dif_pos small]
  · have large : localBuckets ≤ bucket := not_lt.mp small
    have pages := first.pages
    rw [Store.held, largeOf_cons_large large] at pages
    obtain ⟨next, run, got, -, -⟩ := pages.bmkPgfree_spec mem_cons_self
    rw [map_cons, cons_append, erase_cons_head] at got
    refine ⟨{ heap with pages := next }, store.free, ?_,
      first.withLarge (p := { start := start, bucket := bucket }) large (.inr rfl) got,
      fun _ _ _ _ => rfl⟩
    have run : heap.pages.bmkPgfree start (pageOrder bucket) = .ok next := run
    rw [giveBlock, dif_neg small, run]
    rfl

end StoreInv
end Rumprun.Core.MemoryAllocator
