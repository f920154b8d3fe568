import Rumprun.Core.MemoryAllocator
import Rumprun.Core.PageHeapRuns

/-! # Blocks taken and given back

The allocator as a store of blocks, without headers: the blocks handed out, the
free blocks of each bucket in list order, and the pages each bucket was given.
`StoreInv` says that the heap represents such a store: within a bucket the blocks are
the units its pages were cut into, and across buckets they lie in different blocks of
the page allocator. -/

namespace Rumprun.Core.MemoryAllocator
open MachineWord ByteMemory IntrusiveList DyadicBlocks PageAllocator

/-! ## Sizes -/

theorem bucketFor_le_iff {n k : Nat} (fits : n < 2 ^ 64) :
    bucketFor n ≤ k ↔ n ≤ 2 ^ (k + minShift) := by
  have grow : 2 ^ minShift ≤ 2 ^ (k + minShift) := Nat.pow_le_pow_right (by decide) (by omega)
  unfold bucketFor
  by_cases small : n < 2 ^ minShift
  · rw [if_pos small]
    exact iff_of_true (Nat.zero_le k) (by omega)
  · rw [if_neg small]
    have nonzero : n ≠ 0 := by
      rintro rfl
      exact small (by decide)
    have pos : n / 2 ^ minShift ≠ 0 := by
      simp only [minShift] at small ⊢
      omega
    have top : (n / 2 ^ minShift).log2 < 64 := by
      rw [Nat.log2_lt pos]
      exact lt_of_le_of_lt (Nat.div_le_self _ _) fits
    have width : 64 - clz (n / 2 ^ minShift) = (n / 2 ^ minShift).log2 + 1 := by
      unfold clz
      omega
    simp only [width]
    have powIff := Nat.and_sub_one_eq_zero_iff_isPowerOfTwo nonzero
    by_cases pow : n &&& (n - 1) = 0
    · obtain ⟨m, rfl⟩ := powIff.mp pow
      have le : minShift ≤ m := (Nat.pow_le_pow_iff_right (by decide)).mp (not_lt.mp small)
      rw [if_pos pow, Nat.add_sub_cancel, Nat.pow_div le (by decide), Nat.log2_two_pow,
        Nat.pow_le_pow_iff_right (by decide)]
      omega
    · rw [if_neg pow, Nat.succ_le_iff, Nat.log2_lt pos, Nat.div_lt_iff_lt_mul (by decide), ← pow_add]
      constructor
      · exact le_of_lt
      · intro le
        apply lt_of_le_of_ne le
        intro same
        exact pow (powIff.mpr ⟨_, same⟩)

theorem atLeastMinAlign_pow {align : Nat} (pow : align &&& (align - 1) = 0)
    (le : align ≤ 2 ^ 31) : ∃ j, atLeastMinAlign align = 2 ^ j ∧ 4 ≤ j ∧ j ≤ 31 := by
  unfold atLeastMinAlign
  by_cases small : align < minAlign
  · rw [if_pos small]
    exact ⟨4, rfl, by decide, by decide⟩
  · rw [if_neg small]
    have nonzero : align ≠ 0 := by
      rintro rfl
      exact small (by decide)
    obtain ⟨j, rfl⟩ := (Nat.and_sub_one_eq_zero_iff_isPowerOfTwo nonzero).mp pow
    have lower : 2 ^ 4 ≤ 2 ^ j := not_lt.mp small
    exact ⟨j, rfl, (Nat.pow_le_pow_iff_right (by decide)).mp lower,
      (Nat.pow_le_pow_iff_right (by decide)).mp le⟩

section Alignment
variable {j : Nat} (lower : 4 ≤ j) (upper : j ≤ 31)
include lower upper

theorem align_bounds : 2 ^ 4 ≤ 2 ^ j ∧ 2 ^ j ≤ 2 ^ 31 :=
  ⟨Nat.pow_le_pow_right (by decide) lower, Nat.pow_le_pow_right (by decide) upper⟩

theorem hdrPadding_eq : hdrPadding (2 ^ j) = 2 ^ j := by
  obtain ⟨atLeast, atMost⟩ := align_bounds lower upper
  have sum : add hdrSize (2 ^ j - 1) = 2 ^ j + 7 := by
    rw [hdrSize, add_eq (by omega)]
    omega
  rw [hdrPadding, sum, and_compl_mask (by omega) (by omega),
    Nat.add_div_left _ (by omega), Nat.div_eq_of_lt (by omega), Nat.one_mul]

theorem userPointer_eq {hdr : Nat} (aligned : 2 ^ j ∣ hdr) (fits : hdr + 2 ^ j + 8 ≤ 2 ^ 64) :
    userPointer hdr (2 ^ j) = hdr + 2 ^ j := by
  obtain ⟨atLeast, atMost⟩ := align_bounds lower upper
  obtain ⟨m, rfl⟩ := aligned
  have sum : sub (add (add (2 ^ j * m) hdrSize) (2 ^ j)) 1 = 7 + 2 ^ j * (m + 1) := by
    rw [Nat.mul_succ]
    unfold add sub hdrSize
    omega
  rw [userPointer, sum, and_compl_mask (by rw [Nat.mul_succ]; omega) (by omega),
    Nat.add_mul_div_left _ _ (by omega), Nat.div_eq_of_lt (by omega), zero_add,
    mul_comm, Nat.mul_succ]

end Alignment

/-! ## The store -/

/-- A block of `2 ^ (bucket + MINSHIFT)` bytes. -/
structure Piece where
  start : Nat
  bucket : Nat
  deriving DecidableEq, Repr

namespace Piece

def bytes (p : Piece) : Set Nat := block p.start (p.bucket + minShift)

/-- A large piece is a block of the page allocator. -/
def pageBlock (p : Piece) : Block := { addr := p.start, order := pageOrder p.bucket }

theorem pageBlock_bytes {p : Piece} (large : localBuckets ≤ p.bucket) :
    p.pageBlock.bytes = p.bytes := by
  have exponent : pageOrder p.bucket + pageShift = p.bucket + minShift := by
    simp only [pageOrder, localBuckets, pageShift, minShift] at *
    omega
  rw [Block.bytes, bytes, pageBlock, exponent]

end Piece

/-- A page that `morecore` obtained for a bucket. -/
structure CorePage where
  page : Nat
  bucket : Fin localBuckets
  deriving DecidableEq, Repr

namespace CorePage

def block (core : CorePage) : Block := { addr := core.page, order := 0 }

/-- The blocks that `morecore` makes of the page. -/
def units (core : CorePage) : List Nat :=
  DyadicBlocks.units (core.bucket + minShift) core.page (pageSize / 2 ^ (core.bucket + minShift))

end CorePage
open CorePage

theorem bucket_le_page (b : Fin localBuckets) : b + minShift + 1 ≤ pageShift := by
  have := b.isLt
  simp only [localBuckets, pageShift, minShift] at *
  omega

theorem units_fill_page (b : Fin localBuckets) :
    pageSize / 2 ^ (b + minShift) * 2 ^ (b + minShift) = 2 ^ (0 + pageShift) := by
  have le := bucket_le_page b
  rw [zero_add]
  exact Nat.div_mul_cancel (pow_dvd_pow 2 (by omega))

namespace CorePage
variable {core : CorePage} {s : Nat}

theorem unit_inside (mem : s ∈ core.units) :
    DyadicBlocks.block s (core.bucket + minShift) ⊆ core.block.bytes := by
  obtain ⟨lower, upper, -⟩ := mem_units mem
  rw [units_fill_page] at upper
  intro x inUnit
  rw [mem_block] at inUnit
  change core.page ≤ x ∧ x < core.page + 2 ^ (0 + pageShift)
  omega

theorem unit_aligned (mem : s ∈ core.units) (page : 2 ^ (0 + pageShift) ∣ core.page) :
    2 ^ (core.bucket + minShift) ∣ s := by
  obtain ⟨lower, -, dvd⟩ := mem_units mem
  have le := bucket_le_page core.bucket
  rw [← Nat.sub_add_cancel lower]
  exact Nat.dvd_add dvd ((pow_dvd_pow 2 (by omega)).trans page)

end CorePage

structure Store where
  live : List Piece
  /-- The blocks on `freebuckets[]`, in list order. -/
  free : Fin localBuckets → List Nat
  cores : List CorePage
  others : List Block

/-- Where the live blocks of a bucket start. -/
def startsOf (live : List Piece) (b : Nat) : List Nat :=
  (live.filter fun p => p.bucket = b).map Piece.start

def largeOf (live : List Piece) : List Piece := live.filter fun p => localBuckets ≤ p.bucket

def coresOf (cores : List CorePage) (b : Fin localBuckets) : List CorePage :=
  cores.filter fun core => core.bucket = b

/-- The live blocks of the page allocator. -/
def Store.held (store : Store) : List Block :=
  (largeOf store.live).map Piece.pageBlock ++ (store.cores.map CorePage.block ++ store.others)

structure StoreInv (heap : MemHeap) (store : Store) : Prop where
  pages : HeapInv heap.pages store.held
  linked : ∀ b, Chain heap.lists.memory (heap.heads.addr b) (heap.lists.first b) (store.free b)
  tiles : ∀ b : Fin localBuckets,
    (startsOf store.live b ++ store.free b).Perm ((coresOf store.cores b).flatMap CorePage.units)
  counted : ∀ b : Fin localBuckets, heap.nmalloc b = BitVec.ofNat 32 (startsOf store.live b).length

/-! ## Who lies where -/

theorem pairwise_of_filters {α κ : Type} [DecidableEq κ] {R : α → α → Prop} (key : α → κ) :
    ∀ {l : List α}, (∀ k, (l.filter fun a => key a = k).Pairwise R) →
      (∀ a ∈ l, ∀ b ∈ l, key a ≠ key b → R a b) → l.Pairwise R := by
  intro l
  induction l with
  | nil => intro _ _; exact List.Pairwise.nil
  | cons a rest ih =>
    intro within across
    refine List.pairwise_cons.mpr ⟨?_, ?_⟩
    · intro b mem
      by_cases same : key b = key a
      · have here := within (key a)
        rw [List.filter_cons_of_pos (by simp)] at here
        exact (List.pairwise_cons.mp here).1 b (List.mem_filter.mpr ⟨mem, by simpa using same⟩)
      · exact across a List.mem_cons_self b (List.mem_cons_of_mem a mem) (Ne.symm same)
    · apply ih
      · intro k
        exact (within k).sublist ((List.sublist_cons_self a rest).filter _)
      · intro b memB c memC
        exact across b (List.mem_cons_of_mem a memB) c (List.mem_cons_of_mem a memC)

theorem disjoint_of_ne {α : Type} {f : α → Set Nat} {l : List α} {a b : α}
    (apart : l.Pairwise fun a b => Disjoint (f a) (f b)) (memA : a ∈ l) (memB : b ∈ l)
    (ne : a ≠ b) : Disjoint (f a) (f b) := by
  have : Std.Symm fun a b => Disjoint (f a) (f b) := ⟨fun _ _ disjoint => disjoint.symm⟩
  exact apart.forall memA memB ne

namespace StoreInv
variable {heap : MemHeap} {store : Store} {p : Piece} {b : Fin localBuckets} {s f : Nat}

/-! The page allocator keeps large blocks and pages apart. -/

variable (inv : StoreInv heap store)
include inv

theorem large_apart : (largeOf store.live).Pairwise fun p q => Disjoint p.bytes q.bytes := by
  have apart := (List.pairwise_append.mp inv.pages.liveApart).1
  rw [List.pairwise_map] at apart
  apply apart.imp_of_mem
  intro p q memP memQ disjoint
  have largeP : localBuckets ≤ p.bucket := by simpa using (List.mem_filter.mp memP).2
  have largeQ : localBuckets ≤ q.bucket := by simpa using (List.mem_filter.mp memQ).2
  rwa [Piece.pageBlock_bytes largeP, Piece.pageBlock_bytes largeQ] at disjoint

theorem large_core_apart {core : CorePage} (mem : p ∈ store.live) (large : localBuckets ≤ p.bucket)
    (memCore : core ∈ store.cores) : Disjoint p.bytes core.block.bytes := by
  have cross := (List.pairwise_append.mp inv.pages.liveApart).2.2
  rw [← Piece.pageBlock_bytes large]
  apply cross
  · exact List.mem_map_of_mem (List.mem_filter.mpr ⟨mem, by simpa using large⟩)
  · exact List.mem_append_left _ (List.mem_map_of_mem memCore)

theorem cores_pairwise : store.cores.Pairwise fun c d => Disjoint c.block.bytes d.block.bytes := by
  have apart := (List.pairwise_append.mp inv.pages.liveApart).2.1
  have ofCores := (List.pairwise_append.mp apart).1
  rwa [List.pairwise_map] at ofCores

theorem cores_apart {c d : CorePage} (memC : c ∈ store.cores) (memD : d ∈ store.cores) (ne : c ≠ d) :
    Disjoint c.block.bytes d.block.bytes :=
  disjoint_of_ne (f := fun core : CorePage => core.block.bytes) inv.cores_pairwise memC memD ne

theorem in_core (mem : s ∈ startsOf store.live b ++ store.free b) :
    ∃ core ∈ store.cores, core.bucket = b ∧ s ∈ core.units := by
  obtain ⟨core, memCore, inUnits⟩ := List.mem_flatMap.mp ((inv.tiles b).mem_iff.mp mem)
  obtain ⟨isCore, ofBucket⟩ := List.mem_filter.mp memCore
  exact ⟨core, isCore, by simpa using ofBucket, inUnits⟩

omit inv in
theorem start_mem (mem : p ∈ store.live) : p.start ∈ startsOf store.live p.bucket :=
  List.mem_map_of_mem (List.mem_filter.mpr ⟨mem, by simp⟩)

theorem bucket_apart (b : Fin localBuckets) :
    (startsOf store.live b ++ store.free b).Pairwise fun s t =>
      Disjoint (block s (b + minShift)) (block t (b + minShift)) := by
  rw [(inv.tiles b).pairwise_iff fun apart => apart.symm, List.pairwise_flatMap]
  constructor
  · intro core mem
    have ofBucket : core.bucket = b := by simpa using (List.mem_filter.mp mem).2
    subst ofBucket
    exact units_apart _ _ _
  · apply (inv.cores_pairwise.sublist List.filter_sublist).imp_of_mem
    intro c d memC memD apart s memS t memT
    have ofC : c.bucket = b := by simpa using (List.mem_filter.mp memC).2
    have ofD : d.bucket = b := by simpa using (List.mem_filter.mp memD).2
    have insideC := unit_inside memS
    have insideD := unit_inside memT
    rw [ofC] at insideC
    rw [ofD] at insideD
    exact apart.mono insideC insideD

theorem tiles_aligned (mem : s ∈ startsOf store.live b ++ store.free b) : 2 ^ (b + minShift) ∣ s := by
  obtain ⟨core, memCore, ofBucket, inUnits⟩ := inv.in_core mem
  subst ofBucket
  have held : core.block ∈ store.held :=
    List.mem_append_right _ (List.mem_append_left _ (List.mem_map_of_mem memCore))
  exact unit_aligned inUnits (inv.pages.liveAligned core.block held)

/-- The pages behind a live block are among those that this allocator holds. -/
theorem live_own (mem : p ∈ store.live) :
    ∃ c ∈ (largeOf store.live).map Piece.pageBlock ++ store.cores.map CorePage.block,
      p.bytes ⊆ c.bytes ∧ 2 ^ (p.bucket + minShift) ∣ p.start := by
  by_cases small : p.bucket < localBuckets
  · obtain ⟨b, is⟩ : ∃ b : Fin localBuckets, p.bucket = b := ⟨⟨p.bucket, small⟩, rfl⟩
    have tile : p.start ∈ startsOf store.live b ++ store.free b :=
      List.mem_append_left _ (is ▸ start_mem mem)
    have aligned := inv.tiles_aligned tile
    obtain ⟨core, memCore, rfl, inUnits⟩ := inv.in_core tile
    have inside := unit_inside inUnits
    rw [← is] at inside aligned
    exact ⟨core.block, List.mem_append_right _ (List.mem_map_of_mem memCore), inside, aligned⟩
  · have large : localBuckets ≤ p.bucket := not_lt.mp small
    have own : p.pageBlock ∈ (largeOf store.live).map Piece.pageBlock :=
      List.mem_map_of_mem (List.mem_filter.mpr ⟨mem, by simpa using large⟩)
    have aligned := inv.pages.liveAligned _ (List.mem_append_left _ own)
    have exponent : pageOrder p.bucket + pageShift = p.bucket + minShift := by
      simp only [pageOrder, localBuckets, pageShift, minShift] at *
      omega
    refine ⟨p.pageBlock, List.mem_append_left _ own, (Piece.pageBlock_bytes large).symm.subset, ?_⟩
    rw [← exponent]
    exact aligned

theorem live_held (mem : p ∈ store.live) :
    ∃ c ∈ store.held, p.bytes ⊆ c.bytes ∧ 2 ^ (p.bucket + minShift) ∣ p.start := by
  obtain ⟨c, own, rest⟩ := inv.live_own mem
  refine ⟨c, ?_, rest⟩
  rw [Store.held, ← List.append_assoc]
  exact List.mem_append_left _ own

/-- No page of another client is among those that this allocator holds. -/
theorem others_apart {c d : Block} (memC : c ∈ store.others)
    (own : d ∈ (largeOf store.live).map Piece.pageBlock ++ store.cores.map CorePage.block) :
    Disjoint d.bytes c.bytes := by
  have apart := inv.pages.liveApart
  rw [Store.held, ← List.append_assoc] at apart
  exact (List.pairwise_append.mp apart).2.2 d own c memC

theorem free_held (mem : f ∈ store.free b) : ∃ c ∈ store.held, block f (b + minShift) ⊆ c.bytes := by
  obtain ⟨core, memCore, ofBucket, inUnits⟩ := inv.in_core (List.mem_append_right _ mem)
  have held : core.block ∈ store.held :=
    List.mem_append_right _ (List.mem_append_left _ (List.mem_map_of_mem memCore))
  subst ofBucket
  exact ⟨core.block, held, unit_inside inUnits⟩

theorem bucket_ne_apart {c : Fin localBuckets} {t : Nat} (ne : b ≠ c)
    (memS : s ∈ startsOf store.live b ++ store.free b)
    (memT : t ∈ startsOf store.live c ++ store.free c) :
    Disjoint (block s (b + minShift)) (block t (c + minShift)) := by
  obtain ⟨core, memCore, ofB, inCore⟩ := inv.in_core memS
  obtain ⟨other, memOther, ofC, inOther⟩ := inv.in_core memT
  subst ofB ofC
  have different : core ≠ other := fun same => ne (congrArg bucket same)
  exact (inv.cores_apart memCore memOther different).mono (unit_inside inCore)
    (unit_inside inOther)

theorem large_bucket_apart (mem : p ∈ store.live) (large : localBuckets ≤ p.bucket)
    (memS : s ∈ startsOf store.live b ++ store.free b) : Disjoint p.bytes (block s (b + minShift)) := by
  obtain ⟨core, memCore, ofB, inCore⟩ := inv.in_core memS
  subst ofB
  exact (inv.large_core_apart mem large memCore).mono_right (unit_inside inCore)

theorem live_free_apart (mem : p ∈ store.live) (memF : f ∈ store.free b) :
    Disjoint p.bytes (block f (b + minShift)) := by
  by_cases small : p.bucket < localBuckets
  · by_cases same : b = ⟨p.bucket, small⟩
    · subst same
      exact (List.pairwise_append.mp (inv.bucket_apart ⟨p.bucket, small⟩)).2.2 p.start
        (start_mem mem) f memF
    · exact inv.bucket_ne_apart (b := ⟨p.bucket, small⟩) (Ne.symm same)
        (List.mem_append_left _ (start_mem mem)) (List.mem_append_right _ memF)
  · exact inv.large_bucket_apart mem (not_lt.mp small) (List.mem_append_right _ memF)

theorem live_apart : store.live.Pairwise fun p q => Disjoint p.bytes q.bytes := by
  apply pairwise_of_filters Piece.bucket
  · intro k
    by_cases small : k < localBuckets
    · have apart := (List.pairwise_append.mp (inv.bucket_apart ⟨k, small⟩)).1
      apply (List.pairwise_map.mp apart).imp_of_mem
      intro p q memP memQ disjoint
      have ofP : p.bucket = k := by simpa using (List.mem_filter.mp memP).2
      have ofQ : q.bucket = k := by simpa using (List.mem_filter.mp memQ).2
      rw [Piece.bytes, Piece.bytes, ofP, ofQ]
      exact disjoint
    · refine inv.large_apart.sublist (List.monotone_filter_right _ ?_)
      intro p ofK
      have same : p.bucket = k := by simpa using ofK
      simp only [same, decide_eq_true_eq]
      exact not_lt.mp small
  · intro p memP q memQ ne
    by_cases smallP : p.bucket < localBuckets
    · by_cases smallQ : q.bucket < localBuckets
      · exact inv.bucket_ne_apart (b := ⟨p.bucket, smallP⟩) (c := ⟨q.bucket, smallQ⟩)
          (fun same => ne (congrArg Fin.val same)) (List.mem_append_left _ (start_mem memP))
          (List.mem_append_left _ (start_mem memQ))
      · exact (inv.large_bucket_apart (b := ⟨p.bucket, smallP⟩) memQ (not_lt.mp smallQ)
          (List.mem_append_left _ (start_mem memP))).symm
    · by_cases smallQ : q.bucket < localBuckets
      · exact inv.large_bucket_apart (b := ⟨q.bucket, smallQ⟩) memP (not_lt.mp smallP)
          (List.mem_append_left _ (start_mem memQ))
      · have largeP : p ∈ largeOf store.live :=
          List.mem_filter.mpr ⟨memP, by simpa using not_lt.mp smallP⟩
        have largeQ : q ∈ largeOf store.live :=
          List.mem_filter.mpr ⟨memQ, by simpa using not_lt.mp smallQ⟩
        exact disjoint_of_ne inv.large_apart largeP largeQ
          fun same => ne (congrArg Piece.bucket same)

end StoreInv
end Rumprun.Core.MemoryAllocator
