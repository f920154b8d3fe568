import Rumprun.Core.PageHeapInvariant

/-! # Linking, unlinking and carving chunks

The set of chunks that each operation on the free lists leaves: `freechunk_link` adds one,
`LIST_REMOVE` takes one away, and `carverange` adds exactly the maximal aligned blocks of the range
it is given. -/

namespace Rumprun.Core.PageAllocator
open MachineWord DyadicBlocks Function
variable {P : Nat → Nat → Prop} {freelist : Nat → List Nat} {chunk : Nat → ChunkHeader}

theorem Linked.congr {Q : Nat → Nat → Prop} (linked : Linked P freelist chunk)
    (same : ∀ a k, pageShift ≤ k → (P a k ↔ Q a k)) : Linked Q freelist chunk where
  mem_iff := fun a level => (linked.mem_iff a level).trans (same a _ (Nat.le_add_left _ _))
  nodup := linked.nodup
  header := linked.header

theorem Linked.update_chunk (linked : Linked P freelist chunk) (addr : Nat) (value : ChunkHeader)
    (apart : ∀ k, ¬ P addr k) : Linked P freelist (update chunk addr value) where
  mem_iff := linked.mem_iff
  nodup := linked.nodup
  header := by
    intro a level mem
    have ne : a ≠ addr := by
      rintro rfl
      exact apart _ ((linked.mem_iff a level).mp mem)
    rw [update_of_ne ne]
    exact linked.header a level mem

namespace PageHeap

theorem freechunkLink_spec {P : Nat → Nat → Prop} (heap : PageHeap) (addr order : Nat)
    (linked : Linked P heap.freelist heap.chunk) (apart : ∀ k, ¬ P addr k)
    (small : order < freelistLevels) :
    ∃ freelist chunk,
      heap.freechunkLink addr order = .ok { heap with freelist := freelist, chunk := chunk } ∧
      Linked (fun b k => P b k ∨ (b, k) = (addr, order + pageShift)) freelist chunk := by
  refine ⟨_, _, by rw [freechunkLink, if_pos small]; rfl, ?_, ?_, ?_⟩
  · intro a level
    rw [update_apply]
    by_cases here : level = order
    · subst here
      rw [if_pos rfl, List.mem_cons, linked.mem_iff]
      constructor
      · rintro (rfl | mem)
        · exact .inr rfl
        · exact .inl mem
      · rintro (mem | same)
        · exact .inr mem
        · exact .inl (Prod.mk.inj same).1
    · rw [if_neg here, linked.mem_iff]
      constructor
      · exact .inl
      · rintro (mem | same)
        · exact mem
        · have := (Prod.mk.inj same).2
          omega
  · intro level
    rw [update_apply]
    by_cases here : level = order
    · rw [if_pos here, List.nodup_cons]
      exact ⟨fun mem => apart _ ((linked.mem_iff addr order).mp mem), linked.nodup order⟩
    · rw [if_neg here]
      exact linked.nodup level
  · intro a level mem
    rw [update_apply] at mem
    by_cases same : a = addr
    · subst same
      by_cases here : level = order
      · rw [here, update_self]
      · rw [if_neg here] at mem
        exact absurd ((linked.mem_iff a level).mp mem) (apart _)
    · rw [update_of_ne same]
      apply linked.header
      by_cases here : level = order
      · subst here
        rw [if_pos rfl, List.mem_cons] at mem
        exact mem.resolve_left same
      · rwa [if_neg here] at mem

theorem listRemove_run (heap : PageHeap) {ch level : Nat} (small : level < freelistLevels)
    (mem : ch ∈ heap.freelist level) : heap.listRemove ch = .ok (heap.unlink ch) := by
  have onList : ((List.range freelistLevels).any fun i => ch ∈ heap.freelist i) = true := by
    rw [List.any_eq_true]
    exact ⟨level, List.mem_range.mpr small, by simpa using mem⟩
  rw [listRemove, if_pos onList]
  rfl

end PageHeap

theorem Linked.erase (linked : Linked P freelist chunk) {ch k : Nat} (unique : ∀ j, P ch j → j = k) :
    Linked (fun b j => P b j ∧ (b, j) ≠ (ch, k)) (fun level => (freelist level).erase ch) chunk where
  mem_iff := by
    intro a i
    rw [(linked.nodup i).mem_erase_iff, linked.mem_iff]
    constructor
    · intro h
      exact ⟨h.2, fun same => h.1 (Prod.mk.inj same).1⟩
    · intro h
      refine ⟨?_, h.1⟩
      intro same
      subst same
      exact h.2 (Prod.ext rfl (unique _ h.1))
  nodup := fun i => (linked.nodup i).erase ch
  header := fun a i mem => linked.header a i (List.mem_of_mem_erase mem)

theorem Linked.take {F : Set Nat} (linked : Linked (Maximal F) freelist chunk) {ch k : Nat}
    (max : Maximal F ch k) (value : ChunkHeader) :
    Linked (fun b j => Maximal F b j ∧ (b, j) ≠ (ch, k)) (fun level => (freelist level).erase ch)
      (update chunk ch value) := by
  have only (j : Nat) (other : Maximal F ch j) : j = k :=
    (other.unique max (left_mem_block _ _) (left_mem_block _ _)).2
  apply (linked.erase only).update_chunk ch value
  intro j other
  exact other.2 (by rw [only j other.1])

namespace PageHeap

/-! ## Carving a range -/

theorem first_chunk_maximal {addr range : Nat} (addrPos : addr ≠ 0) (rangePos : range ≠ 0)
    (fits : addr + range < 2 ^ 64) :
    Maximal (Set.Ico addr (addr + range)) addr (carveExponent addr range) := by
  unfold carveExponent
  have addrFits : addr < 2 ^ 64 := by omega
  have rangeFits : range < 2 ^ 64 := by omega
  rw [top_bit_eq rangePos rangeFits]
  have lower : 2 ^ range.log2 ≤ range := Nat.log2_self_le rangePos
  have upper : range < 2 ^ (range.log2 + 1) := Nat.lt_log2_self
  have ctzDvd := two_pow_ctz_dvd addrPos addrFits
  by_cases limited : range.log2 < ctz addr
  · rw [if_pos limited]
    -- the range is shorter than the parent, which starts at the same address
    apply maximal_of_parent ((pow_dvd_pow 2 limited.le).trans ctzDvd)
    · intro x mem
      rw [mem_block] at mem
      simp only [Set.mem_Ico]
      omega
    · intro sub
      have start : addr = enclosing addr (range.log2 + 1) :=
        eq_enclosing ((pow_dvd_pow 2 limited).trans ctzDvd) (left_mem_block _ _)
      rw [← start] at sub
      have last : addr + range ∈ block addr (range.log2 + 1) := by
        rw [mem_block]
        omega
      have := (sub last).2
      omega
  · rw [if_neg limited]
    have le : 2 ^ ctz addr ≤ 2 ^ range.log2 := Nat.pow_le_pow_right (by omega) (by omega)
    -- the parent starts before `addr`
    apply maximal_of_parent ctzDvd
    · intro x mem
      rw [mem_block] at mem
      simp only [Set.mem_Ico]
      omega
    · intro sub
      have first := (sub (left_mem_block _ _)).1
      have start := (mem_block.mp (mem_enclosing addr (ctz addr + 1))).1
      have same : enclosing addr (ctz addr + 1) = addr := by omega
      have dvd := enclosing_aligned addr (ctz addr + 1)
      rw [same] at dvd
      have := le_ctz_of_dvd addrPos addrFits dvd
      omega

theorem carveLoop_zero (fuel : Nat) (heap : PageHeap) (addr : Nat) :
    carveLoop fuel heap addr 0 = .ok heap := by
  cases fuel with
  | zero | succ => rw [carveLoop, if_pos rfl]

theorem carveLoop_spec : ∀ (fuel : Nat) (heap : PageHeap) (addr range : Nat)
    (P : Nat → Nat → Prop), Linked P heap.freelist heap.chunk → range ≤ fuel → addr ≠ 0 →
      addr + range < 2 ^ 64 → pageSize ∣ addr → pageSize ∣ range →
      (∀ a k, P a k → a ∉ Set.Ico addr (addr + range)) →
      ∃ freelist chunk,
        carveLoop fuel heap addr range = .ok { heap with freelist := freelist, chunk := chunk } ∧
        Linked (fun b k => P b k ∨ Maximal (Set.Ico addr (addr + range)) b k) freelist chunk := by
  intro fuel
  induction fuel with
  | zero =>
    intro heap addr range P linked enough _ _ _ _ _
    have : range = 0 := by omega
    subst this
    refine ⟨heap.freelist, heap.chunk, carveLoop_zero _ heap addr, linked.congr ?_⟩
    intro b k _
    constructor
    · exact .inl
    · rintro (h | h)
      · exact h
      · simpa using h.inside (left_mem_block b k)
  | succ fuel ih =>
    intro heap addr range P linked enough addrPos fits addrPage rangePage apart
    by_cases done : range = 0
    · subst done
      refine ⟨heap.freelist, heap.chunk, carveLoop_zero _ heap addr, linked.congr ?_⟩
      intro b k _
      constructor
      · exact .inl
      · rintro (h | h)
        · exact h
        · simpa using h.inside (left_mem_block b k)
    · have max := first_chunk_maximal addrPos done fits
      rw [carveLoop, if_neg done, if_neg addrPos]
      generalize carveExponent addr range = i at max
      have granular := pageGranular_interval addrPage (Nat.dvd_add addrPage rangePage)
      have page : pageShift ≤ i := pageShift_le_of_maximal granular max
      have size : 2 ^ i ≤ range := by
        have last : addr + 2 ^ i - 1 ∈ block addr i := by
          have := Nat.two_pow_pos i
          rw [mem_block]
          omega
        have := (max.inside last).2
        have := Nat.two_pow_pos i
        omega
      have levelLt : i - pageShift < freelistLevels := by
        have : 2 ^ i < 2 ^ 64 := by omega
        have := (Nat.pow_lt_pow_iff_right (a := 2) (by omega)).mp this
        simp only [freelistLevels, pageShift] at *
        omega
      have restore : i - pageShift + pageShift = i := by omega
      rw [if_neg (by omega)]
      obtain ⟨freelist, chunk, linkRun, linked'⟩ := heap.freechunkLink_spec addr (i - pageShift)
        linked (fun k hk => apart addr k hk ⟨le_rfl, by omega⟩) levelLt
      rw [restore] at linked'
      have pos := Nat.two_pow_pos i
      have pageDvd : pageSize ∣ 2 ^ i := pow_dvd_pow 2 page
      have next : add addr (order2size (i - pageShift)) = addr + 2 ^ i := by
        rw [order2size, restore, add_eq (by omega)]
      have rest : sub range (order2size (i - pageShift)) = range - 2 ^ i := by
        rw [order2size, restore, sub_eq size (by omega)]
      have shift : addr + 2 ^ i + (range - 2 ^ i) = addr + range := by omega
      have apart' : ∀ a k, (P a k ∨ (a, k) = (addr, i)) →
          a ∉ Set.Ico (addr + 2 ^ i) (addr + 2 ^ i + (range - 2 ^ i)) := by
        rintro a k (hP | same) mem
        · exact apart a k hP ⟨by have := mem.1; omega, by have := mem.2; omega⟩
        · have := (Prod.mk.inj same).1
          have := mem.1
          omega
      obtain ⟨freelist', chunk', restRun, linked''⟩ := ih
        { heap with freelist := freelist, chunk := chunk } (addr + 2 ^ i) (range - 2 ^ i) _
        linked' (by omega) (by omega) (by omega) (Nat.dvd_add addrPage pageDvd)
        (Nat.dvd_sub rangePage pageDvd) apart'
      refine ⟨freelist', chunk', ?_, linked''.congr ?_⟩
      · simp only [linkRun, next, rest]
        exact restRun
      · intro b k _
        rw [shift, maximal_interval_cons max, or_assoc]

theorem carverange_spec (heap : PageHeap) (addr range : Nat) (P : Nat → Nat → Prop)
    (linked : Linked P heap.freelist heap.chunk) (addrPos : addr ≠ 0)
    (fits : addr + range < 2 ^ 64) (addrPage : pageSize ∣ addr) (rangePage : pageSize ∣ range)
    (apart : ∀ a k, P a k → a ∉ Set.Ico addr (addr + range)) :
    ∃ freelist chunk,
      heap.carverange addr range = .ok { heap with freelist := freelist, chunk := chunk } ∧
      Linked (fun b k => P b k ∨ Maximal (Set.Ico addr (addr + range)) b k) freelist chunk :=
  carveLoop_spec range heap addr range P linked le_rfl addrPos fits addrPage rangePage apart

end PageHeap
end Rumprun.Core.PageAllocator
