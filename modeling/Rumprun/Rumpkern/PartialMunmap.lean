import Rumprun.Rumpkern.Mman
import Rumprun.Lib.StepRuns
import Mathlib.Data.List.Pairwise

/-! # Unmapping a mapping in parts

`mmapmem_free` counts pages and does not remember which: a page that is unmapped
twice is counted twice, and a range that wraps around the address space is counted
for a mapping it does not touch. -/

namespace Rumprun.Rumpkern
open Core MachineWord StepRuns List
variable {start size p v w : Nat} {mmcList mmcList' : List Chunk}

/-! ## Pages -/

theorem roundup2_eq (len : Nat) : roundup2 len = add len (pageSize - 1) / pageSize * pageSize :=
  and_compl_mask (add_lt _ _) (by decide)

theorem roundup2_div_mul (len : Nat) : roundup2 len / pageSize * pageSize = roundup2 len := by
  rw [roundup2_eq, Nat.mul_div_cancel _ (by decide)]

theorem mem_pages : p ∈ pages start size ↔ ∃ i, i < size / pageSize ∧ start + i * pageSize = p := by
  simp [pages]

theorem card_pages (start size : Nat) : (pages start size).card = size / pageSize := by
  have injective : Function.Injective fun i => start + i * pageSize := by
    intro i j same
    exact Nat.eq_of_mul_eq_mul_right (by decide) (Nat.add_left_cancel same)
  rw [pages, Finset.card_image_of_injective _ injective, Finset.card_range]

theorem mem_pages_bounds (mem : p ∈ pages start size) : start ≤ p ∧ p + pageSize ≤ start + size := by
  obtain ⟨i, small, rfl⟩ := mem_pages.mp mem
  have whole := Nat.div_mul_le_self size pageSize
  have next := Nat.mul_le_mul_right pageSize (Nat.succ_le_of_lt small)
  rw [Nat.succ_mul] at next
  omega

theorem sdiff_inter_comm (mapped covered inside : Finset Nat) :
    (mapped \ covered) ∩ inside = (mapped ∩ inside) \ covered := by
  ext p
  simp only [Finset.mem_inter, Finset.mem_sdiff]
  tauto

theorem pages_apart {mc : Chunk} (apart : MmSys.Apart v size mc) :
    Disjoint (pages v size) mc.pages := by
  rw [Finset.disjoint_left]
  intro p mine theirs
  obtain ⟨lo, hi⟩ := mem_pages_bounds mine
  obtain ⟨lo', hi'⟩ := mem_pages_bounds theirs
  have : pageSize = 4096 := rfl
  rw [MmSys.Apart] at apart
  omega

/-! ## The two calls -/

theorem mmapmemFree_cases (addr roundedlen : Nat) (mmcList : List Chunk) :
    mmcList.find? (Chunk.spans addr roundedlen) = none ∧
        mmapmemFree addr roundedlen mmcList = .ok none ∨
      ∃ before mc after, mmcList = before ++ mc :: after ∧
        mmcList.find? (Chunk.spans addr roundedlen) = some mc ∧
        mmapmemFree addr roundedlen mmcList =
          if roundedlen / pageSize ≤ mc.mmPgsleft then
            .ok (some (before ++ (mc.less (roundedlen / pageSize) ++ after)))
          else .error (.halt "kernel diagnostic assertion \"npgs <= mc->mm_pgsleft\" failed") := by
  induction mmcList with
  | nil => exact .inl ⟨rfl, rfl⟩
  | cons mc rest ih =>
    rw [mmapmemFree]
    by_cases here : mc.spans addr roundedlen = true
    · refine .inr ⟨[], mc, rest, rfl, find?_cons_of_pos here, ?_⟩
      rw [if_pos here]
      by_cases enough : roundedlen / pageSize ≤ mc.mmPgsleft
      · simp only [kassert, enough]
        rfl
      · simp only [kassert, enough]
        rfl
    · rw [if_neg here]
      rcases ih with ⟨nowhere, ran⟩ | ⟨before, found, after, is, first, ran⟩
      · refine .inl ⟨(find?_cons_of_neg here).trans nowhere, ?_⟩
        rw [ran]
        rfl
      · refine .inr ⟨mc :: before, found, after, by rw [is]; rfl,
          (find?_cons_of_neg here).trans first, ?_⟩
        rw [ran]
        split
        · rfl
        · rfl

theorem mmapFile_ok {roundedlen : Nat} {fp : File}
    (ran : mmapFile mmcList roundedlen v fp = .ok (mmcList', .ok w)) : w = v ∧ mmcList' = mmcList := by
  rw [mmapFile] at ran
  split at ran
  · cases ran
  split at ran
  · cases ran
  cases read : fp.read with
  | error error =>
    rw [read] at ran
    obtain ⟨freed, -, ran⟩ := bind_eq_ok ran
    cases ran
  | ok cnt =>
    rw [read] at ran
    dsimp only at ran
    split at ran
    · obtain ⟨-, -, ran⟩ := bind_eq_ok ran
      cases ran
      exact ⟨rfl, rfl⟩
    · cases ran
      exact ⟨rfl, rfl⟩

theorem sysMmap_ok {uap : MmapArgs} {record : Bool} {fp : Option File}
    (ran : sysMmap mmcList uap v record fp = .ok (mmcList', .ok w)) :
    w = v ∧ mmcList' = .fresh v (roundup2 uap.len) :: mmcList := by
  rw [sysMmap] at ran
  by_cases written : uap.fd ≠ -1 ∧ uap.prot ≠ protRead
  · rw [if_pos written] at ran
    cases ran
  by_cases fixed : uap.flags &&& mapFixed ≠ 0
  · rw [if_neg written, if_pos fixed] at ran
    cases ran
  by_cases unaligned : uap.pos &&& (pageSize - 1) ≠ 0
  · rw [if_neg written, if_neg fixed, if_pos unaligned] at ran
    cases ran
  rw [if_neg written, if_neg fixed, if_neg unaligned] at ran
  cases record with
  | false => cases ran
  | true =>
    simp only [mmapmemAlloc, Bool.true_eq_false, if_false] at ran
    by_cases null : v = 0
    · rw [if_pos null] at ran
      cases ran
    rw [if_neg null] at ran
    by_cases anon : uap.flags &&& mapAnon ≠ 0
    · rw [if_pos anon] at ran
      cases ran
      exact ⟨rfl, rfl⟩
    rw [if_neg anon] at ran
    cases fp with
    | none => cases ran
    | some fp => exact mmapFile_ok ran

namespace MmSys
variable {addr len npgs : Nat} {mc other : Chunk}

/-! ## What is asked for -/

/-- The condition: the pages of the range are pages of the mapping that is found, and still
mapped. -/
def Covered (s : MmSys) (addr len : Nat) : Prop :=
  addr &&& (pageSize - 1) = 0 →
    ∀ mc ∈ s.mmcList.find? (Chunk.spans addr (roundup2 len)),
      pages addr (roundup2 len) ⊆ s.mapped ∩ mc.pages

instance decidableCovered (s : MmSys) (addr len : Nat) : Decidable (s.Covered addr len) :=
  match found : s.mmcList.find? (Chunk.spans addr (roundup2 len)) with
  | none => .isTrue fun _ mc first => by rw [found] at first; cases first
  | some mc =>
    decidable_of_iff
      (addr &&& (pageSize - 1) = 0 → pages addr (roundup2 len) ⊆ s.mapped ∩ mc.pages)
      (by rw [Covered, found]; simp only [Option.mem_some_iff, forall_eq'])

def AdmitsCovered (s : MmSys) : MmEvent → Prop
  | .mmap uap v record fp => s.Admits (.mmap uap v record fp)
  | .munmap addr len => s.Admits (.munmap addr len) ∧ s.Covered addr len

instance decidableAdmitsCovered (s : MmSys) : ∀ event, Decidable (s.AdmitsCovered event)
  | .mmap uap v record fp => decidableAdmits s (.mmap uap v record fp)
  | .munmap _ _ => inferInstanceAs (Decidable (_ ∧ _))

/-- Every page that is still mapped is in the memory of a mapping that has not been released. -/
def Backed (s : MmSys) : Prop := ∀ p ∈ s.mapped, ∃ mc ∈ s.mmcList, p ∈ mc.pages

/-- A record that is changed or removed is that of a mapping around the range. -/
def Untouched (s next : MmSys) (addr roundedlen : Nat) : Prop :=
  ∀ mc ∈ s.mmcList, mc ∉ next.mmcList → mc.mmStart ≤ addr ∧ addr + roundedlen ≤ mc.mmStart + mc.mmSize

def kassertFails : Except Stop MmSys :=
  .error (.halt "kernel diagnostic assertion \"npgs <= mc->mm_pgsleft\" failed")

/-! ## The invariant -/

/-- The memory of the mappings: whole pages, and no byte in two of them. -/
structure Placed (mmcList : List Chunk) : Prop where
  whole : ∀ mc ∈ mmcList, pageSize ∣ mc.mmStart ∧ mc.mmStart + mc.mmSize < 2 ^ 64
  apart : mmcList.Pairwise fun mc other => Apart mc.mmStart mc.mmSize other

structure Inv (s : MmSys) : Prop where
  placed : Placed s.mmcList
  backed : s.Backed
  counted : ∀ mc ∈ s.mmcList, mc.mmPgsleft = (s.mapped ∩ mc.pages).card

variable {s next : MmSys}

theorem munmap_eq (aligned : addr &&& (pageSize - 1) = 0) :
    s.step (.munmap addr len) = (do
      match ← mmapmemFree addr (roundup2 len) s.mmcList with
      | none => return s
      | some mmcList => return { mmcList := mmcList, mapped := s.mapped \ pages addr (roundup2 len) }) := by
  rw [step, sysMunmap, if_neg (not_not.mpr aligned)]
  cases mmapmemFree addr (roundup2 len) s.mmcList with
  | error stop => rfl
  | ok freed => cases freed <;> rfl

theorem munmap_unaligned (unaligned : addr &&& (pageSize - 1) ≠ 0) :
    s.step (.munmap addr len) = .ok s := by
  rw [step, sysMunmap, if_pos unaligned]
  rfl

theorem munmap_cases (len : Nat) (aligned : addr &&& (pageSize - 1) = 0) :
    s.step (.munmap addr len) = .ok s ∧ s.mmcList.find? (Chunk.spans addr (roundup2 len)) = none ∨
      ∃ before mc after, s.mmcList = before ++ mc :: after ∧
        s.mmcList.find? (Chunk.spans addr (roundup2 len)) = some mc ∧
        s.step (.munmap addr len) =
          if roundup2 len / pageSize ≤ mc.mmPgsleft then
            .ok { mmcList := before ++ (mc.less (roundup2 len / pageSize) ++ after)
                  mapped := s.mapped \ pages addr (roundup2 len) }
          else kassertFails := by
  rw [munmap_eq aligned]
  rcases mmapmemFree_cases addr (roundup2 len) s.mmcList with
    ⟨nowhere, ran⟩ | ⟨before, mc, after, is, found, ran⟩
  · exact .inl ⟨by rw [ran]; rfl, nowhere⟩
  · refine .inr ⟨before, mc, after, is, found, ?_⟩
    rw [ran]
    split
    · rfl
    · rfl

theorem spans_of_find {list : List Chunk} {roundedlen : Nat}
    (found : list.find? (Chunk.spans addr roundedlen) = some mc) :
    mc.mmStart ≤ addr ∧ add addr roundedlen ≤ add mc.mmStart mc.mmSize := by
  simpa [Chunk.spans] using find?_some found

theorem mem_less (mem : other ∈ mc.less npgs) :
    other.mmStart = mc.mmStart ∧ other.mmSize = mc.mmSize ∧ other.mmPgsleft = mc.mmPgsleft - npgs := by
  rw [Chunk.less] at mem
  split at mem
  · rw [mem_singleton] at mem
    rw [mem]
    exact ⟨rfl, rfl, rfl⟩
  · cases mem

theorem pages_of_less (mem : other ∈ mc.less npgs) : other.pages = mc.pages := by
  obtain ⟨start, size, -⟩ := mem_less mem
  rw [Chunk.pages, Chunk.pages, start, size]

namespace Placed
variable {before after : List Chunk} {mc : Chunk}

theorem less (placed : Placed (before ++ mc :: after)) (npgs : Nat) :
    Placed (before ++ (mc.less npgs ++ after)) := by
  obtain ⟨whole, apart⟩ := placed
  refine ⟨?_, ?_⟩
  · intro other mem
    rcases mem_append.mp mem with mem | mem
    · exact whole other (by simp [mem])
    rcases mem_append.mp mem with mem | mem
    · obtain ⟨start, size, -⟩ := mem_less mem
      rw [start, size]
      exact whole mc (by simp)
    · exact whole other (by simp [mem])
  · rw [pairwise_append, pairwise_cons] at apart
    obtain ⟨beforeApart, ⟨mcApart, afterApart⟩, across⟩ := apart
    rw [Chunk.less]
    split
    · rw [singleton_append, pairwise_append, pairwise_cons]
      refine ⟨beforeApart, ⟨mcApart, afterApart⟩, ?_⟩
      intro first inBefore second mem
      rcases mem_cons.mp mem with rfl | mem
      · exact across first inBefore mc (by simp)
      · exact across first inBefore second (by simp [mem])
    · rw [nil_append, pairwise_append]
      exact ⟨beforeApart, afterApart, fun first inBefore second mem =>
        across first inBefore second (by simp [mem])⟩

theorem disjoint (placed : Placed (before ++ mc :: after)) {other : Chunk}
    (mem : other ∈ before ∨ other ∈ after) : Disjoint mc.pages other.pages := by
  have apart := placed.apart
  rw [pairwise_append, pairwise_cons] at apart
  obtain ⟨-, ⟨mcApart, -⟩, across⟩ := apart
  rcases mem with mem | mem
  · exact (pages_apart (across other mem mc (by simp))).symm
  · exact pages_apart (mcApart other mem)

end Placed
namespace Inv

theorem mmap (inv : Inv s) {uap : MmapArgs} {v : Nat} {record : Bool} {fp : Option File}
    (allowed : s.Admits (.mmap uap v record fp)) :
    ∃ next, s.step (.mmap uap v record fp) = .ok next ∧ Inv next := by
  obtain ⟨succeeds, aligned, fits, fresh⟩ := allowed
  cases ran : sysMmap s.mmcList uap v record fp with
  | error stop => rw [ran] at succeeds; cases succeeds
  | ok result =>
    obtain ⟨mmcList, result⟩ := result
    cases result with
    | error error => rw [ran] at succeeds; cases succeeds
    | ok w =>
      obtain ⟨rfl, is⟩ := sysMmap_ok ran
      refine ⟨_, by rw [step, ran]; rfl, ⟨?_, ?_⟩, ?_, ?_⟩
      · intro mc mem
        rw [is] at mem
        rcases mem_cons.mp mem with rfl | mem
        · exact ⟨aligned, fits⟩
        · exact inv.placed.whole mc mem
      · rw [is, pairwise_cons]
        exact ⟨fresh, inv.placed.apart⟩
      · intro p mem
        dsimp only at mem ⊢
        rw [is]
        rcases Finset.mem_union.mp mem with old | new
        · obtain ⟨mc, listed, inside⟩ := inv.backed p old
          exact ⟨mc, mem_cons_of_mem _ listed, inside⟩
        · exact ⟨_, mem_cons_self, new⟩
      · intro mc mem
        dsimp only at mem ⊢
        rw [is] at mem
        rcases mem_cons.mp mem with rfl | mem
        · -- none of the new pages was mapped before
          dsimp only [Chunk.pages, Chunk.fresh]
          rw [Finset.inter_eq_right.mpr Finset.subset_union_right, card_pages]
        · rw [inv.counted mc mem, Finset.union_inter_distrib_right,
            Finset.disjoint_iff_inter_eq_empty.mp (pages_apart (fresh mc mem)), Finset.union_empty]

theorem munmap_found (inv : Inv s) {before after : List Chunk} {mc : Chunk} {addr len : Nat}
    (is : s.mmcList = before ++ mc :: after)
    (covered : pages addr (roundup2 len) ⊆ s.mapped ∩ mc.pages) :
    roundup2 len / pageSize ≤ mc.mmPgsleft ∧
      Inv { mmcList := before ++ (mc.less (roundup2 len / pageSize) ++ after)
            mapped := s.mapped \ pages addr (roundup2 len) } := by
  have placed := inv.placed
  rw [is] at placed
  have listed : mc ∈ s.mmcList := by simp [is]
  have enough : roundup2 len / pageSize ≤ mc.mmPgsleft := by
    rw [inv.counted mc listed, ← card_pages addr]
    exact Finset.card_le_card covered
  have left : ((s.mapped \ pages addr (roundup2 len)) ∩ mc.pages).card =
      mc.mmPgsleft - roundup2 len / pageSize := by
    rw [sdiff_inter_comm, Finset.card_sdiff_of_subset covered, card_pages, inv.counted mc listed]
  have others : ∀ other, other ∈ before ∨ other ∈ after →
      (s.mapped \ pages addr (roundup2 len)) ∩ other.pages = s.mapped ∩ other.pages := by
    intro other mem
    have inside : pages addr (roundup2 len) ⊆ mc.pages := covered.trans Finset.inter_subset_right
    have disjoint := (placed.disjoint mem).mono_left inside
    rw [sdiff_inter_comm, Finset.sdiff_eq_self_iff_disjoint]
    exact (disjoint.symm.mono_left Finset.inter_subset_right)
  refine ⟨enough, placed.less _, ?_, ?_⟩
  · intro p mem
    obtain ⟨mapped, uncovered⟩ := Finset.mem_sdiff.mp mem
    obtain ⟨other, inList, inside⟩ := inv.backed p mapped
    rw [is] at inList
    rcases mem_append.mp inList with there | there
    · exact ⟨other, by simp [there], inside⟩
    rcases mem_cons.mp there with rfl | there
    · -- the mapping still has a page, so its record is still there
      have some : other.mmPgsleft - roundup2 len / pageSize ≠ 0 := by
        rw [← left]
        exact Finset.card_ne_zero_of_mem (Finset.mem_inter.mpr ⟨mem, inside⟩)
      refine ⟨{ other with mmPgsleft := other.mmPgsleft - roundup2 len / pageSize }, ?_, inside⟩
      simp [Chunk.less, some]
    · exact ⟨other, by simp [there], inside⟩
  · intro other inList
    dsimp only at inList ⊢
    rcases mem_append.mp inList with there | there
    · rw [others other (.inl there)]
      exact inv.counted other (by simp [is, there])
    rcases mem_append.mp there with there | there
    · rw [pages_of_less there, left]
      exact (mem_less there).2.2
    · rw [others other (.inr there)]
      exact inv.counted other (by simp [is, there])

theorem step (inv : Inv s) {event : MmEvent} (allowed : s.AdmitsCovered event) :
    ∃ next, s.step event = .ok next ∧ Inv next := by
  cases event with
  | mmap uap v record fp => exact inv.mmap allowed
  | munmap addr len =>
    by_cases aligned : addr &&& (pageSize - 1) = 0
    · rcases munmap_cases (s := s) len aligned with
        ⟨ran, -⟩ | ⟨before, mc, after, is, found, ran⟩
      · exact ⟨s, ran, inv⟩
      · obtain ⟨enough, kept⟩ := inv.munmap_found is (allowed.2 aligned mc found)
        rw [ran, if_pos enough]
        exact ⟨_, rfl, kept⟩
    · exact ⟨s, munmap_unaligned aligned, inv⟩

theorem init : Inv MmSys.init := ⟨⟨nofun, List.Pairwise.nil⟩, nofun, nofun⟩

theorem untouched (inv : Inv s) {addr len : Nat} (fits : addr < 2 ^ 64)
    (covered : s.Covered addr len) (ran : s.step (.munmap addr len) = .ok next) :
    Untouched s next addr (roundup2 len) := by
  intro mc listed changed
  by_cases aligned : addr &&& (pageSize - 1) = 0
  · rcases munmap_cases (s := s) len aligned with
      ⟨ran', -⟩ | ⟨before, found, after, is, first, ran'⟩
    · rw [ran] at ran'
      cases Except.ok.inj ran'
      exact absurd listed changed
    · have inside := covered aligned found first
      obtain ⟨enough, -⟩ := inv.munmap_found is inside
      rw [ran, if_pos enough] at ran'
      cases Except.ok.inj ran'
      rw [is] at listed
      have same : mc = found := by
        simp only [mem_append, mem_cons] at listed changed
        tauto
      subst same
      obtain ⟨lo, hi⟩ := spans_of_find first
      refine ⟨lo, ?_⟩
      obtain ⟨-, bound⟩ := inv.placed.whole mc (by simp [is])
      rw [add_eq bound] at hi
      have whole := roundup2_div_mul len
      cases count : roundup2 len / pageSize with
      | zero =>
        rw [count, zero_mul] at whole
        rw [← whole, add_eq (by omega)] at hi
        omega
      | succ n =>
        have last : addr + n * pageSize ∈ mc.pages := by
          apply Finset.inter_subset_right (inside _)
          exact mem_pages.mpr ⟨n, by omega, rfl⟩
        have := (mem_pages_bounds last).2
        rw [count, Nat.succ_mul] at whole
        omega
  · rw [munmap_unaligned aligned] at ran
    cases ran
    exact absurd listed changed

end Inv

/-! ## Where the condition fails -/

theorem Apart.symm (apart : Apart mc.mmStart mc.mmSize other) :
    Apart other.mmStart other.mmSize mc := by
  rw [Apart] at apart ⊢
  omega

instance : Std.Symm fun mc other : Chunk => Apart mc.mmStart mc.mmSize other := ⟨fun _ _ => Apart.symm⟩

theorem pages_one (p : Nat) : pages p (roundup2 pageSize) = {p} := by
  have one : roundup2 pageSize / pageSize = 1 := by decide
  simp [pages, one]

namespace Placed
variable {mc : Chunk} {p : Nat}

theorem find_page (placed : Placed s.mmcList) (listed : mc ∈ s.mmcList) (inside : p ∈ mc.pages) :
    s.mmcList.find? (Chunk.spans p (roundup2 pageSize)) = some mc := by
  obtain ⟨lo, hi⟩ := mem_pages_bounds inside
  have one : roundup2 pageSize = pageSize := by decide
  have spans : mc.spans p (roundup2 pageSize) = true := by
    obtain ⟨-, fits⟩ := placed.whole mc listed
    simp only [Chunk.spans, one, Bool.and_eq_true, decide_eq_true_eq]
    rw [add_eq (by omega), add_eq fits]
    exact ⟨lo, hi⟩
  cases found : s.mmcList.find? (Chunk.spans p (roundup2 pageSize)) with
  | none => exact absurd spans (find?_eq_none.mp found mc listed)
  | some other =>
    by_contra wrong
    have apart : Apart other.mmStart other.mmSize mc :=
      placed.apart.forall (mem_of_find?_eq_some found) listed fun same => wrong (by rw [same])
    obtain ⟨-, fits⟩ := placed.whole other (mem_of_find?_eq_some found)
    obtain ⟨lo', hi'⟩ := spans_of_find found
    have positive : pageSize = 4096 := rfl
    obtain ⟨-, bound⟩ := placed.whole mc listed
    rw [one, add_eq (by omega), add_eq fits] at hi'
    rw [Apart] at apart
    omega

theorem page_aligned (placed : Placed s.mmcList) (listed : mc ∈ s.mmcList) (inside : p ∈ mc.pages) :
    p &&& (pageSize - 1) = 0 := by
  obtain ⟨aligned, -⟩ := placed.whole mc listed
  obtain ⟨i, -, rfl⟩ := mem_pages.mp inside
  exact (and_mask_eq_zero_iff _ 12).mpr (Nat.dvd_add aligned (Nat.dvd_mul_left _ i))

theorem munmap_page (placed : Placed s.mmcList) (listed : mc ∈ s.mmcList)
    (mem : p ∈ s.mapped ∩ mc.pages) (some : 1 ≤ mc.mmPgsleft) :
    s.AdmitsCovered (.munmap p pageSize) ∧
      ∃ before after, s.mmcList = before ++ mc :: after ∧
        s.step (.munmap p pageSize) =
          .ok { mmcList := before ++ (mc.less 1 ++ after), mapped := s.mapped \ {p} } := by
  have inside := Finset.mem_of_mem_inter_right mem
  have found := placed.find_page listed inside
  have aligned := placed.page_aligned listed inside
  constructor
  · obtain ⟨-, fits⟩ := placed.whole mc listed
    obtain ⟨-, hi⟩ := mem_pages_bounds inside
    refine ⟨⟨by omega, by decide⟩, ?_⟩
    intro _ other first
    rw [found] at first
    cases first
    rw [pages_one, Finset.singleton_subset_iff]
    exact mem
  · rcases munmap_cases (s := s) pageSize aligned with
      ⟨-, nowhere⟩ | ⟨before, other, after, is, first, ran⟩
    · rw [found] at nowhere
      cases nowhere
    · rw [found] at first
      cases first
      have one : roundup2 pageSize / pageSize = 1 := by decide
      rw [one, if_pos some, pages_one] at ran
      exact ⟨before, after, is, ran⟩

theorem unbacked {before after : List Chunk} (placed : Placed (before ++ mc :: after))
    {mapped : Finset Nat} (mem : p ∈ mapped ∩ mc.pages) :
    ¬ Backed { mmcList := before ++ after, mapped := mapped } := by
  intro backed
  obtain ⟨other, listed, theirs⟩ := backed p (Finset.mem_of_mem_inter_left mem)
  have disjoint := placed.disjoint (mem_append.mp listed)
  exact Finset.disjoint_left.mp disjoint (Finset.mem_of_mem_inter_right mem) theirs

end Placed

/-- A record that counts fewer pages than are mapped: unmapping them one by one releases the
memory too early. -/
theorem overdrawn (left : Nat) : ∀ {s : MmSys} {mc : Chunk}, Placed s.mmcList → mc ∈ s.mmcList →
    mc.mmPgsleft = left + 1 → left + 1 < (s.mapped ∩ mc.pages).card →
    ∃ events final, Admissible AdmitsCovered step events s ∧ run step events s = .ok final ∧
      ¬ final.Backed := by
  induction left with
  | zero =>
    intro s mc placed listed count more
    obtain ⟨p, mem, q, other, apart⟩ := Finset.one_lt_card.mp more
    obtain ⟨allowed, before, after, is, ran⟩ := placed.munmap_page listed mem (by omega)
    rw [is] at placed
    rw [Chunk.less, count, if_neg (by simp), nil_append] at ran
    refine ⟨[.munmap p pageSize], _, ⟨allowed, fun _ _ => trivial⟩, by rw [run, ran]; rfl, ?_⟩
    apply placed.unbacked (p := q)
    rw [sdiff_inter_comm]
    simp [other, apart.symm]
  | succ left ih =>
    intro s mc placed listed count more
    obtain ⟨p, mem⟩ := Finset.card_pos.mp (Nat.lt_of_le_of_lt (Nat.zero_le _) more)
    obtain ⟨allowed, before, after, is, ran⟩ := placed.munmap_page listed mem (by omega)
    rw [is] at placed
    have entry : mc.less 1 = [{ mc with mmPgsleft := left + 1 }] := by
      rw [Chunk.less, count, Nat.add_sub_cancel, if_pos (Nat.succ_ne_zero left)]
    have fewer : ((s.mapped \ {p}) ∩ mc.pages).card = (s.mapped ∩ mc.pages).card - 1 := by
      rw [sdiff_inter_comm, Finset.sdiff_singleton_eq_erase, Finset.card_erase_of_mem mem]
    obtain ⟨events, final, admitted, reached, early⟩ := ih
      (s := { mmcList := before ++ (mc.less 1 ++ after), mapped := s.mapped \ {p} })
      (placed.less 1) (show ({ mc with mmPgsleft := left + 1 } : Chunk) ∈ _ by simp [entry]) rfl
      (by
        show left + 1 < ((s.mapped \ {p}) ∩ mc.pages).card
        rw [fewer]
        omega)
    refine ⟨.munmap p pageSize :: events, final, ?_, by rw [run, ran]; exact reached, early⟩
    exact (admissible_cons_ok ran).mpr ⟨allowed, admitted⟩

theorem Inv.uncovered (inv : Inv s) (uncovered : ¬ s.Covered addr len) :
    s.step (.munmap addr len) = kassertFails ∨
      ∃ next events final, s.step (.munmap addr len) = .ok next ∧
        Admissible AdmitsCovered MmSys.step events next ∧ run MmSys.step events next = .ok final ∧
        ¬ final.Backed := by
  simp only [Covered, Classical.not_imp, not_forall] at uncovered
  obtain ⟨aligned, mc, found, uncovered⟩ := uncovered
  rcases munmap_cases (s := s) len aligned with
    ⟨-, nowhere⟩ | ⟨before, other, after, is, first, ran⟩
  · rw [nowhere] at found
    cases found
  · rw [show _ = some mc from found] at first
    cases first
    by_cases enough : roundup2 len / pageSize ≤ mc.mmPgsleft
    · right
      rw [if_pos enough] at ran
      have placed := inv.placed
      rw [is] at placed
      have count := inv.counted mc (by simp [is])
      -- fewer pages have become unmapped than were counted
      have more : mc.mmPgsleft - roundup2 len / pageSize <
          ((s.mapped \ pages addr (roundup2 len)) ∩ mc.pages).card := by
        have some : (s.mapped ∩ mc.pages ∩ pages addr (roundup2 len)).card <
            (pages addr (roundup2 len)).card := by
          apply Finset.card_lt_card
          refine ⟨Finset.inter_subset_right, fun all => uncovered ?_⟩
          exact all.trans Finset.inter_subset_left
        have parts := Finset.card_sdiff_add_card_inter (s.mapped ∩ mc.pages)
          (pages addr (roundup2 len))
        rw [card_pages] at some
        rw [sdiff_inter_comm]
        omega
      by_cases last : mc.mmPgsleft - roundup2 len / pageSize = 0
      · obtain ⟨q, mem⟩ := Finset.card_pos.mp (Nat.lt_of_le_of_lt (Nat.zero_le _) more)
        rw [Chunk.less, if_neg (not_not.mpr last), nil_append] at ran
        exact ⟨_, [], _, ran, trivial, rfl, placed.unbacked mem⟩
      · obtain ⟨left, count'⟩ := Nat.exists_eq_succ_of_ne_zero last
        have listed : { mc with mmPgsleft := left + 1 } ∈
            before ++ (mc.less (roundup2 len / pageSize) ++ after) := by
          simp [Chunk.less, count']
        rw [count'] at more
        obtain ⟨events, final, admitted, reached, early⟩ := overdrawn left
          (s := { mmcList := before ++ (mc.less (roundup2 len / pageSize) ++ after)
                  mapped := s.mapped \ pages addr (roundup2 len) })
          (placed.less _) listed rfl more
        exact ⟨_, events, final, ran, admitted, reached, early⟩
    · left
      rw [ran, if_neg enough]

/-! ## The runs -/

def twoPages : MmapArgs := { len := 8192, prot := 3, flags := mapAnon, fd := -1, pos := 0 }

/-- The first page of two is unmapped twice. -/
def twiceRun : List MmEvent :=
  [.mmap twoPages 0x10000 true none, .munmap 0x10000 4096, .munmap 0x10000 4096]

theorem page_freed_while_mapped :
    Admissible Admits step twiceRun init ∧
      ∃ final ∈ (run step twiceRun init).toOption, 0x11000 ∈ final.mapped ∧ final.mmcList = [] := by
  decide +kernel

/-- In every run in which the pages of each range are pages of one mapping
that are still mapped, or of none: the assertion does not fire, no page that is still mapped has been
released, and only the mapping around the range is changed. Any other range fires the assertion, or
leads to the release of a page that is still mapped. -/
theorem munmap_in_parts (events : List MmEvent) (allowed : Admissible AdmitsCovered step events init) :
    ∃ s, run step events init = .ok s ∧ s.Backed ∧
      (∀ addr len, s.AdmitsCovered (.munmap addr len) →
        ∃ next, s.step (.munmap addr len) = .ok next ∧ Untouched s next addr (roundup2 len)) ∧
      ∀ addr len, ¬ s.Covered addr len →
        s.step (.munmap addr len) = kassertFails ∨
          ∃ next more final, s.step (.munmap addr len) = .ok next ∧
            Admissible AdmitsCovered step more next ∧ run step more next = .ok final ∧
            ¬ final.Backed := by
  obtain ⟨s, ran, inv⟩ :=
    run_invariant (fun s event inv admitted => inv.step admitted) events init Inv.init allowed
  refine ⟨s, ran, inv.backed, ?_, fun addr len uncovered => inv.uncovered uncovered⟩
  intro addr len admitted
  obtain ⟨next, stepped, -⟩ := inv.step admitted
  exact ⟨next, stepped, inv.untouched admitted.1.1 admitted.2 stepped⟩

/-- The two pages are unmapped one after the other. -/
def partsRun : List MmEvent :=
  [.mmap twoPages 0x10000 true none, .munmap 0x10000 4096, .munmap 0x11000 4096]

theorem munmap_in_parts_two : ∃ s, run step partsRun init = .ok s ∧ s.Backed ∧ s.mmcList = [] := by
  have evaluated : Admissible AdmitsCovered step partsRun init ∧
      ∃ s ∈ (run step partsRun init).toOption, s.mmcList = [] := by
    decide +kernel
  obtain ⟨allowed, s, reached, released⟩ := evaluated
  obtain ⟨s', ran, backed, -⟩ := munmap_in_parts partsRun allowed
  rw [eq_ok_of_mem reached] at ran
  cases ran
  exact ⟨s, eq_ok_of_mem reached, backed, released⟩

end MmSys
end Rumprun.Rumpkern
