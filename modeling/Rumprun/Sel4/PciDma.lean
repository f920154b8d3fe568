import Rumprun.Core.Platform
import Rumprun.Lib.MachineWord
import Rumprun.Lib.StepRuns
import Mathlib.Data.List.Pairwise

/-! # DMA memory on seL4, `platform/sel4/pci/rumpdma.c`

The DMA manager, which allocates and pins the regions, is the environment: each call of
`rumpcomp_pci_dmalloc` carries what it answers. `live` records what was returned. -/

namespace Rumprun.Sel4
open Core MachineWord StepRuns Function List

def listLength : Nat := 30

structure DmaEntry where
  vaddr : Nat
  paddr : Nat
  size : Nat
  deriving DecidableEq, Repr

namespace DmaEntry

def none : DmaEntry := { vaddr := 0, paddr := 0, size := 0 }

def Holds (e : DmaEntry) (x : Nat) : Prop := e.vaddr ≤ x ∧ x < e.vaddr + e.size

def Apart (e f : DmaEntry) : Prop := e.vaddr + e.size ≤ f.vaddr ∨ f.vaddr + f.size ≤ e.vaddr

instance (e f : DmaEntry) : Decidable (e.Apart f) := inferInstanceAs (Decidable (_ ∨ _))

end DmaEntry

structure Dma where
  /-- What the manager has allocated, with the physical address where it is pinned, or 0. -/
  allocated : List DmaEntry
  list : Nat → DmaEntry
  live : List DmaEntry

inductive DmaCall where
  /-- `mem` and `pmem` are what `ps_dma_alloc` and `ps_dma_pin` return. -/
  | dmalloc (size mem pmem : Nat)
  | dmafree (mem size : Nat)
  deriving DecidableEq, Repr

namespace Dma

def init : Dma := { allocated := [], list := fun _ => .none, live := [] }

def find (d : Dma) (vaddr : Nat) : Option Nat :=
  (List.range listLength).find? fun i => (d.list i).vaddr == vaddr

/-- `rumpcomp_pci_dmalloc`, and its result. -/
def rumpcompPciDmalloc (d : Dma) (size mem pmem : Nat) : Dma × Nat :=
  if mem = 0 then (d, 1)
  else
    let entry : DmaEntry := { vaddr := mem, paddr := pmem, size := size }
    let d := { d with allocated := entry :: d.allocated }
    if pmem = 0 then (d, 1)
    else
      match d.find 0 with
      | none => (d, 1)
      | some i => ({ d with list := update d.list i entry, live := entry :: d.live }, 0)

/-- `rumpcomp_pci_dmafree`: the manager unpins and frees what is at `mem`. -/
def rumpcompPciDmafree (d : Dma) (mem : Nat) : Except Stop Dma :=
  match d.find mem with
  | none => .error (.undefined "list[LIST_LENGTH]")
  | some i =>
    .ok { allocated := d.allocated.filter fun e => e.vaddr ≠ mem
          list := update d.list i .none
          live := d.live.filter fun e => e.vaddr ≠ mem }

/-- `rumpcomp_pci_virt_to_mach`, up to where it asks the system's allocators. -/
def rumpcompPciVirtToMach (d : Dma) (vin : Nat) : Option Nat :=
  ((List.range listLength).find? fun i =>
    decide ((d.list i).vaddr ≤ vin) && decide (vin < add (d.list i).vaddr (d.list i).size)).map fun i =>
      add (sub vin (d.list i).vaddr) (d.list i).paddr

def step (d : Dma) : DmaCall → Except Stop Dma
  | .dmalloc size mem pmem => .ok (d.rumpcompPciDmalloc size mem pmem).1
  | .dmafree mem _ => d.rumpcompPciDmafree mem

/-- The manager returns regions of the address space apart from those it has allocated; live regions
are freed with their own size. -/
def Admits (d : Dma) : DmaCall → Prop
  | .dmalloc size mem pmem => mem ≠ 0 → 0 < size ∧ mem + size < 2 ^ 64 ∧
    ∀ e ∈ d.allocated, DmaEntry.Apart { vaddr := mem, paddr := pmem, size := size } e
  | .dmafree mem size => ∃ e ∈ d.live, e.vaddr = mem ∧ e.size = size

/-- What is allocated gets pinned, and there is an entry for it. -/
def Good (d : Dma) : DmaCall → Prop
  | .dmalloc _ mem pmem => mem ≠ 0 → pmem ≠ 0 ∧ d.find 0 ≠ none
  | .dmafree _ _ => True

instance (d : Dma) (call : DmaCall) : Decidable (d.Admits call) := by
  unfold Admits
  split <;> infer_instance

instance (d : Dma) (call : DmaCall) : Decidable (d.Good call) := by
  unfold Good
  split <;> infer_instance

/-- A call that returns an error leaves everything as it was, and after any call each address of a
live region translates to its place in the pinned memory. -/
def Keeps (d : Dma) (call : DmaCall) (next : Dma) : Prop :=
  (∀ size mem pmem, call = .dmalloc size mem pmem → (d.rumpcompPciDmalloc size mem pmem).2 ≠ 0 →
    next.allocated = d.allocated ∧ next.list = d.list) ∧
  ∀ e ∈ next.live, ∀ offset < e.size,
    next.rumpcompPciVirtToMach (e.vaddr + offset) = some (add offset e.paddr)

/-- The list holds the live regions, each once. -/
structure Inv (allocated live : List DmaEntry) (list : Nat → DmaEntry) : Prop where
  regions : ∀ e ∈ live, e.vaddr ≠ 0 ∧ 0 < e.size ∧ e.vaddr + e.size < 2 ^ 64 ∧ e ∈ allocated
  apart : live.Pairwise DmaEntry.Apart
  empty : ∀ i, (list i).vaddr = 0 → (list i).size = 0
  listed : ∀ e ∈ live, ∃ i, i < listLength ∧ list i = e
  held : ∀ i, (list i).vaddr ≠ 0 → list i ∈ live
  once : ∀ i j, (list i).vaddr ≠ 0 → (list i).vaddr = (list j).vaddr → i = j

theorem find_some {d : Dma} {vaddr i : Nat} (found : d.find vaddr = some i) :
    i < listLength ∧ (d.list i).vaddr = vaddr :=
  ⟨mem_range.mp (mem_of_find?_eq_some found), by simpa using find?_some found⟩

namespace Inv
variable {d : Dma} {allocated live : List DmaEntry} {list : Nat → DmaEntry}

/-- An address is in one live region. -/
theorem unique (inv : Inv allocated live list) {e f : DmaEntry} (mem : e ∈ live) (mem' : f ∈ live)
    {x : Nat} (holds : e.Holds x) (holds' : f.Holds x) : e = f := by
  by_contra ne
  have symm : Std.Symm DmaEntry.Apart := ⟨fun _ _ apart => apart.symm⟩
  have apart := inv.apart.forall mem mem' ne
  unfold DmaEntry.Apart DmaEntry.Holds at *
  omega

theorem translates (inv : Inv d.allocated d.live d.list) {e : DmaEntry} (mem : e ∈ d.live)
    {offset : Nat} (within : offset < e.size) :
    d.rumpcompPciVirtToMach (e.vaddr + offset) = some (MachineWord.add offset e.paddr) := by
  obtain ⟨-, -, fits, -⟩ := inv.regions e mem
  obtain ⟨i, less, at_⟩ := inv.listed e mem
  rw [rumpcompPciVirtToMach]
  cases found : (range listLength).find? fun i =>
    decide ((d.list i).vaddr ≤ e.vaddr + offset) &&
      decide (e.vaddr + offset < MachineWord.add (d.list i).vaddr (d.list i).size) with
  | none =>
    have here := find?_eq_none.mp found i (mem_range.mpr less)
    rw [at_, add_eq fits] at here
    simp [within] at here
  | some j =>
    have holds := find?_some found
    simp only [Bool.and_eq_true, decide_eq_true_eq] at holds
    have some : (d.list j).vaddr ≠ 0 := by
      intro zero
      rw [inv.empty j zero, zero] at holds
      exact absurd holds.2 (Nat.not_lt_zero _)
    have held := inv.held j some
    rw [add_eq (inv.regions _ held).2.2.1] at holds
    have same := inv.unique held mem holds ⟨by omega, by omega⟩
    rw [Option.map_some, same, sub_eq (by omega) (by omega), Nat.add_sub_cancel_left]

theorem add (inv : Inv allocated live list) {entry : DmaEntry} {i : Nat} (less : i < listLength)
    (free : (list i).vaddr = 0) (some : entry.vaddr ≠ 0) (size : 0 < entry.size)
    (fits : entry.vaddr + entry.size < 2 ^ 64) (apart : ∀ e ∈ allocated, entry.Apart e) :
    Inv (entry :: allocated) (entry :: live) (update list i entry) := by
  have fresh : ∀ j, (list j).vaddr ≠ entry.vaddr := by
    intro j same
    obtain ⟨-, size', -, was⟩ := inv.regions _ (inv.held j (same ▸ some))
    have away := apart _ was
    unfold DmaEntry.Apart at away
    omega
  constructor
  · intro e mem
    rcases mem_cons.mp mem with rfl | mem
    · exact ⟨some, size, fits, mem_cons_self⟩
    · obtain ⟨nonzero, size, fits, was⟩ := inv.regions e mem
      exact ⟨nonzero, size, fits, mem_cons_of_mem _ was⟩
  · exact pairwise_cons.mpr ⟨fun e mem => apart e (inv.regions e mem).2.2.2, inv.apart⟩
  · exact (forall_update_iff list fun _ e => e.vaddr = 0 → e.size = 0).mpr
      ⟨fun zero => absurd zero some, fun j _ => inv.empty j⟩
  · intro e mem
    rcases mem_cons.mp mem with rfl | mem
    · exact ⟨i, less, update_self ..⟩
    · obtain ⟨j, less', at_⟩ := inv.listed e mem
      refine ⟨j, less', (update_of_ne ?_ ..).trans at_⟩
      rintro rfl
      exact (inv.regions e mem).1 (at_ ▸ free)
  · exact (forall_update_iff list fun _ e => e.vaddr ≠ 0 → e ∈ entry :: live).mpr
      ⟨fun _ => mem_cons_self, fun j _ held => mem_cons_of_mem _ (inv.held j held)⟩
  · intro j k
    rw [update_apply, update_apply]
    split_ifs with here there there
    · exact fun _ _ => here.trans there.symm
    · exact fun _ same => absurd same.symm (fresh k)
    · exact fun _ same => absurd same (fresh j)
    · exact inv.once j k

theorem remove (inv : Inv allocated live list) {i : Nat} (held : (list i).vaddr ≠ 0) :
    Inv (allocated.filter fun e => e.vaddr ≠ (list i).vaddr)
      (live.filter fun e => e.vaddr ≠ (list i).vaddr) (update list i .none) := by
  constructor
  · intro e mem
    obtain ⟨mem, ne⟩ := mem_filter.mp mem
    obtain ⟨nonzero, size, fits, was⟩ := inv.regions e mem
    exact ⟨nonzero, size, fits, mem_filter.mpr ⟨was, ne⟩⟩
  · exact inv.apart.filter _
  · exact (forall_update_iff list fun _ e => e.vaddr = 0 → e.size = 0).mpr
      ⟨fun _ => rfl, fun j _ => inv.empty j⟩
  · intro e mem
    obtain ⟨mem, ne⟩ := mem_filter.mp mem
    obtain ⟨j, less, at_⟩ := inv.listed e mem
    refine ⟨j, less, (update_of_ne ?_ ..).trans at_⟩
    rintro rfl
    simp [at_] at ne
  · refine (forall_update_iff list fun _ e => e.vaddr ≠ 0 → e ∈ _).mpr
      ⟨fun some => absurd rfl some, fun j other held' => ?_⟩
    refine mem_filter.mpr ⟨inv.held j held', decide_eq_true ?_⟩
    exact fun same => other (inv.once j i held' same)
  · intro j k
    rw [update_apply, update_apply]
    split_ifs with here there there
    · exact fun some _ => absurd rfl some
    · exact fun some _ => absurd rfl some
    · exact fun some same => absurd same some
    · exact inv.once j k

end Inv

/-- All that `rumpcomp_pci_dmalloc` can do. -/
theorem dmalloc_cases (d : Dma) (size mem pmem : Nat) :
    (mem = 0 ∧ d.rumpcompPciDmalloc size mem pmem = (d, 1)) ∨
    (mem ≠ 0 ∧ ¬ (pmem ≠ 0 ∧ d.find 0 ≠ none) ∧ d.rumpcompPciDmalloc size mem pmem =
      ({ d with allocated := ⟨mem, pmem, size⟩ :: d.allocated }, 1)) ∨
    ∃ i, mem ≠ 0 ∧ pmem ≠ 0 ∧ d.find 0 = some i ∧ d.rumpcompPciDmalloc size mem pmem =
      ({ allocated := ⟨mem, pmem, size⟩ :: d.allocated, list := update d.list i ⟨mem, pmem, size⟩,
         live := ⟨mem, pmem, size⟩ :: d.live }, 0) := by
  have same : ∀ allocated, Dma.find { d with allocated := allocated } 0 = d.find 0 := fun _ => rfl
  rw [rumpcompPciDmalloc]
  dsimp only
  rw [same]
  cases found : d.find 0 <;> split_ifs <;> simp_all

/-- A run keeps the books exactly when every region that the manager allocates in it
can be pinned, and finds an entry free. -/
theorem dma_kept_iff (calls : List DmaCall) (allowed : Admissible Admits step calls Dma.init) :
    Each Keeps step calls Dma.init ↔ Admissible (fun d call => d.Admits call ∧ d.Good call) step calls
      Dma.init := by
  refine each_iff (fun d => Inv d.allocated d.live d.list) ?_ ?_ calls Dma.init ?_ allowed
  · intro d call inv allowed good
    cases call with
    | dmalloc size mem pmem =>
      rcases d.dmalloc_cases size mem pmem with ⟨-, ran⟩ | ⟨some, bad, -⟩ | ⟨i, some, -, found, ran⟩
      · refine ⟨d, by rw [step, ran], ⟨fun _ _ _ _ _ => ⟨rfl, rfl⟩, ?_⟩, inv⟩
        exact fun e mem offset within => inv.translates mem within
      · exact absurd (good some) bad
      · obtain ⟨size', fits, apart⟩ := allowed some
        obtain ⟨less, free⟩ := find_some found
        have after := inv.add less free some size' fits apart
        refine ⟨_, by rw [step, ran], ⟨?_, ?_⟩, after⟩
        · intro size' mem' pmem' is failed
          cases is
          rw [ran] at failed
          exact absurd rfl failed
        · exact fun e mem offset within => Inv.translates after mem within
    | dmafree mem size =>
      obtain ⟨e, live, rfl, -⟩ := allowed
      obtain ⟨j, less, at_⟩ := inv.listed e live
      cases found : d.find e.vaddr with
      | none =>
        have here := find?_eq_none.mp found j (mem_range.mpr less)
        simp [at_] at here
      | some i =>
        obtain ⟨-, same⟩ := find_some found
        have after := inv.remove (i := i) (same ▸ (inv.regions e live).1)
        rw [same] at after
        refine ⟨_, by rw [step, rumpcompPciDmafree, found], ⟨nofun, ?_⟩, after⟩
        exact fun e mem offset within => Inv.translates after mem within
  · intro d call next inv allowed bad stepped keeps
    cases call with
    | dmalloc size mem pmem =>
      rcases d.dmalloc_cases size mem pmem with ⟨null, -⟩ | ⟨-, -, ran⟩ | ⟨i, -, pinned, found, -⟩
      · exact bad fun some => absurd null some
      · cases stepped
        have same := (keeps.1 size mem pmem rfl (by rw [ran]; exact Nat.one_ne_zero)).1
        rw [ran] at same
        exact cons_ne_self _ _ same
      · exact bad fun _ => ⟨pinned, by rw [found]; nofun⟩
    | dmafree mem size => exact bad trivial
  · exact ⟨nofun, .nil, fun _ _ => rfl, nofun, fun _ some => absurd rfl some,
      fun _ _ some _ => absurd rfl some⟩

theorem dma_kept_two :
    Each Keeps step [.dmalloc 64 0x1000 0x9000, .dmalloc 64 0x2000 0x8000, .dmafree 0x1000 64]
      Dma.init :=
  (dma_kept_iff _ (by decide)).mpr (by decide)

/-- The region cannot be pinned: the call fails, and the region stays allocated. -/
theorem dmalloc_leaks_unpinned :
    Dma.init.rumpcompPciDmalloc 64 0x1000 0 = ({ Dma.init with allocated := [⟨0x1000, 0, 64⟩] }, 1) ∧
    ¬ Keeps Dma.init (.dmalloc 64 0x1000 0) (Dma.init.rumpcompPciDmalloc 64 0x1000 0).1 := by
  refine ⟨rfl, ?_⟩
  rintro ⟨unchanged, -⟩
  exact absurd (unchanged 64 0x1000 0 rfl (by decide)).1 (by decide)

end Dma
end Rumprun.Sel4
