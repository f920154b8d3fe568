import Rumprun.Sel4.SplBalance

/-! # Delivering interrupts one at a time

`rump_irq_handle` clears `env.mask_the_mask` after it has given the semaphore back, so
one interrupt thread can clear it when the other is inside `isr()` already; and
`wait_for_pci_interrupt` clears it when it starts. -/

namespace Rumprun.Sel4
open StackPrograms StepRuns Machine
variable {i : Irq} {env env' : Env} {woken woken' : Bool} {place pc : IrqPc}
namespace Machine

/-- `env.mask_the_mask` is not cleared under an interrupt thread that is inside `isr()`. -/
def KeepsMask (m : Machine) : MachineEvent → Prop
  | .irq i _ => (m.irq i).clears = true → (m.irq i.other).inIsr = false
  | _ => True

def AdmitsKept (m : Machine) (event : MachineEvent) : Prop := m.Admits event ∧ m.KeepsMask event

instance decidableKeepsMask (m : Machine) : ∀ event, Decidable (m.KeepsMask event) := by
  intro event
  induction event using MachineEvent.casesOn <;> dsimp only [KeepsMask] <;> infer_instance

instance decidableAdmitsKept (m : Machine) (event : MachineEvent) : Decidable (m.AdmitsKept event) :=
  inferInstanceAs (Decidable (_ ∧ _))

end Machine

structure InterruptsExcluded (m : Machine) : Prop where
  masked : ∀ i, (m.irq i).inIsr = true → m.env.maskTheMask = true
  unmasked : (∀ i, ¬ m.Runnable i) → m.env.maskTheMask = false
  mainQueues : m.At .queues → ∀ i, m.irq i ≠ .isrQueues
  irqQueues : ∀ i, m.irq i = .isrQueues → m.irq i.other ≠ .isrQueues
  shallow : ∀ i choice, m.irqStep i choice ≠
    .error (.halt "spldepth should be 0.  This thread should be blocked.")
  apart : ∀ i, (m.irq i).waitsSem = true → m.env.splSemaphore ≠ some (.irq i)

/-! ## The invariant -/

/-- The places of an interrupt thread that finds the mask masked. -/
def IrqPc.straight : IrqPc → Bool
  | .isrHigh .highMask => true
  | .isrHigh _ => false
  | .isrLow .lowMask => true
  | .isrLow _ => false
  | _ => true

structure MaskInv (m : Machine) : Prop where
  spl : SplInv m
  masked : ∀ i, (m.irq i).inIsr = true → m.env.maskTheMask = true
  straight : ∀ i, (m.irq i).straight = true

theorem Irq.eq_other {j : Irq} (apart : j ≠ i) : j = i.other := by
  cases i <;> cases j <;> simp_all [Irq.other]

section
variable (move : IrqMove i env woken place env' woken' pc)
include move

/-- Where the mask's mask stays set, the thread takes the short way through the spl functions. -/
theorem IrqMove.straight (was : place.straight = true)
    (masked : place.inIsr = true → env.maskTheMask = true) : pc.straight = true := by
  cases move with
  -- inside `isr()` the mask is masked
  | unmasked clear => rw [masked rfl] at clear; cases clear
  | expose clear => rw [masked rfl] at clear; cases clear
  | stuck => cases was
  | _ => rfl

theorem IrqMove.mask_kept (keeps : place.clears = false) :
    env'.maskTheMask = true ∨
      env'.maskTheMask = env.maskTheMask ∧ (pc.inIsr = true → place.inIsr = true) := by
  cases move with
  | start | clear => cases keeps
  | mask => exact .inl rfl
  | _ => exact .inr ⟨rfl, by decide⟩

theorem IrqMove.mask_cleared (clears : place.clears = true) :
    env'.maskTheMask = false ∧ pc.inIsr = false := by
  cases move with
  | start | clear => exact ⟨rfl, rfl⟩
  | _ => cases clears

end
namespace MaskInv
variable {m next : Machine}

theorem irqMoved (inv : MaskInv m) {i : Irq} {env : Env} {woken : Bool} {pc : IrqPc}
    (keeps : (m.irq i).clears = true → (m.irq i.other).inIsr = false)
    (move : IrqMove i m.env m.woken (m.irq i) env woken pc) : MaskInv (m.irqMoved i env woken pc) := by
  refine ⟨inv.spl.irqMoved move, ?_, ?_⟩
  · intro j inside
    by_cases here : j = i
    · subst here
      have lands : pc.inIsr = true := by simpa [Machine.irqMoved] using inside
      cases clears : (m.irq j).clears with
      | true =>
        rw [(move.mask_cleared clears).2] at lands
        cases lands
      | false =>
        rcases move.mask_kept clears with set | ⟨same, from_⟩
        · exact set
        · exact same.trans (inv.masked j (from_ lands))
    · have stays : (m.irq j).inIsr = true := by simpa [Machine.irqMoved, here] using inside
      cases clears : (m.irq i).clears with
      | true =>
        rw [Irq.eq_other here, keeps clears] at stays
        cases stays
      | false =>
        rcases move.mask_kept clears with set | ⟨same, -⟩
        · exact set
        · exact same.trans (inv.masked j stays)
  · intro j
    by_cases here : j = i
    · subst here
      simpa [Machine.irqMoved] using move.straight (inv.straight j) (inv.masked j)
    · simpa [Machine.irqMoved, here] using inv.straight j

theorem mainStep_mask {choice : Bool} {to_ : Tid} (ran : m.mainStep choice to_ = .ok next) :
    next.irq = m.irq ∧ next.env.maskTheMask = m.env.maskTheMask := by
  rcases mainStep_cases ran with ⟨pc, env, spl, -, stepped, is⟩ | ⟨rest, -, -, is⟩ |
    ⟨instr, rest, -, -, stepped⟩
  · rw [is]
    refine ⟨rfl, ?_⟩
    cases pc with
    | lowDepth =>
      rw [Env.splStep] at stepped
      split at stepped
      · cases stepped
      · cases stepped; rfl
    | _ => cases stepped; rfl
  · rw [is]
    exact ⟨rfl, rfl⟩
  · obtain ⟨irq, -, -, mask, -⟩ := exec_frame stepped
    exact ⟨irq, mask⟩

theorem step (inv : MaskInv m) {event : MachineEvent} (allowed : m.AdmitsKept event)
    (ran : m.step event = .ok next) : MaskInv next := by
  obtain ⟨admitted, keeps⟩ := allowed
  have spl := inv.spl.step admitted ran
  cases event with
  | main choice to_ =>
    obtain ⟨irq, mask⟩ := mainStep_mask ran
    refine ⟨spl, ?_, ?_⟩
    · rw [irq, mask]
      exact inv.masked
    · rw [irq]
      exact inv.straight
  | irq i choice =>
    obtain ⟨env, woken, pc, move, is⟩ := inv.spl.sem.irqStep_cases admitted.1 ran
    rw [is]
    exact inv.irqMoved keeps move
  | timer =>
    cases ran
    exact ⟨spl, inv.masked, inv.straight⟩

theorem boot (main isr : Tid) : MaskInv (boot main isr) := by
  refine ⟨SplInv.boot main isr, ?_, ?_⟩
  · intro i
    cases i <;> nofun
  · intro i
    cases i <;> rfl

/-! ## What follows from it -/

variable (inv : MaskInv m)
include inv

theorem mainQueues (at_ : m.At .queues) (i : Irq) : m.irq i ≠ .isrQueues := by
  intro inside
  obtain ⟨d, deep, -⟩ := inv.spl.at_depth at_
  have mine := inv.spl.sem.deep deep
  have theirs := (inv.spl.sem.irqs i).mpr (by rw [inside]; rfl)
  rw [mine] at theirs
  cases theirs

theorem irqQueues (i : Irq) (inside : m.irq i = .isrQueues) : m.irq i.other ≠ .isrQueues := by
  intro other
  have one := (inv.spl.sem.irqs i).mpr (by rw [inside]; rfl)
  have two := (inv.spl.sem.irqs i.other).mpr (by rw [other]; rfl)
  rw [one] at two
  cases i <;> cases two

theorem shallow (i : Irq) (choice : Bool) :
    m.irqStep i choice ≠ .error (.halt "spldepth should be 0.  This thread should be blocked.") := by
  have straight := inv.straight i
  have zero := inv.spl.sem.shallow (i := i)
  rw [irqStep]
  cases place : m.irq i with
  | depthCheck =>
    rw [place] at zero
    simp [zero rfl]
  | isrHigh pc =>
    rw [place] at straight
    cases pc with
    | highMask => intro stops; cases stops
    | _ => cases straight
  | isrLow pc =>
    rw [place] at straight
    cases pc with
    | lowMask => intro stops; cases stops
    | _ => cases straight
  | _ => intro stops; cases stops

theorem apart (i : Irq) (waits : (m.irq i).waitsSem = true) : m.env.splSemaphore ≠ some (.irq i) := by
  intro mine
  have holds := (inv.spl.sem.irqs i).mp mine
  have straight := inv.straight i
  cases place : m.irq i with
  | semWait => rw [place] at holds; cases holds
  | isrHigh pc =>
    rw [place] at straight waits
    cases pc with
    | highMask => cases waits
    | _ => cases straight
  | _ => rw [place] at waits; cases waits

theorem excluded : InterruptsExcluded m where
  masked := inv.masked
  unmasked := inv.spl.unmasked
  mainQueues := inv.mainQueues
  irqQueues := inv.irqQueues
  shallow := inv.shallow
  apart := inv.apart

end MaskInv

/-! ## The runs -/

theorem Machine.unmasks {m next : Machine} {event : MachineEvent} (breaks : ¬ m.KeepsMask event)
    (ran : m.step event = .ok next) : ¬ InterruptsExcluded next := by
  intro excluded
  cases event with
  | main | timer => exact breaks trivial
  | irq i choice =>
    rw [Machine.KeepsMask, Classical.not_imp, Bool.not_eq_false] at breaks
    obtain ⟨clears, inside⟩ := breaks
    have cleared : next = { m with env := { m.env with maskTheMask := false } }.goto i .waiting := by
      rw [step, irqStep] at ran
      cases place : m.irq i with
      | starting | maskClear => rw [place] at ran; exact (Except.ok.inj ran).symm
      | _ => rw [place] at clears; cases clears
    have other : i.other ≠ i := by cases i <;> decide
    have set := excluded.masked i.other (by simpa [cleared, goto, other] using inside)
    rw [cleared] at set
    cases set

/-- The console's interrupt is delivered while that of the bus is past `sync_bin_sem_post`: the
mask's mask is cleared under it, and it waits for the semaphore that it has. -/
def overlapRun : List MachineEvent :=
  List.replicate 9 (.irq .pci false) ++ List.replicate 6 (.irq .stdio false) ++
    [.irq .pci false] ++ List.replicate 3 (.irq .stdio true)

theorem mask_cleared_inside_isr :
    Admissible Machine.Admits Machine.step overlapRun (Machine.boot 1 9) ∧
      ∃ final ∈ (run Machine.step overlapRun (Machine.boot 1 9)).toOption,
        (final.irq .stdio).inIsr = true ∧ final.env.maskTheMask = false ∧
          (final.irq .stdio).waitsSem = true ∧ final.env.splSemaphore = some (.irq .stdio) := by
  decide +kernel

/-- Interrupts are delivered one at a time in every run in which `env.mask_the_mask` is not
cleared under an interrupt thread inside `isr()`, and no longer once it is. -/
theorem interrupts_excluded (main isr : Tid) :
    (∀ events final, Admissible Machine.AdmitsKept Machine.step events (Machine.boot main isr) →
      run Machine.step events (Machine.boot main isr) = .ok final → InterruptsExcluded final) ∧
    ∀ (m : Machine) event next, ¬ m.KeepsMask event → m.step event = .ok next →
      ¬ InterruptsExcluded next := by
  refine ⟨?_, fun m event next breaks ran => unmasks breaks ran⟩
  intro events final allowed ran
  have reached : MaskInv final := run_reaches
    (fun _ _ _ inv admitted stepped => inv.step admitted stepped)
    events _ final (MaskInv.boot main isr) allowed ran
  exact reached.excluded

/-- One interrupt after the other, the second inside the first one's mask. -/
def deliverRun : List MachineEvent :=
  List.replicate 7 (.irq .pci false) ++ [.irq .stdio false] ++ List.replicate 4 (.irq .pci true)

theorem interrupts_excluded_two :
    ∃ final, run Machine.step deliverRun (Machine.boot 1 9) = .ok final ∧
      InterruptsExcluded final ∧ final.irq .pci = .semPost ∧ final.irq .stdio = .semWait := by
  have evaluated : Admissible Machine.AdmitsKept step deliverRun (boot 1 9) ∧
      ∃ final ∈ (run step deliverRun (boot 1 9)).toOption,
        final.irq .pci = .semPost ∧ final.irq .stdio = .semWait := by
    decide +kernel
  obtain ⟨allowed, final, reached, there⟩ := evaluated
  have ran := eq_ok_of_mem reached
  exact ⟨final, ran, (interrupts_excluded 1 9).1 deliverRun final allowed ran, there⟩

end Rumprun.Sel4
