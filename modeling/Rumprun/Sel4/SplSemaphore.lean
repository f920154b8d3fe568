import Rumprun.Sel4.SplMachine

/-! # Who has the semaphore

However the three threads are interleaved: `spl_semaphore` is with the interrupt
thread that is between its wait and its post, and `spldepth` is above 0 only while
the main side has it. So no interrupt thread counts `spldepth`. -/

namespace Rumprun.Sel4
open Core StackPrograms Function Machine

/-- The places that an interrupt thread can get to: `spldepth` is 0 while it has the semaphore. -/
def IrqPc.plain : IrqPc → Bool
  | .isrHigh .highMask => true
  | .isrHigh .highDepth => true
  | .isrHigh .highWait => true
  | .isrHigh _ => false
  | .isrLow .lowMask => true
  | .isrLow .lowDepth => true
  | .isrLow _ => false
  | _ => true

/-- What the main side's place in an spl function says of the semaphore. -/
def SplPc.Fits (env : Env) : SplPc → Prop
  | .highCount => env.splSemaphore = some .main
  | .lowCount => 0 < env.spldepth
  | .lowPost => env.splSemaphore = some .main ∧ env.spldepth = 0
  | _ => True

structure SemInv (m : Machine) : Prop where
  irqs : ∀ i, m.env.splSemaphore = some (.irq i) ↔ (m.irq i).holds = true
  plain : ∀ i, (m.irq i).plain = true
  deep : 0 < m.env.spldepth → m.env.splSemaphore = some .main
  place : ∀ pc, m.main.spl = some pc → pc.Fits m.env
  taken : m.env.splSemaphore = some .main →
    0 < m.env.spldepth ∨ m.main.spl = some .highCount ∨ m.main.spl = some .lowPost

/-! ## What the steps change -/

namespace Machine
variable {m next : Machine}

theorem mainStep_cases {choice : Bool} {to_ : Tid} (ran : m.mainStep choice to_ = .ok next) :
    (∃ pc env spl, m.main.spl = some pc ∧ m.env.splStep .main pc = .ok (env, spl) ∧
        next = { m with env := env, main := { m.main with spl := spl } }) ∨
      (∃ rest, m.main.spl = none ∧
        StackPrograms.next choice (m.main.stack m.main.current) = some (none, rest) ∧
        next = m.setStack rest) ∨
      ∃ instr rest, m.main.spl = none ∧
        StackPrograms.next choice (m.main.stack m.main.current) = some (some instr, rest) ∧
        (m.setStack rest).exec to_ instr = .ok next := by
  rw [mainStep] at ran
  cases spl : m.main.spl with
  | some pc =>
    rw [spl] at ran
    obtain ⟨⟨env, after⟩, stepped, ran⟩ := bind_eq_ok ran
    cases ran
    exact .inl ⟨pc, env, after, rfl, stepped, rfl⟩
  | none =>
    rw [spl] at ran
    dsimp only at ran
    cases stepped : StackPrograms.next choice (m.main.stack m.main.current) with
    | none => rw [stepped] at ran; cases ran
    | some pair =>
      obtain ⟨instr, rest⟩ := pair
      rw [stepped] at ran
      cases instr with
      | none =>
        cases ran
        exact .inr (.inl ⟨rest, rfl, rfl, rfl⟩)
      | some instr => exact .inr (.inr ⟨instr, rest, rfl, rfl, ran⟩)

theorem exec_frame {to_ : Tid} {instr : Instr} (ran : m.exec to_ instr = .ok next) :
    next.irq = m.irq ∧ next.env.splSemaphore = m.env.splSemaphore ∧
      next.env.spldepth = m.env.spldepth ∧ next.env.maskTheMask = m.env.maskTheMask ∧
      next.main.spl = (match instr with
        | .splhigh => some .highMask
        | .splx => some .lowMask
        | _ => m.main.spl) := by
  cases instr with
  | cpuBlock =>
    rw [exec] at ran
    obtain ⟨-, -, ran⟩ := bind_eq_ok ran
    cases ran
    exact ⟨rfl, rfl, rfl, rfl, rfl⟩
  | dead => cases ran
  | splhigh | splx | queues | runqEmpty | setWakeup | wait | switch
  | caller => cases ran; exact ⟨rfl, rfl, rfl, rfl, rfl⟩

end Machine

/-- The statements of an interrupt thread that has the semaphore to itself: what they do to the
environment and to `woken`, and the next one. -/
inductive IrqMove (i : Irq) (env : Env) (woken : Bool) : IrqPc → Env → Bool → IrqPc → Prop
  | start : IrqMove i env woken .starting { env with maskTheMask := false } woken .waiting
  | notified : IrqMove i env woken .waiting env woken .semWait
  | take (free : env.splSemaphore = none) :
      IrqMove i env woken .semWait { env with splSemaphore := some (.irq i) } woken .depthCheck
  | depth : IrqMove i env woken .depthCheck env woken .wakeCheck
  | asked (idle : env.shouldWakeup = true) : IrqMove i env woken .wakeCheck env woken .wakeSignal
  | unasked (busy : env.shouldWakeup = false) : IrqMove i env woken .wakeCheck env woken .maskSet
  | signal : IrqMove i env woken .wakeSignal { env with timerNtfn := true } woken .maskSet
  | mask : IrqMove i env woken .maskSet { env with maskTheMask := true } woken .isrRecord
  | record : IrqMove i env woken .isrRecord env woken .isrWake
  | ready : IrqMove i env woken .isrWake env woken .semPost
  | blocked : IrqMove i env woken .isrWake env woken (.isrHigh .highMask)
  | masked (set : env.maskTheMask = true) :
      IrqMove i env woken (.isrHigh .highMask) env woken .isrQueues
  | unmasked (clear : env.maskTheMask = false) :
      IrqMove i env woken (.isrHigh .highMask) env woken (.isrHigh .highDepth)
  | stuck : IrqMove i env woken (.isrHigh .highDepth) env woken (.isrHigh .highWait)
  | queues : IrqMove i env woken .isrQueues env true (.isrLow .lowMask)
  | restore (set : env.maskTheMask = true) :
      IrqMove i env woken (.isrLow .lowMask) env woken .semPost
  | expose (clear : env.maskTheMask = false) :
      IrqMove i env woken (.isrLow .lowMask) env woken (.isrLow .lowDepth)
  | post : IrqMove i env woken .semPost { env with splSemaphore := none } woken .maskClear
  | clear : IrqMove i env woken .maskClear { env with maskTheMask := false } woken .waiting

def Machine.irqMoved (m : Machine) (i : Irq) (env : Env) (woken : Bool) (pc : IrqPc) : Machine :=
  { m with env := env, woken := woken, irq := update m.irq i pc }

namespace SemInv
variable {m next : Machine} {i : Irq} {choice woken : Bool} {env : Env} {pc : IrqPc}

theorem shallow (inv : SemInv m) (holds : (m.irq i).holds = true) : m.env.spldepth = 0 := by
  have mine := (inv.irqs i).mpr holds
  by_contra deep
  rw [inv.deep (pos_of_ne_zero deep)] at mine
  cases mine

theorem irqStep_cases (inv : SemInv m) (enabled : m.Enabled (.irq i choice))
    (ran : m.irqStep i choice = .ok next) :
    ∃ env woken pc, IrqMove i m.env m.woken (m.irq i) env woken pc ∧
      next = m.irqMoved i env woken pc := by
  have plain := inv.plain i
  have shallow := inv.shallow (i := i)
  have mine := (inv.irqs i).mpr
  rw [irqStep] at ran
  rw [Machine.Enabled] at enabled
  cases place : m.irq i with
  | starting => rw [place] at ran; cases ran; exact ⟨_, _, _, .start, rfl⟩
  | waiting => rw [place] at ran; cases ran; exact ⟨_, _, _, .notified, rfl⟩
  | semWait =>
    rw [place] at ran enabled
    cases ran
    exact ⟨_, _, _, .take (enabled rfl), rfl⟩
  | depthCheck =>
    rw [place] at ran
    dsimp only at ran
    split at ran
    · cases ran
    · cases ran
      exact ⟨_, _, _, .depth, rfl⟩
  | wakeCheck =>
    rw [place] at ran
    cases ran
    cases asked : m.env.shouldWakeup with
    | true => exact ⟨_, _, _, .asked asked, rfl⟩
    | false => exact ⟨_, _, _, .unasked asked, rfl⟩
  | wakeSignal => rw [place] at ran; cases ran; exact ⟨_, _, _, .signal, rfl⟩
  | maskSet => rw [place] at ran; cases ran; exact ⟨_, _, _, .mask, rfl⟩
  | isrRecord => rw [place] at ran; cases ran; exact ⟨_, _, _, .record, rfl⟩
  | isrWake =>
    rw [place] at ran
    cases ran
    cases choice with
    | true => exact ⟨_, _, _, .blocked, rfl⟩
    | false => exact ⟨_, _, _, .ready, rfl⟩
  | isrHigh pc =>
    rw [place] at ran plain enabled shallow mine
    cases pc with
    | highMask =>
      cases ran
      cases mask : m.env.maskTheMask with
      | true => exact ⟨_, _, _, .masked mask, rfl⟩
      | false => exact ⟨_, _, _, .unmasked mask, rfl⟩
    | highDepth =>
      cases ran
      rw [if_pos (shallow rfl)]
      exact ⟨_, _, _, .stuck, rfl⟩
    | highWait =>
      -- it waits for itself
      rw [mine rfl] at enabled
      cases enabled rfl
    | highCount | lowMask | lowDepth | lowCount | lowPost => cases plain
  | isrQueues => rw [place] at ran; cases ran; exact ⟨_, _, _, .queues, rfl⟩
  | isrLow pc =>
    rw [place] at ran plain shallow
    cases pc with
    | lowMask =>
      cases ran
      cases mask : m.env.maskTheMask with
      | true => exact ⟨_, _, _, .restore mask, rfl⟩
      | false => exact ⟨_, _, _, .expose mask, rfl⟩
    | lowDepth =>
      obtain ⟨pair, stepped, -⟩ := bind_eq_ok ran
      rw [Env.splStep, if_pos (shallow rfl)] at stepped
      cases stepped
    | lowCount | lowPost | highMask | highDepth | highWait | highCount => cases plain
  | semPost => rw [place] at ran; cases ran; exact ⟨_, _, _, .post, rfl⟩
  | maskClear => rw [place] at ran; cases ran; exact ⟨_, _, _, .clear, rfl⟩

/-! ## The steps -/

theorem fits_congr {env' : Env} (sem : env'.splSemaphore = env.splSemaphore)
    (depth : env'.spldepth = env.spldepth) {pc : SplPc} (fits : pc.Fits env) : pc.Fits env' := by
  cases pc <;> simp_all [SplPc.Fits]

section
variable (inv : SemInv m)
include inv

theorem irq_keep (sem : env.splSemaphore = m.env.splSemaphore)
    (depth : env.spldepth = m.env.spldepth) (holds : pc.holds = (m.irq i).holds)
    (plain : pc.plain = true) : SemInv (m.irqMoved i env woken pc) := by
  obtain ⟨irqs, plains, deep, place, taken⟩ := inv
  refine ⟨?_, ?_, ?_, ?_, ?_⟩
  · intro j
    dsimp only [irqMoved]
    rw [sem, irqs j]
    by_cases here : j = i
    · rw [here, update_self, holds]
    · rw [update_of_ne here]
  · intro j
    dsimp only [irqMoved]
    by_cases here : j = i
    · rw [here, update_self, plain]
    · rw [update_of_ne here, plains j]
  · dsimp only [irqMoved]
    rw [sem, depth]
    exact deep
  · intro spl is
    exact fits_congr sem depth (place spl is)
  · dsimp only [irqMoved]
    rw [sem, depth]
    exact taken

theorem irq_owns {sem : Option Party} (was : m.env.splSemaphore ≠ some .main)
    (is : sem ≠ some .main) (plain : pc.plain = true)
    (irqs : ∀ j, sem = some (.irq j) ↔ (update m.irq i pc j).holds = true) :
    SemInv (m.irqMoved i { m.env with splSemaphore := sem } m.woken pc) := by
  have shallow : m.env.spldepth = 0 := by
    by_contra deep
    exact was (inv.deep (pos_of_ne_zero deep))
  refine ⟨irqs, ?_, ?_, ?_, fun mine => absurd mine is⟩
  · intro j
    dsimp only [irqMoved]
    by_cases here : j = i
    · rw [here, update_self, plain]
    · rw [update_of_ne here, inv.plain j]
  · intro deep
    dsimp only [irqMoved] at deep
    omega
  · intro spl at_
    have fits := inv.place spl at_
    cases spl with
    | highCount => exact absurd fits was
    | lowPost => exact absurd fits.1 was
    | lowCount => exact fits
    | highMask | highDepth | highWait | lowMask | lowDepth => trivial

theorem irqMoved (move : IrqMove i m.env m.woken (m.irq i) env woken pc) :
    SemInv (m.irqMoved i env woken pc) := by
  generalize at_ : m.irq i = place at move
  cases move with
  | take free =>
    apply inv.irq_owns (by simp [free]) (by simp) rfl
    intro j
    by_cases here : j = i
    · simp [here, IrqPc.holds]
    · have was := inv.irqs j
      rw [free] at was
      rw [update_of_ne here, ← was]
      simp [Ne.symm here]
  | post =>
    have mine := (inv.irqs i).mpr (by rw [at_]; rfl)
    apply inv.irq_owns (by simp [mine]) (by simp) rfl
    intro j
    by_cases here : j = i
    · simp [here, IrqPc.holds]
    · have was := inv.irqs j
      rw [mine] at was
      rw [update_of_ne here, ← was]
      simp [Ne.symm here]
  | _ => exact inv.irq_keep rfl rfl (by rw [at_]; rfl) rfl

theorem splStep {pc : SplPc} {spl : Option SplPc} (at_ : m.main.spl = some pc)
    (free : pc = .highWait → m.env.splSemaphore = none)
    (ran : m.env.splStep .main pc = .ok (env, spl)) :
    SemInv { m with env := env, main := { m.main with spl := spl } } := by
  obtain ⟨irqs, plain, deep, place, taken⟩ := inv
  have fits := place pc at_
  rw [at_] at taken
  cases pc with
  | highMask | lowMask =>
    cases ran
    refine ⟨irqs, plain, deep, ?_, fun mine => .inl (by simpa using taken mine)⟩
    intro spl is
    dsimp only at is
    split at is
    · cases is
    · cases is; trivial
  | highDepth =>
    cases ran
    refine ⟨irqs, plain, deep, ?_, fun mine => .inl (by simpa using taken mine)⟩
    intro spl is
    dsimp only at is
    split at is
    · cases is; trivial
    · next deeper => cases is; exact deep (pos_of_ne_zero deeper)
  | highWait =>
    cases ran
    refine ⟨?_, plain, fun _ => rfl, ?_, fun _ => .inr (.inl rfl)⟩
    · intro i
      have was := irqs i
      rw [free rfl] at was
      rw [← was]
      simp
    · intro spl is
      cases is
      rfl
  | highCount =>
    cases ran
    exact ⟨irqs, plain, fun _ => fits, nofun, fun _ => .inl (Nat.succ_pos _)⟩
  | lowDepth =>
    rw [Env.splStep] at ran
    split at ran
    · cases ran
    · next deeper =>
        cases ran
        refine ⟨irqs, plain, deep, ?_, fun mine => .inl (by simpa using taken mine)⟩
        intro spl is
        cases is
        exact pos_of_ne_zero deeper
  | lowCount =>
    cases ran
    have mine := deep fits
    refine ⟨irqs, plain, fun _ => mine, ?_, ?_⟩
    · intro spl is
      dsimp only at is
      split at is
      · next zero => cases is; exact ⟨mine, zero⟩
      · cases is
    · intro _
      dsimp only
      split
      · exact .inr (.inr rfl)
      · next deeper => exact .inl (pos_of_ne_zero deeper)
  | lowPost =>
    cases ran
    obtain ⟨mine, zero⟩ := fits
    refine ⟨?_, plain, ?_, nofun, fun is => by cases is⟩
    · intro i
      have was := irqs i
      rw [mine] at was
      rw [← was]
      simp
    · intro deeper
      dsimp only at deeper
      omega

theorem mainStep {to_ : Tid} (enabled : m.Enabled (.main choice to_))
    (ran : m.mainStep choice to_ = .ok next) : SemInv next := by
  rcases mainStep_cases ran with ⟨pc, env, spl, at_, stepped, is⟩ | ⟨rest, at_, -, is⟩ |
    ⟨instr, rest, at_, -, stepped⟩
  · rw [is]
    refine inv.splStep at_ ?_ stepped
    intro waits
    exact enabled.1 (by rw [at_, waits])
  · rw [is]
    exact ⟨inv.irqs, inv.plain, inv.deep, inv.place, inv.taken⟩
  · obtain ⟨irq, sem, depth, -, spl⟩ := exec_frame stepped
    obtain ⟨irqs, plain, deep, place, taken⟩ := inv
    rw [at_] at taken
    refine ⟨?_, ?_, ?_, ?_, ?_⟩
    · rw [sem, irq]
      exact irqs
    · rw [irq]
      exact plain
    · rw [sem, depth]
      exact deep
    · intro pc is
      rw [spl] at is
      cases instr <;> simp [setStack, at_] at is <;> subst is <;> trivial
    · intro mine
      rw [sem] at mine
      have deeper : 0 < m.env.spldepth := by simpa using taken mine
      rw [depth]
      exact .inl deeper

theorem step {event : MachineEvent} (enabled : m.Enabled event) (ran : m.step event = .ok next) :
    SemInv next := by
  cases event with
  | main choice to_ => exact inv.mainStep enabled ran
  | irq i choice =>
    obtain ⟨env, woken, pc, move, is⟩ := inv.irqStep_cases enabled ran
    rw [is]
    exact inv.irqMoved move
  | timer =>
    cases ran
    exact ⟨inv.irqs, inv.plain, inv.deep, fun pc is => fits_congr rfl rfl (inv.place pc is), inv.taken⟩

end

theorem boot (main isr : Tid) : SemInv (Machine.boot main isr) where
  irqs := by
    intro i
    cases i <;> simp [Machine.boot, IrqPc.holds]
  plain := by
    intro i
    cases i <;> rfl
  deep := fun deep => absurd deep (lt_irrefl 0)
  place := nofun
  taken := nofun

end SemInv
end Rumprun.Sel4
