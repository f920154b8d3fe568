import Rumprun.Core.Platform
import Rumprun.Lib.StackPrograms
import Rumprun.Lib.StepRuns

/-! # Interrupts on seL4

The rump threads share one seL4 thread, and two more seL4 threads deliver interrupts,
one those of the PCI bus and one those of the console. A binary semaphore stands for
the interrupt mask; `env.mask_the_mask` tells the spl functions that they are called
from the handler.

Each of the three threads moves one statement at a time. The scheduler's functions are
given by what they do to the mask; which way their branches go is left open. -/

namespace Rumprun.Sel4
open Core StackPrograms Function

abbrev Tid := Nat

inductive Irq where
  | pci
  | stdio
  deriving DecidableEq, Repr

def Irq.other : Irq → Irq
  | .pci => .stdio
  | .stdio => .pci

inductive Party where
  | main
  | irq (i : Irq)
  deriving DecidableEq, Repr

structure Env where
  spldepth : Nat
  maskTheMask : Bool
  splSemaphore : Option Party
  shouldWakeup : Bool
  /-- `timer_ntfn`, a sticky flag. -/
  timerNtfn : Bool
  deriving DecidableEq, Repr

/-! ## `bmk_platform_splhigh` and `bmk_platform_splx` -/

/-- The next statement inside the two functions. -/
inductive SplPc where
  | highMask
  | highDepth
  | highWait
  | highCount
  | lowMask
  | lowDepth
  | lowCount
  | lowPost
  deriving DecidableEq, Repr

/-- One statement, and the place after it, or `none` at the return. -/
def Env.splStep (env : Env) (party : Party) : SplPc → Except Stop (Env × Option SplPc)
  | .highMask => .ok (env, if env.maskTheMask = true then none else some .highDepth)
  | .highDepth => .ok (env, some (if env.spldepth = 0 then .highWait else .highCount))
  | .highWait => .ok ({ env with splSemaphore := some party }, some .highCount)
  | .highCount => .ok ({ env with spldepth := env.spldepth + 1 }, none)
  | .lowMask => .ok (env, if env.maskTheMask = true then none else some .lowDepth)
  | .lowDepth =>
    if env.spldepth = 0 then .error (.halt "out of interrupt depth!")
    else .ok (env, some .lowCount)
  | .lowCount =>
    let env := { env with spldepth := env.spldepth - 1 }
    .ok (env, if env.spldepth = 0 then some .lowPost else none)
  | .lowPost => .ok ({ env with splSemaphore := none }, none)

/-! ## The main side -/

inductive Instr where
  | splhigh
  | splx
  /-- `runq`, `timeq` or `blockq` are changed. -/
  | queues
  | runqEmpty
  | cpuBlock
  | setWakeup (value : Bool)
  | wait
  | switch
  /-- The thread is in its own code, between two operations. -/
  | caller
  /-- `schedule()` has returned for a thread that has exited. -/
  | dead
  deriving DecidableEq, Repr

section Operations
open Code Instr

/-- `bmk_sched_wake`, by `set_runnable`: nothing to do, or a move to `runq`. -/
def bmkSchedWake : Code Instr := either skip (all [prim splhigh, prim queues, prim splx])

def bmkSchedCreate : Code Instr := all [prim splhigh, prim queues, prim splx]

def bmkSchedBlockprepare : Code Instr := all [prim splhigh, prim queues, prim splx]

/-- It returns when it is too late to wait, when the timer cannot be set, or after a wait. -/
def bmkPlatformCpuBlock : Code Instr :=
  all [prim cpuBlock, either skip (either (all [prim splx, prim splhigh])
    (all [prim (setWakeup true), prim splx, prim wait, prim (setWakeup false), prim splhigh]))]

def schedule : Code Instr :=
  all [prim splhigh, loop (all [loop bmkSchedWake, prim runqEmpty, bmkPlatformCpuBlock]),
    loop bmkSchedWake, prim queues, prim splx, either skip (prim switch)]

def bmkSchedBlock : Code Instr := schedule

def bmkSchedYield : Code Instr := all [prim splhigh, prim queues, prim splx, schedule]

def bmkSchedJoin : Code Instr :=
  all [prim splhigh, loop (all [prim splx, bmkSchedBlockprepare, bmkSchedBlock, prim splhigh]),
    prim splx, bmkSchedWake]

def bmkSchedExit : Code Instr :=
  all [prim splhigh,
    loop (all [prim splx, either skip bmkSchedWake, bmkSchedBlockprepare, bmkSchedBlock, prim splhigh]),
    prim splx, schedule, prim dead]

def operation : Code Instr :=
  either bmkSchedCreate (either bmkSchedBlockprepare (either bmkSchedBlock
    (either bmkSchedWake (either bmkSchedYield bmkSchedJoin))))

/-- Some code that calls the operations. -/
def calls : Code Instr := all [loop (all [prim caller, operation]), prim caller]

def threadBody : Code Instr := all [calls, bmkSchedExit]

def doisr : Code Instr :=
  all [calls, prim splhigh,
    loop (all [prim splx, calls, prim splhigh, prim splx, calls, prim splhigh,
      either skip (all [bmkSchedBlockprepare, prim splx, bmkSchedBlock, prim splhigh])])]

end Operations

/-- The rump threads; `spl` is the place in one of the spl functions, if the running thread is in
one. -/
structure MainSide where
  current : Tid
  stack : Tid → List (Code Instr)
  spl : Option SplPc

/-! ## The interrupt threads -/

/-- The next statement of `wait_for_pci_interrupt`, `wait_for_stdio_interrupt`, `rump_irq_handle`
and `isr`. -/
inductive IrqPc where
  | starting
  | waiting
  | semWait
  | depthCheck
  | wakeCheck
  | wakeSignal
  | maskSet
  | isrRecord
  | isrWake
  | isrHigh (pc : SplPc)
  | isrQueues
  | isrLow (pc : SplPc)
  | semPost
  | maskClear
  deriving DecidableEq, Repr

namespace IrqPc

def inIsr : IrqPc → Bool
  | .isrRecord => true
  | .isrWake => true
  | .isrHigh _ => true
  | .isrQueues => true
  | .isrLow _ => true
  | _ => false

/-- The place has `spl_semaphore`. -/
def holds : IrqPc → Bool
  | .starting => false
  | .waiting => false
  | .semWait => false
  | .maskClear => false
  | _ => true

/-- The next statement is `sync_bin_sem_wait`. -/
def waitsSem : IrqPc → Bool
  | .semWait => true
  | .isrHigh .highWait => true
  | _ => false

/-- The next statement is `env.mask_the_mask = 0`. -/
def clears : IrqPc → Bool
  | .starting => true
  | .maskClear => true
  | _ => false

end IrqPc

structure Machine where
  env : Env
  main : MainSide
  irq : Irq → IrqPc
  /-- An interrupt has put a thread on `runq` since the main side last found it empty. -/
  woken : Bool

namespace Machine

def setStack (m : Machine) (stack : List (Code Instr)) : Machine :=
  { m with main := { m.main with stack := update m.main.stack m.main.current stack } }

theorem setStack_self (m : Machine) (stack : List (Code Instr)) :
    (m.setStack stack).main.stack (m.setStack stack).main.current = stack := update_self ..

theorem setStack_of_ne (m : Machine) (stack : List (Code Instr)) {t : Tid}
    (apart : t ≠ m.main.current) : (m.setStack stack).main.stack t = m.main.stack t :=
  update_of_ne apart ..

def goto (m : Machine) (i : Irq) (pc : IrqPc) : Machine :=
  { m with irq := update m.irq i pc }

def exec (m : Machine) (to_ : Tid) : Instr → Except Stop Machine
  | .splhigh => .ok { m with main := { m.main with spl := some .highMask } }
  | .splx => .ok { m with main := { m.main with spl := some .lowMask } }
  | .queues => .ok m
  | .runqEmpty => .ok { m with woken := false }
  | .cpuBlock => do
    bmkAssert (0 < m.env.spldepth) "env.spldepth > 0"
    return m
  | .setWakeup value => .ok { m with env := { m.env with shouldWakeup := value } }
  | .wait => .ok { m with env := { m.env with timerNtfn := false } }
  | .switch => .ok { m with main := { m.main with current := to_ } }
  | .caller => .ok m
  | .dead => .error (.halt "schedule() returned for a dead thread!\n")

def mainStep (m : Machine) (choice : Bool) (to_ : Tid) : Except Stop Machine :=
  match m.main.spl with
  | some pc => do
    let (env, spl) ← m.env.splStep .main pc
    return { m with env := env, main := { m.main with spl := spl } }
  | none =>
    match next choice (m.main.stack m.main.current) with
    | none => .error (.undefined "the thread has come to its end")
    | some (none, rest) => .ok (m.setStack rest)
    | some (some instr, rest) => (m.setStack rest).exec to_ instr

def irqStep (m : Machine) (i : Irq) (choice : Bool) : Except Stop Machine :=
  match m.irq i with
  | .starting => .ok ({ m with env := { m.env with maskTheMask := false } }.goto i .waiting)
  | .waiting => .ok (m.goto i .semWait)
  | .semWait =>
    .ok ({ m with env := { m.env with splSemaphore := some (.irq i) } }.goto i .depthCheck)
  | .depthCheck =>
    if m.env.spldepth ≠ 0 then
      .error (.halt "spldepth should be 0.  This thread should be blocked.")
    else .ok (m.goto i .wakeCheck)
  | .wakeCheck => .ok (m.goto i (if m.env.shouldWakeup = true then .wakeSignal else .maskSet))
  | .wakeSignal => .ok ({ m with env := { m.env with timerNtfn := true } }.goto i .maskSet)
  | .maskSet => .ok ({ m with env := { m.env with maskTheMask := true } }.goto i .isrRecord)
  | .isrRecord => .ok (m.goto i .isrWake)
  -- `set_runnable` of the isr thread: it is runnable or runs, or it is moved
  | .isrWake => .ok (m.goto i (if choice = true then .isrHigh .highMask else .semPost))
  | .isrHigh pc => do
    let (env, spl) ← m.env.splStep (.irq i) pc
    return { m with env := env }.goto i (match spl with
      | some pc => .isrHigh pc
      | none => .isrQueues)
  | .isrQueues => .ok ({ m with woken := true }.goto i (.isrLow .lowMask))
  | .isrLow pc => do
    let (env, spl) ← m.env.splStep (.irq i) pc
    return { m with env := env }.goto i (match spl with
      | some pc => .isrLow pc
      | none => .semPost)
  | .semPost => .ok ({ m with env := { m.env with splSemaphore := none } }.goto i .maskClear)
  | .maskClear => .ok ({ m with env := { m.env with maskTheMask := false } }.goto i .waiting)

/-- The running rump thread is about to run, or runs, this instruction. -/
def At (m : Machine) (instr : Instr) : Prop :=
  m.main.spl = none ∧ ∃ rest, m.main.stack m.main.current = .prim instr :: rest

/-- Not in `seL4_Wait`, nor blocked on the semaphore. -/
def Runnable (m : Machine) (i : Irq) : Prop :=
  m.irq i ≠ .waiting ∧ ((m.irq i).waitsSem = true → m.env.splSemaphore = none)

end Machine

inductive MachineEvent where
  | main (choice : Bool) (to_ : Tid)
  | irq (i : Irq) (choice : Bool)
  /-- The timer server signals. -/
  | timer
  deriving DecidableEq, Repr

namespace Machine

def step (m : Machine) : MachineEvent → Except Stop Machine
  | .main choice to_ => m.mainStep choice to_
  | .irq i choice => m.irqStep i choice
  | .timer => .ok { m with env := { m.env with timerNtfn := true } }

/-- A semaphore that is taken and a notification that is clear block. -/
def Enabled (m : Machine) : MachineEvent → Prop
  | .main _ _ => (m.main.spl = some .highWait → m.env.splSemaphore = none) ∧
      (m.At .wait → m.env.timerNtfn = true)
  | .irq i _ => (m.irq i).waitsSem = true → m.env.splSemaphore = none
  | .timer => True

/-- The main side runs when no interrupt thread can. -/
def Scheduled (m : Machine) : MachineEvent → Prop
  | .main _ _ => ∀ i, ¬ m.Runnable i
  | _ => True

def Admits (m : Machine) (event : MachineEvent) : Prop := m.Enabled event ∧ m.Scheduled event

/-- The instruction that a stack starts with. -/
def topInstr : List (Code Instr) → Option Instr
  | .prim instr :: _ => some instr
  | _ => none

theorem topInstr_eq {stack : List (Code Instr)} {instr : Instr} :
    topInstr stack = some instr ↔ ∃ rest, stack = .prim instr :: rest := by
  constructor
  · intro is
    cases stack with
    | nil => cases is
    | cons code rest =>
      cases code with
      | prim instr => cases is; exact ⟨rest, rfl⟩
      | _ => cases is
  · rintro ⟨rest, rfl⟩
    rfl

instance decidableAt (m : Machine) (instr : Instr) : Decidable (m.At instr) :=
  decidable_of_iff (m.main.spl = none ∧ topInstr (m.main.stack m.main.current) = some instr)
    (and_congr_right fun _ => topInstr_eq)

instance decidableRunnable (m : Machine) (i : Irq) : Decidable (m.Runnable i) :=
  inferInstanceAs (Decidable (_ ∧ (_ → _)))

instance decidableEnabled (m : Machine) : ∀ event, Decidable (m.Enabled event) := by
  intro event
  unfold Enabled
  split <;> infer_instance

instance decidableScheduled (m : Machine) : ∀ event, Decidable (m.Scheduled event)
  | .main _ _ =>
    decidable_of_iff (¬ m.Runnable .pci ∧ ¬ m.Runnable .stdio)
      ⟨fun both i => by cases i; exacts [both.1, both.2], fun all => ⟨all .pci, all .stdio⟩⟩
  | .irq _ _ => .isTrue trivial
  | .timer => .isTrue trivial

instance decidableAdmits (m : Machine) (event : MachineEvent) : Decidable (m.Admits event) :=
  inferInstanceAs (Decidable (_ ∧ _))

/-- One thread runs, the interrupt threads are up. -/
def boot (main isr : Tid) : Machine :=
  { env := {
      spldepth := 0
      maskTheMask := false
      splSemaphore := none
      shouldWakeup := false
      timerNtfn := false }
    main := {
      current := main
      stack := update (fun _ => [threadBody]) isr [doisr]
      spl := none }
    irq := fun
      | .pci => .starting
      | .stdio => .waiting
    woken := false }

end Machine
end Rumprun.Sel4
