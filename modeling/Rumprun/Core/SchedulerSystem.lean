import Rumprun.Core.SchedulerQueues
import Rumprun.Lib.StepRuns

/-! # Threads running on the scheduler

A system is the scheduler's data with a place in the code for every thread. One
event is one step of the current thread, one turn of the loop of `schedule()`, or
an interrupt handler that wakes a thread, which may come between any two steps. What
the callers promise is `Admits`. -/

namespace Rumprun.Core.Scheduler
open Function

/-- Who called `bmk_sched_block`. -/
inductive Site where
  | caller
  | join (joinable : Tid)
  | exit
  deriving DecidableEq, Repr

/-- What a running thread does next. -/
inductive Activity where
  | caller
  | joinTest (joinable : Tid)
  | joinRegister (joinable : Tid)
  | joinPrepare (joinable : Tid)
  | joinUnlink (joinable : Tid)
  | joinWake (joinable : Tid)
  | exitTest
  | exitSignal
  | exitPrepare
  deriving DecidableEq, Repr

/-- Where a thread is: it has not run yet; it runs and is on no queue; it has called
`bmk_sched_blockprepare`; it is in `schedule()`, called from `bmk_sched_block` or
`bmk_sched_yield`; it has been switched to and returns from there; it is in its last
`schedule()`, or there is no such thread. -/
inductive Pc where
  | virgin
  | active (activity : Activity)
  | prepared (site : Site)
  | blocking (site : Site)
  | resumed (site : Site)
  | yielding
  | yielded
  | gone
  deriving DecidableEq, Repr

inductive Op where
  | create (t : Tid) (joinable : Bool) (stackBase stackSize pages tlsarea : Nat)
  | createWithtls (t : Tid) (joinable : Bool) (stackBase stackSize pages tlsarea : Nat)
  | blockprepareTimeout (deadline : Int)
  | block
  | wake (t : Tid)
  | yield
  | join (joinable : Tid)
  | exitWithtls
  | exit
  deriving DecidableEq, Repr

inductive Event where
  | call (op : Op)
  | advance
  | turn (curtime : Int)
  | interrupt (t : Tid)
  /-- Some code, not the scheduler's, gets a block from `bmk_memalloc` or gives one back. -/
  | memalloc (block : Nat)
  | memfree (block : Nat)
  deriving DecidableEq, Repr

/-- Whom a heap block was handed to: `bmk_sched_tls_alloc` for a thread, or another caller. -/
inductive Owner where
  | tls (thread : Tid)
  | caller
  deriving DecidableEq, Repr

inductive LogEntry where
  | created (thread : Tid)
  | exited (thread : Tid) (extstack : Bool)
  /-- The reaper, in the context of thread `reaper` on stack `stack`, frees a struct or a stack;
  `victim` is the struct as it was then. -/
  | freed (what : Freed) (victim : Thread) (reaper : Tid) (stack : Nat)
  | joinReturned (joinable : Tid)
  deriving DecidableEq

structure System where
  sched : Sched
  pc : Tid → Pc
  /-- Created joinable; of these, the ones not yet given to `bmk_sched_join`. -/
  joinable : Tid → Bool
  unjoined : Tid → Bool
  /-- Created by `bmk_sched_create`, which allocates the TLS block. -/
  ownTls : Tid → Bool
  heap : Nat → Option Owner
  log : List LogEntry

def Freed.victim : Freed → Tid
  | .stack t _ => t
  | .thread t => t

namespace System

def noSuchStep : Except Stop System := .error (.undefined "the thread is not there")

/-- The current thread goes on at `next` with the scheduler in state `sched`. -/
def goto (sys : System) (sched : Sched) (next : Pc) : System :=
  { sys with sched := sched, pc := update sys.pc sys.sched.current next }

def createThread (sys : System) (ownTls : Bool) (t : Tid) (joinable : Bool)
    (stackBase stackSize pages tlsarea : Nat) : Except Stop System := do
  let sched ← sys.sched.bmkSchedCreateWithtls t joinable stackBase stackSize pages tlsarea
  return { sys with
    sched := sched
    pc := update sys.pc t .virgin
    joinable := update sys.joinable t joinable
    unjoined := update sys.unjoined t joinable
    ownTls := update sys.ownTls t ownTls
    log := .created t :: sys.log }

def call (sys : System) : Op → Except Stop System
  | .create t joinable stackBase stackSize pages tlsarea => do
    -- `bmk_sched_tls_alloc` comes first
    let sys := { sys with heap := update sys.heap tlsarea (some (.tls t)) }
    sys.createThread true t joinable stackBase stackSize pages tlsarea
  | .createWithtls t joinable stackBase stackSize pages tlsarea =>
    sys.createThread false t joinable stackBase stackSize pages tlsarea
  | .blockprepareTimeout deadline => do
    return sys.goto (← sys.sched.bmkSchedBlockprepareTimeout deadline) (.prepared .caller)
  | .block => do return sys.goto (← sys.sched.bmkSchedBlock) (.blocking .caller)
  | .wake t => do return { sys with sched := ← sys.sched.bmkSchedWake t }
  | .yield => do return sys.goto (← sys.sched.bmkSchedYield) .yielding
  | .join joinable => do
    let sys := { sys with unjoined := update sys.unjoined joinable false }
    return sys.goto (← sys.sched.bmkSchedJoin joinable) (.active (.joinTest joinable))
  | .exitWithtls => return sys.goto sys.sched (.active .exitTest)
  | .exit => do
    let thread ← sys.sched.deref sys.sched.current
    -- `bmk_sched_tls_free`
    let sys := { sys with heap := update sys.heap thread.tp none }
    return sys.goto sys.sched (.active .exitTest)

def returnTo : Site → Pc
  | .caller => .active .caller
  | .join joinable => .active (.joinUnlink joinable)
  | .exit => .active .exitTest

/-- The reaper, in the context of the current thread. -/
def reap (sys : System) : Except Stop System := do
  let (sched, freed) ← sys.sched.reaper
  let reaper := sys.sched.current
  let stack := (sys.sched.thread reaper).stackbase
  return { sys with
    sched := sched
    log := (freed.map fun what =>
      .freed what (sys.sched.thread what.victim) reaper stack).reverse ++ sys.log }

/-- The current thread goes on inside `bmk_sched_join`, the exit path or after a switch. -/
def advance (sys : System) : Except Stop System :=
  match sys.pc sys.sched.current with
  | .active (.joinTest joinable) => do
    let (sched, seen) ← sys.sched.joinTest joinable
    return sys.goto sched
      (.active (if seen = true then .joinWake joinable else .joinRegister joinable))
  | .active (.joinRegister joinable) =>
    return sys.goto (sys.sched.joinRegister joinable) (.active (.joinPrepare joinable))
  | .active (.joinPrepare joinable) => do
    return sys.goto (← sys.sched.bmkSchedBlockprepare) (.prepared (.join joinable))
  | .prepared (.join joinable) => do
    return sys.goto (← sys.sched.bmkSchedBlock) (.blocking (.join joinable))
  | .active (.joinUnlink joinable) => do
    return sys.goto (← sys.sched.joinUnlink joinable) (.active (.joinTest joinable))
  | .active (.joinWake joinable) => do
    let sys := { sys with log := .joinReturned joinable :: sys.log }
    return sys.goto (← sys.sched.bmkSchedWake joinable) (.active .caller)
  | .active .exitTest => do
    let (sched, wait) ← sys.sched.exitTest
    if wait = true then return sys.goto sched (.active .exitSignal)
    else
      let extstack := (sched.thread sched.current).flags.extstack
      let sys := { sys with log := .exited sched.current extstack :: sys.log }
      return sys.goto (← sched.exitDie) .gone
  | .active .exitSignal => do
    return sys.goto (← sys.sched.exitSignal) (.active .exitPrepare)
  | .active .exitPrepare => do
    return sys.goto (← sys.sched.bmkSchedBlockprepare) (.prepared .exit)
  | .prepared .exit => do return sys.goto (← sys.sched.bmkSchedBlock) (.blocking .exit)
  | .resumed site => do
    let sys ← sys.reap
    let (sched, _) ← sys.sched.bmkSchedBlockReturn
    return sys.goto sched (returnTo site)
  | .yielded => do
    let sys ← sys.reap
    return sys.goto sys.sched (.active .caller)
  | _ => noSuchStep

/-- Where a thread goes on when it is switched to. -/
def resume : Pc → Except Stop Pc
  | .virgin => .ok (.active .caller)
  | .blocking site => .ok (.resumed site)
  | .yielding => .ok .yielded
  | .gone => .error (.halt "schedule() returned for a dead thread!\n")
  | _ => .error (.undefined "the thread is not in schedule()")

/-- One turn of the loop of `schedule()`, called by the current thread. -/
def turn (sys : System) (curtime : Int) : Except Stop System := do
  let (sched, turn) ← sys.sched.scheduleTurn curtime
  match turn with
  | .block _ => return { sys with sched := sched }
  | .run next => do
    let sched ← sched.scheduleCommit next
    let pc ← resume (sys.pc next)
    return { sys with sched := sched, pc := update sys.pc next pc }

/-- The thread is in the loop of `schedule()`, or switched away from there. -/
def inSchedule : Pc → Bool
  | .blocking _ => true
  | .yielding => true
  | .gone => true
  | _ => false

def step (sys : System) : Event → Except Stop System
  | .call op => sys.call op
  | .advance => sys.advance
  | .turn curtime => sys.turn curtime
  | .interrupt t => do return { sys with sched := ← sys.sched.bmkSchedWake t }
  | .memalloc block =>
    return { sys with heap := update sys.heap block (some .caller) }
  | .memfree block => return { sys with heap := update sys.heap block none }

def NotDead (sys : System) (t : Tid) : Prop :=
  sys.sched.live t = true ∧ (sys.sched.thread t).flags.dead = false

/-- A create gets fresh memory, and comes with no stack size unless it comes with a stack. -/
def AdmitsCreate (sys : System) (t : Tid) (stackBase stackSize : Nat) : Prop :=
  sys.sched.live t = false ∧ (stackBase = 0 → stackSize = 0)

/-- The promises for the operations. Between a `blockprepare` and its `block` a thread only
creates and wakes threads. -/
def AdmitsOp (sys : System) : Op → Prop
  | .create t _ stackBase stackSize _ tlsarea =>
    (sys.pc sys.sched.current = .active .caller ∨ sys.pc sys.sched.current = .prepared .caller) ∧
    sys.AdmitsCreate t stackBase stackSize ∧ sys.heap tlsarea = none
  | .createWithtls t _ stackBase stackSize _ _ =>
    (sys.pc sys.sched.current = .active .caller ∨ sys.pc sys.sched.current = .prepared .caller) ∧
    sys.AdmitsCreate t stackBase stackSize
  | .blockprepareTimeout _ => sys.pc sys.sched.current = .active .caller
  | .block => sys.pc sys.sched.current = .prepared .caller
  | .wake t =>
    (sys.pc sys.sched.current = .active .caller ∨
      sys.pc sys.sched.current = .prepared .caller) ∧ sys.NotDead t
  | .yield => sys.pc sys.sched.current = .active .caller
  | .join joinable =>
    sys.pc sys.sched.current = .active .caller ∧ sys.unjoined joinable = true
  | .exitWithtls => sys.pc sys.sched.current = .active .caller
  | .exit => sys.pc sys.sched.current = .active .caller

/-- The thread is inside `bmk_sched_join` or the exit path, or has just been switched to. -/
def advancing : Pc → Bool
  | .active .caller => false
  | .active _ => true
  | .prepared .caller => false
  | .prepared _ => true
  | .resumed _ => true
  | .yielded => true
  | _ => false

def Admits (sys : System) : Event → Prop
  | .call op => sys.AdmitsOp op
  | .advance => advancing (sys.pc sys.sched.current) = true
  | .turn _ => inSchedule (sys.pc sys.sched.current) = true
  | .interrupt t => sys.NotDead t
  | .memalloc block => sys.heap block = none
  | .memfree block => sys.heap block = some .caller

instance decidableNotDead (sys : System) (t : Tid) : Decidable (sys.NotDead t) :=
  inferInstanceAs (Decidable (_ ∧ _))

instance decidableAdmitsCreate (sys : System) (t stackBase stackSize : Nat) :
    Decidable (sys.AdmitsCreate t stackBase stackSize) :=
  inferInstanceAs (Decidable (_ ∧ (_ → _)))

instance decidableAdmitsOp (sys : System) : ∀ op, Decidable (sys.AdmitsOp op) := by
  intro event
  unfold AdmitsOp
  split <;> infer_instance

instance decidableAdmits (sys : System) : ∀ event, Decidable (sys.Admits event) := by
  intro event
  unfold Admits
  split <;> infer_instance

/-- After `bmk_sched_startmain`: the main thread runs on its stack, with its TLS block. -/
def start (main stack stackSize tlsarea : Nat) : Except Stop System := do
  let sched ← Sched.boot.bmkSchedStartmain main stack stackSize tlsarea
  return {
    sched := sched
    pc := update (fun _ => .gone) main (.active .caller)
    joinable := fun _ => false
    unjoined := fun _ => false
    ownTls := update (fun _ => false) main true
    heap := update (fun _ => none) tlsarea (some (.tls main))
    log := [.created main] }

end System
end Rumprun.Core.Scheduler
