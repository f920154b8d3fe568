import Rumprun.Core.ServiceThreads

/-! # Wait queues and semaphores on Xen, `mini-os/wait.h` and `mini-os/semaphore.h`

Any number of threads in `minios_wait_event_deadline` on one queue, with a condition
on data that interrupt handlers change before they call `minios_wake_up`. A
semaphore is the case of a count, whose `up` is such a handler. The code is cut where
interrupts are enabled. -/

namespace Rumprun.Xen
open Core Scheduler Function

/-- Who uses `minios_wait_event_deadline`. -/
inductive WaitCall where
  | waitEvent (deadline : Int)
  | down
  deriving DecidableEq, Repr

def WaitCall.deadline : WaitCall → Int
  | .waitEvent deadline => deadline
  | .down => inftime

/-- Where a thread is in `minios_wait_event_deadline`: before the test of the condition; after a
test that failed; on the queue, with its sleep prepared; in `bmk_sched_block`; back from there
with its result; behind the loop. A thread in `down` comes to `taking` after that. -/
inductive WaitPlace where
  | outside
  | testing (call : WaitCall)
  | tested (call : WaitCall)
  | prepared (call : WaitCall)
  | asleep (call : WaitCall)
  | woken (call : WaitCall) (result : Nat)
  | leaving (call : WaitCall)
  | taking
  deriving DecidableEq, Repr

def WaitPlace.stage : WaitPlace → Stage
  | .outside => .working
  | .prepared _ => .prepared
  | .asleep _ => .asleep
  | _ => .own

/-- A `struct wait_queue` is on the stack of the thread that waits, so the thread names it;
`waiting` is its field. -/
structure EventSys (σ : Type) where
  sys : System
  data : σ
  queue : List Tid
  waiting : Tid → Bool
  place : Tid → WaitPlace

namespace EventSys
variable {σ : Type}

def current (s : EventSys σ) : Tid := s.sys.sched.current

def goto (s : EventSys σ) (place : WaitPlace) : EventSys σ :=
  { s with place := update s.place s.current place }

def defineWait (s : EventSys σ) : EventSys σ :=
  { s with waiting := update s.waiting s.current false }

def miniosAddWaitQueue (s : EventSys σ) : EventSys σ :=
  if s.waiting s.current = false then
    { s with
      queue := s.current :: s.queue
      waiting := update s.waiting s.current true }
  else s

def miniosRemoveWaitQueue (s : EventSys σ) : Except Stop (EventSys σ) :=
  if s.waiting s.current = true then do
    let queue ← tailqRemove s.queue s.current
    return { s with queue := queue, waiting := update s.waiting s.current false }
  else .ok s

def wakeLoop : List Tid → System → Except Stop System
  | [], sys => .ok sys
  | curr :: rest, sys => do wakeLoop rest (← sys.step (.interrupt curr))

def miniosWakeUp (s : EventSys σ) : Except Stop (EventSys σ) := do
  return { s with sys := ← wakeLoop s.queue s.sys }

/-- The current thread goes on to the next place; `take` is what `down` does to the data. -/
def go (ready : σ → Bool) (take : σ → σ) (s : EventSys σ) : Except Stop (EventSys σ) :=
  match s.place s.current with
  | .testing call => .ok (s.goto (if ready s.data = true then .leaving call else .tested call))
  | .tested call => do
    let s := s.miniosAddWaitQueue
    let sys ← s.sys.call (.blockprepareTimeout call.deadline)
    return { s.goto (.prepared call) with sys := sys }
  | .prepared call => do
    let sys ← s.sys.call .block
    return { s.goto (.asleep call) with sys := sys }
  | .woken call result => .ok (s.goto (if result ≠ 0 then .leaving call else .testing call))
  | .leaving (.waitEvent _) => do return (← s.miniosRemoveWaitQueue).goto .outside
  | .leaving .down => do return (← s.miniosRemoveWaitQueue).goto .taking
  | .taking =>
    if ready s.data = true then .ok ({ s with data := take s.data }.goto .outside)
    else .ok (s.defineWait.goto (.testing .down))
  | _ => .error (.undefined "the thread does not wait for the condition")

/-- What the scheduler does. A thread leaves `bmk_sched_block` with `ETIMEDOUT` or with 0. -/
def sched (s : EventSys σ) (event : Event) : Except Stop (EventSys σ) := do
  let sys ← s.sys.step event
  match event, s.place s.current with
  | .advance, .asleep call =>
    let result :=
      if (s.sys.sched.thread s.current).flags.timedout = true then etimedout else 0
    return { s.goto (.woken call result) with sys := sys }
  | _, _ => return { s with sys := sys }

end EventSys

inductive WaitEvent (σ : Type) where
  | waitEvent (deadline : Int)
  | down
  | go
  /-- A handler changes the data and calls `minios_wake_up`. -/
  | handler (f : σ → σ)
  /-- Some code changes the data, and does not. -/
  | change (f : σ → σ)
  | sched (event : Event)

namespace EventSys
variable {σ : Type} (ready : σ → Bool) (take : σ → σ)

def step (s : EventSys σ) : WaitEvent σ → Except Stop (EventSys σ)
  | .waitEvent deadline => .ok (s.defineWait.goto (.testing (.waitEvent deadline)))
  | .down => .ok (s.defineWait.goto (.testing .down))
  | .go => s.go ready take
  | .handler f => { s with data := f s.data }.miniosWakeUp
  | .change f => .ok { s with data := f s.data }
  | .sched event => s.sched event

/-- The running thread is in its own code, and not in a wait. -/
def Outside (s : EventSys σ) : Prop :=
  s.sys.pc s.current = .active .caller ∧ s.place s.current = .outside

/-- Whoever makes the condition true wakes the queue after that. A thread that waits calls the
scheduler in no other way. -/
def Admits (s : EventSys σ) : WaitEvent σ → Prop
  | .waitEvent _ => s.Outside
  | .down => s.Outside
  | .go => s.place s.current ≠ .outside ∧ (s.place s.current).stage ≠ .asleep
  | .handler _ => True
  | .change f => ready (f s.data) = true → ready s.data = true
  | .sched (.call op) => s.sys.AdmitsOp op ∧ s.place s.current = .outside
  | .sched event => s.sys.Admits event

instance Outside.decidable (s : EventSys σ) : Decidable s.Outside :=
  inferInstanceAs (Decidable (_ ∧ _))

instance decidableAdmits (s : EventSys σ) : ∀ event, Decidable (s.Admits ready event) := by
  intro event
  unfold Admits
  split <;> infer_instance

def init (sys : System) (data : σ) : EventSys σ :=
  { sys := sys
    data := data
    queue := []
    waiting := fun _ => false
    place := fun _ => .outside }

end EventSys

/-! ## Semaphores -/

/-- The condition of `down` on `sem->count`. -/
def semReady (count : Int) : Bool := decide (0 < count)

/-- What `down` and `trydown` do to a count that is not 0. -/
def semTake (count : Int) : Int := count - 1

def up : WaitEvent Int := .handler (· + 1)

def trydown : WaitEvent Int := .change fun count => if 0 < count then semTake count else count

end Rumprun.Xen
