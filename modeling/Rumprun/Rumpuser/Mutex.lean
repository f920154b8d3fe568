import Rumprun.Rumpuser.WaitQueue

/-! # Mutexes and condition variables

One mutex of `rumpuser_synch.c` and one condition variable used with it, by any
number of threads. Calls are cut where they call into the rump kernel and at the
`bmk_sched_block` of `wait`; between the pieces a thread may block on anything else.
Nothing in the code reads `owners` and `returns`. -/

namespace Rumprun.Rumpuser
open Core Scheduler

structure Mtx where
  v : Int
  /-- A `struct lwp *`, with 0 for `NULL`. -/
  o : Nat
  bmkO : Option Tid
  /-- `RUMPUSER_MTX_KMUTEX` and `RUMPUSER_MTX_SPIN` of `flags`. -/
  kmutex : Bool
  spin : Bool
  deriving DecidableEq, Repr

inductive MtxHead where
  | mtx
  | cv
  deriving DecidableEq, Repr

inductive CvCall where
  | wait
  | waitNowrap
  | timedwait (sec nsec : Int)
  deriving DecidableEq, Repr

/-- The second argument of `wait`. -/
def CvCall.wakeup : CvCall → Int
  | .wait => inftime
  | .waitNowrap => inftime
  | .timedwait sec nsec => toTime (sec * (1000 * 1000 * 1000) + nsec)

/-- Where a thread is in the code of the mutex and the condition variable. -/
inductive MtxPhase where
  | outside
  /-- `rumpuser_mutex_enter`: in `rumpkern_unsched`, in `wait`, in `rumpkern_sched`. -/
  | enterUnsched
  | enterWaiting
  | enterSched
  /-- The waits: in `rumpkern_unsched`, in `wait`; in `rumpkern_sched` before the mutex is
  entered again, or after. -/
  | cvUnsched (call : CvCall)
  | cvWaiting (call : CvCall)
  | cvSched (call : CvCall) (result : Nat)
  | cvRelocked (call : CvCall) (result : Nat)
  deriving DecidableEq, Repr

/-- A return from one of the waits, with the owners of the mutex at that time. -/
structure CvReturn where
  thread : Tid
  call : CvCall
  result : Nat
  owners : List Tid
  deriving DecidableEq, Repr

structure MtxSys where
  queues : WaitSys MtxHead
  mtx : Mtx
  nwaiters : Int
  phase : Tid → MtxPhase
  owners : List Tid
  returns : List CvReturn

namespace MtxSys
variable (curlwp : Tid → Nat)

def current (s : MtxSys) : Tid := s.queues.current

def setPhase (s : MtxSys) (phase : MtxPhase) : MtxSys :=
  { s with phase := Function.update s.phase s.current phase }

def mutexTryenter (s : MtxSys) : Except Stop (MtxSys × Int) :=
  if s.mtx.bmkO = some s.current then
    .error (.halt "rumpuser mutex: locking against myself")
  else if s.mtx.v ≠ 0 then .ok (s, ebusy)
  else
    .ok ({ s with
      mtx := { s.mtx with v := 1, o := curlwp s.current, bmkO := some s.current }
      owners := s.current :: s.owners }, 0)

def mutexEnterNowrap (s : MtxSys) : Except Stop MtxSys := do
  let (s, result) ← s.mutexTryenter curlwp
  if result ≠ 0 then .error (.halt "rumpuser mutex error") else return s

/-- `rumpuser_mutex_enter` up to its call of `rumpkern_unsched`. -/
def mutexEnter (s : MtxSys) : Except Stop MtxSys := do
  let (s, result) ← s.mutexTryenter curlwp
  return if result ≠ 0 then s.setPhase .enterUnsched else s

/-- The current thread starts a `wait`. -/
def sleepOn (s : MtxSys) (wh : MtxHead) (wakeup monotonic : Int) (phase : MtxPhase) :
    Except Stop MtxSys := do
  let queues ← s.queues.waitStart wh wakeup monotonic
  return { s with queues := queues, phase := Function.update s.phase s.current phase }

/-- One turn of the loop of `rumpuser_mutex_enter`. -/
def mutexRetry (s : MtxSys) : Except Stop MtxSys := do
  let (s, result) ← s.mutexTryenter curlwp
  if result ≠ 0 then s.sleepOn .mtx inftime 0 .enterWaiting else return s.setPhase .enterSched

def mutexExit (s : MtxSys) : Except Stop MtxSys := do
  bmkAssert (s.mtx.v = 1) "mtx->v == 1"
  let queues ← s.queues.wakeupOne .mtx
  return { s with
    mtx := { s.mtx with v := 0, o := 0, bmkO := none }
    owners := s.owners.erase s.current
    queues := queues }

theorem mutexExit_eq {s : MtxSys} {queues : WaitSys MtxHead} (held : s.mtx.v = 1)
    (woken : s.queues.wakeupOne .mtx = .ok queues) :
    s.mutexExit = .ok { s with
      mtx := { s.mtx with v := 0, o := 0, bmkO := none }
      owners := s.owners.erase s.current
      queues := queues } := by
  rw [mutexExit, bmkAssert_bind _ (decide_eq_true held), woken]
  rfl

/-- The mutex is given up, and the thread goes to sleep. -/
def cvSleep (s : MtxSys) (call : CvCall) (monotonic : Int) : Except Stop MtxSys := do
  let s ← s.mutexExit
  s.sleepOn .cv call.wakeup monotonic (.cvWaiting call)

/-- `rumpuser_cv_wait`, `rumpuser_cv_wait_nowrap` and `rumpuser_cv_timedwait` up to their first
call that may block. -/
def cvWait (s : MtxSys) (call : CvCall) : Except Stop MtxSys := do
  let s := { s with nwaiters := ← increment s.nwaiters }
  match call with
  | .waitNowrap => s.cvSleep call 0
  | call => .ok (s.setPhase (.cvUnsched call))

def cvReturn (s : MtxSys) (call : CvCall) (result : Nat) : MtxSys :=
  { s.setPhase .outside with
    nwaiters := s.nwaiters - 1
    returns := { thread := s.current, call := call, result := result, owners := s.owners } ::
      s.returns }

/-- The waits after their `wait` has returned. -/
def cvResched (s : MtxSys) (call : CvCall) (result : Nat) : Except Stop MtxSys :=
  match call with
  | .waitNowrap => do
    let s ← s.mutexEnterNowrap curlwp
    return s.cvReturn call result
  | call =>
    if s.mtx.kmutex = true ∧ s.mtx.spin = true then .ok (s.setPhase (.cvSched call result))
    else do
      let s ← s.mutexEnterNowrap curlwp
      return s.setPhase (.cvRelocked call result)

/-- The thread goes on where it is; `monotonic` is the time. -/
def resume (s : MtxSys) (monotonic : Int) : Except Stop MtxSys :=
  match s.phase s.current with
  | .outside => .error (.undefined "the thread is not in a lock")
  | .enterUnsched => s.mutexRetry curlwp
  | .enterWaiting => do
    let (queues, _) ← s.queues.waitReturn
    { s with queues := queues }.mutexRetry curlwp
  | .enterSched => .ok (s.setPhase .outside)
  | .cvUnsched call => s.cvSleep call monotonic
  | .cvWaiting call => do
    let (queues, result) ← s.queues.waitReturn
    { s with queues := queues }.cvResched curlwp call result
  | .cvSched call result => do
    let s ← s.mutexEnterNowrap curlwp
    return s.cvReturn call result
  | .cvRelocked call result => .ok (s.cvReturn call result)

end MtxSys

inductive MtxEvent where
  | enter
  | enterNowrap
  | tryenter
  | exit
  | cvWait (call : CvCall)
  | cvSignal
  | cvBroadcast
  | resume (monotonic : Int)
  | sched (event : Event)
  deriving DecidableEq, Repr

namespace MtxSys
variable (curlwp : Tid → Nat)

def step (s : MtxSys) : MtxEvent → Except Stop MtxSys
  | .enter => s.mutexEnter curlwp
  | .enterNowrap => s.mutexEnterNowrap curlwp
  | .tryenter => (s.mutexTryenter curlwp).map Prod.fst
  | .exit => s.mutexExit
  | .cvWait call => s.cvWait call
  | .cvSignal => do return { s with queues := ← s.queues.wakeupOne .cv }
  | .cvBroadcast => do return { s with queues := ← s.queues.wakeupAll .cv }
  | .resume monotonic => s.resume curlwp monotonic
  | .sched event => do return { s with queues := ← s.queues.sched event }

def Runs (s : MtxSys) : Prop := s.queues.sys.pc s.current = .active .caller

/-- Lock discipline: nobody enters twice, gives up what it does not have, or waits without it. An
`int` can count those who wait. -/
def Admits (s : MtxSys) : MtxEvent → Prop
  | .enter => s.Runs ∧ s.phase s.current = .outside ∧ s.current ∉ s.owners
  | .enterNowrap => s.Runs ∧ s.phase s.current = .outside ∧ s.current ∉ s.owners
  | .tryenter => s.Runs ∧ s.phase s.current = .outside ∧ s.current ∉ s.owners
  | .exit => s.Runs ∧ s.phase s.current = .outside ∧ s.current ∈ s.owners
  | .cvWait _ => s.Runs ∧ s.phase s.current = .outside ∧ s.current ∈ s.owners ∧
      s.nwaiters < 2 ^ 31 - 1
  | .cvSignal => s.Runs ∧ s.phase s.current = .outside
  | .cvBroadcast => s.Runs ∧ s.phase s.current = .outside
  | .resume _ => s.Runs ∧ s.phase s.current ≠ .outside
  | .sched event => s.queues.sys.Admits event ∧ s.queues.GoesOn event

instance (s : MtxSys) : Decidable s.Runs := inferInstanceAs (Decidable (_ = _))

instance decidableAdmits (s : MtxSys) : ∀ event, Decidable (s.Admits event) := by
  intro event
  unfold Admits
  split <;> infer_instance

def init (kmutex spin : Bool) (sys : System) : MtxSys :=
  { queues := WaitSys.init sys
    mtx := { v := 0, o := 0, bmkO := none, kmutex := kmutex, spin := spin }
    nwaiters := 0
    phase := fun _ => .outside
    owners := []
    returns := [] }

end MtxSys
end Rumprun.Rumpuser
