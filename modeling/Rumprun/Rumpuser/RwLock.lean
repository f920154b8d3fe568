import Rumprun.Rumpuser.WaitQueue

/-! # The reader/writer lock

One lock of `rumpuser_synch.c`, used by any number of threads. A thread that has
to wait calls into the rump kernel before and after; there it may block, yield and be
switched away from. `readers` and `writers` are the holds that the callers have been
given and have not given back. -/

namespace Rumprun.Rumpuser
open Core Scheduler

inductive RwKind where
  | reader
  | writer
  deriving DecidableEq, Repr

inductive RwHead where
  | rwait
  | wwait
  deriving DecidableEq, Repr

def RwKind.head : RwKind → RwHead
  | .reader => .rwait
  | .writer => .wwait

/-- Where a thread is in `rumpuser_rw_enter`: not there, in `rumpkern_unsched`, in `wait`, or in
`rumpkern_sched` with the lock. -/
inductive RwPhase where
  | outside
  | unsched (lk : RwKind)
  | waiting (lk : RwKind)
  | sched
  deriving DecidableEq, Repr

structure RwSys where
  queues : WaitSys RwHead
  v : Int
  /-- A `struct lwp *`, with 0 for `NULL`. -/
  o : Nat
  phase : Tid → RwPhase
  readers : List Tid
  writers : List Tid

namespace RwSys
variable (curlwp : Tid → Nat)

def current (s : RwSys) : Tid := s.queues.current

def setPhase (s : RwSys) (phase : RwPhase) : RwSys :=
  { s with phase := Function.update s.phase s.current phase }

def rwTryenter (s : RwSys) : RwKind → Except Stop (RwSys × Int)
  | .writer =>
    if s.o = 0 then .ok ({ s with o := curlwp s.current, writers := s.current :: s.writers }, 0)
    else .ok (s, ebusy)
  | .reader =>
    if s.o = 0 ∧ s.queues.head .wwait = [] then do
      let v ← increment s.v
      return ({ s with v := v, readers := s.current :: s.readers }, 0)
    else .ok (s, ebusy)

/-- `rumpuser_rw_enter` up to its call of `rumpkern_unsched`. -/
def rwEnter (s : RwSys) (lk : RwKind) : Except Stop RwSys := do
  let (s, result) ← s.rwTryenter curlwp lk
  return if result ≠ 0 then s.setPhase (.unsched lk) else s

/-- One turn of the loop of `rumpuser_rw_enter`. -/
def rwRetry (s : RwSys) (lk : RwKind) : Except Stop RwSys := do
  let (s, result) ← s.rwTryenter curlwp lk
  if result ≠ 0 then
    let queues ← s.queues.waitStart lk.head inftime 0
    return { s with queues := queues, phase := Function.update s.phase s.current (.waiting lk) }
  else return s.setPhase .sched

def release (s : RwSys) : RwSys :=
  if s.current ∈ s.writers then { s with writers := s.writers.erase s.current }
  else { s with readers := s.readers.erase s.current }

def rwWakeup (s : RwSys) : Except Stop RwSys :=
  if s.queues.head .wwait ≠ [] then
    if s.o = 0 then do return { s with queues := ← s.queues.wakeupOne .wwait } else .ok s
  else if s.queues.head .rwait ≠ [] ∧ s.o = 0 then do
    return { s with queues := ← s.queues.wakeupAll .rwait }
  else .ok s

def rwExit (s : RwSys) : Except Stop RwSys :=
  (if s.o ≠ 0 then { s.release with o := 0 } else { s.release with v := s.v - 1 }).rwWakeup

def rwDowngrade (s : RwSys) : Except Stop RwSys := do
  bmkAssert (s.o = curlwp s.current) "rw->o == rumpuser_curlwp()"
  return { s with
    v := -1
    writers := s.writers.erase s.current
    readers := s.current :: s.readers }

def rwTryupgrade (s : RwSys) : RwSys × Int :=
  if s.v = -1 then
    ({ s with
      v := 1
      o := curlwp s.current
      readers := s.readers.erase s.current
      writers := s.current :: s.writers }, 0)
  else (s, ebusy)

end RwSys

inductive RwEvent where
  | enter (lk : RwKind)
  | tryenter (lk : RwKind)
  | exit
  | downgrade
  | tryupgrade
  | resume
  | sched (event : Event)
  deriving DecidableEq, Repr

namespace RwSys
variable (curlwp : Tid → Nat)

def resume (s : RwSys) : Except Stop RwSys :=
  match s.phase s.current with
  | .outside => .error (.undefined "the thread is not in rumpuser_rw_enter()")
  | .unsched lk => s.rwRetry curlwp lk
  | .waiting lk => do
    let (queues, _) ← s.queues.waitReturn
    { s with queues := queues }.rwRetry curlwp lk
  | .sched => .ok (s.setPhase .outside)

def step (s : RwSys) : RwEvent → Except Stop RwSys
  | .enter lk => s.rwEnter curlwp lk
  | .tryenter lk => (s.rwTryenter curlwp lk).map Prod.fst
  | .exit => s.rwExit
  | .downgrade => s.rwDowngrade curlwp
  | .tryupgrade => .ok (s.rwTryupgrade curlwp).1
  | .resume => s.resume curlwp
  | .sched event => do return { s with queues := ← s.queues.sched event }

def Runs (s : RwSys) : Prop := s.queues.sys.pc s.current = .active .caller

def Admits (s : RwSys) : RwEvent → Prop
  | .enter _ => s.Runs ∧ s.phase s.current = .outside
  | .tryenter _ => s.Runs ∧ s.phase s.current = .outside
  | .exit => s.Runs ∧ s.phase s.current = .outside ∧ (s.current ∈ s.writers ∨ s.current ∈ s.readers)
  | .downgrade => s.Runs ∧ s.phase s.current = .outside ∧ s.current ∈ s.writers
  | .tryupgrade => s.Runs ∧ s.phase s.current = .outside ∧ s.current ∈ s.readers
  | .resume => s.Runs ∧ s.phase s.current ≠ .outside
  | .sched event => s.queues.sys.Admits event ∧ s.queues.GoesOn event

instance (s : RwSys) : Decidable s.Runs := inferInstanceAs (Decidable (_ = _))

instance decidableAdmits (s : RwSys) : ∀ event, Decidable (s.Admits event) := by
  intro event
  unfold Admits
  split <;> infer_instance

def init (sys : System) : RwSys :=
  { queues := WaitSys.init sys
    v := 0
    o := 0
    phase := fun _ => .outside
    readers := []
    writers := [] }

end RwSys
end Rumprun.Rumpuser
