import Rumprun.Core.PendingWakes

/-! # Light-weight processes

`_lwp.c` of `librumprun_base`: NetBSD's lwp calls on top of the scheduler. Beside the
variables of the file the state keeps which threads sleep in `_lwp_park`, and which of
them an `_lwp_unpark` has been issued for since they last left it. -/

namespace Rumprun.Base.Lwp
open Core Scheduler Function

abbrev Rl := Nat

def mainthread : Rl := 0

def firstLwpid : Int := 1

structure RumprunLwp where
  thread : Tid
  lwpid : Int
  noParkingHare : Int
  deriving DecidableEq, Repr

structure Timespec where
  tvSec : Int
  tvNsec : Int
  deriving DecidableEq, Repr

/-- The arguments of `_lwp_park`, with what the clocks return when it reads them. -/
structure ParkArgs where
  abstime : Bool
  ts : Option Timespec
  unpark : Int
  epochoffset : Int
  monotonic : Int
  deriving DecidableEq, Repr

structure Lwps where
  sys : System
  rl : Rl → RumprunLwp
  allLwp : List Rl
  me : Tid → Option Rl
  curlwpid : Int
  /-- The thread is in the sleep of `_lwp_park`. -/
  parked : Tid → Bool
  /-- An unpark of the thread has succeeded since its last `_lwp_park` returned. -/
  issued : Tid → Bool

namespace Lwps

def current (p : Lwps) : Tid := p.sys.sched.current

/-- The places that the sleep of `_lwp_park` goes through. -/
def inPark : Pc → Bool
  | .prepared .caller => true
  | .blocking .caller => true
  | .resumed .caller => true
  | _ => false

/-- After a step of the scheduler, a thread that has left its sleep has left `_lwp_park`, and
with it the unparks issued before. -/
def settle (p : Lwps) (sys : System) : Lwps :=
  { p with
    sys := sys
    parked := fun t => p.parked t && inPark (sys.pc t)
    issued := fun t => p.issued t && !(p.parked t && !inPark (sys.pc t)) }

def parkDeadline (args : ParkArgs) : Int :=
  match args.ts with
  | none => inftime
  | some ts =>
    let nsecs := toTime (toTime (ts.tvSec * 1000 * 1000 * 1000) + ts.tvNsec)
    if args.abstime = true then toTime (nsecs - args.epochoffset)
    else toTime (nsecs + args.monotonic)

def lwpid2rl (p : Lwps) (lid : Int) : Option Rl :=
  if lid = 0 then some mainthread
  else p.allLwp.find? fun rl => (p.rl rl).lwpid = lid

def lwpUnpark (p : Lwps) (lid : Int) : Except Stop (Lwps × Int) :=
  match p.lwpid2rl lid with
  | none => .ok (p, -1)
  | some rl => do
    let thread := (p.rl rl).thread
    let sys ← p.sys.call (.wake thread)
    let p := p.settle sys
    return ({ p with issued := update p.issued thread true }, 0)

def unparkLoop : List Int → Int → Lwps → Except Stop (Lwps × Int)
  | [], rv, p => .ok (p, rv)
  | target :: targets, rv, p => do
    let (p, result) ← p.lwpUnpark target
    unparkLoop targets (if result ≠ 0 then rv - 1 else rv) p

def lwpUnparkAll (p : Lwps) : Option (List Int) → Except Stop (Lwps × Int)
  | none => .ok (p, 1024)
  | some targets => unparkLoop targets targets.length p

/-- `_lwp_park` after its unpark and up to its call of `bmk_sched_block`; the result is there
if it returns before. -/
def parkSelf (p : Lwps) (args : ParkArgs) : Except Stop (Lwps × Option Int) :=
  match p.me p.current with
  | none => .error (.undefined "me is NULL")
  | some me =>
    let rl := p.rl me
    if rl.noParkingHare ≠ 0 then
      .ok ({ p with
        rl := update p.rl me { rl with noParkingHare := 0 }
        issued := update p.issued p.current false }, some 0)
    else do
      let sys ← p.sys.call (.blockprepareTimeout (parkDeadline args))
      let p := p.settle sys
      return ({ p with parked := update p.parked p.current true }, none)

def lwpPark (p : Lwps) (args : ParkArgs) : Except Stop (Lwps × Option Int) :=
  if args.unpark ≠ 0 then do
    let (p, _) ← p.lwpUnpark args.unpark
    p.parkSelf args
  else p.parkSelf args

/-- `rumprun_makelwp`: `calloc` is the record it gets or the error, `newlwp` what
`rump_pub_lwproc_newlwp` returns, and `t` the new thread. -/
def rumprunMakelwp (p : Lwps) (calloc : Except Int Rl) (newlwp : Int) (t : Tid)
    (tcb stackBase stackSize pages : Nat) : Except Stop (Lwps × Int) :=
  match calloc with
  | .error errno => .ok (p, errno)
  | .ok rl =>
    if newlwp ≠ 0 then .ok (p, newlwp)
    else do
      let curlwpid := (p.curlwpid + 1).bmod (2 ^ 32)
      let sys ← p.sys.call (.createWithtls t false stackBase stackSize pages tcb)
      return ({ p.settle sys with
        rl := update p.rl rl { thread := t, lwpid := curlwpid, noParkingHare := 0 }
        me := update p.me t (some rl)
        curlwpid := curlwpid
        allLwp := p.allLwp ++ [rl] }, 0)

def lwpExit (p : Lwps) : Except Stop Lwps :=
  match p.me p.current with
  | none => .error (.undefined "me is NULL")
  | some me => do
    let allLwp ← tailqRemove p.allLwp me
    let sys ← p.sys.call .exitWithtls
    return { p.settle sys with
      allLwp := allLwp
      me := update p.me p.current none }

end Lwps

inductive LwpEvent where
  | makelwp (calloc : Except Int Rl) (newlwp : Int) (t : Tid) (tcb stackBase stackSize pages : Nat)
  | unpark (lid : Int)
  | unparkAll (targets : Option (List Int))
  | park (args : ParkArgs)
  | exit
  /-- Anything that the scheduler's own interface offers, the rest of `_lwp_park` included. -/
  | sched (event : Event)

namespace Lwps

def step (p : Lwps) : LwpEvent → Except Stop Lwps
  | .makelwp calloc newlwp t tcb stackBase stackSize pages =>
    (p.rumprunMakelwp calloc newlwp t tcb stackBase stackSize pages).map Prod.fst
  | .unpark lid => (p.lwpUnpark lid).map Prod.fst
  | .unparkAll targets => (p.lwpUnparkAll targets).map Prod.fst
  | .park args => (p.lwpPark args).map Prod.fst
  | .exit => p.lwpExit
  | .sched event => do return p.settle (← p.sys.step event)

/-- A thread that has prepared its sleep in `_lwp_park` goes on to `bmk_sched_block`. -/
def GoesOn (p : Lwps) : Event → Prop
  | .call op => p.parked p.current = true → op = .block
  | _ => True

def Admits (p : Lwps) : LwpEvent → Prop
  | .makelwp _ _ t _ stackBase stackSize _ =>
    p.sys.pc p.current = .active .caller ∧ p.sys.AdmitsCreate t stackBase stackSize
  | .unpark _ => p.sys.pc p.current = .active .caller
  | .unparkAll _ => p.sys.pc p.current = .active .caller
  | .park _ => p.sys.pc p.current = .active .caller
  | .exit => p.sys.pc p.current = .active .caller
  | .sched event => p.sys.Disciplined event ∧ p.GoesOn event

instance decidableGoesOn (p : Lwps) : ∀ event, Decidable (p.GoesOn event) := by
  intro event
  induction event using Event.casesOn <;> dsimp only [GoesOn] <;> infer_instance

instance decidableAdmits (p : Lwps) : ∀ event, Decidable (p.Admits event) := by
  intro event
  unfold Admits
  split <;> infer_instance

def rumprunLwpInit (sys : System) : Lwps :=
  { sys := sys
    rl := update (fun _ => { thread := 0, lwpid := 0, noParkingHare := 0 }) mainthread
      { thread := sys.sched.current, lwpid := firstLwpid, noParkingHare := 0 }
    allLwp := [mainthread]
    me := update (fun _ => none) sys.sched.current (some mainthread)
    curlwpid := firstLwpid
    parked := fun _ => false
    issued := fun _ => false }

end Lwps
end Rumprun.Base.Lwp
