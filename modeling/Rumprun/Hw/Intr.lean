import Rumprun.Core.ServiceThreads

/-! # Interrupts on hardware, `platform/hw/intr.c`

`isr()` only records the pending lines in `isr_todo`; the thread `doisr` runs the
handlers. Its loop is cut at the points where interrupts are enabled. -/

namespace Rumprun.Hw
open Core Scheduler

def bmkMaxintr : Nat := 32

def intrRouted : Nat := bmkMaxintr

def bmkIntrRouted : BitVec 32 := 1

/-- A `struct intrhand`: its function and argument, by a name. -/
abbrev Hand := Nat

inductive Routed where
  | noidea
  | yes
  | no
  deriving DecidableEq, Repr

structure Intr where
  isrIh : Nat → List Hand
  isrRouted : Nat → Routed
  isrTodo : BitVec 32
  isrLowest : Nat

/-- `intr_init` on the initial data. -/
def intrInit : Intr :=
  { isrIh := fun _ => [], isrRouted := fun _ => .noidea, isrTodo := 0, isrLowest := 32 }

/-- `screw` says whether `BMK_SCREW_INTERRUPT_ROUTING` is defined. -/
def routeintr (screw : Bool) (i : Nat) : Nat := if screw = true then intrRouted else i

/-- `isr_routed[intr]`, at the first registration for the line. -/
def Intr.note (s : Intr) (line : Nat) (icheck : Routed) : Intr :=
  if s.isrRouted line = .noidea then
    { s with isrRouted := Function.update s.isrRouted line icheck }
  else s

/-- `xmalloc` says whether there is memory, `error` what `cpu_intr_init` returns. -/
def Intr.bmkIsrRumpkernel (screw : Bool) (s : Intr) (ih : Hand) (intr : Int) (flags : BitVec 32)
    (xmalloc : Bool) (error : Int) : Except Stop Intr :=
  let line := intr.toNat
  let icheck := if flags &&& bmkIntrRouted ≠ 0 then .yes else .no
  let routedintr := if flags &&& bmkIntrRouted ≠ 0 then routeintr screw line else line
  let noted := s.note line icheck
  -- the first comparison is unsigned
  if intr < 0 ∨ 32 < intr ∨ (bmkMaxintr : Int) < intr then
    .error (.halt "bmk_isr_rumpkernel: intr")
  else if flags &&& ~~~bmkIntrRouted ≠ 0 then .error (.halt "bmk_isr_rumpkernel: flags")
  else if xmalloc = false then .error (.halt "bmk_isr_rumpkernel: xmalloc")
  else if noted.isrRouted line ≠ icheck then
    .error (.halt "bmk_isr_rumpkernel: routed intr mismatch")
  else if error ≠ 0 then .error (.halt "bmk_isr_rumpkernel: cpu_intr_init")
  else .ok { noted with
    isrIh := Function.update noted.isrIh routedintr (ih :: noted.isrIh routedintr)
    isrLowest := if line < noted.isrLowest then line else noted.isrLowest }

/-- Where the thread is in `doisr`. -/
inductive Place where
  /-- Before the loop, in the calls of `rumpuser__hyp`. -/
  | starting
  /-- At a `splhigh` with the copy of `isr_todo` to come. -/
  | top
  | copied (isrcopy : BitVec 32)
  | enter (isrcopy : BitVec 32)
  /-- At the condition of the inner loop. -/
  | scan (i : Nat) (isrcopy : BitVec 32)
  /-- In the first of the handlers still to run. -/
  | handler (i : Nat) (isrcopy : BitVec 32) (handlers : List Hand)
  | leave
  /-- At the `splhigh` before the test of `isr_todo`. -/
  | bottom
  | prepared
  | asleep
  deriving DecidableEq, Repr

def Place.stage : Place → Stage
  | .starting => .working
  | .enter _ => .working
  | .handler _ _ _ => .working
  | .leave => .working
  | .prepared => .prepared
  | .asleep => .asleep
  | _ => .own

/-- A call of `cpu_intr_ack`: the one in `isr()`, or the one in `doisr` with its argument and the
bits that have been copied out of `isr_todo` since the thread last slept. -/
inductive Ack where
  | serial
  | work (mask consumed : BitVec 32)
  deriving DecidableEq, Repr

structure IsrSys where
  sys : System
  intr : Intr
  place : Place
  totwork : BitVec 32
  consumed : BitVec 32
  acks : List Ack

inductive IsrEvent where
  | sched (event : Event)
  | isr (which : BitVec 32)
  | register (ih : Hand) (intr : Int) (flags : BitVec 32) (xmalloc : Bool) (error : Int)
  | doisr
  deriving DecidableEq

namespace IsrSys

def goto (s : IsrSys) (place : Place) : IsrSys := { s with place := place }

/-- `isrcopy = isr_todo; isr_todo = 0; spl0()`. -/
def take (s : IsrSys) : IsrSys :=
  { s with
    intr := { s.intr with isrTodo := 0 }
    place := .copied s.intr.isrTodo
    consumed := s.consumed ||| s.intr.isrTodo }

def doisr (screw : Bool) (s : IsrSys) : Except Stop IsrSys :=
  match s.place with
  | .starting => .ok (s.goto .top)
  | .top => .ok s.take
  | .copied isrcopy => .ok ({ s with totwork := s.totwork ||| isrcopy }.goto (.enter isrcopy))
  | .enter isrcopy => .ok (s.goto (.scan s.intr.isrLowest isrcopy))
  | .scan i isrcopy =>
    if isrcopy = 0 then .ok (s.goto .leave)
    else do
      bmkAssert (decide (i < 32)) "i < sizeof(isrcopy)*8"
      if isrcopy &&& (1#32 <<< i) = 0 then return s.goto (.scan (i + 1) isrcopy)
      else
        let isrcopy := isrcopy &&& ~~~(1#32 <<< i)
        let i := if s.intr.isrRouted i = .yes then routeintr screw i else i
        return s.goto (.handler i isrcopy (s.intr.isrIh i))
  | .handler i isrcopy [] => .ok (s.goto (.scan (i + 1) isrcopy))
  | .handler i isrcopy (_ :: handlers) => .ok (s.goto (.handler i isrcopy handlers))
  | .leave => .ok (s.goto .bottom)
  | .bottom =>
    if s.intr.isrTodo ≠ 0 then .ok s.take
    else do
      let sys ← s.sys.call (.blockprepareTimeout inftime)
      return { s with
        sys := sys, acks := .work s.totwork s.consumed :: s.acks, place := .prepared }
  | .prepared => do
    let sys ← s.sys.call .block
    return { s with sys := sys, consumed := 0, place := .asleep }
  | .asleep => .ok ({ s with totwork := 0 }.goto .top)

/-- `isr()`; `isrThread` is `isr_thread`. -/
def isr (isrThread : Tid) (s : IsrSys) (which : BitVec 32) : Except Stop IsrSys := do
  let s := if which &&& (1#32 <<< 4) ≠ 0 then { s with acks := .serial :: s.acks } else s
  let which := which &&& ~~~(1#32 <<< 4)
  let s := { s with intr := { s.intr with isrTodo := s.intr.isrTodo ||| which } }
  if s.intr.isrTodo = 0 then return s
  else return { s with sys := ← s.sys.step (.interrupt isrThread) }

def step (screw : Bool) (isrThread : Tid) (s : IsrSys) : IsrEvent → Except Stop IsrSys
  | .sched event => do return { s with sys := ← s.sys.step event }
  | .isr which => s.isr isrThread which
  | .register ih intr flags xmalloc error => do
    return { s with intr := ← s.intr.bmkIsrRumpkernel screw ih intr flags xmalloc error }
  | .doisr => s.doisr screw

/-- The thread comes to its next piece when it runs and the code it called has returned. -/
def Admits (isrThread : Tid) (s : IsrSys) : IsrEvent → Prop
  | .sched event => s.sys.AdmitsService isrThread s.place.stage event
  | .isr _ => True
  | .register _ _ _ _ _ => True
  | .doisr => s.place = .prepared ∨ s.sys.pc isrThread = .active .caller

instance decidableAdmits (isrThread : Tid) (s : IsrSys) :
    ∀ event, Decidable (s.Admits isrThread event) := by
  intro event
  unfold Admits
  split <;> infer_instance

/-- `intr_init` has created the thread. -/
def init (sys : System) : IsrSys :=
  { sys := sys, intr := intrInit, place := .starting, totwork := 0, consumed := 0, acks := [] }

end IsrSys
end Rumprun.Hw
