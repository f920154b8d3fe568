import Rumprun.Core.ServiceThreads

/-! # Interrupts on seL4, `platform/sel4/intr.c`

As on hardware, but with two words of pending lines, one for hardware interrupts and one
for software events, and a pass of handlers for either. An interrupt comes when the
semaphore is free. -/

namespace Rumprun.Sel4
open Core

inductive IsrType where
  | hardwareInt
  | softwareEvent
  deriving DecidableEq, Repr

def bmkMaxintr : Nat := 32

def softIntrs : Nat := 1

/-- A `struct intrhand`: its function and argument, by a name. -/
abbrev Hand := Nat

structure Intr where
  isrIh : Nat → List Hand
  isrIhSoft : Nat → List Hand
  isrTodo : BitVec 32
  isrTodoSoft : BitVec 32
  isrLowest : Nat
  isrSoftLowest : Nat
  intrReserved : Nat

def intrInit : Intr :=
  { isrIh := fun _ => [], isrIhSoft := fun _ => [], isrTodo := 0, isrTodoSoft := 0,
    isrLowest := 32, isrSoftLowest := softIntrs - 1, intrReserved := 0 }

namespace Intr

def todo (s : Intr) : IsrType → BitVec 32
  | .hardwareInt => s.isrTodo
  | .softwareEvent => s.isrTodoSoft

def lowest (s : Intr) : IsrType → Nat
  | .hardwareInt => s.isrLowest
  | .softwareEvent => s.isrSoftLowest

def handlers (s : Intr) : IsrType → Nat → List Hand
  | .hardwareInt => s.isrIh
  | .softwareEvent => s.isrIhSoft

/-- The word is set to 0. -/
def clear (s : Intr) : IsrType → Intr
  | .hardwareInt => { s with isrTodo := 0 }
  | .softwareEvent => { s with isrTodoSoft := 0 }

def allocNumber (s : Intr) : Except Stop (Intr × Nat) :=
  if softIntrs ≤ s.intrReserved then .error (.halt "No more interrupt slots available.")
  else .ok ({ s with intrReserved := s.intrReserved + 1 }, s.intrReserved)

/-- `xmalloc` says whether there is memory. -/
def bmkIsrRumpkernel (s : Intr) (ih : Hand) (intr : Int) (xmalloc : Bool) :
    IsrType → Except Stop (Intr × Int)
  | .softwareEvent => do
    let (s, intr) ← s.allocNumber
    if xmalloc = false then .error (.halt "bmk_isr_rumpkernel: xmalloc")
    else return ({ s with
      isrIhSoft := Function.update s.isrIhSoft intr (ih :: s.isrIhSoft intr)
      isrSoftLowest := if intr < s.isrSoftLowest then intr else s.isrSoftLowest }, intr)
  | .hardwareInt =>
    let line := intr.toNat
    -- the first comparison is unsigned
    if intr < 0 ∨ 32 < intr ∨ (bmkMaxintr : Int) < intr then
      .error (.halt "bmk_isr_rumpkernel: intr")
    else if xmalloc = false then .error (.halt "bmk_isr_rumpkernel: xmalloc")
    else .ok ({ s with
      isrIh := Function.update s.isrIh line (ih :: s.isrIh line)
      isrLowest := if line < s.isrLowest then line else s.isrLowest }, intr)

end Intr

/-- Where the thread is in `doisr` and `process_handlers`. -/
inductive IsrPlace where
  /-- Before the loop, in the calls of `rumpuser__hyp`. -/
  | starting
  /-- At a `bmk_platform_splhigh` with the copy of a word to come. -/
  | copy (type : IsrType)
  | enter (type : IsrType) (isrcopy : BitVec 32)
  /-- At the condition of the loop of `process_handlers`. -/
  | scan (type : IsrType) (i : Nat) (isrcopy : BitVec 32)
  /-- In the first of the handlers still to run. -/
  | handler (type : IsrType) (i : Nat) (isrcopy : BitVec 32) (handlers : List Hand)
  | leave (type : IsrType)
  /-- At the `bmk_platform_splhigh` before the test of the two words. -/
  | bottom
  | prepared
  | asleep
  deriving DecidableEq, Repr

def IsrPlace.stage : IsrPlace → Scheduler.Stage
  | .starting => .working
  | .enter _ _ => .working
  | .handler _ _ _ _ => .working
  | .leave _ => .working
  | .prepared => .prepared
  | .asleep => .asleep
  | _ => .own

structure IsrSys where
  sys : Scheduler.System
  intr : Intr
  place : IsrPlace
  /-- The lines acknowledged to seL4 or to the network device, the last one first. -/
  acked : List Nat

inductive IsrEvent where
  | sched (event : Scheduler.Event)
  | isr (which softWhich : BitVec 32)
  | register (ih : Hand) (intr : Int) (xmalloc : Bool) (type : IsrType)
  | doisr
  deriving DecidableEq

namespace IsrSys

def goto (s : IsrSys) (place : IsrPlace) : IsrSys := { s with place := place }

/-- A word is copied and cleared, and the semaphore is given back. -/
def take (s : IsrSys) (type : IsrType) : IsrSys :=
  { s with intr := s.intr.clear type, place := .enter type (s.intr.todo type) }

def doisr (s : IsrSys) : Except Stop IsrSys :=
  match s.place with
  | .starting => .ok (s.goto (.copy .hardwareInt))
  | .copy type => .ok (s.take type)
  | .enter type isrcopy => .ok (s.goto (.scan type (s.intr.lowest type) isrcopy))
  | .scan type i isrcopy =>
    if isrcopy = 0 then .ok (s.goto (.leave type))
    else do
      bmkAssert (decide (i < 32)) "i < sizeof(isrcopy) * 8"
      if isrcopy &&& (1#32 <<< i) = 0 then return s.goto (.scan type (i + 1) isrcopy)
      else
        let isrcopy := isrcopy &&& ~~~(1#32 <<< i)
        return s.goto (.handler type i isrcopy (s.intr.handlers type i))
  | .handler .hardwareInt i isrcopy [] =>
    .ok ({ s with acked := i :: s.acked }.goto (.scan .hardwareInt (i + 1) isrcopy))
  | .handler .softwareEvent i isrcopy [] => .ok (s.goto (.scan .softwareEvent (i + 1) isrcopy))
  | .handler type i isrcopy (_ :: handlers) => .ok (s.goto (.handler type i isrcopy handlers))
  | .leave .hardwareInt => .ok (s.goto (.copy .softwareEvent))
  | .leave .softwareEvent => .ok (s.goto .bottom)
  | .bottom =>
    if s.intr.isrTodo ≠ 0 ∨ s.intr.isrTodoSoft ≠ 0 then .ok (s.take .hardwareInt)
    else do
      let sys ← s.sys.call (.blockprepareTimeout Scheduler.inftime)
      return { s with sys := sys, place := .prepared }
  | .prepared => do
    let sys ← s.sys.call .block
    return { s with sys := sys, place := .asleep }
  | .asleep => .ok (s.goto (.copy .hardwareInt))

/-- `isr()`; `isrThread` is `isr_thread`. -/
def isr (isrThread : Scheduler.Tid) (s : IsrSys) (which softWhich : BitVec 32) :
    Except Stop IsrSys := do
  let intr := { s.intr with
    isrTodoSoft := s.intr.isrTodoSoft ||| softWhich
    isrTodo := s.intr.isrTodo ||| which }
  return { s with intr := intr, sys := ← s.sys.step (.interrupt isrThread) }

def step (isrThread : Scheduler.Tid) (s : IsrSys) : IsrEvent → Except Stop IsrSys
  | .sched event => do return { s with sys := ← s.sys.step event }
  | .isr which softWhich => s.isr isrThread which softWhich
  | .register ih intr xmalloc type => do
    let (intr, _) ← s.intr.bmkIsrRumpkernel ih intr xmalloc type
    return { s with intr := intr }
  | .doisr => s.doisr

/-- The thread comes to its next piece when it runs and the code it called has returned. -/
def Admits (isrThread : Scheduler.Tid) (s : IsrSys) : IsrEvent → Prop
  | .sched event => s.sys.AdmitsService isrThread s.place.stage event
  | .isr _ _ => True
  | .register _ _ _ _ => True
  | .doisr => s.place = .prepared ∨ s.sys.pc isrThread = .active .caller

instance decidableAdmits (isrThread : Scheduler.Tid) (s : IsrSys) :
    ∀ event, Decidable (s.Admits isrThread event) := by
  intro event
  unfold Admits
  split <;> infer_instance

def init (sys : Scheduler.System) : IsrSys :=
  { sys := sys, intr := intrInit, place := .starting, acked := [] }

end IsrSys
end Rumprun.Sel4
