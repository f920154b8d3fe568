import Rumprun.Core.Platform
import Rumprun.Lib.StepRuns

/-! # The event channel device, `librumpxen_xendev/evtdev.c`

An event on a bound port masks the port and stores it in `xenevt_ring`, in interrupt
context; the thread `xenevt_thread_func` takes the ports out and passes each to the
`queue` of the instance of `/dev/xenevt` that owns it.

The code is cut where an interrupt can change what the thread reads next or whether it is
woken, and where a thread can wait for `devevent_lock`. -/

namespace Rumprun.Xen
open Core Function
variable {Value : Type} {condition : Bool} {text : String} {rest : Unit → Except Stop Value}

def evtdevRingSize : Nat := 2048

def evtdevRingMask : Nat := 2047

/-- `NR_EVENT_CHANNELS` on a 64 bit machine. -/
def nrEventChannels : Nat := 4096

/-- `NR_EVS` of `events.c`: `minios_bind_evtchn` writes to `ev_actions[port]`. -/
def nrEvs : Nat := 1024

abbrev Port := Nat

abbrev Inst := Nat

def einval : Nat := 22

def emsgsize : Nat := 40

def enotconn : Nat := 57

/-- `KASSERT` of the kernel that the device is part of. -/
def kassert (condition : Bool) (text : String) : Except Stop Unit :=
  if condition then .ok ()
  else .error (.halt ("kernel diagnostic assertion \"" ++ text ++ "\" failed"))

theorem kassert_bind (holds : condition = true) : (kassert condition text >>= rest) = rest () := by
  rw [kassert, if_pos holds]
  rfl

theorem kassert_bind_ok {result : Value} (ran : (kassert condition text >>= rest) = .ok result) :
    condition = true ∧ rest () = .ok result := by
  cases condition with
  | false => cases ran
  | true => exact ⟨rfl, ran⟩

/-! ## What a poll returns -/

/-- `POLLIN | POLLRDNORM`. -/
def rbits : Nat := 0x41

/-- `POLLOUT | POLLWRNORM`. -/
def wbits : Nat := 0x4

/-- The bits that a poll of `/dev/xenevt` or of `/dev/xen/xenbus` returns. -/
def pollRevents (events : Nat) (readable : Bool) : Nat :=
  (events &&& wbits) ||| (if events &&& rbits ≠ 0 ∧ readable then events &&& rbits else 0)

theorem pollRevents_reports {events : Nat} {readable : Bool} (asked : events &&& rbits ≠ 0) :
    pollRevents events readable &&& rbits = events &&& rbits ↔ readable = true := by
  have apart : events &&& wbits &&& rbits = 0 := by
    rw [Nat.and_assoc]
    exact Nat.and_zero events
  cases readable with
  | true => simp [pollRevents, asked, Nat.and_or_distrib_right, apart, Nat.and_assoc]
  | false => simpa [pollRevents, apart] using asked.symm

/-- `struct xenevt_dev_data`, without the lock and what `read` and `poll` sleep on. -/
structure XenevtDevData where
  ring : Fin evtdevRingSize → Port
  ringCons : Nat
  ringProd : Nat
  overflow : Bool

/-- Where `xenevt_thread_func` is: in `minios_wait_event`, before its test, or with nothing found
and before it blocks interrupts, or on the queue and blocked; at the head of the loop that drains;
in that loop with a port, before `devevent_lock`. -/
inductive DrainPlace where
  | waiting
  | tested
  | asleep
  | draining (cons : Nat)
  | taken (cons : Nat) (port : Port)
  deriving DecidableEq, Repr

/-- `minios_wake_up` of `minios_events_waitq`. Before the thread has blocked it does nothing. -/
def DrainPlace.wakeUp : DrainPlace → DrainPlace
  | .asleep => .waiting
  | place => place

structure EvtDev where
  xenevtRing : Fin evtdevRingSize → Port
  xenevtRingProd : Nat
  xenevtRingCons : Nat
  devevents : Port → Option Inst
  data : Inst → Option XenevtDevData
  /-- The channel is open, and its handler is `minios_evtdev_handler`. -/
  bound : Port → Bool
  masked : Port → Bool
  /-- An `IOCTL_EVTCHN_UNBIND` that has cleared `devevents` and not closed the channel. -/
  unbinding : Option Port
  prod : Nat
  place : DrainPlace
  /-- The ports that were stored, each with the owner it had when its event fired. -/
  stored : List (Port × Option Inst)
  queued : List (Port × Inst)

namespace EvtDev

def init : EvtDev :=
  { xenevtRing := fun _ => 0
    xenevtRingProd := 0
    xenevtRingCons := 0
    devevents := fun _ => none
    data := fun _ => none
    bound := fun _ => false
    masked := fun _ => true
    unbinding := none
    prod := 0
    place := .waiting
    stored := []
    queued := [] }

/-! ## Interrupt context -/

/-- The test of `rump_evtdev_callback` for a ring without a free slot. -/
def Full (s : EvtDev) : Prop := s.xenevtRingCons = (s.xenevtRingProd + 1) &&& evtdevRingMask

instance (s : EvtDev) : Decidable s.Full := inferInstanceAs (Decidable (_ = _))

def rumpEvtdevCallback (s : EvtDev) (port : Port) : Except Stop EvtDev :=
  if s.Full then .ok { s with place := s.place.wakeUp }
  else if inside : s.xenevtRingProd < evtdevRingSize then
    .ok { s with
      xenevtRing := update s.xenevtRing ⟨s.xenevtRingProd, inside⟩ port
      xenevtRingProd := (s.xenevtRingProd + 1) &&& evtdevRingMask
      stored := s.stored ++ [(port, s.devevents port)]
      place := s.place.wakeUp }
  else .error (.undefined "xenevt_ring is written outside of its bounds")

def miniosMaskEvtchn (s : EvtDev) (port : Port) : EvtDev :=
  { s with masked := update s.masked port true }

def miniosUnmaskEvtchn (s : EvtDev) (port : Port) : EvtDev :=
  { s with masked := update s.masked port false }

def miniosEvtdevHandler (s : EvtDev) (port : Port) : Except Stop EvtDev :=
  (s.miniosMaskEvtchn port).rumpEvtdevCallback port

/-! ## The thread -/

/-- `queue`, with the lock of `d` held. -/
def queue (s : EvtDev) (d : Inst) (port : Port) : Except Stop EvtDev :=
  match s.data d with
  | none => .error (.undefined "queue uses an instance that is closed")
  | some data =>
    let s := { s with queued := s.queued ++ [(port, d)] }
    if data.ringCons = (data.ringProd + 1) &&& evtdevRingMask then
      .ok { s with data := update s.data d (some { data with overflow := true }) }
    else if inside : data.ringProd < evtdevRingSize then
      .ok { s with data := update s.data d (some { data with
        ring := update data.ring ⟨data.ringProd, inside⟩ port
        ringProd := (data.ringProd + 1) &&& evtdevRingMask }) }
    else .error (.undefined "the ring of an instance is written outside of its bounds")

/-- `xenevt_thread_func`, up to the next place. -/
def xenevtThreadFunc (s : EvtDev) : Except Stop EvtDev :=
  match s.place with
  | .waiting =>
    if s.xenevtRingProd ≠ s.prod then
      .ok { s with prod := s.xenevtRingProd, place := .draining s.xenevtRingCons }
    else .ok { s with place := .tested }
  | .tested => .ok { s with place := .asleep }
  | .asleep => .ok s
  | .draining cons =>
    if cons ≠ s.prod then
      if inside : cons < evtdevRingSize then do
        let port := s.xenevtRing ⟨cons, inside⟩
        kassert (decide (port < nrEventChannels)) "port < NR_EVENT_CHANNELS"
        .ok { s with place := .taken cons port }
      else .error (.undefined "xenevt_ring is read outside of its bounds")
    else .ok { s with xenevtRingCons := cons, place := .waiting }
  | .taken cons port =>
    match s.devevents port with
    | none => do
      kassert false "d"
      .ok s
    | some d => do
      let s ← s.queue d port
      .ok { s with place := .draining (cons + 1) }

/-! ## The calls on an open instance -/

def xenevtDevOpen (s : EvtDev) (d : Inst) : EvtDev :=
  { s with data := update s.data d (some
      { ring := fun _ => 0, ringCons := 0, ringProd := 0, overflow := false }) }

def unmaskLoop (s : EvtDev) (d : Inst) : List Port → EvtDev
  | [] => s
  | chan :: chans =>
    if chan < nrEventChannels ∧ s.devevents chan = some d then
      (s.miniosUnmaskEvtchn chan).unmaskLoop d chans
    else s.unmaskLoop d chans

/-- `xenevt_dev_write` of the channels `chans`. -/
def xenevtDevWrite (s : EvtDev) (d : Inst) (chans : List Port) : Nat × EvtDev :=
  if nrEventChannels < chans.length then (emsgsize, s) else (0, s.unmaskLoop d chans)

/-- What the three requests that bind a port do with what the hypervisor returned. -/
def bindPort (s : EvtDev) (d : Inst) (text : String) : Except Nat Port → Except Stop (Nat × EvtDev)
  | .error err => .ok (err, s)
  | .ok port => do
    kassert (decide (s.devevents port = none)) text
    let s := { s with
      devevents := update s.devevents port (some d)
      bound := update s.bound port true }
    .ok (0, s.miniosUnmaskEvtchn port)

/-- The requests, with the answer of the hypervisor to those that bind a port. -/
inductive Ioctl where
  | reset
  | bindVirq (virq : Nat) (answer : Except Nat Port)
  | bindInterdomain (remoteDomain remotePort : Nat) (answer : Except Nat Port)
  | bindUnboundPort (remoteDomain : Nat) (answer : Except Nat Port)
  | unbind (port : Port)
  | notify (port : Port)

def Ioctl.given : Ioctl → Option Port
  | .bindVirq _ (.ok port) => some port
  | .bindInterdomain _ _ (.ok port) => some port
  | .bindUnboundPort _ (.ok port) => some port
  | _ => none

/-- `xenevt_dev_ioctl`, up to the end of what it does with `devevent_lock`. -/
def xenevtDevIoctl (s : EvtDev) (d : Inst) : Ioctl → Except Stop (Nat × EvtDev)
  | .reset =>
    match s.data d with
    | none => .error (.undefined "ioctl uses an instance that is closed")
    | some data =>
      .ok (0, { s with data := update s.data d (some
        { data with ringCons := 0, ringProd := 0, overflow := false }) })
  | .bindVirq _ answer => s.bindPort d "devevents[bind_virq->port] == NULL" answer
  | .bindInterdomain _ _ answer => s.bindPort d "devevents[bind_intd->port] == NULL" answer
  | .bindUnboundPort _ answer => s.bindPort d "devevents[bind_unbound->port] == NULL" answer
  | .unbind port =>
    if nrEventChannels ≤ port then .ok (einval, s)
    else if s.devevents port ≠ some d then .ok (enotconn, s)
    else .ok (0, { s with
      devevents := update s.devevents port none
      unbinding := some port })
  | .notify port =>
    if nrEventChannels ≤ port then .ok (einval, s)
    else if s.devevents port ≠ some d then .ok (enotconn, s)
    else .ok (0, s)

def miniosUnbindEvtchn (s : EvtDev) (port : Port) : EvtDev :=
  { s.miniosMaskEvtchn port with bound := update s.bound port false }

/-- The end of `IOCTL_EVTCHN_UNBIND`. -/
def unbindEnd (s : EvtDev) : EvtDev :=
  match s.unbinding with
  | none => s
  | some port => { (s.miniosMaskEvtchn port).miniosUnbindEvtchn port with unbinding := none }

/-- The ports that the loop of `xenevt_dev_close` finds. -/
def Owns (s : EvtDev) (d : Inst) (port : Port) : Prop :=
  port < nrEventChannels ∧ s.devevents port = some d

instance (s : EvtDev) (d : Inst) (port : Port) : Decidable (s.Owns d port) :=
  inferInstanceAs (Decidable (_ ∧ _))

def xenevtDevClose (s : EvtDev) (d : Inst) : EvtDev :=
  { s with
    bound := fun i => if s.Owns d i then false else s.bound i
    masked := fun i => if s.Owns d i then true else s.masked i
    devevents := fun i => if s.Owns d i then none else s.devevents i
    data := update s.data d none }

end EvtDev

inductive EvtEvent where
  | open_ (d : Inst)
  | write (d : Inst) (chans : List Port)
  | ioctl (d : Inst) (request : EvtDev.Ioctl)
  | unbindEnd
  | close (d : Inst)
  | fire (port : Port)
  | thread

namespace EvtDev

def step (s : EvtDev) : EvtEvent → Except Stop EvtDev
  | .open_ d => .ok (s.xenevtDevOpen d)
  | .write d chans => .ok (s.xenevtDevWrite d chans).2
  | .ioctl d request => do return (← s.xenevtDevIoctl d request).2
  | .unbindEnd => .ok s.unbindEnd
  | .close d => .ok (s.xenevtDevClose d)
  | .fire port => s.miniosEvtdevHandler port
  | .thread => s.xenevtThreadFunc

/-- Calls are made on instances that are open. The hypervisor gives out channels that are closed
and that `ev_actions` has an entry for, and delivers an event on a channel that is bound and not masked. -/
def Admits (s : EvtDev) : EvtEvent → Prop
  | .open_ d => s.unbinding = none ∧ s.data d = none
  | .write d _ => s.unbinding = none ∧ s.data d ≠ none
  | .ioctl d request => (s.unbinding = none ∧ s.data d ≠ none) ∧
      ∀ port ∈ request.given, port < nrEvs ∧ s.bound port = false
  | .unbindEnd => s.unbinding ≠ none
  | .close d => s.unbinding = none ∧ s.data d ≠ none
  | .fire port => s.bound port = true ∧ s.masked port = false
  | .thread => s.unbinding = none

instance decidableAdmits (s : EvtDev) : ∀ event, Decidable (s.Admits event) := by
  intro event
  unfold Admits
  split <;> infer_instance

/-- The ports that are in the ring and were not passed to `queue`. -/
def waiting (s : EvtDev) : List (Port × Option Inst) := s.stored.drop s.queued.length

end EvtDev
end Rumprun.Xen
