import Rumprun.Core.ServiceThreads
import Rumprun.Lib.IndexRing

/-! # Packets on their way in, `librumpnet_xenif/xenif_user.c`

`myrecv` stores a packet in interrupt context; the thread `pusher` delivers the packets in their
order. The code of the thread is cut where interrupts are enabled. -/

namespace Rumprun.Xen
open Core Scheduler

def maxpkt : Nat := 2000

def nbuf : Nat := 64

structure Onepkt where
  pktData : List UInt8
  pktDlen : Nat
  deriving DecidableEq, Repr

/-- What `iov` is about. -/
def Onepkt.packet (pkt : Onepkt) : List UInt8 := pkt.pktData.take pkt.pktDlen

/-- `bmk_memcpy` to `pkt_data`, and the length. -/
def Onepkt.store (pkt : Onepkt) (data : List UInt8) : Onepkt :=
  { pktData := data ++ pkt.pktData.drop data.length, pktDlen := data.length }

theorem Onepkt.packet_store (pkt : Onepkt) (data : List UInt8) : (pkt.store data).packet = data := by
  simp [packet, store]

/-- Where `pusher` is: not created yet; before its loop; between `bmk_sched_blockprepare` and
`bmk_sched_block`; in the latter; back from there; in `rump_virtif_pktdeliver`; behind the loop. -/
inductive PushPlace where
  | absent
  | starting
  | prepared
  | asleep
  | woken
  | delivering (mypkt : Nat)
  | ended
  deriving DecidableEq, Repr

def PushPlace.stage : PushPlace → Stage
  | .prepared => .prepared
  | .asleep => .asleep
  | .woken => .own
  | _ => .working

structure VirtifUser where
  sys : System
  viuThr : Tid
  viuRcvr : Option Tid
  viuRead : Nat
  viuWrite : Nat
  viuDying : Bool
  viuPkts : Nat → Onepkt
  place : PushPlace
  accepted : List (List UInt8)
  delivered : List (List UInt8)
  /-- Packets that were dropped, each with the number of those that waited. -/
  dropped : List (List UInt8 × Nat)

inductive NetEvent where
  /-- The end of `VIFHYPER_CREATE`, which makes the thread. -/
  | create (t : Tid) (pages tlsarea : Nat)
  | myrecv (data : List UInt8)
  | pusher
  | dying
  | sched (event : Event)
  deriving DecidableEq

namespace VirtifUser

/-- In `VIFHYPER_CREATE`, where `netfront_init` lets packets in. -/
def init (sys : System) : VirtifUser :=
  { sys := sys
    viuThr := 0
    viuRcvr := none
    viuRead := 0
    viuWrite := 0
    viuDying := false
    viuPkts := fun _ => { pktData := List.replicate maxpkt 0, pktDlen := 0 }
    place := .absent
    accepted := []
    delivered := []
    dropped := [] }

/-- The packets in the ring, the one that is being delivered among them. -/
def waiting (s : VirtifUser) : List (List UInt8) :=
  (IndexRing.contents nbuf s.viuPkts s.viuRead s.viuWrite).map Onepkt.packet

def wakeRcvr (s : VirtifUser) : Except Stop VirtifUser :=
  match s.viuRcvr with
  | none => .ok s
  | some t => do return { s with sys := ← s.sys.step (.interrupt t) }

def drop (s : VirtifUser) (data : List UInt8) : VirtifUser :=
  { s with dropped := s.dropped ++ [(data, s.waiting.length)] }

def store (s : VirtifUser) (data : List UInt8) : VirtifUser :=
  { s with
    viuPkts := Function.update s.viuPkts s.viuWrite ((s.viuPkts s.viuWrite).store data)
    viuWrite := (s.viuWrite + 1) % nbuf
    accepted := s.accepted ++ [data] }

def myrecv (s : VirtifUser) (data : List UInt8) : Except Stop VirtifUser :=
  let nextw := (s.viuWrite + 1) % nbuf
  if nextw = s.viuRead then .ok (s.drop data)
  else if data.length > maxpkt then .ok (s.drop data)
  else (s.store data).wakeRcvr

/-- From `again` on, with interrupts disabled, up to where they are enabled. -/
def again (s : VirtifUser) : Except Stop VirtifUser :=
  if s.viuDying = true then .ok { s with place := .ended }
  else if s.viuRead = s.viuWrite then do
    let sys ← s.sys.call (.blockprepareTimeout inftime)
    return { s with sys := sys, viuRcvr := some s.sys.sched.current, place := .prepared }
  else .ok { s with place := .delivering s.viuRead }

def finish (s : VirtifUser) (mypkt : Nat) : VirtifUser :=
  { s with
    delivered := s.delivered ++ [(s.viuPkts mypkt).packet]
    viuRead := (s.viuRead + 1) % nbuf }

def pusher (s : VirtifUser) : Except Stop VirtifUser :=
  match s.place with
  | .starting => s.again
  | .prepared => do
    let sys ← s.sys.call .block
    return { s with sys := sys, place := .asleep }
  | .woken => { s with viuRcvr := none }.again
  | .delivering mypkt => (s.finish mypkt).again
  | .absent => .error (.undefined "there is no thread")
  | .asleep => .error (.undefined "the thread is in bmk_sched_block")
  | .ended => .error (.undefined "the thread has left its loop")

/-- What the scheduler does; `pusher` leaves `bmk_sched_block`. -/
def sched (s : VirtifUser) (event : Event) : Except Stop VirtifUser := do
  let sys ← s.sys.step event
  if event = .advance ∧ s.sys.sched.current = s.viuThr ∧ s.place = .asleep then
    return { s with sys := sys, place := .woken }
  else return { s with sys := sys }

def create (s : VirtifUser) (t : Tid) (pages tlsarea : Nat) : Except Stop VirtifUser := do
  let sys ← s.sys.call (.create t true 0 0 pages tlsarea)
  return { s with sys := sys, viuThr := t, place := .starting }

def step (s : VirtifUser) : NetEvent → Except Stop VirtifUser
  | .create t pages tlsarea => s.create t pages tlsarea
  | .myrecv data => s.myrecv data
  | .pusher => s.pusher
  | .dying => { s with viuDying := true }.wakeRcvr
  | .sched event => s.sched event

/-- The thread is there, and has not left its loop. -/
def Loops (s : VirtifUser) : Prop := s.place ≠ .absent ∧ s.place ≠ .ended

instance decidableLoops (s : VirtifUser) : Decidable s.Loops := inferInstanceAs (Decidable (_ ∧ _))

/-- The thread goes on where it runs, and runs its own code. While it is in its loop it does not
exit, and uses the scheduler in the delivery only. -/
def Admits (s : VirtifUser) : NetEvent → Prop
  | .create t pages tlsarea => s.place = .absent ∧ s.sys.AdmitsOp (.create t true 0 0 pages tlsarea)
  | .myrecv _ => True
  | .pusher => s.sys.sched.current = s.viuThr ∧ s.Loops ∧ s.place ≠ .asleep ∧
      (s.place ≠ .prepared → s.sys.pc s.viuThr = .active .caller)
  | .dying => True
  | .sched event =>
    if s.Loops then s.sys.AdmitsService s.viuThr s.place.stage event else s.sys.Admits event

instance decidableAdmits (s : VirtifUser) : ∀ e, Decidable (s.Admits e) := by
  intro event
  unfold Admits
  split <;> infer_instance

end VirtifUser
end Rumprun.Xen
