import Rumprun.Xen.EvtDev
import Rumprun.Xen.XenbusWrite

/-! # Reads of `/dev/xen/xenbus`: `xenbus_dev_read` and `rumpxenbus_next_event_msg`

A read has the lock of the device but for the time it sleeps in `rumpxenbus_next_event_msg`; so it is
one step up to where it sleeps, and one for each time it runs again. The message for a watch event
needs memory, and `mem` says for each of the events that a step takes whether there is any. -/

namespace Rumprun.Xen
open Core

def enomem : Int := 12

def eagain : Int := 35

def erestart : Int := -3

/-- An event in `du->replies`, with the message for it. -/
structure EventMsg where
  bytes : List UInt8
  watch : Bool
  header : sockmsgSize ≤ bytes.length
  sane : bytes.length < bufferSize * 2

/-- A read: what it was asked for, and what is left of it. -/
structure ReadCall where
  orgResid : Nat
  resid : Nat
  nonblock : Bool
  deriving DecidableEq, Repr

inductive ReadPlace where
  | outside
  | asleep (call : ReadCall) (woken : Bool)
  deriving DecidableEq, Repr

structure ReadReturn where
  err : Int
  call : ReadCall
  wantRestart : Bool
  deriving DecidableEq, Repr

structure XbRead (Thread : Type) where
  replies : List EventMsg
  rmsg : Option EventMsg
  rmsgDone : Nat
  queuedEnomem : Bool
  wantRestart : Bool
  place : Thread → ReadPlace
  /-- The messages in the order of the queue, the bytes in the order of copying, the returns of
  reads, and how many events were dropped for want of memory. -/
  arrived : List (List UInt8)
  copied : List UInt8
  returns : List ReadReturn
  dropped : Nat

inductive ReadEvent (Thread : Type) where
  | read (t : Thread) (size : Nat) (nonblock : Bool) (mem : Nat → Bool)
  /-- A reader that was woken has the lock again. -/
  | resume (t : Thread) (mem : Nat → Bool)
  | event (ev : EventMsg)
  | restart

namespace XbRead
variable {Thread : Type}

def init : XbRead Thread :=
  { replies := []
    rmsg := none
    rmsgDone := 0
    queuedEnomem := false
    wantRestart := false
    place := fun _ => .outside
    arrived := []
    copied := []
    returns := []
    dropped := 0 }

/-- `minios_wake_up(&du->replies.waitq)`. -/
def wakeUp (s : XbRead Thread) : XbRead Thread :=
  { s with
    place := fun t =>
      match s.place t with
      | .outside => .outside
      | .asleep call _ => .asleep call true }

variable [DecidableEq Thread]

def return_ (s : XbRead Thread) (t : Thread) (call : ReadCall) (err : Int) : XbRead Thread :=
  { s with
    place := Function.update s.place t .outside
    returns := s.returns ++ [{ err := err, call := call, wantRestart := s.wantRestart }] }

def sleep (s : XbRead Thread) (t : Thread) (call : ReadCall) : XbRead Thread :=
  { s with place := Function.update s.place t (.asleep call false) }

def errIfBlock (s : XbRead Thread) (nonblock : Bool) : Int :=
  if s.wantRestart then erestart else if nonblock then eagain else 0

/-- There is no message: a read that has done something claims success. -/
def noMessage (s : XbRead Thread) (t : Thread) (call : ReadCall) (err : Int) : XbRead Thread :=
  s.return_ t call (if call.resid ≠ call.orgResid then 0 else err)

/-- The event is taken off the queue, and `dd->rmsg` is its message, or null. -/
def takeEvent (s : XbRead Thread) (ev : EventMsg) (rest : List EventMsg) (mem : Bool) : XbRead Thread :=
  if ev.watch && !mem then
    { s with replies := rest, rmsg := none, queuedEnomem := true, dropped := s.dropped + 1 }
  else { s with replies := rest, rmsg := some ev }

/-- The body of the loop from the message on; with what is left to read. -/
def copyOut (s : XbRead Thread) (msg : EventMsg) (resid : Nat) : Except Stop (XbRead Thread × Nat) := do
  let avail := msg.bytes.length
  kassert (decide (avail < bufferSize * 2)) "avail < BUFFER_SIZE*2"
  kassert (decide (avail > 0)) "avail > 0"
  kassert (decide (s.rmsgDone ≤ avail)) "dd->rmsg_done <= avail"
  let n := min resid (avail - s.rmsgDone)
  let s := { s with
    copied := s.copied ++ (msg.bytes.drop s.rmsgDone).take n
    rmsgDone := s.rmsgDone + n }
  if s.rmsgDone = avail then .ok ({ s with rmsg := none, rmsgDone := 0 }, resid - n)
  else .ok (s, resid - n)

/-- The read goes on after it took an event. -/
def afterEvent (s : XbRead Thread) (t : Thread) (call : ReadCall) (err : Int)
    (loop : XbRead Thread → ReadCall → Except Stop (XbRead Thread)) : Except Stop (XbRead Thread) :=
  match s.rmsg with
  | none => .ok (s.noMessage t call err)
  | some msg => do
    let (s, resid) ← s.copyOut msg call.resid
    loop s { call with resid := resid }

/-- The loop of `xenbus_dev_read`. A turn takes bytes away, or clears a message of which nothing is
left, so that two turns more than there are bytes to read are enough. -/
def readLoop (t : Thread) (mem : Nat → Bool) :
    Nat → Nat → XbRead Thread → ReadCall → Except Stop (XbRead Thread)
  | 0, _, _, _ => .error (.undefined "turns of the loop")
  | turns + 1, taken, s, call =>
    if s.queuedEnomem then
      if call.orgResid ≠ call.resid then .ok (s.return_ t call 0)
      else .ok (return_ { s with queuedEnomem := false } t call enomem)
    else if call.resid = 0 then .ok (s.return_ t call 0)
    else
      match s.rmsg with
      | some msg => do
        let (s, resid) ← s.copyOut msg call.resid
        readLoop t mem turns taken s { call with resid := resid }
      | none =>
        let err := s.errIfBlock call.nonblock
        match s.replies with
        | [] => if err ≠ 0 then .ok (s.noMessage t call err) else .ok (s.sleep t call)
        | ev :: rest =>
          (s.takeEvent ev rest (mem taken)).afterEvent t call err
            (readLoop t mem turns (taken + 1))

/-- The loop of `rumpxenbus_next_event_msg`, after `minios_wait`; the reader had decided to block. -/
def wakeReader (s : XbRead Thread) (t : Thread) (mem : Nat → Bool) (call : ReadCall) :
    Except Stop (XbRead Thread) :=
  match s.replies with
  | [] => .ok (s.sleep t call)
  | ev :: rest =>
    (s.takeEvent ev rest (mem 0)).afterEvent t call 0 fun s call =>
      s.readLoop t mem (call.resid + 2) 1 call

def step (s : XbRead Thread) : ReadEvent Thread → Except Stop (XbRead Thread)
  | .read t size nonblock mem =>
    s.readLoop t mem (size + 2) 0 { orgResid := size, resid := size, nonblock := nonblock }
  | .resume t mem =>
    match s.place t with
    | .outside => .ok s
    | .asleep call _ => s.wakeReader t mem call
  | .event ev =>
    .ok { s with replies := s.replies ++ [ev], arrived := s.arrived ++ [ev.bytes] }.wakeUp
  | .restart => .ok { s with wantRestart := true }.wakeUp

def Admits (s : XbRead Thread) : ReadEvent Thread → Prop
  | .read t _ _ _ => s.place t = .outside
  | .resume t _ => ∃ call, s.place t = .asleep call true
  | .event _ => True
  | .restart => True

instance decidableAdmits (s : XbRead Thread) : ∀ e, Decidable (s.Admits e)
  | .read t _ _ _ => inferInstanceAs (Decidable (s.place t = .outside))
  | .resume t _ =>
    match place : s.place t with
    | .outside => .isFalse (by simp [Admits, place])
    | .asleep call true => .isTrue ⟨call, place⟩
    | .asleep _ false => .isFalse (by simp [Admits, place])
  | .event _ => instDecidableTrue
  | .restart => instDecidableTrue

end XbRead
end Rumprun.Xen
