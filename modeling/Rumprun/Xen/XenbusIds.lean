import Rumprun.Lib.SlotTable
import Rumprun.Xen.WaitEvent
import Rumprun.Xen.XenbusUser

/-! # The ids of requests to the store, `xenbus.c`

Threads that call `xenbus_msg_reply`, and threads that make requests for `/dev/xen/xenbus`, whose
replies come to the queue of the file; the store, which answers in any order; and
`xenbus_thread_func`, which passes the replies on.

`req_wq` is a queue of `mini-os/wait.h`, with `req_info[]` and `nr_live_reqs` as its data. Where a
thread waits for something else, it only calls the scheduler, and may go on at any time. -/

namespace Rumprun.Xen
open Core Scheduler Function

/-- A `struct xenbus_event_queue`: the one on the stack of a thread in `xenbus_msg_reply`, or the one
of an open file. -/
inductive EventQueue where
  | stack (t : Tid)
  | device (d : Nat)
  deriving DecidableEq, Repr

/-- A `struct xenbus_event`: on the stack, or in the request of a file. -/
inductive EventBuf where
  | stack (t : Tid)
  | device (a : Addr)
  deriving DecidableEq, Repr

structure StoreReply where
  reqId : Nat
  serial : Nat
  body : List UInt8
  deriving DecidableEq, Repr

/-- `req_info[]`, where a null `reply_queue` is none; `nr_live_reqs`; and `probe`. -/
structure ReqTable where
  replyQueue : Nat → Option EventQueue
  forQueue : Nat → EventBuf
  nrLiveReqs : Int
  probe : Nat

def ReqTable.ready (table : ReqTable) : Bool := decide (table.nrLiveReqs < nrReqs)

def ReqTable.taken (id : Nat) (queue : EventQueue) (buf : EventBuf) (table : ReqTable) : ReqTable :=
  { replyQueue := update table.replyQueue id (some queue)
    forQueue := update table.forQueue id buf
    nrLiveReqs := table.nrLiveReqs + 1
    probe := (id + 1) % nrReqs }

def ReqTable.released (id : Nat) (table : ReqTable) : ReqTable :=
  { table with
    replyQueue := update table.replyQueue id none
    nrLiveReqs := table.nrLiveReqs - 1 }

/-- Where a thread is with a request: in `xenbus_id_allocate`; between that and the end of
`xenbus_xb_write`; in `await_event`. -/
inductive RequestStage where
  | outside
  | allocating (queue : EventQueue) (buf : EventBuf)
  | writing (queue : EventQueue) (buf : EventBuf) (id serial : Nat)
  | awaiting (id serial : Nat)
  deriving DecidableEq, Repr

/-- Where a request is that has an id. -/
inductive RequestPlace where
  | writing (t : Tid)
  | unanswered
  | ring (reply : StoreReply)
  | queued (reply : StoreReply)
  deriving DecidableEq, Repr

structure LiveRequest where
  id : Nat
  serial : Nat
  queue : EventQueue
  place : RequestPlace
  deriving DecidableEq, Repr

inductive BufUse where
  | free
  | allocating (t : Tid)
  | live (request : LiveRequest)
  deriving DecidableEq, Repr

/-- What a requester has got. -/
structure Receipt where
  id : Nat
  serial : Nat
  reply : StoreReply
  deriving DecidableEq, Repr

structure IdSys where
  ev : EventSys ReqTable
  stage : Tid → RequestStage
  events : EventQueue → List EventBuf
  reply : EventBuf → Option StoreReply
  xbId : Addr → Nat × Nat
  unanswered : List (Nat × Nat)
  ring : List StoreReply
  uses : EventBuf → BufUse
  serials : Nat
  answered : List StoreReply
  received : List Receipt

/-- `req->xb_id` of a request of a file is set. -/
def setXbId (xbId : Addr → Nat × Nat) : EventBuf → Nat × Nat → Addr → Nat × Nat
  | .device a, value => update xbId a value
  | .stack _, _ => xbId

namespace IdSys

def init (sys : System) : IdSys :=
  { ev := EventSys.init sys
      { replyQueue := fun _ => none, forQueue := fun _ => .stack 0, nrLiveReqs := 0, probe := 0 }
    stage := fun _ => .outside
    events := fun _ => []
    reply := fun _ => none
    xbId := fun _ => (0, 0)
    unanswered := []
    ring := []
    uses := fun _ => .free
    serials := 0
    answered := []
    received := [] }

def current (s : IdSys) : Tid := s.ev.current

def table (s : IdSys) : ReqTable := s.ev.data

def goto (s : IdSys) (stage : RequestStage) : IdSys :=
  { s with stage := update s.stage s.current stage }

def setUse (s : IdSys) (buf : EventBuf) (use : BufUse) : IdSys :=
  { s with uses := update s.uses buf use }

def moveTo (s : IdSys) (buf : EventBuf) (place : RequestPlace) : IdSys :=
  match s.uses buf with
  | .live r => s.setUse buf (.live { r with place := place })
  | _ => s

def evStep (s : IdSys) (event : WaitEvent ReqTable) : Except Stop IdSys := do
  let ev ← s.ev.step ReqTable.ready id event
  return { s with ev := ev }

/-- One turn of the loop of `xenbus_id_allocate`, up to its wait or to its end. -/
def xenbusIdAllocate (s : IdSys) (queue : EventQueue) (buf : EventBuf) : Except Stop IdSys :=
  if s.table.nrLiveReqs < nrReqs then
    match SlotTable.search s.table.replyQueue nrReqs s.table.probe nrReqs s.table.probe with
    | none => .error (.halt "ASSERTION FAILED: !(o_probe == probe)")
    | some id => do
      let s ← s.evStep (.change (ReqTable.taken id queue buf))
      let s := s.setUse buf
        (.live { id := id, serial := s.serials, queue := queue, place := .writing s.current })
      return { s.goto (.writing queue buf id s.serials) with
        serials := s.serials + 1
        xbId := setXbId s.xbId buf (id, s.serials) }
  else s.evStep (.waitEvent inftime)

/-- `xenbus_id_release` wakes the queue where the table was full. -/
def xenbusIdRelease (s : IdSys) (id : Nat) : Except Stop IdSys := do
  miniosAssert (s.table.replyQueue id).isSome "!(!req_info[id].reply_queue)"
  if s.table.nrLiveReqs - 1 = nrReqs - 1 then s.evStep (.handler (ReqTable.released id))
  else s.evStep (.change (ReqTable.released id))

def xenbusXbWrite (s : IdSys) (buf : EventBuf) (id serial : Nat) : IdSys :=
  { (s.moveTo buf .unanswered).goto
      (match buf with
        | .stack _ => .awaiting id serial
        | .device _ => .outside) with
    unanswered := s.unanswered ++ [(id, serial)] }

/-- `await_event` and what follows it in `xenbus_msg_reply`, where there is an event. Otherwise the
thread goes to sleep, and comes back to this. -/
def awaitEvent (s : IdSys) (id serial : Nat) : Except Stop IdSys :=
  match s.events (.stack s.current) with
  | [] => .ok s
  | event :: rest => do
    miniosAssert (decide (event = .stack s.current)) "!(event != &event_buf)"
    match s.reply (s.table.forQueue id) with
    | none => .error (.undefined "rep->req_id")
    | some rep => do
      miniosAssert (decide (rep.reqId = id)) "!(rep->req_id != id)"
      let s := { s with events := update s.events (.stack s.current) rest }
      let s ← s.xenbusIdRelease id
      return { (s.setUse (.stack s.current) .free).goto .outside with
        received := s.received ++ [{ id := id, serial := serial, reply := rep }] }

/-- The first event of the queue of a file is processed by `process_response`. -/
def processResponse (s : IdSys) (d : Nat) : Except Stop IdSys :=
  match s.events (.device d) with
  | [] => .ok s
  | .stack _ :: _ => .error (.undefined "req")
  | .device a :: rest =>
    match s.reply (.device a) with
    | none => .error (.undefined "event->reply")
    | some rep => do
      let s := { s with events := update s.events (.device d) rest }
      let s ← s.xenbusIdRelease (s.xbId a).1
      return { s.setUse (.device a) .free with
        received := s.received ++ [{ id := (s.xbId a).1, serial := (s.xbId a).2, reply := rep }] }

def go (s : IdSys) : Except Stop IdSys :=
  match s.stage s.current with
  | .outside => .ok s
  | .allocating queue buf => s.xenbusIdAllocate queue buf
  | .writing _ buf id serial => .ok (s.xenbusXbWrite buf id serial)
  | .awaiting id serial => s.awaitEvent id serial

def answer (s : IdSys) (id : Nat) (body : List UInt8) : IdSys :=
  match s.unanswered.find? fun m => m.1 = id with
  | none => s
  | some m =>
    let reply := { reqId := m.1, serial := m.2, body := body }
    { s.moveTo (s.table.forQueue id) (.ring reply) with
      unanswered := s.unanswered.erase m
      ring := s.ring ++ [reply]
      answered := s.answered ++ [reply] }

/-- `xenbus_thread_func` takes the next reply. -/
def deliver (s : IdSys) : Except Stop IdSys :=
  match s.ring with
  | [] => .ok s
  | rep :: rest =>
    match s.table.replyQueue rep.reqId with
    | none => .error (.undefined "req_info[msg.req_id].reply_queue->events")
    | some queue =>
      let buf := s.table.forQueue rep.reqId
      .ok { s.moveTo buf (.queued rep) with
        ring := rest
        reply := update s.reply buf (some rep)
        events := update s.events queue (s.events queue ++ [buf]) }

end IdSys

inductive IdEvent where
  | msgReply
  | deviceRequest (d : Nat) (a : Addr)
  | go
  | processResponse (d : Nat)
  | answer (id : Nat) (body : List UInt8)
  | deliver
  | waitEvent
  | sched (event : Event)

namespace IdSys

def step (s : IdSys) : IdEvent → Except Stop IdSys
  | .msgReply =>
    let queue := .stack s.current
    let buf := .stack s.current
    .ok { (s.setUse buf (.allocating s.current)).goto (.allocating queue buf) with
      events := update s.events queue [] }
  | .deviceRequest d a =>
    .ok ((s.setUse (.device a) (.allocating s.current)).goto (.allocating (.device d) (.device a)))
  | .go => s.go
  | .processResponse d => s.processResponse d
  | .answer id body => .ok (s.answer id body)
  | .deliver => s.deliver
  | .waitEvent => s.evStep .go
  | .sched event => s.evStep (.sched event)

/-- What a thread calls of the scheduler in the middle of a request. -/
def sleeps : RequestStage → Op → Bool
  | .outside, _ => true
  | .allocating _ _, _ => false
  | _, .blockprepareTimeout _ => true
  | _, .block => true
  | _, _ => false

/-- A request of a file is in a record that no other one has; and the store answers what was asked. -/
def Admits (s : IdSys) : IdEvent → Prop
  | .msgReply => s.ev.Outside ∧ s.stage s.current = .outside
  | .deviceRequest _ a => s.ev.Outside ∧ s.stage s.current = .outside ∧ s.uses (.device a) = .free
  | .go => s.ev.Outside ∧ s.stage s.current ≠ .outside
  | .processResponse _ => s.ev.Outside ∧ s.stage s.current = .outside
  | .answer id _ => id ∈ s.unanswered.map Prod.fst
  | .deliver => s.ring ≠ []
  | .waitEvent => s.ev.Admits ReqTable.ready .go
  | .sched (.call op) => s.ev.Admits ReqTable.ready (.sched (.call op)) ∧ sleeps (s.stage s.current) op = true
  | .sched event => s.ev.Admits ReqTable.ready (.sched event)

instance decidableAdmits (s : IdSys) : ∀ event, Decidable (s.Admits event) := by
  intro event
  unfold Admits
  split <;> infer_instance

end IdSys
end Rumprun.Xen
