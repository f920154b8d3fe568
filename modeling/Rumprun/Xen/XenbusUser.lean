import Mathlib.Data.Nat.Digits.Defs
import Rumprun.Xen.SharedRings
import Rumprun.Xen.XenbusRead

/-! # The records behind an open `/dev/xen/xenbus`

The requests, transactions and watches of one file with the memory they are in, the store, the thread
of `xenbus.c` that passes its messages on, and the loop of `rumpxenbus_dev_user_shutdown`.

Every kind of record has its own map from addresses; `xbd_malloc` gives any address that is in none
of them, and `xenbus_id_allocate` any id that is not taken. A watch's token is its address as text,
and strings are compared by `bmk_strcmp`. A read of memory that was released, and a call of
`xbd_free` with anything but an allocated address, is noted and goes on with what was there. The id
of a new transaction is read from a wrong place (`(char*)&msg + sizeof(*msg)`), and may be anything. -/

namespace Rumprun.Xen
open Core Function

abbrev Addr := Nat

def nrReqs : Nat := 32

def intMax : Nat := 2147483647

/-- `struct xenbus_dev_request`; `target` is `u.trans` or `u.watch`. -/
structure DevRequest where
  xbId : Nat
  reqType : RequestKind
  target : Addr
  deriving DecidableEq, Repr

structure DevTransaction where
  txId : Nat
  destroy : Option DevRequest
  deriving DecidableEq, Repr

structure DevWatch where
  path : Addr
  userToken : Addr
  visibleToUser : Bool
  destroy : Option DevRequest
  /-- The number of the `XS_WATCH` that made it, which nothing in the code knows. -/
  serial : Nat
  deriving DecidableEq, Repr

/-- A pointer to a request: a record of its own, or the one inside of another record. -/
inductive RequestPtr where
  | own (a : Addr)
  | ofTransaction (x : Addr)
  | ofWatch (w : Addr)
  deriving DecidableEq, Repr

/-- What the store gets of a request. -/
structure StoreRequest where
  id : Nat
  reqType : RequestKind
  token : Addr
  deriving DecidableEq, Repr

def hexdigit (d : Nat) : UInt8 := .ofNat (if d < 10 then 48 + d else 87 + d)

/-- From the last digit on; there is at least one. -/
def hexDigits (n : Nat) : List Nat := if n = 0 then [0] else Nat.digits 16 n

/-- What `bmk_snprintf` makes of `"*%p"`. -/
def watchToken (w : Addr) : CString :=
  .ofBytes ([42, 48, 120] ++ ((hexDigits w).map hexdigit).reverse)

/-- The answer after which a token is not in use. -/
def StoreRequest.ends (q : StoreRequest) (error : Bool) : Bool :=
  q.reqType = .unwatch || (q.reqType = .watch && error)

inductive StoreMessage where
  | reply (id : Nat) (error : Bool)
  | event (token : Addr) (path : List UInt8)
  deriving DecidableEq, Repr

/-- An entry of `du->replies`. -/
inductive QueueEvent where
  | reply (req : RequestPtr) (id : Nat) (error : Bool)
  | watch (w : Addr) (serial : Nat) (path : List UInt8)
  deriving DecidableEq, Repr

inductive ClosePhase where
  | opened
  | destroying
  | waiting
  | finished
  deriving DecidableEq, Repr

inductive MemFault where
  | readAfterFree
  | badFree
  deriving DecidableEq, Repr

/-- The addresses that a request gets from `xbd_malloc`, null where there is no memory. -/
structure BusAlloc where
  request : Option Addr
  transaction : Option Addr
  watch : Option Addr
  path : Option Addr
  userToken : Option Addr
  deriving DecidableEq, Repr

def BusAlloc.addrs (mem : BusAlloc) : List Addr :=
  [mem.request, mem.transaction, mem.watch, mem.path, mem.userToken].filterMap id

structure BusFile where
  requests : Addr → Option DevRequest
  transactionAt : Addr → Option DevTransaction
  watchAt : Addr → Option DevWatch
  texts : Addr → Option (List UInt8)
  transactions : List Addr
  /-- `du->watches`; the same records stand in the list of `xenbus.c`. -/
  watches : List Addr
  outstanding : Nat
  /-- `req_info[id].for_queue`, where `req_info[id].reply_queue` is not null. -/
  reqInfo : Nat → Option RequestPtr
  unanswered : List StoreRequest
  ring : List StoreMessage
  replies : List QueueEvent
  phase : ClosePhase
  /-- The tokens of which the store has answered the `XS_UNWATCH`, or an `XS_WATCH` with an error,
  and nothing has asked for since. -/
  closed : Addr → Bool
  /-- The path and the token of each `XS_WATCH`. -/
  given : List (List UInt8 × List UInt8)
  faults : List MemFault

inductive BusEvent where
  | write (type txId : Nat) (payload : List UInt8) (mem : BusAlloc) (id : Nat)
  /-- A reader takes the next event. -/
  | read (mem : Bool) (txId : Nat)
  | close
  /-- One piece of the loop of `rumpxenbus_dev_user_shutdown`. -/
  | shutdown (mem : Bool) (txId id : Nat)
  /-- `xenbus_thread_func` takes the next message of the store. -/
  | deliver (behind : UInt8)
  | answer (id : Nat) (error : Bool)
  | fire (token : Addr) (path : List UInt8)
  deriving DecidableEq

namespace BusFile

def init : BusFile :=
  { requests := fun _ => none
    transactionAt := fun _ => none
    watchAt := fun _ => none
    texts := fun _ => none
    transactions := []
    watches := []
    outstanding := 0
    reqInfo := fun _ => none
    unanswered := []
    ring := []
    replies := []
    phase := .opened
    closed := fun _ => false
    given := []
    faults := [] }

def fault (s : BusFile) (f : MemFault) : BusFile := { s with faults := s.faults ++ [f] }

/-! ## Requests -/

def requestAt (s : BusFile) : RequestPtr → Option DevRequest
  | .own a => s.requests a
  | .ofTransaction x => (s.transactionAt x).bind DevTransaction.destroy
  | .ofWatch w => (s.watchAt w).bind DevWatch.destroy

def setRequest (s : BusFile) (req : RequestPtr) (r : DevRequest) : BusFile :=
  { s with
    requests :=
      match req with
      | .own a => update s.requests a (some r)
      | _ => s.requests
    transactionAt :=
      match req with
      | .ofTransaction x =>
        update s.transactionAt x
          ((s.transactionAt x).map fun record => { record with destroy := some r })
      | _ => s.transactionAt
    watchAt :=
      match req with
      | .ofWatch w =>
        update s.watchAt w
          ((s.watchAt w).map fun record => { record with destroy := some r })
      | _ => s.watchAt }

def makeRequest (s : BusFile) (req : RequestPtr) (reqType : RequestKind) (target : Addr) (id : Nat) :
    Except Stop BusFile := do
  bmkAssert (decide (s.outstanding < intMax)) "du->outstanding_requests < INT_MAX"
  let s := s.setRequest req { xbId := id, reqType := reqType, target := target }
  .ok { s with
    reqInfo := update s.reqInfo id (some req)
    outstanding := s.outstanding + 1
    unanswered := s.unanswered ++ [{ id := id, reqType := reqType, token := target }]
    closed := if reqType = .watch then update s.closed target false else s.closed }

def findTransaction (s : BusFile) (txId : Nat) : Option Addr :=
  s.transactions.find? fun x => (s.transactionAt x).any fun record => record.txId = txId

def isVisible (s : BusFile) (w : Addr) : Bool := (s.watchAt w).any DevWatch.visibleToUser

/-- `!strcmp(text, p)`. -/
def sameText (s : BusFile) (text : List UInt8) (p : Addr) : Except Stop Bool :=
  match s.texts p with
  | none => .error (.undefined "*p")
  | some other => sameString signedChar (.ofBytes text) (.ofBytes other)

def isVisibleWatch (s : BusFile) (path token : List UInt8) (w : Addr) : Except Stop Bool :=
  match s.watchAt w with
  | none => .error (.undefined "watch->visible_to_user")
  | some watch =>
    if watch.visibleToUser then do
      if ← s.sameText path watch.path then s.sameText token watch.userToken else .ok false
    else .ok false

def findVisibleWatch (s : BusFile) (path token : List UInt8) : Except Stop (Option Addr) :=
  s.watches.findM? (s.isVisibleWatch path token)

def setVisible (s : BusFile) (w : Addr) (visible : Bool) : BusFile :=
  { s with
    watchAt := update s.watchAt w
      ((s.watchAt w).map fun watch => { watch with visibleToUser := visible }) }

/-- The request of which nothing is set but the type. -/
def newRequest (s : BusFile) (a : Addr) (reqType : RequestKind) : BusFile :=
  { s with
    requests := update s.requests a (some { xbId := 0, reqType := reqType, target := 0 }) }

def newTransaction (s : BusFile) (x : Addr) : BusFile :=
  { s with
    transactionAt := update s.transactionAt x (some { txId := 0, destroy := none }) }

/-- The record of a watch and its strings, with `xenbus_watch_prepare`. -/
def newWatch (s : BusFile) (w p u : Addr) (path token : List UInt8) : BusFile :=
  { s with
    texts := update (update s.texts p (some path)) u (some token)
    watchAt := update s.watchAt w
      (some { path := p, userToken := u, visibleToUser := false, destroy := none,
              serial := s.given.length })
    watches := w :: s.watches
    given := s.given ++ [(path, token)] }

/-- The switch of `rumpxenbus_process_request`: the error that it returns, or the state in which it
makes the request, with what the request is about. -/
def checkRequest (s : BusFile) (txId : Nat) (payload : List UInt8) (mem : BusAlloc) :
    RequestKind → Except Stop (Except Int (BusFile × Addr))
  | .plain =>
    if txId ≠ 0 ∧ s.findTransaction txId = none then .ok (.error einval) else .ok (.ok (s, 0))
  | .transactionStart =>
    if txId ≠ 0 then .ok (.error einval)
    else
      match mem.transaction with
      | none => .ok (.error enomem)
      | some x => .ok (.ok (s.newTransaction x, x))
  | .transactionEnd =>
    if txId = 0 then .ok (.error einval)
    else
      match s.findTransaction txId with
      | none => .ok (.error einval)
      | some x => .ok (.ok ({ s with transactions := s.transactions.erase x }, x))
  | .watch =>
    if txId ≠ 0 then .ok (.error einval)
    else
      match watchMessageParse payload with
      | none => .ok (.error einval)
      | some (path, token) =>
        match mem.watch, mem.path, mem.userToken with
        | some w, some p, some u => .ok (.ok (s.newWatch w p u path token, w))
        | _, _, _ => .ok (.error enomem)
  | .unwatch =>
    if txId ≠ 0 then .ok (.error einval)
    else
      match watchMessageParse payload with
      | none => .ok (.error einval)
      | some (path, token) => do
        match ← s.findVisibleWatch path token with
        | none => .ok (.error einval)
        | some w => .ok (.ok (s.setVisible w false, w))
  | .unknown => .ok (.error einval)

/-- `rumpxenbus_process_request`. A request that is refused, or for which there is no memory, keeps
the memory that it has. -/
def processRequest (s : BusFile) (type txId : Nat) (payload : List UInt8) (mem : BusAlloc) (id : Nat) :
    Except Stop BusFile :=
  match mem.request with
  | none => .ok s
  | some a => do
    let reqType := requestKind type
    let s := s.newRequest a reqType
    match ← s.checkRequest txId payload mem reqType with
    | .error _ => .ok s
    | .ok (s, target) => s.makeRequest (.own a) reqType target id

/-! ## Responses and events -/

def freeTransaction (s : BusFile) (x : Addr) : BusFile :=
  if s.transactionAt x = none then s.fault .badFree
  else { s with transactionAt := update s.transactionAt x none }

def freeText (s : BusFile) (p : Addr) : BusFile :=
  if s.texts p = none then s.fault .badFree
  else { s with texts := update s.texts p none }

def freeWatch (s : BusFile) (w : Addr) (watch : DevWatch) : BusFile :=
  let s := (s.freeText watch.path).freeText watch.userToken
  if s.watchAt w = none then s.fault .badFree
  else { s with watchAt := update s.watchAt w none }

/-- `xbd_free(req)`. -/
def freeRequest (s : BusFile) : RequestPtr → BusFile
  | .own a =>
    if s.requests a = none then s.fault .badFree
    else { s with requests := update s.requests a none }
  | .ofTransaction _ => s.fault .badFree
  | .ofWatch _ => s.fault .badFree

def doUnwatch (s : BusFile) (w : Addr) (watch : DevWatch) : Except Stop BusFile := do
  bmkAssert (!watch.visibleToUser) "!watch->visible_to_user"
  .ok (freeWatch { s with watches := s.watches.erase w } w watch)

/-- The switch of `process_response`. -/
def respond (s : BusFile) (req : DevRequest) (error : Bool) (txId : Nat) : Except Stop BusFile :=
  match req.reqType with
  | .transactionStart =>
    if error then .ok s
    else
      match s.transactionAt req.target with
      | none => .error (.undefined "req->u.trans")
      | some record =>
        .ok { s with
          transactionAt := update s.transactionAt req.target (some { record with txId := txId })
          transactions := req.target :: s.transactions }
  | .transactionEnd => .ok (s.freeTransaction req.target)
  | .watch =>
    match s.watchAt req.target with
    | none => .error (.undefined "req->u.watch")
    | some watch =>
      if error then s.doUnwatch req.target watch else .ok (s.setVisible req.target true)
  | .unwatch => do
    bmkAssert (!error) "!error"
    match s.watchAt req.target with
    | none => .error (.undefined "req->u.watch")
    | some watch => s.doUnwatch req.target watch
  | .plain => .ok s
  | .unknown => .ok s

def idRelease (s : BusFile) (id : Nat) : Except Stop BusFile := do
  miniosAssert (s.reqInfo id).isSome "!(!req_info[id].reply_queue)"
  .ok { s with reqInfo := update s.reqInfo id none }

/-- The end of `process_response`: `req` is read once more, and freed. -/
def endResponse (s : BusFile) (ptr : RequestPtr) (xbId : Nat) : Except Stop BusFile := do
  let s ← (if s.requestAt ptr = none then s.fault .readAfterFree else s).idRelease xbId
  bmkAssert (decide ((s.freeRequest ptr).outstanding > 0)) "du->outstanding_requests > 0"
  .ok { s.freeRequest ptr with outstanding := (s.freeRequest ptr).outstanding - 1 }

def processResponse (s : BusFile) (ptr : RequestPtr) (error : Bool) (txId : Nat) :
    Except Stop BusFile :=
  match s.requestAt ptr with
  | none => .error (.undefined "req->req_type")
  | some req => do
    let s ← s.respond req error txId
    s.endResponse ptr req.xbId

/-- `process_event`; `false` where it returns null. -/
def processEvent (s : BusFile) (mem : Bool) (txId : Nat) : QueueEvent → Except Stop (BusFile × Bool)
  | .watch w _ _ =>
    match s.watchAt w with
    | none => .error (.undefined "watch->user_token")
    | some watch =>
      match s.texts watch.userToken with
      | none => .error (.undefined "*watch->user_token")
      | some _ => .ok (s, mem)
  | .reply ptr _ error => do
    let s ← s.processResponse ptr error txId
    .ok (s, true)

/-- The event was taken off the queue. -/
def popped (s : BusFile) (rest : List QueueEvent) : BusFile := { s with replies := rest }

/-! ## Closing -/

/-- `nr_live_reqs < NR_REQS`. -/
def hasFreeId (s : BusFile) : Bool := (List.range nrReqs).any fun id => (s.reqInfo id).isNone

/-- The pieces of the loop: a request for a watch, one for a transaction, the end of a turn, and an
event that was waited for. `xenbus_id_allocate` sleeps as long as no id is free. -/
def shutdown (s : BusFile) (mem : Bool) (txId id : Nat) : Except Stop BusFile :=
  match s.phase with
  | .opened => .ok s
  | .destroying =>
    match s.watches.find? s.isVisible with
    | some w =>
      if s.hasFreeId then (s.setVisible w false).makeRequest (.ofWatch w) .unwatch w id else .ok s
    | none =>
      match s.transactions with
      | x :: rest =>
        if s.hasFreeId then
          makeRequest { s with transactions := rest } (.ofTransaction x) .transactionEnd x id
        else .ok s
      | [] =>
        if s.outstanding ≠ 0 then .ok { s with phase := .waiting }
        else do
          bmkAssert (decide (s.transactions = [])) "LIST_EMPTY(&du->transactions)"
          bmkAssert (decide (s.watches = [])) "LIST_EMPTY(&du->watches)"
          .ok { s with phase := .finished }
  | .waiting =>
    match s.replies with
    | [] => .ok s
    | ev :: rest => do
      let (s, discard) ← (s.popped rest).processEvent mem txId ev
      bmkAssert discard "discard"
      .ok { s with phase := .destroying }
  | .finished => .ok s

/-! ## The store and the thread of `xenbus.c` -/

/-- The watch of which `xenbus_thread_func` takes an event to be; `behind` is the byte behind the
token of the event. -/
def findEventWatch (s : BusFile) (behind : UInt8) (token : Addr) : Option Addr :=
  s.watches.find? fun w => sameStringBehind signedChar behind (watchToken w) (watchToken token)

def deliver (s : BusFile) (behind : UInt8) : Except Stop BusFile :=
  match s.ring with
  | [] => .ok s
  | .event token path :: rest =>
    match s.findEventWatch behind token with
    | none => .ok { s with ring := rest }
    | some w =>
      match s.watchAt w with
      | none => .error (.undefined "watch->token")
      | some watch =>
        .ok { s with ring := rest, replies := s.replies ++ [.watch w watch.serial path] }
  | .reply id error :: rest =>
    match s.reqInfo id with
    | none => .error (.undefined "req_info[msg.req_id].for_queue")
    | some ptr =>
      match s.requestAt ptr with
      | none => .error (.undefined "req_info[msg.req_id].for_queue->reply")
      | some _ => .ok { s with ring := rest, replies := s.replies ++ [.reply ptr id error] }

def answer (s : BusFile) (id : Nat) (error : Bool) : BusFile :=
  match s.unanswered.find? fun q => q.id = id with
  | none => s
  | some q =>
    { s with
      unanswered := s.unanswered.erase q
      ring := s.ring ++ [.reply id error]
      closed := if q.ends error then update s.closed q.token true else s.closed }

def step (s : BusFile) : BusEvent → Except Stop BusFile
  | .write type txId payload mem id => s.processRequest type txId payload mem id
  | .read mem txId =>
    match s.replies with
    | [] => .ok s
    | ev :: rest => do
      let (s, _) ← (s.popped rest).processEvent mem txId ev
      .ok s
  | .close => .ok { s with phase := .destroying }
  | .shutdown mem txId id => s.shutdown mem txId id
  | .deliver behind => s.deliver behind
  | .answer id error => .ok (s.answer id error)
  | .fire token path => .ok { s with ring := s.ring ++ [.event token path] }

/-! ## What can happen when -/

def Fresh (s : BusFile) (a : Addr) : Prop :=
  s.requests a = none ∧ s.transactionAt a = none ∧ s.watchAt a = none ∧ s.texts a = none

instance decidableFresh (s : BusFile) (a : Addr) : Decidable (s.Fresh a) := instDecidableAnd

def IdFree (s : BusFile) (id : Nat) : Prop := id < nrReqs ∧ s.reqInfo id = none

instance decidableIdFree (s : BusFile) (id : Nat) : Decidable (s.IdFree id) := instDecidableAnd

/-- The step makes a request. -/
def asks (s : BusFile) (e : BusEvent) : Bool :=
  match s.step e with
  | .error _ => false
  | .ok r => decide (s.outstanding < r.outstanding)

/-- A step that makes a request waits for an id; the file is not used while it is closed; and the
store reports no event of a token that is not in use. -/
def Admits (s : BusFile) : BusEvent → Prop
  | .write type txId payload mem id =>
    s.phase = .opened ∧ mem.addrs.Nodup ∧ (∀ a ∈ mem.addrs, s.Fresh a) ∧
      (s.asks (.write type txId payload mem id) = true → s.IdFree id)
  | .read _ _ => s.phase = .opened ∧ s.replies ≠ []
  | .close => s.phase = .opened
  | .shutdown mem txId id =>
    (s.phase = .destroying ∨ s.phase = .waiting ∧ s.replies ≠ []) ∧
      (s.asks (.shutdown mem txId id) = true → s.IdFree id)
  | .deliver _ => s.ring ≠ []
  | .answer id _ => id ∈ s.unanswered.map StoreRequest.id
  | .fire token _ => s.closed token = false

instance decidableAdmits (s : BusFile) : ∀ e, Decidable (s.Admits e) := by
  intro event
  unfold Admits
  split <;> infer_instance

end BusFile
end Rumprun.Xen
