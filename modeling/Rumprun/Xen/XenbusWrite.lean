import Rumprun.Core.BmkString

/-! # Writes to `/dev/xen/xenbus`: `xenbus_dev_write` and `rumpxenbus_process_request`

The bytes of all the writes are collected in a buffer. As soon as the buffer starts with a whole
message, the message is looked at, and a request is handed to `xenbus_xb_write`. A message that the
device refuses discards the buffer and ends the write.

What memory adds to the watch that is made as number `k` is a parameter, and allocations succeed. -/

namespace Rumprun.Xen
open Core

/-! ## Messages -/

def xsDirectory : Nat := 1

def xsRead : Nat := 2

def xsGetPerms : Nat := 3

def xsWatch : Nat := 4

def xsUnwatch : Nat := 5

def xsTransactionStart : Nat := 6

def xsTransactionEnd : Nat := 7

def xsGetDomainPath : Nat := 10

def xsWrite : Nat := 11

def xsMkdir : Nat := 12

def xsRm : Nat := 13

def xsSetPerms : Nat := 14

def xsIsDomainIntroduced : Nat := 17

def xenstorePayloadMax : Nat := 4096

/-- `sizeof(struct xsd_sockmsg)`. -/
def sockmsgSize : Nat := 16

/-- `BUFFER_SIZE`. -/
def bufferSize : Nat := xenstorePayloadMax + sockmsgSize

structure XsdSockmsg where
  type : Nat
  reqId : Nat
  txId : Nat
  len : Nat
  deriving DecidableEq, Repr

def put32 (n : Nat) : List UInt8 :=
  [.ofNat n, .ofNat (n / 256), .ofNat (n / 65536), .ofNat (n / 16777216)]

def get32 (bytes : List UInt8) : Nat := bytes.foldr (fun b rest => b.toNat + 256 * rest) 0

/-- `dc->wbuf.msg`. -/
def sockmsg (buffer : List UInt8) : XsdSockmsg :=
  { type := get32 (buffer.take 4)
    reqId := get32 ((buffer.drop 4).take 4)
    txId := get32 ((buffer.drop 8).take 4)
    len := get32 ((buffer.drop 12).take 4) }

/-- A string up to its null byte, and what follows. -/
def watchMessageParseString (bytes : List UInt8) : Option (List UInt8 × List UInt8) :=
  if 0 ∈ bytes then some (bytes.takeWhile (· ≠ 0), (bytes.dropWhile (· ≠ 0)).tail) else none

def watchMessageParse (payload : List UInt8) : Option (List UInt8 × List UInt8) := do
  let (path, rest) ← watchMessageParseString payload
  let (token, _) ← watchMessageParseString rest
  some (path, token)

/-- How `rumpxenbus_process_request` handles a message. -/
inductive RequestKind where
  | plain
  | transactionStart
  | transactionEnd
  | watch
  | unwatch
  | unknown
  deriving DecidableEq, Repr

def requestKind (type : Nat) : RequestKind :=
  if type ∈ [xsDirectory, xsRead, xsGetPerms, xsGetDomainPath, xsIsDomainIntroduced, xsWrite,
      xsMkdir, xsRm, xsSetPerms] then .plain
  else if type = xsTransactionStart then .transactionStart
  else if type = xsTransactionEnd then .transactionEnd
  else if type = xsWatch then .watch
  else if type = xsUnwatch then .unwatch
  else .unknown

/-- `forward_request` is called for it. -/
def RequestKind.forwards : RequestKind → Bool
  | .plain | .transactionStart | .transactionEnd => true
  | .watch | .unwatch | .unknown => false

/-! ## Requests -/

/-- A call of `xenbus_xb_write`, without the id that was allocated for it. -/
@[ext] structure XbRequest where
  type : Nat
  txId : Nat
  payload : List UInt8
  deriving DecidableEq, Repr

/-- The token that is made of the address of a watch, and the bytes in memory behind the copies of its
path and of the user's token. -/
structure XbPlace where
  token : List UInt8
  pathBehind : UInt8
  userTokenBehind : UInt8
  deriving DecidableEq, Repr

structure XbWatch where
  path : List UInt8
  userToken : List UInt8
  place : XbPlace
  visibleToUser : Bool
  deriving DecidableEq, Repr

/-- What the requests look at in a `struct rumpxenbus_data_user`, and the number of watches made so
far. -/
structure XbUser where
  transactions : List Nat
  watches : List XbWatch
  prepared : Nat
  deriving DecidableEq, Repr

/-- `make_watch_request`. -/
def makeWatchRequest (type txId : Nat) (watch : XbWatch) : XbRequest :=
  { type := type, txId := txId, payload := watch.path ++ [0] ++ watch.place.token ++ [0] }

def isVisibleWatch (path token : List UInt8) (watch : XbWatch) : Bool :=
  watch.visibleToUser &&
    sameStringBehind signedChar watch.place.pathBehind (.ofBytes path) (.ofBytes watch.path) &&
    sameStringBehind signedChar watch.place.userTokenBehind (.ofBytes token) (.ofBytes watch.userToken)

/-- `watch->visible_to_user = 0` for the watch that `find_visible_watch` finds. -/
def hideWatch (path token : List UInt8) : List XbWatch → List XbWatch
  | [] => []
  | watch :: rest =>
    if isVisibleWatch path token watch then { watch with visibleToUser := false } :: rest
    else watch :: hideWatch path token rest

/-- The switch of `rumpxenbus_process_request`, with the text of the trouble that it reports.
`payload` are the `msg.len` bytes after the header, and `used` is all that is in the buffer after
it. -/
def request (places : Nat → XbPlace) (u : XbUser) (msg : XsdSockmsg) (payload used : List UInt8) :
    Except String (XbUser × XbRequest) :=
  let forward := { type := msg.type, txId := msg.txId, payload := used }
  match requestKind msg.type with
  | .plain =>
    if msg.txId ≠ 0 ∧ msg.txId ∉ u.transactions then .error "unknown transaction"
    else .ok (u, forward)
  | .transactionStart =>
    if msg.txId ≠ 0 then .error "nested transaction" else .ok (u, forward)
  | .transactionEnd =>
    if msg.txId = 0 then .error "ending zero transaction"
    else if msg.txId ∉ u.transactions then .error "ending unknown transaction"
    else .ok ({ u with transactions := u.transactions.erase msg.txId }, forward)
  | .watch =>
    if msg.txId ≠ 0 then .error "XS_WATCH with transaction"
    else
      match watchMessageParse payload with
      | none => .error "bad XS_WATCH message"
      | some (path, token) =>
        let watch : XbWatch :=
          { path := path, userToken := token, place := places u.prepared, visibleToUser := false }
        .ok ({ u with watches := watch :: u.watches, prepared := u.prepared + 1 },
          makeWatchRequest msg.type msg.txId watch)
  | .unwatch =>
    if msg.txId ≠ 0 then .error "XS_UNWATCH with transaction"
    else
      match watchMessageParse payload with
      | none => .error "bad XS_WATCH message"
      | some (path, token) =>
        match u.watches.find? (isVisibleWatch path token) with
        | none => .error "unwatch nonexistent watch"
        | some watch =>
          .ok ({ u with watches := hideWatch path token u.watches },
            makeWatchRequest msg.type msg.txId watch)
  | .unknown => .error "unknown request message type"

/-! ## The device -/

structure XbDev where
  /-- `wbuf_used` bytes of the buffer. -/
  wbuf : List UInt8
  du : XbUser
  /-- The requests handed to `xenbus_xb_write`, and the troubles that were reported. -/
  handed : List XbRequest
  troubles : List String
  deriving DecidableEq

namespace XbDev
variable (places : Nat → XbPlace)

def init (u : XbUser) : XbDev :=
  { wbuf := [], du := u, handed := [], troubles := [] }

def packetlen (buffer : List UInt8) : Nat := (sockmsg buffer).len + sockmsgSize

/-- `WTROUBLE`: everything buffered is discarded. -/
def wtrouble (s : XbDev) (what : String) : XbDev :=
  { s with wbuf := [], troubles := s.troubles ++ [what] }

/-- `rumpxenbus_process_request`. The second result is `false` where the source returns `EINVAL`. -/
def processRequest (s : XbDev) : XbDev × Bool :=
  let msg := sockmsg s.wbuf
  let used := s.wbuf.drop sockmsgSize
  match request places s.du msg (used.take msg.len) used with
  | .error what => (s.wtrouble what, false)
  | .ok (u, req) => ({ s with du := u, handed := s.handed ++ [req] }, true)

/-- The loop over the messages in the buffer; each turn takes bytes away, so that as many turns as
there are bytes are enough. -/
def processBuffer : Nat → XbDev → XbDev × Bool
  | 0, s => (s, true)
  | turns + 1, s =>
    if s.wbuf.length < sockmsgSize then (s, true)
    else if xenstorePayloadMax < (sockmsg s.wbuf).len then
      (s.wtrouble "too much payload in packet", false)
    else if s.wbuf.length < packetlen s.wbuf then (s, true)
    else
      let (after, ok) := s.processRequest places
      let after :=
        if after.wbuf ≠ [] then { after with wbuf := after.wbuf.drop (packetlen s.wbuf) }
        else after
      if ok then processBuffer turns after else (after, false)

/-- The loop of `xenbus_dev_write` over the bytes that are left of the write. -/
def writeLoop : Nat → XbDev → List UInt8 → XbDev × Bool
  | 0, s, _ => (s, true)
  | turns + 1, s, resid =>
    if resid = [] then (s, true)
    else
      let n := bufferSize - s.wbuf.length
      let filled := { s with wbuf := s.wbuf ++ resid.take n }
      let (after, ok) := filled.processBuffer places filled.wbuf.length
      if ok then writeLoop turns after (resid.drop n) else (after, false)

def devWrite (s : XbDev) (bytes : List UInt8) : XbDev × Bool := s.writeLoop places bytes.length bytes

end XbDev

/-- Writes, and what readers change in between. -/
inductive XbWriteEvent where
  | write (bytes : List UInt8)
  | change (f : XbUser → XbUser)

namespace XbDev
variable (places : Nat → XbPlace)

def step (s : XbDev) : XbWriteEvent → XbDev
  | .write bytes => (s.devWrite places bytes).1
  | .change f => { s with du := f s.du }

def run (s : XbDev) (events : List XbWriteEvent) : XbDev := events.foldl (step places) s

end XbDev
end Rumprun.Xen
