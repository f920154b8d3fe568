import Mathlib.Data.List.Nodup
import Mathlib.Data.List.Perm.Basic
import Rumprun.Lib.RingWindow
import Rumprun.Xen.SharedRings

/-! # Receive buffers, `netfront.c`

For each response `network_rx` ends the grant of the buffer that it names. Then it grants as many
buffers again: those of the next positions of the ring, whichever came back. If the backend does not
answer the oldest requests first, it gets a buffer a second time that it still has.

Requests and responses share the slots of the ring. Reading one for the other ends the run. -/

namespace Rumprun.Xen
open Core Function StepRuns RingWindow

def netRxRingSize : Nat := 256

def xennetRxidx (idx : RingIdx) : Nat := (idx &&& BitVec.ofNat 32 (netRxRingSize - 1)).toNat

/-- A request; `nr` is its number among all that were posted, for the record. -/
structure NetifRxRequest where
  nr : Nat
  id : Nat
  gref : GrantRef
  deriving DecidableEq, Repr

/-- A response has the id of the request that it answers. With `inUse` the backend still has the page
mapped, and `gnttab_end_access` does not end the grant. -/
structure NetifRxResponse where
  req : NetifRxRequest
  offset : Nat
  status : Int
  inUse : Bool
  deriving DecidableEq, Repr

inductive RxSlot where
  | req (req : NetifRxRequest)
  | rsp (rx : NetifRxResponse)
  deriving DecidableEq, Repr

def RxSlot.inUse : RxSlot → Bool
  | .req _ => false
  | .rsp rx => rx.inUse

/-- Where `network_rx` is: outside, or in one of its loops with their variables. -/
inductive RxPlace where
  | outside
  | consuming (rp cons : RingIdx) (nrConsumed : Nat)
  | reposting (i nrConsumed : Nat)
  deriving DecidableEq, Repr

/-- The last five fields are records: how many requests were posted, those whose response was not
consumed, the calls of `netif_rx` with buffer, offset and length, and the grants. -/
structure NetRx where
  reqProdPvt : RingIdx
  rspCons : RingIdx
  rxBuffers : Nat → GrantRef
  place : RxPlace
  slots : Nat → RxSlot
  reqProd : RingIdx
  rspProd : RingIdx
  /-- The backend's index, and the requests that it has taken and not answered. -/
  reqCons : RingIdx
  held : List NetifRxRequest
  posted : Nat
  inFlight : List NetifRxRequest
  received : List (Nat × Nat × Int)
  granted : List GrantRef
  ended : List GrantRef

inductive RxEvent where
  /-- The backend takes the next request. -/
  | take
  /-- It answers the `k`-th of those that it has. -/
  | answer (k offset : Nat) (status : Int) (inUse : Bool)
  /-- The next step of `network_rx`; where a page is granted, `gnttab_grant_access` returns `gref`. -/
  | network (gref : GrantRef)
  deriving DecidableEq, Repr

namespace NetRx

/-- Before `init_rx_buffers`, which is the second loop over all buffers. -/
def init : NetRx :=
  ⟨0, 0, fun _ => 0, .reposting 0 netRxRingSize, fun _ => .req ⟨0, 0, 0⟩, 0, 0, 0, [], 0, [], [], [], []⟩

def slotOf (idx : RingIdx) : Nat := idx.toNat % netRxRingSize

section Step
variable (netifRspNull : Int)

def consume (s : NetRx) (rp cons : RingIdx) (nrConsumed : Nat) : Except Stop NetRx :=
  match s.slots (slotOf cons) with
  | .req _ => .error (.undefined "a request is read for a response")
  | .rsp rx => do
    let id := rx.req.id
    miniosAssert (decide (id < netRxRingSize)) "!(id >= NET_RX_RING_SIZE)"
    return { s with
      place := .consuming rp (cons + 1) (nrConsumed + 1)
      inFlight := s.inFlight.erase rx.req
      ended := if rx.inUse then s.ended else s.rxBuffers id :: s.ended
      received :=
        if rx.status > netifRspNull then s.received ++ [(id, rx.offset, rx.status)] else s.received }

def repost (s : NetRx) (i nrConsumed : Nat) (gref : GrantRef) : NetRx :=
  let id := xennetRxidx (s.reqProdPvt + .ofNat 32 i)
  let req := ⟨s.posted, id, gref⟩
  { s with
    place := .reposting (i + 1) nrConsumed
    slots := update s.slots (slotOf (s.reqProdPvt + .ofNat 32 i)) (.req req)
    rxBuffers := update s.rxBuffers id gref
    posted := s.posted + 1
    inFlight := req :: s.inFlight
    granted := gref :: s.granted }

def networkRx (s : NetRx) (gref : GrantRef) : Except Stop NetRx :=
  match s.place with
  | .outside => .ok { s with place := .consuming s.rspProd s.rspCons 0 }
  | .consuming rp cons nrConsumed =>
    if cons ≠ rp then s.consume netifRspNull rp cons nrConsumed
    -- `RING_FINAL_CHECK_FOR_RESPONSES`
    else if s.rspProd ≠ cons then
      .ok { s with rspCons := cons, place := .consuming s.rspProd cons nrConsumed }
    else .ok { s with rspCons := cons, place := .reposting 0 nrConsumed }
  | .reposting i nrConsumed =>
    if i < nrConsumed then .ok (s.repost i nrConsumed gref)
    else .ok { s with
      reqProdPvt := s.reqProdPvt + .ofNat 32 i
      reqProd := s.reqProdPvt + .ofNat 32 i
      place := .outside }

def step (s : NetRx) : RxEvent → Except Stop NetRx
  | .take =>
    match s.slots (slotOf s.reqCons) with
    | .rsp _ => .error (.undefined "a response is read for a request")
    | .req req => .ok { s with reqCons := s.reqCons + 1, held := s.held ++ [req] }
  | .answer k offset status inUse =>
    match s.held[k]? with
    | none => .ok s
    | some req => .ok { s with
        held := s.held.eraseIdx k
        slots := update s.slots (slotOf s.rspProd) (.rsp ⟨req, offset, status, inUse⟩)
        rspProd := s.rspProd + 1 }
  | .network gref => s.networkRx netifRspNull gref

end Step

/-- The backend takes what is pushed and answers what it has. -/
def Admits (s : NetRx) : RxEvent → Prop
  | .take => s.reqCons ≠ s.reqProd
  | .answer k _ _ _ => k < s.held.length
  | .network _ => True

/-- The backend has let go of a buffer whose response is consumed; and when no response is left, it
has answered the oldest requests: what is out are the last ones that were posted. -/
def Orderly (s : NetRx) : RxEvent → Prop
  | .network _ =>
    match s.place with
    | .consuming rp cons _ =>
      if cons ≠ rp then (s.slots (slotOf cons)).inUse = false
      else s.rspProd = cons → ∀ req ∈ s.inFlight, s.posted ≤ req.nr + s.inFlight.length
    | _ => True
  | _ => True

instance (s : NetRx) : ∀ e, Decidable (s.Admits e) := by
  intro e
  unfold Admits
  split <;> infer_instance

instance (s : NetRx) : ∀ e, Decidable (s.Orderly e) := by
  intro e
  unfold Orderly
  split
  · split <;> infer_instance
  · infer_instance

/-- The ids in flight are distinct, their buffers have the grants that the backend was given, and every
grant was ended once, those in flight apart. -/
structure BuffersOk (s : NetRx) : Prop where
  distinct : (s.inFlight.map NetifRxRequest.id).Nodup
  buffers : ∀ req ∈ s.inFlight, s.rxBuffers req.id = req.gref
  grants : s.granted.Perm (s.ended ++ s.inFlight.map NetifRxRequest.gref)

/-! ## Positions -/

theorem slotOf_ofNat (p : Nat) : slotOf (.ofNat 32 p) = p % netRxRingSize := slot_ofNat (by decide) p

theorem xennetRxidx_ofNat (p : Nat) : xennetRxidx (.ofNat 32 p) = p % netRxRingSize := by
  have mask : (BitVec.ofNat 32 (netRxRingSize - 1)).toNat = 2 ^ 8 - 1 := rfl
  rw [xennetRxidx, BitVec.toNat_and, mask, Nat.and_two_pow_sub_one_eq_mod, BitVec.toNat_ofNat]
  exact Nat.mod_mod_of_dvd _ (by decide)

/-- Responses of this call that have no new request yet, those of its first loop, and requests that
are not pushed. -/
def due : RxPlace → Nat
  | .outside => 0
  | .consuming _ _ nrConsumed => nrConsumed
  | .reposting i nrConsumed => nrConsumed - i

def late : RxPlace → Nat
  | .consuming _ _ nrConsumed => nrConsumed
  | _ => 0

def unpushed : RxPlace → Nat
  | .reposting i _ => i
  | _ => 0

/-- The ring: `consumed` responses are gone, then come the responses `rsps`, the requests that the
backend holds, and those that it has not taken. -/
structure Ring (s : NetRx) (consumed : Nat) (rsps : List NetifRxResponse)
    (untaken : List NetifRxRequest) : Prop where
  responses : Holds netRxRingSize s.slots consumed (rsps.map .rsp)
  requests : Holds netRxRingSize s.slots (consumed + rsps.length + s.held.length) (untaken.map .req)
  rspProd : s.rspProd = .ofNat 32 (consumed + rsps.length)
  reqCons : s.reqCons = .ofNat 32 (consumed + rsps.length + s.held.length)
  posted : s.posted = consumed + rsps.length + s.held.length + untaken.length
  pushed : unpushed s.place ≤ untaken.length
  reqProdPvt : s.reqProdPvt = .ofNat 32 (s.posted - unpushed s.place)
  reqProd : s.reqProd = s.reqProdPvt
  room : s.posted + due s.place = consumed + netRxRingSize
  loop : match s.place with
    | .outside => s.rspCons = .ofNat 32 consumed
    | .consuming rp cons _ => cons = .ofNat 32 consumed ∧
        ∃ prod, rp = .ofNat 32 prod ∧ consumed ≤ prod ∧ prod ≤ consumed + rsps.length
    | .reposting i nrConsumed => s.rspCons = .ofNat 32 consumed ∧ i ≤ nrConsumed

/-- What is in flight, by number: at most a turn of the ring. -/
structure Flight (s : NetRx) (consumed : Nat) : Prop where
  numbers : (s.inFlight.map NetifRxRequest.nr).Nodup
  window : ∀ req ∈ s.inFlight, consumed ≤ req.nr + late s.place ∧ req.nr < s.posted
  ids : ∀ req ∈ s.inFlight, req.id = req.nr % netRxRingSize
  buffers : ∀ req ∈ s.inFlight, s.rxBuffers req.id = req.gref
  grants : s.granted.Perm (s.ended ++ s.inFlight.map NetifRxRequest.gref)

structure Inv (s : NetRx) (consumed : Nat) (rsps : List NetifRxResponse)
    (untaken : List NetifRxRequest) : Prop extends Ring s consumed rsps untaken, Flight s consumed where
  flight : s.inFlight.Perm (rsps.map NetifRxResponse.req ++ (s.held ++ untaken))

open List

theorem late_le_due (place : RxPlace) : late place ≤ due place := by
  cases place <;> simp [late, due]

namespace Inv
variable {s : NetRx} {consumed : Nat} {rsps : List NetifRxResponse} {untaken : List NetifRxRequest}
  (inv : s.Inv consumed rsps untaken)
include inv

theorem same_nr {one two : NetifRxRequest} (mem : one ∈ s.inFlight) (mem' : two ∈ s.inFlight)
    (same : one.id = two.id) : one.nr = two.nr := by
  have room := inv.room
  have le := late_le_due s.place
  have low := inv.window one mem
  have low' := inv.window two mem'
  rw [inv.ids one mem, inv.ids two mem'] at same
  rcases Nat.lt_trichotomy one.nr two.nr with less | is | more
  · exact absurd same (slot_ne less (by omega))
  · exact is
  · exact absurd same.symm (slot_ne more (by omega))

theorem buffersOk : s.BuffersOk where
  distinct := by
    refine Nodup.map_on ?_ (Nodup.of_map _ inv.numbers)
    intro one mem two mem' same
    exact inj_on_of_nodup_map inv.numbers mem mem' (inv.same_nr mem mem' same)
  buffers := inv.buffers
  grants := inv.grants

/-! ## The backend -/

theorem take (allowed : s.reqCons ≠ s.reqProd) (netifRspNull : Int) :
    ∃ r rest, s.step netifRspNull .take = .ok r ∧ r.Inv consumed rsps rest := by
  have posted := inv.posted
  have room := inv.room
  have some : untaken ≠ [] ∧ unpushed s.place < untaken.length := by
    have size : netRxRingSize = 256 := rfl
    have pushed := inv.pushed
    rw [inv.reqCons, inv.reqProd, inv.reqProdPvt, Ne, ofNat_eq_iff (by omega) (by omega)] at allowed
    exact ⟨fun none => by simp [none] at *; omega, by omega⟩
  obtain ⟨req, rest, rfl⟩ := exists_cons_of_ne_nil some.1
  have there := inv.requests.head
  rw [← slotOf_ofNat, ← inv.reqCons] at there
  have count : consumed + rsps.length + (s.held ++ [req]).length =
      consumed + rsps.length + s.held.length + 1 := by
    rw [length_append, length_singleton, ← Nat.add_assoc]
  refine ⟨_, rest, by simp only [step, there]; rfl, ?_⟩
  exact { inv with
    requests := by
      rw [count]
      exact inv.requests.tail
    reqCons := by
      rw [count, inv.reqCons]
      exact (BitVec.ofNat_add ..).symm
    posted := by
      rw [length_cons] at posted
      dsimp only
      omega
    pushed := Nat.le_of_lt_succ some.2
    flight := by simpa using inv.flight }

theorem answer {k : Nat} (within : k < s.held.length) (offset : Nat) (status : Int) (inUse : Bool)
    (netifRspNull : Int) :
    ∃ r rsps, s.step netifRspNull (.answer k offset status inUse) = .ok r ∧
      r.Inv consumed rsps untaken := by
  have posted := inv.posted
  have room := inv.room
  have length : (s.held.eraseIdx k).length = s.held.length - 1 := length_eraseIdx_of_lt within
  have slot : slotOf s.rspProd = (consumed + rsps.length) % netRxRingSize := by
    rw [inv.rspProd, slotOf_ofNat]
  have grown : ∀ rx : NetifRxResponse, consumed + (rsps ++ [rx]).length = consumed + rsps.length + 1 := by
    intro rx
    rw [length_append, length_singleton, ← Nat.add_assoc]
  have start : ∀ rx : NetifRxResponse, consumed + (rsps ++ [rx]).length + (s.held.eraseIdx k).length =
      consumed + rsps.length + s.held.length := by
    intro rx
    rw [grown, length]
    omega
  refine ⟨_, rsps ++ [⟨s.held[k], offset, status, inUse⟩],
    by simp only [step, getElem?_eq_getElem within]; rfl, ?_⟩
  exact { inv with
    responses := by
      dsimp only
      rw [slot, map_append]
      have pushed := inv.responses.push (x := .rsp ⟨s.held[k], offset, status, inUse⟩)
        (by rw [length_map]; omega)
      rwa [length_map] at pushed
    requests := by
      dsimp only
      rw [slot, start]
      exact inv.requests.store_before (by omega) (by rw [length_map]; omega)
    rspProd := by
      rw [grown, inv.rspProd]
      exact (BitVec.ofNat_add ..).symm
    reqCons := by
      rw [start]
      exact inv.reqCons
    posted := by
      rw [start]
      exact posted
    loop := by
      have loop := inv.loop
      dsimp only
      split at loop
      · exact loop
      · obtain ⟨cons, prod, rp, low, high⟩ := loop
        exact ⟨cons, prod, rp, low, by rw [grown]; omega⟩
      · exact loop
    flight := by
      refine inv.flight.trans ?_
      rw [map_append, map_singleton, append_assoc]
      refine Perm.append_left _ ?_
      exact (getElem_cons_eraseIdx_perm within).symm.append_right _ }

/-! ## `network_rx` -/

theorem consume {rp cons : RingIdx} {nrConsumed : Nat} (place : s.place = .consuming rp cons nrConsumed)
    (more : cons ≠ rp) (free : (s.slots (slotOf cons)).inUse = false) (netifRspNull : Int) :
    ∃ r rest, s.consume netifRspNull rp cons nrConsumed = .ok r ∧ r.Inv (consumed + 1) rest untaken := by
  have loop := inv.loop
  have posted := inv.posted
  have room := inv.room
  rw [place] at loop room
  dsimp only [due] at room
  obtain ⟨isCons, prod, isRp, low, high⟩ := loop
  have size : netRxRingSize = 256 := rfl
  rw [isCons, isRp, Ne, ofNat_eq_iff low (by omega)] at more
  obtain ⟨rx, rest, rfl⟩ : ∃ rx rest, rsps = rx :: rest := by
    cases rsps with
    | nil => simp at high; omega
    | cons rx rest => exact ⟨rx, rest, rfl⟩
  have there : s.slots (slotOf cons) = .rsp rx := by
    rw [isCons, slotOf_ofNat]
    exact inv.responses.head
  have out : rx.req ∈ s.inFlight := inv.flight.mem_iff.mpr (by simp)
  have left : (s.inFlight.erase rx.req).Perm
      (rest.map NetifRxResponse.req ++ (s.held ++ untaken)) := by
    have erased := inv.flight.erase rx.req
    rwa [map_cons, cons_append, erase_cons_head] at erased
  have small : rx.req.id < netRxRingSize := by
    rw [inv.ids _ out]
    exact Nat.mod_lt _ (by decide)
  have used : rx.inUse = false := by
    rw [there] at free
    exact free
  have count : consumed + 1 + rest.length = consumed + (rx :: rest).length := by
    rw [length_cons]
    omega
  have ran : s.consume netifRspNull rp cons nrConsumed = .ok { s with
      place := .consuming rp (cons + 1) (nrConsumed + 1)
      inFlight := s.inFlight.erase rx.req
      ended := s.rxBuffers rx.req.id :: s.ended
      received := if rx.status > netifRspNull then
        s.received ++ [(rx.req.id, rx.offset, rx.status)] else s.received } := by
    simp only [NetRx.consume, there, miniosAssert, small, decide_true, if_true, used, ok_bind]
    rfl
  refine ⟨_, rest, ran, ?_⟩
  exact
    { responses := inv.responses.tail
      requests := by
        rw [count]
        exact inv.requests
      rspProd := by
        rw [count]
        exact inv.rspProd
      reqCons := by
        rw [count]
        exact inv.reqCons
      posted := by
        rw [count]
        exact posted
      pushed := Nat.zero_le _
      reqProdPvt := by
        have pvt := inv.reqProdPvt
        rw [place] at pvt
        exact pvt
      reqProd := inv.reqProd
      room := by
        dsimp only [due]
        omega
      loop := by
        refine ⟨?_, prod, isRp, by omega, by rw [count]; exact high⟩
        rw [isCons]
        exact (BitVec.ofNat_add ..).symm
      numbers := inv.numbers.sublist (erase_sublist.map _)
      window := by
        intro req mem
        have window := inv.window req (mem_of_mem_erase mem)
        rw [place] at window
        dsimp only [late] at window ⊢
        omega
      ids := fun req mem => inv.ids req (mem_of_mem_erase mem)
      buffers := fun req mem => inv.buffers req (mem_of_mem_erase mem)
      grants := by
        dsimp only
        rw [inv.buffers _ out]
        exact inv.grants.trans ((((perm_cons_erase out).map _).append_left _).trans perm_middle)
      flight := left }

/-- Where the next request is stored, and the last one ends. -/
theorem index {i nrConsumed : Nat} (place : s.place = .reposting i nrConsumed) :
    s.reqProdPvt + .ofNat 32 i = .ofNat 32 s.posted := by
  have posted := inv.posted
  have pushed := inv.pushed
  have pvt := inv.reqProdPvt
  rw [place] at pushed pvt
  dsimp only [unpushed] at pushed pvt
  rw [pvt, ← BitVec.ofNat_add, Nat.sub_add_cancel (by omega)]

theorem repost {i nrConsumed : Nat} (place : s.place = .reposting i nrConsumed) (more : i < nrConsumed)
    (gref : GrantRef) : ∃ untaken, (s.repost i nrConsumed gref).Inv consumed rsps untaken := by
  have loop := inv.loop
  have posted := inv.posted
  have room := inv.room
  have pushed := inv.pushed
  have pvt := inv.reqProdPvt
  rw [place] at loop room pushed pvt
  dsimp only [due, unpushed] at loop room pushed pvt
  have slot : slotOf (s.reqProdPvt + .ofNat 32 i) = s.posted % netRxRingSize := by
    rw [inv.index place, slotOf_ofNat]
  have id : xennetRxidx (s.reqProdPvt + .ofNat 32 i) = s.posted % netRxRingSize := by
    rw [inv.index place, xennetRxidx_ofNat]
  have below : ∀ req ∈ s.inFlight, req.id ≠ s.posted % netRxRingSize := by
    intro req mem
    have window := inv.window req mem
    rw [place] at window
    dsimp only [late] at window
    rw [inv.ids req mem]
    exact slot_ne window.2 (by omega)
  refine ⟨untaken ++ [⟨s.posted, s.posted % netRxRingSize, gref⟩], ?_⟩
  simp only [NetRx.repost, slot, id]
  exact
    { responses := inv.responses.store_after (by rw [length_map]; omega) (by omega)
      requests := by
        rw [map_append]
        have stored := inv.requests.push (x := .req ⟨s.posted, s.posted % netRxRingSize, gref⟩)
          (by rw [length_map]; omega)
        rwa [length_map, ← posted] at stored
      rspProd := inv.rspProd
      reqCons := inv.reqCons
      posted := by
        dsimp only
        rw [length_append, length_singleton]
        omega
      pushed := by
        rw [length_append, length_singleton]
        exact Nat.succ_le_succ pushed
      reqProdPvt := by
        dsimp only [unpushed]
        rw [pvt, Nat.add_sub_add_right]
      reqProd := inv.reqProd
      room := by
        dsimp only [due]
        omega
      loop := ⟨loop.1, more⟩
      numbers := by
        rw [map_cons, nodup_cons]
        refine ⟨?_, inv.numbers⟩
        intro mem
        obtain ⟨req, out, is⟩ := mem_map.mp mem
        have window := inv.window req out
        dsimp only at is
        omega
      window := by
        intro req mem
        dsimp only [late]
        rcases mem_cons.mp mem with rfl | old
        · exact ⟨by dsimp only; omega, Nat.lt_succ_self _⟩
        · have window := inv.window req old
          rw [place] at window
          dsimp only [late] at window
          omega
      ids := by
        intro req mem
        rcases mem_cons.mp mem with rfl | old
        · rfl
        · exact inv.ids req old
      buffers := by
        intro req mem
        rcases mem_cons.mp mem with rfl | old
        · exact update_self ..
        · exact (update_of_ne (below req old) ..).trans (inv.buffers req old)
      grants := (inv.grants.cons gref).trans perm_middle.symm
      flight := by
        refine (inv.flight.cons _).trans ?_
        rw [← append_assoc, ← append_assoc, ← append_assoc, append_assoc _ s.held]
        exact (perm_append_singleton _ _).symm }

theorem network (gref : GrantRef) (orderly : s.Orderly (.network gref)) (netifRspNull : Int) :
    ∃ r consumed rsps untaken, s.networkRx netifRspNull gref = .ok r ∧
      r.Inv consumed rsps untaken := by
  have loop := inv.loop
  have room := inv.room
  have pvt := inv.reqProdPvt
  have window := inv.window
  unfold networkRx
  cases place : s.place with
  | outside =>
    rw [place] at loop room pvt window
    refine ⟨_, consumed, rsps, untaken, rfl, ?_⟩
    exact { inv with
      pushed := Nat.zero_le _
      reqProdPvt := pvt
      room := room
      loop := ⟨loop, _, inv.rspProd, Nat.le_add_right _ _, le_rfl⟩
      window := window }
  | consuming rp cons nrConsumed =>
    rw [Orderly, place] at orderly
    dsimp only at orderly ⊢
    by_cases more : cons ≠ rp
    · rw [if_pos more] at orderly ⊢
      obtain ⟨r, rest, ran, after⟩ := inv.consume place more orderly netifRspNull
      exact ⟨r, _, rest, untaken, ran, after⟩
    · rw [if_neg more] at orderly ⊢
      rw [place] at loop room pvt window
      obtain ⟨isCons, -⟩ := loop
      by_cases again : s.rspProd ≠ cons
      · rw [if_pos again]
        refine ⟨_, consumed, rsps, untaken, rfl, ?_⟩
        exact { inv with
          pushed := Nat.zero_le _
          reqProdPvt := pvt
          room := room
          loop := ⟨isCons, _, inv.rspProd, Nat.le_add_right _ _, le_rfl⟩
          window := window }
      · rw [if_neg again]
        have last := orderly (not_not.mp again)
        have out := inv.flight.length_eq
        have posted := inv.posted
        simp only [length_append, length_map] at out
        refine ⟨_, consumed, rsps, untaken, rfl, ?_⟩
        exact { inv with
          pushed := Nat.zero_le _
          reqProdPvt := pvt
          room := room
          loop := ⟨isCons, Nat.zero_le _⟩
          window := by
            intro req mem
            have young := last req mem
            exact ⟨by dsimp only [late]; omega, (window req mem).2⟩ }
  | reposting i nrConsumed =>
    dsimp only
    by_cases more : i < nrConsumed
    · rw [if_pos more]
      obtain ⟨rest, after⟩ := inv.repost place more gref
      exact ⟨_, consumed, rsps, rest, rfl, after⟩
    · rw [if_neg more]
      rw [place] at loop room window
      dsimp only [due] at loop room
      refine ⟨_, consumed, rsps, untaken, rfl, ?_⟩
      exact { inv with
        pushed := Nat.zero_le _
        reqProdPvt := inv.index place
        reqProd := rfl
        room := by
          dsimp only [due]
          omega
        loop := loop.1
        window := window }

end Inv

theorem init_inv : init.Inv 0 [] [] where
  responses := .nil
  requests := .nil
  rspProd := rfl
  reqCons := rfl
  posted := rfl
  pushed := Nat.zero_le _
  reqProdPvt := rfl
  reqProd := rfl
  room := rfl
  loop := ⟨rfl, Nat.zero_le _⟩
  numbers := nodup_nil
  window := nofun
  ids := nofun
  buffers := nofun
  grants := .refl _
  flight := .refl _

/-- In every state of a run the buffers are in order, if the backend lets go of a
page before it answers, and each call of `network_rx` finds the oldest requests answered, in
whatever order. -/
theorem receive_buffers_kept (netifRspNull : Int) (ops : List RxEvent)
    (allowed : Admissible (fun s e => s.Admits e ∧ s.Orderly e) (step netifRspNull) ops init) :
    Throughout BuffersOk (step netifRspNull) ops init := by
  refine throughout_of_invariant (fun s => ∃ consumed rsps untaken, s.Inv consumed rsps untaken) ?_ ?_
    ops init ⟨0, [], [], init_inv⟩ allowed
  · rintro s ⟨consumed, rsps, untaken, inv⟩
    exact inv.buffersOk
  · rintro s e ⟨consumed, rsps, untaken, inv⟩ ⟨admits, orderly⟩
    cases e with
    | take =>
      obtain ⟨r, rest, stepped, after⟩ := inv.take admits netifRspNull
      exact ⟨r, stepped, _, _, _, after⟩
    | answer k offset status inUse =>
      obtain ⟨r, more, stepped, after⟩ := inv.answer admits offset status inUse netifRspNull
      exact ⟨r, stepped, _, _, _, after⟩
    | network gref =>
      obtain ⟨r, consumed, rsps, untaken, stepped, after⟩ := inv.network gref orderly netifRspNull
      exact ⟨r, stepped, _, _, _, after⟩

/-- `init_rx_buffers`, with the push. -/
def filling : List RxEvent := (List.range' 8 (netRxRingSize + 1)).map .network

/-- The second request is answered before the first one, and one call of `network_rx` finds both. -/
theorem receive_buffers_kept_swapped :
    Throughout BuffersOk (step 0) (filling ++ [.take, .take, .answer 1 0 60 false, .answer 0 0 60 false,
      .network 0, .network 0, .network 0, .network 0, .network 8, .network 9, .network 0]) init :=
  receive_buffers_kept 0 _ (by decide +kernel)

/-- The backend answers the request with id 5 first: the one with id 0 is in the ring twice, and its
buffer has lost the first grant. -/
theorem receive_buffers_out_of_order : let ops : List RxEvent := filling ++ List.replicate 6 .take ++
      [.answer 5 0 60 false, .network 0, .network 0, .network 0, .network 13]
    Admissible Admits (step 0) ops init ∧
      ∃ s ∈ (run (step 0) ops init).toOption, ⟨0, 0, 8⟩ ∈ s.inFlight ∧ ⟨256, 0, 13⟩ ∈ s.inFlight ∧
        s.rxBuffers 0 = 13 := by
  decide +kernel

end NetRx
end Rumprun.Xen
