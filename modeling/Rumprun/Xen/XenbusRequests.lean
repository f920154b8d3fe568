import Rumprun.Xen.XenbusMoves

/-! # Requests that fail

The record of a request that is refused is not freed, and neither is that of a transaction that the
store refuses to start. -/

namespace Rumprun.Xen
open Core Function StepRuns
namespace BusFile
variable {s r m : BusFile} {a x : Addr} {txId id : Nat} {payload : List UInt8} {mem : BusAlloc}
  {e : BusEvent} {req : DevRequest} {rest : List QueueEvent} {type : Nat}

/-- What `rumpxenbus_process_request` returns if it does not return 0. -/
def requestError (s : BusFile) (type txId : Nat) (payload : List UInt8) (mem : BusAlloc) : Option Int :=
  match mem.request with
  | none => some enomem
  | some a =>
    match (s.newRequest a (requestKind type)).checkRequest txId payload mem (requestKind type) with
    | .ok (.error err) => some err
    | _ => none

theorem records_of_run {ops : List BusEvent} (allowed : Admissible Admits step ops init)
    (ran : run step ops init = .ok s) : s.Records :=
  run_reaches (fun _ _ _ inv allowed stepped => inv.moves (moves_of_step inv allowed stepped)) ops init
    s records_init allowed ran

/-! ## What is left behind -/

def SameRecords (s r : BusFile) : Prop :=
  r.requests = s.requests ∧ r.transactionAt = s.transactionAt ∧ r.watchAt = s.watchAt ∧
    r.texts = s.texts ∧ r.transactions = s.transactions ∧ r.watches = s.watches ∧
    r.outstanding = s.outstanding

/-- What was allocated for the request is not allocated in `r`. -/
def Frees (s : BusFile) (a : Addr) (req : DevRequest) (r : BusFile) : Prop :=
  r.requests a = none ∧ (req.reqType = .transactionStart → r.transactionAt req.target = none) ∧
    (req.reqType = .watch → r.watchAt req.target = none ∧ ∀ watch, s.watchAt req.target = some watch →
      r.texts watch.path = none ∧ r.texts watch.userToken = none)

theorem refused_leaves {err : Int} (allowed : s.Admits (.write type txId payload mem id))
    (refused : s.requestError type txId payload mem = some err) :
    ∃ r, s.step (.write type txId payload mem id) = .ok r ∧ (s.SameRecords r ↔ mem.request = none) := by
  rw [step]
  cases memory : mem.request with
  | none =>
    refine ⟨s, by simp only [processRequest, memory], ?_⟩
    exact iff_of_true ⟨rfl, rfl, rfl, rfl, rfl, rfl, rfl⟩ rfl
  | some a =>
    have fresh := (allowed.2.2.1 a (mem_addrs.mpr (.inl memory))).1
    simp only [requestError, memory] at refused
    split at refused
    · next checked =>
        refine ⟨s.newRequest a (requestKind type), by simp only [processRequest, memory, checked, ok_bind], ?_⟩
        refine iff_of_false ?_ (Option.some_ne_none a)
        intro same
        have kept := (update_self a _ s.requests).symm.trans (congrFun same.1 a)
        rw [fresh] at kept
        cases kept
    · cases refused

theorem error_reply_frees (records : s.Records) (queue : s.replies = .reply (.own a) id true :: rest)
    (is : s.requests a = some req) (txId : Nat) :
    (∃ r, (s.popped rest).processResponse (.own a) true txId = .ok r ∧ s.Frees a req r) ↔
      req.reqType ≠ .transactionStart ∧ req.reqType ≠ .unwatch := by
  obtain ⟨req', flies⟩ := records.live id (.own a) (records.queued (.own a) id true (by simp [queue]))
  cases (flightAt_eq_some.mp flies).2.symm.trans is
  have answered := records.answered queue flies
  by_cases unwatch : req.reqType = .unwatch
  · refine iff_of_false ?_ (fun both => both.2 unwatch)
    rintro ⟨r, ran, -⟩
    exact processResponse_unwatch_error answered txId unwatch ran
  · rw [processResponse_eq answered txId (fun type => absurd type unwatch)]
    simp only [Except.ok.injEq, exists_eq_left', ne_eq, unwatch, not_false_eq_true, and_true]
    have gone : ((((s.popped rest).released req.xbId (.own a)).settled req true txId).withFaults
        (RequestPtr.own a).faults).requests a = none := by
      obtain ⟨_, _, _, _, _, settled⟩ := settled_eq ((s.popped rest).released req.xbId (.own a)) req true txId
      rw [settled]
      exact update_self a none s.requests
    constructor
    · intro frees start
      have there := (records.flights.held id _ req (.transaction req.target) flies
        (by rw [DevRequest.held, start])).1
      have none_ := frees.2.1 start
      simp only [withFaults, settled, start, if_true] at none_
      exact there none_
    · intro other
      refine ⟨gone, fun start => absurd start other, ?_⟩
      intro type
      obtain ⟨mem, -⟩ := records.flights.held id _ req (.watch req.target) flies
        (by rw [DevRequest.held, type])
      obtain ⟨watch, at_⟩ := records.watch_of_mem mem
      have same : ((s.popped rest).released req.xbId (.own a)).watchAt req.target = some watch := at_
      simp only [withFaults, settled, type, same, if_true]
      refine ⟨update_self .., ?_⟩
      intro watch' at_'
      cases at_.symm.trans at_'
      refine ⟨?_, update_self ..⟩
      exact (update_of_ne (records.watchList.two _ watch at_) ..).trans (update_self ..)

/-- In every state that a run reaches: a request that fails leaves nothing behind if and only if there
was no memory for its record, and an error from the store frees what was allocated for the request if
and only if it was not to start a transaction or to remove a watch. -/
theorem failures_leave_nothing_iff (ops : List BusEvent) (allowed : Admissible Admits step ops init)
    (s : BusFile) (ran : run step ops init = .ok s) :
    (∀ type txId payload mem id err, s.Admits (.write type txId payload mem id) →
      s.requestError type txId payload mem = some err →
      ∃ r, s.step (.write type txId payload mem id) = .ok r ∧ (s.SameRecords r ↔ mem.request = none)) ∧
    ∀ a id rest req txId, s.replies = .reply (.own a) id true :: rest → s.requests a = some req →
      ((∃ r, (s.popped rest).processResponse (.own a) true txId = .ok r ∧ s.Frees a req r) ↔
        req.reqType ≠ .transactionStart ∧ req.reqType ≠ .unwatch) := by
  have records := records_of_run allowed ran
  constructor
  · intro type txId payload mem id err allowed refused
    exact refused_leaves allowed refused
  · intro a id rest req txId queue is
    exact error_reply_frees records queue is txId

/-- A transaction that the store refuses, and a watch that it refuses. -/
def refusedMemory : BusAlloc :=
  { request := some 1, transaction := some 2, watch := some 3, path := some 4, userToken := some 5 }

theorem failures_leave_nothing_watch :
    ∃ s req r, run step [.write xsWatch 0 [97, 0, 116, 0] refusedMemory 0, .answer 0 true, .deliver 0]
        init = .ok s ∧ s.requests 1 = some req ∧
      (s.popped []).processResponse (.own 1) true 0 = .ok r ∧ s.Frees 1 req r := by
  have frees := (failures_leave_nothing_iff
    [.write xsWatch 0 [97, 0, 116, 0] refusedMemory 0, .answer 0 true, .deliver 0] (by decide) _ rfl).2
    1 0 [] _ 0 rfl rfl
  obtain ⟨r, ran, freed⟩ := frees.mpr (by decide)
  exact ⟨_, _, r, rfl, rfl, ran, freed⟩

/-- A request in a transaction that there is not is refused, and its record stays; so does that of the
transaction that the store refuses. -/
theorem failures_leave_record :
    (init.requestError xsRead 7 [97, 0] refusedMemory = some einval ∧
      ∃ r, init.step (.write xsRead 7 [97, 0] refusedMemory 0) = .ok r ∧ ¬ init.SameRecords r) ∧
    ∃ s req r, run step [.write xsTransactionStart 0 [0] refusedMemory 0, .answer 0 true, .deliver 0]
        init = .ok s ∧ s.requests 1 = some req ∧
      (s.popped []).processResponse (.own 1) true 0 = .ok r ∧ ¬ s.Frees 1 req r := by
  refine ⟨⟨by decide, _, rfl, ?_⟩, _, _, _, rfl, rfl, rfl, ?_⟩
  · intro same
    cases congrFun same.1 1
  · intro frees
    cases frees.2.1 rfl

/-- The reply to each request whose id is taken is in one place, and `outstanding_requests` counts
them; no two of them are about the same transaction or watch; and the list has the watches that are
allocated. -/
theorem requests_recorded (ops : List BusEvent) (allowed : Admissible Admits step ops init)
    (s : BusFile) (ran : run step ops init = .ok s) :
    (s.flight.Nodup ∧ (∀ id, id ∈ s.flight ↔ s.reqInfo id ≠ none) ∧
      s.outstanding = s.flight.length ∧ s.outstanding ≤ nrReqs) ∧
    (∀ id ptr req id' ptr' req' h, s.flightAt id = some (ptr, req) →
      s.flightAt id' = some (ptr', req') → req.held = some h → req'.held = some h → id = id') ∧
    s.watches.Nodup ∧ ∀ w, w ∈ s.watches ↔ s.watchAt w ≠ none := by
  have records := records_of_run allowed ran
  have ids := records.counted
  have list := records.watchList
  exact ⟨⟨ids.nodup, ids.mem_iff, ids.length, ids.le⟩, records.flights.once, list.nodup, list.mem_iff⟩

/-- Three requests: the reply to the first is in the queue, that to the second in the ring, and the
third is not answered. -/
def threeRequests : List BusEvent :=
  [.write xsWatch 0 [97, 0, 116, 0] refusedMemory 0, .write xsRead 0 [97, 0] ⟨some 6, none, none, none, none⟩ 1,
    .write xsTransactionStart 0 [0] ⟨some 7, some 8, none, none, none⟩ 2, .answer 0 false, .deliver 0,
    .answer 1 true]

theorem requests_recorded_three :
    ∃ s, run step threeRequests init = .ok s ∧ s.flight = [2, 1, 0] ∧
      (s.flight.Nodup ∧ (∀ id, id ∈ s.flight ↔ s.reqInfo id ≠ none) ∧
        s.outstanding = s.flight.length ∧ s.outstanding ≤ nrReqs) ∧
      (∀ id ptr req id' ptr' req' h, s.flightAt id = some (ptr, req) →
        s.flightAt id' = some (ptr', req') → req.held = some h → req'.held = some h → id = id') ∧
      s.watches.Nodup ∧ ∀ w, w ∈ s.watches ↔ s.watchAt w ≠ none :=
  ⟨_, rfl, rfl, requests_recorded threeRequests (by decide) _ rfl⟩

end BusFile
end Rumprun.Xen
