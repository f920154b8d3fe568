import Rumprun.Xen.XenbusSteps

/-! # The ways a step can go

One case for each, with what is known where it is taken. Every result about whole runs goes over
these cases, and so does the first of them: the records of the requests in flight stay in order. -/

namespace Rumprun.Xen
open Core Function StoreMessage List
namespace BusFile
variable {s r : BusFile} {id : Nat} {ptr : RequestPtr} {req : DevRequest} {a x w p u : Addr}
  {txId : Nat} {mem : BusAlloc} {e : BusEvent} {ev : QueueEvent} {rest : List QueueEvent}

def withPhase (s : BusFile) (phase : ClosePhase) : BusFile := { s with phase := phase }

/-- An event is taken by a reader, or while the file is closed; with the phase after it. -/
def Takes (s : BusFile) : BusEvent → ClosePhase → Prop
  | .read _ _, phase => phase = s.phase
  | .shutdown _ _ _, phase => s.phase = .waiting ∧ phase = .destroying
  | _, _ => False

def responded (s : BusFile) (rest : List QueueEvent) (ptr : RequestPtr) (req : DevRequest)
    (error : Bool) (txId : Nat) : BusFile :=
  (((s.popped rest).released req.xbId ptr).settled req error txId).withFaults ptr.faults

theorem responded_eq (s : BusFile) (rest : List QueueEvent) (ptr : RequestPtr) (req : DevRequest)
    (error : Bool) (txId : Nat) :
    ∃ transactionAt transactions watchAt watches texts, s.responded rest ptr req error txId =
      { ((s.popped rest).released req.xbId ptr).withFaults ptr.faults with
        transactionAt := transactionAt, transactions := transactions, watchAt := watchAt
        watches := watches, texts := texts } := by
  obtain ⟨_, _, _, _, _, settled⟩ := settled_eq ((s.popped rest).released req.xbId ptr) req error txId
  rw [responded, settled]
  exact ⟨_, _, _, _, _, rfl⟩

inductive Moves (s : BusFile) : BusEvent → BusFile → Prop
  | noMemory {type txId : Nat} {payload : List UInt8} {mem : BusAlloc} {id : Nat}
      (memory : mem.request = none) : Moves s (.write type txId payload mem id) s
  | keeps {type txId : Nat} {payload : List UInt8} {mem : BusAlloc} {id : Nat} {a : Addr}
      (reqType : RequestKind) (memory : mem.request = some a) (fresh : s.requests a = none) :
      Moves s (.write type txId payload mem id) (s.newRequest a reqType)
  | plain {type txId : Nat} {payload : List UInt8} {mem : BusAlloc} {id : Nat} {a : Addr}
      (fresh : s.requests a = none) (free : s.IdFree id) :
      Moves s (.write type txId payload mem id) ((s.newRequest a .plain).asked (.own a) .plain 0 id)
  | start {type txId : Nat} {payload : List UInt8} {mem : BusAlloc} {id : Nat} {a x : Addr}
      (fresh : s.requests a = none) (freshTransaction : s.transactionAt x = none)
      (free : s.IdFree id) :
      Moves s (.write type txId payload mem id)
        (((s.newRequest a .transactionStart).newTransaction x).asked (.own a) .transactionStart x id)
  | end_ {type txId : Nat} {payload : List UInt8} {mem : BusAlloc} {id : Nat} {a x : Addr}
      (fresh : s.requests a = none) (opened : x ∈ s.transactions) (free : s.IdFree id) :
      Moves s (.write type txId payload mem id)
        (asked { s.newRequest a .transactionEnd with transactions := s.transactions.erase x }
          (.own a) .transactionEnd x id)
  | watch {type txId : Nat} {payload : List UInt8} {mem : BusAlloc} {id : Nat} {a w p u : Addr}
      {path token : List UInt8} (fresh : s.requests a = none) (freshWatch : s.watchAt w = none)
      (freshPath : s.texts p = none) (freshToken : s.texts u = none) (two : p ≠ u)
      (free : s.IdFree id) :
      Moves s (.write type txId payload mem id)
        (((s.newRequest a .watch).newWatch w p u path token).asked (.own a) .watch w id)
  | unwatch {type txId : Nat} {payload : List UInt8} {mem : BusAlloc} {id : Nat} {a w : Addr}
      (fresh : s.requests a = none) (listed : w ∈ s.watches) (visible : s.isVisible w = true)
      (free : s.IdFree id) :
      Moves s (.write type txId payload mem id)
        (((s.newRequest a .unwatch).setVisible w false).asked (.own a) .unwatch w id)
  | takesWatch {e : BusEvent} {phase : ClosePhase} {w : Addr} {serial : Nat} {path : List UInt8}
      {rest : List QueueEvent} (takes : s.Takes e phase)
      (queue : s.replies = .watch w serial path :: rest) :
      Moves s e ((s.popped rest).withPhase phase)
  | takesReply {e : BusEvent} {phase : ClosePhase} {ptr : RequestPtr} {id : Nat} {error : Bool}
      {rest : List QueueEvent} {req : DevRequest} {txId : Nat} (takes : s.Takes e phase)
      (queue : s.replies = .reply ptr id error :: rest) (flies : s.flightAt id = some (ptr, req))
      (right : req.reqType = .unwatch → error = false) :
      Moves s e ((s.responded rest ptr req error txId).withPhase phase)
  | close (opened : s.phase = .opened) : Moves s .close (s.withPhase .destroying)
  | destroysWatch {mem : Bool} {txId id : Nat} {w : Addr} (phase : s.phase = .destroying)
      (listed : w ∈ s.watches) (visible : s.isVisible w = true) (free : s.IdFree id) :
      Moves s (.shutdown mem txId id) ((s.setVisible w false).asked (.ofWatch w) .unwatch w id)
  | destroysTransaction {mem : Bool} {txId id : Nat} {x : Addr} (phase : s.phase = .destroying)
      (opened : x ∈ s.transactions) (free : s.IdFree id) :
      Moves s (.shutdown mem txId id)
        (asked { s with transactions := s.transactions.erase x } (.ofTransaction x) .transactionEnd x id)
  | sleeps {mem : Bool} {txId id : Nat} (phase : s.phase = .destroying) (none_ : s.hasFreeId = false) :
      Moves s (.shutdown mem txId id) s
  | waits {mem : Bool} {txId id : Nat} (phase : s.phase = .destroying) (some_ : s.outstanding ≠ 0) :
      Moves s (.shutdown mem txId id) (s.withPhase .waiting)
  | finishes {mem : Bool} {txId id : Nat} (phase : s.phase = .destroying) (none_ : s.outstanding = 0)
      (transactions : s.transactions = []) (watches : s.watches = []) :
      Moves s (.shutdown mem txId id) (s.withPhase .finished)
  | discards {behind : UInt8} {token : Addr} {path : List UInt8} {rest : List StoreMessage}
      (ring : s.ring = .event token path :: rest) : Moves s (.deliver behind) { s with ring := rest }
  | queues {behind : UInt8} {token w : Addr} {path : List UInt8} {rest : List StoreMessage}
      {watch : DevWatch} (ring : s.ring = .event token path :: rest)
      (found : s.findEventWatch behind token = some w) (is : s.watchAt w = some watch) :
      Moves s (.deliver behind)
        { s with ring := rest, replies := s.replies ++ [.watch w watch.serial path] }
  | passes {behind : UInt8} {ptr : RequestPtr} {id : Nat} {error : Bool} {rest : List StoreMessage}
      (ring : s.ring = .reply id error :: rest) (info : s.reqInfo id = some ptr) :
      Moves s (.deliver behind) { s with ring := rest, replies := s.replies ++ [.reply ptr id error] }
  | answers {q : StoreRequest} {error : Bool} (asked : q ∈ s.unanswered) :
      Moves s (.answer q.id error)
        { s with
          unanswered := s.unanswered.erase q
          ring := s.ring ++ [.reply q.id error]
          closed := if q.ends error then update s.closed q.token true else s.closed }
  | fires {token : Addr} {path : List UInt8} (inUse : s.closed token = false) :
      Moves s (.fire token path) { s with ring := s.ring ++ [.event token path] }

/-! ## Requests -/

theorem mem_findTransaction (found : s.findTransaction txId = some x) : x ∈ s.transactions :=
  mem_of_find?_eq_some found

theorem findVisibleWatch_spec {path token : List UInt8}
    (found : s.findVisibleWatch path token = .ok (some w)) : w ∈ s.watches ∧ s.isVisible w = true := by
  obtain ⟨mem, same⟩ := findM?_eq_some found
  refine ⟨mem, ?_⟩
  unfold isVisibleWatch at same
  split at same
  · cases same
  · next watch is =>
      split at same
      · next visible => simp [isVisible, is, visible]
      · cases same

theorem mem_addrs :
    a ∈ mem.addrs ↔ mem.request = some a ∨ mem.transaction = some a ∨ mem.watch = some a ∨
      mem.path = some a ∨ mem.userToken = some a := by
  simp [BusAlloc.addrs, eq_comm]

theorem addrs_two (nodup : mem.addrs.Nodup) (path : mem.path = some p)
    (token : mem.userToken = some u) : p ≠ u := by
  rintro rfl
  rw [BusAlloc.addrs, path, token] at nodup
  have last : [some p, some p].filterMap id <:+
      [mem.request, mem.transaction, mem.watch, some p, some p].filterMap id :=
    List.IsSuffix.filterMap _ ⟨[mem.request, mem.transaction, mem.watch], rfl⟩
  simpa using nodup.sublist last.sublist

theorem moves_of_processRequest {type : Nat} {payload : List UInt8}
    (allowed : s.Admits (.write type txId payload mem id))
    (stepped : s.step (.write type txId payload mem id) = .ok r) :
    Moves s (.write type txId payload mem id) r := by
  obtain ⟨-, nodup, fresh, asks⟩ := allowed
  have free (more : s.outstanding < r.outstanding) : s.IdFree id := by
    apply asks
    rw [BusFile.asks, stepped]
    exact decide_eq_true more
  rw [step] at stepped
  cases memory : mem.request with
  | none =>
    simp only [processRequest, memory] at stepped
    cases stepped
    exact .noMemory memory
  | some a =>
    have new := (fresh a (mem_addrs.mpr (.inl memory))).1
    simp only [processRequest, memory] at stepped
    obtain ⟨checked, ran, stepped⟩ := bind_eq_ok stepped
    cases checked with
    | error err =>
        cases stepped
        exact .keeps _ memory new
    | ok made =>
        obtain ⟨m, target⟩ := made
        obtain rfl := makeRequest_ok stepped
        cases kind : requestKind type with
        | plain =>
          simp only [kind, checkRequest] at ran
          split at ran
          · cases ran
          · cases ran
            exact .plain new (free (Nat.lt_succ_self _))
        | transactionStart =>
          simp only [kind, checkRequest] at ran
          split at ran
          · cases ran
          · split at ran
            · cases ran
            · next memory' =>
                cases ran
                have new' := (fresh target (mem_addrs.mpr (by simp [memory']))).2.1
                exact .start new new' (free (Nat.lt_succ_self _))
        | transactionEnd =>
          simp only [kind, checkRequest] at ran
          split at ran
          · cases ran
          · split at ran
            · cases ran
            · next found =>
                cases ran
                exact .end_ new (mem_findTransaction found) (free (Nat.lt_succ_self _))
        | watch =>
          simp only [kind, checkRequest] at ran
          split at ran
          · cases ran
          · split at ran
            · cases ran
            · split at ran
              · next _ p u watch path token =>
                  cases ran
                  have newWatch := (fresh target (mem_addrs.mpr (by simp [watch]))).2.2.1
                  have newPath := (fresh p (mem_addrs.mpr (by simp [path]))).2.2.2
                  have newToken := (fresh u (mem_addrs.mpr (by simp [token]))).2.2.2
                  exact .watch new newWatch newPath newToken (addrs_two nodup path token)
                    (free (Nat.lt_succ_self _))
              · cases ran
        | unwatch =>
          simp only [kind, checkRequest] at ran
          split at ran
          · cases ran
          · split at ran
            · cases ran
            · obtain ⟨found, searched, ran⟩ := bind_eq_ok ran
              cases found with
              | none => cases ran
              | some w =>
                  cases ran
                  obtain ⟨listed, visible⟩ := findVisibleWatch_spec searched
                  exact .unwatch new listed visible (free (Nat.lt_succ_self _))
        | unknown => rw [kind] at ran; cases ran

/-! ## Events -/

theorem processResponse_unwatch_error (answered : s.Answered ptr req) (txId : Nat)
    (type : req.reqType = .unwatch) : s.processResponse ptr true txId ≠ .ok r := by
  simp only [processResponse, answered.at_, respond, type]
  rintro ran
  cases ran

theorem moves_of_processEvent (inv : s.Records) {phase : ClosePhase} {mem discard : Bool}
    (takes : s.Takes e phase) (queue : s.replies = ev :: rest)
    (ran : (s.popped rest).processEvent mem txId ev = .ok (r, discard)) :
    Moves s e (r.withPhase phase) ∧ r.phase = s.phase := by
  cases ev with
  | watch w serial path =>
    simp only [processEvent] at ran
    split at ran
    · cases ran
    · split at ran
      · cases ran
      · cases ran
        exact ⟨.takesWatch takes queue, rfl⟩
  | reply ptr id error =>
    have info : s.reqInfo id = some ptr := inv.queued ptr id error (by simp [queue])
    obtain ⟨req, flies⟩ := inv.live id ptr info
    have answered := inv.answered queue flies
    obtain ⟨m, response, result⟩ := bind_eq_ok ran
    cases result
    have right : req.reqType = .unwatch → error = false := by
      intro type
      cases error with
      | false => rfl
      | true => exact absurd response (processResponse_unwatch_error answered txId type)
    rw [processResponse_eq answered txId right] at response
    cases response
    refine ⟨.takesReply takes queue flies right, ?_⟩
    obtain ⟨_, _, _, _, _, settled⟩ := settled_eq ((s.popped rest).released req.xbId ptr) req error txId
    rw [settled]
    rfl

theorem moves_of_shutdown (inv : s.Records) {mem : Bool}
    (allowed : s.Admits (.shutdown mem txId id)) (stepped : s.step (.shutdown mem txId id) = .ok r) :
    Moves s (.shutdown mem txId id) r := by
  obtain ⟨phases, asks⟩ := allowed
  have free (more : s.outstanding < r.outstanding) : s.IdFree id := by
    apply asks
    rw [BusFile.asks, stepped]
    exact decide_eq_true more
  simp only [step, shutdown] at stepped
  split at stepped
  · next phase => simp [phase] at phases
  · next phase =>
      split at stepped
      · next w found =>
          split at stepped
          · obtain rfl := makeRequest_ok stepped
            exact .destroysWatch phase (mem_of_find?_eq_some found) (find?_some found)
              (free (Nat.lt_succ_self _))
          · next none_ =>
              cases stepped
              exact .sleeps phase (Bool.not_eq_true _ ▸ none_)
      · split at stepped
        · next x rest transactions =>
            split at stepped
            · obtain rfl := makeRequest_ok stepped
              have head : rest = s.transactions.erase x := by rw [transactions, erase_cons_head]
              have more := free (Nat.lt_succ_self _)
              rw [head]
              exact .destroysTransaction phase (by simp [transactions]) more
            · next none_ =>
                cases stepped
                exact .sleeps phase (Bool.not_eq_true _ ▸ none_)
        · next transactions =>
            split at stepped
            · next some_ =>
                cases stepped
                exact .waits phase some_
            · next none_ =>
                obtain ⟨-, stepped⟩ := bmkAssert_bind_ok stepped
                obtain ⟨watches, stepped⟩ := bmkAssert_bind_ok stepped
                cases stepped
                exact .finishes phase (not_not.mp none_) transactions (of_decide_eq_true watches)
  · next phase =>
      split at stepped
      · next queue => simp [phase, queue] at phases
      · next ev rest queue =>
          obtain ⟨⟨m, discard⟩, ran, stepped⟩ := bind_eq_ok stepped
          obtain ⟨-, stepped⟩ := bmkAssert_bind_ok stepped
          cases stepped
          have takes : s.Takes (.shutdown mem txId id) .destroying := ⟨phase, rfl⟩
          exact (moves_of_processEvent inv takes queue ran).1
  · next phase => simp [phase] at phases

theorem moves_of_deliver {behind : UInt8} (stepped : s.step (.deliver behind) = .ok r)
    (some_ : s.ring ≠ []) : Moves s (.deliver behind) r := by
  simp only [step, deliver] at stepped
  cases ring : s.ring with
  | nil => exact absurd ring some_
  | cons msg rest =>
    cases msg with
    | event token path =>
      simp only [ring] at stepped
      cases found : s.findEventWatch behind token with
      | none =>
        simp only [found] at stepped
        cases stepped
        exact .discards ring
      | some w =>
        cases is : s.watchAt w with
        | none => simp [found, is] at stepped
        | some watch =>
          simp only [found, is] at stepped
          cases stepped
          exact .queues ring found is
    | reply id error =>
      simp only [ring] at stepped
      cases info : s.reqInfo id with
      | none => simp [info] at stepped
      | some ptr =>
        cases at_ : s.requestAt ptr with
        | none => simp [info, at_] at stepped
        | some req =>
          simp only [info, at_] at stepped
          cases stepped
          exact .passes ring info

theorem moves_of_step (inv : s.Records) (allowed : s.Admits e) (stepped : s.step e = .ok r) :
    Moves s e r := by
  cases e with
  | write type txId payload mem id => exact moves_of_processRequest allowed stepped
  | read mem txId =>
    simp only [step] at stepped
    cases queue : s.replies with
    | nil => exact absurd queue allowed.2
    | cons ev rest =>
      simp only [queue] at stepped
      obtain ⟨⟨m, discard⟩, ran, stepped⟩ := bind_eq_ok stepped
      cases stepped
      obtain ⟨moves, phase⟩ : Moves s (.read mem txId) (m.withPhase s.phase) ∧ m.phase = s.phase :=
        moves_of_processEvent inv rfl queue ran
      rw [← phase] at moves
      exact moves
  | close =>
    cases stepped
    exact .close allowed
  | shutdown mem txId id => exact moves_of_shutdown inv allowed stepped
  | deliver behind => exact moves_of_deliver stepped allowed
  | answer id error =>
    cases stepped
    rw [BusFile.answer]
    cases found : s.unanswered.find? fun q => decide (q.id = id) with
    | none =>
      obtain ⟨q, mem, same⟩ := mem_map.mp allowed
      exact absurd (decide_eq_true same) (find?_eq_none.mp found q mem)
    | some q =>
      have same : q.id = id := by simpa using find?_some found
      subst same
      exact .answers (mem_of_find?_eq_some found)
  | fire token path =>
    cases stepped
    exact .fires allowed

/-! ## The requests that are made -/

/-- What is done before a request is made, by its type and what it is about. -/
inductive Prepares (s : BusFile) : RequestKind → Addr → BusFile → Prop
  | plain : Prepares s .plain 0 s
  | start {x : Addr} (fresh : s.transactionAt x = none) :
      Prepares s .transactionStart x (s.newTransaction x)
  | end_ {x : Addr} (opened : x ∈ s.transactions) :
      Prepares s .transactionEnd x { s with transactions := s.transactions.erase x }
  | watch {w p u : Addr} {path token : List UInt8} (freshWatch : s.watchAt w = none)
      (freshPath : s.texts p = none) (freshToken : s.texts u = none) (two : p ≠ u) :
      Prepares s .watch w (s.newWatch w p u path token)
  | unwatch {w : Addr} (listed : w ∈ s.watches) (visible : s.isVisible w = true) :
      Prepares s .unwatch w (s.setVisible w false)

/-- The record of the request is a new one, or the one inside of what the request releases. -/
structure Asks (s : BusFile) (ptr : RequestPtr) (reqType : RequestKind) (target : Addr) (id : Nat)
    (m : BusFile) : Prop where
  prepares : s.Prepares reqType target m
  free : s.IdFree id
  unused : ∀ j req, s.flightAt j ≠ some (ptr, req)
  set : (m.setRequest ptr { xbId := id, reqType := reqType, target := target }).requestAt ptr =
    some { xbId := id, reqType := reqType, target := target }
  fits : ptr.Fits { xbId := id, reqType := reqType, target := target }

theorem asked_newRequest (s : BusFile) (a : Addr) (new reqType : RequestKind) (target : Addr) (id : Nat) :
    (s.newRequest a new).asked (.own a) reqType target id = s.asked (.own a) reqType target id := by
  simp [asked, setRequest, newRequest]

theorem Asks.own {m : BusFile} {reqType : RequestKind} {target : Addr}
    (prepares : s.Prepares reqType target m) (fresh : s.requests a = none) (free : s.IdFree id) :
    s.Asks (.own a) reqType target id m :=
  ⟨prepares, free, unused_own fresh, update_self .., trivial⟩

variable (inv : s.Records)
include inv

theorem Moves.asks (moves : Moves s e r) (more : s.outstanding < r.outstanding) :
    ∃ ptr reqType target id m, s.Asks ptr reqType target id m ∧ r = m.asked ptr reqType target id := by
  cases moves with
  | plain fresh free => exact ⟨_, _, _, _, _, .own .plain fresh free, asked_newRequest ..⟩
  | @start _ _ _ _ _ a x fresh freshTransaction free =>
    exact ⟨_, _, _, _, _, .own (.start freshTransaction) fresh free,
      asked_newRequest (s.newTransaction x) a ..⟩
  | @end_ _ _ _ _ _ a x fresh opened free =>
    exact ⟨_, _, _, _, _, .own (.end_ opened) fresh free,
      asked_newRequest { s with transactions := s.transactions.erase x } a ..⟩
  | @watch _ _ _ _ _ a w p u path token fresh freshWatch freshPath freshToken two free =>
    exact ⟨_, _, _, _, _, .own (.watch freshWatch freshPath freshToken two) fresh free,
      asked_newRequest (s.newWatch w p u path token) a ..⟩
  | @unwatch _ _ _ _ _ a w fresh listed visible free =>
    exact ⟨_, _, _, _, _, .own (.unwatch listed visible) fresh free,
      asked_newRequest (s.setVisible w false) a ..⟩
  | @destroysWatch _ _ _ w phase listed visible free =>
    refine ⟨.ofWatch w, _, _, _, _, ⟨.unwatch listed visible, free, ?_, ?_, ⟨rfl, rfl⟩⟩, rfl⟩
    · intro j q flies
      obtain ⟨type, target⟩ := inv.flights.ptr j _ q flies
      exact inv.unheld_of_visible visible j _ q flies (by rw [DevRequest.held, type, target])
    · obtain ⟨watch, is⟩ := inv.watch_of_mem listed
      simp [setRequest, setVisible, requestAt, is]
  | @destroysTransaction _ _ _ x phase opened free =>
    refine ⟨.ofTransaction x, _, _, _, _, ⟨.end_ opened, free, ?_, ?_, ⟨rfl, rfl⟩⟩, rfl⟩
    · intro j q flies
      obtain ⟨type, target⟩ := inv.flights.ptr j _ q flies
      exact inv.unheld_of_opened opened j _ q flies (by rw [DevRequest.held, type, target])
    · obtain ⟨record, is⟩ := Option.ne_none_iff_exists'.mp (inv.opened x opened)
      simp [setRequest, requestAt, is]
  | @takesReply _ _ ptr _ error rest req txId takes queue flies right =>
    obtain ⟨_, _, _, _, _, responded⟩ := responded_eq s rest ptr req error txId
    rw [withPhase, responded] at more
    exact absurd more (not_lt.mpr (Nat.sub_le _ 1))
  | noMemory | keeps | takesWatch | close | sleeps | waits | finishes | discards | queues | passes
  | answers | fires => exact absurd more (lt_irrefl _)

/-! ## The records stay in order -/


theorem Records.withPhase (phase : ClosePhase) : (s.withPhase phase).Records :=
  { inv with }

theorem Records.withFaults (faults : List MemFault) : (s.withFaults faults).Records :=
  { inv with }

theorem Records.unheld_fresh (fresh : s.transactionAt x = none) :
    Flights.Unheld s.flightAt (.transaction x) := by
  intro j ptr q flies held
  exact (inv.flights.held j ptr q _ flies held).1 fresh

theorem Records.unheld_freshWatch (fresh : s.watchAt w = none) :
    Flights.Unheld s.flightAt (.watch w) := by
  intro j ptr q flies held
  exact (inv.watchList.mem_iff w).mp (inv.flights.held j ptr q _ flies held).1 fresh

theorem Records.released_unheld (rest : List QueueEvent) (flies : s.flightAt id = some (ptr, req))
    (h : Held) (held : req.held = some h) :
    ((s.popped rest).released id ptr).Fits h ∧
      Flights.Unheld ((s.popped rest).released id ptr).flightAt h := by
  have flightAt : ((s.popped rest).released id ptr).flightAt = update s.flightAt id none := by
    have same := flightAt_released inv flies
    exact same
  refine ⟨inv.flights.held id ptr req h flies held, ?_⟩
  rw [flightAt]
  exact inv.flights.remove_unheld flies held

theorem Records.responded {error : Bool} (queue : s.replies = .reply ptr id error :: rest)
    (flies : s.flightAt id = some (ptr, req)) (txId : Nat) :
    (s.responded rest ptr req error txId).Records := by
  have alone := inv.released_unheld rest flies
  rw [BusFile.responded, inv.flights.xbId id ptr req flies]
  exact ((inv.release queue flies).settle alone).withFaults ptr.faults

theorem Records.passed {unanswered : List StoreRequest} {ring : List StoreMessage}
    {replies : List QueueEvent} {closed : Addr → Bool}
    (flight : s.flight.Perm (unanswered.map StoreRequest.id ++ ring.filterMap replyId ++
      replies.filterMap QueueEvent.replyId)) (asked : ∀ q ∈ unanswered, q ∈ s.unanswered)
    (queued : ∀ ptr id error, .reply ptr id error ∈ replies → s.reqInfo id = some ptr) :
    Records { s with unanswered := unanswered, ring := ring, replies := replies, closed := closed } :=
  inv.congr (flightAt_of_requestAt rfl rfl) (fun _ _ _ _ _ _ fits => fits) rfl flight rfl asked queued
    inv.watchList inv.opened inv.transactions_nodup

theorem Records.queued_append
    (new : ∀ ptr id error, ev = .reply ptr id error → s.reqInfo id = some ptr) (ptr : RequestPtr)
    (id : Nat) (error : Bool) (mem : .reply ptr id error ∈ s.replies ++ [ev]) :
    s.reqInfo id = some ptr := by
  rcases mem_append.mp mem with old | last
  · exact inv.queued ptr id error old
  · exact new ptr id error (mem_singleton.mp last).symm

section
variable {m : BusFile} {reqType : RequestKind} {target : Addr}

theorem Prepares.flightAt (prepares : s.Prepares reqType target m) : m.flightAt = s.flightAt := by
  cases prepares with
  | plain => rfl
  | start fresh => exact flightAt_newTransaction inv fresh
  | end_ opened => exact flightAt_of_requestAt rfl rfl
  | watch freshWatch freshPath freshToken two => exact flightAt_newWatch inv freshWatch _ _
  | unwatch listed visible => exact flightAt_setVisible false

theorem Prepares.records (prepares : s.Prepares reqType target m) : m.Records := by
  cases prepares with
  | plain => exact inv
  | start fresh => exact inv.newTransaction fresh
  | end_ opened => exact inv.takeTransaction
  | watch freshWatch freshPath freshToken two =>
    exact inv.newWatch freshWatch freshPath freshToken two _ _
  | unwatch listed visible => exact inv.setVisible (inv.unheld_of_visible visible) false

theorem Prepares.held (prepares : s.Prepares reqType target m) (h : Held)
    (held : DevRequest.held { xbId := id, reqType := reqType, target := target } = some h) :
    m.Fits h ∧ Flights.Unheld s.flightAt h := by
  cases prepares with
  | plain => cases held
  | start fresh =>
    cases held
    refine ⟨⟨?_, fun mem => inv.opened target mem fresh⟩, inv.unheld_fresh fresh⟩
    simp [newTransaction]
  | end_ opened =>
    cases held
    exact ⟨⟨inv.opened target opened, fun mem => (inv.transactions_nodup.mem_erase_iff.mp mem).1 rfl⟩,
      inv.unheld_of_opened opened⟩
  | watch freshWatch =>
    cases held
    refine ⟨⟨mem_cons_self, ?_⟩, inv.unheld_freshWatch freshWatch⟩
    simp [isVisible, newWatch]
  | unwatch listed visible =>
    cases held
    exact ⟨⟨listed, isVisible_setVisible_false⟩, inv.unheld_of_visible visible⟩

theorem Asks.prepared (asks : s.Asks ptr reqType target id m) :
    m.Records ∧ m.IdFree id ∧ ∀ j req, m.flightAt j ≠ some (ptr, req) := by
  refine ⟨asks.prepares.records inv, ?_, ?_⟩
  · cases asks.prepares with
    | plain | start | end_ | watch | unwatch => exact asks.free
  · rw [asks.prepares.flightAt inv]
    exact asks.unused

theorem Records.asks (asks : s.Asks ptr reqType target id m) :
    (m.asked ptr reqType target id).Records := by
  obtain ⟨records, free, unused⟩ := asks.prepared inv
  apply records.ask free unused asks.set asks.fits
  rw [asks.prepares.flightAt inv]
  exact asks.prepares.held inv

end

theorem Records.moves (moves : Moves s e r) : r.Records := by
  by_cases more : s.outstanding < r.outstanding
  · obtain ⟨ptr, reqType, target, id, m, asks, rfl⟩ := moves.asks inv more
    exact inv.asks asks
  cases moves with
  | noMemory | sleeps => exact inv
  | keeps reqType memory fresh => exact inv.newRequest fresh reqType
  | plain | start | end_ | watch | unwatch | destroysWatch
  | destroysTransaction => exact absurd (Nat.lt_succ_self _) more
  | takesWatch takes queue =>
    refine (inv.passed ?_ (fun _ mem => mem) ?_).withPhase _
    · simp [flight, queue, filterMap_cons, QueueEvent.replyId]
    · intro ptr id error mem
      exact inv.queued ptr id error (by rw [queue]; exact mem_cons_of_mem _ mem)
  | takesReply takes queue flies right => exact (inv.responded queue flies _).withPhase _
  | close | waits | finishes => exact inv.withPhase _
  | discards ring =>
    refine inv.passed ?_ (fun _ mem => mem) inv.queued
    simp [flight, ring, filterMap_cons, replyId]
  | queues ring found is =>
    refine inv.passed ?_ (fun _ mem => mem) (inv.queued_append (by simp))
    simp [flight, ring, filterMap_cons, replyId, QueueEvent.replyId]
  | passes ring info =>
    refine inv.passed ?_ (fun _ mem => mem) (inv.queued_append ?_)
    · simp only [flight, ring, filterMap_cons, replyId, filterMap_append,
        QueueEvent.replyId, filterMap_nil, append_assoc, cons_append]
      apply List.Perm.append_left
      rw [← append_assoc]
      exact (perm_append_singleton _ _).symm
    · intro ptr id error is
      cases is
      exact info
  | @answers q error asked =>
    refine inv.passed ?_ (fun _ mem => mem_of_mem_erase mem) inv.queued
    have erased := (perm_cons_erase asked).map StoreRequest.id
    simp only [flight, filterMap_append, filterMap_cons, replyId,
      filterMap_nil, append_assoc, cons_append, nil_append]
    apply (erased.append_right _).trans
    rw [← append_assoc (map _ (s.unanswered.erase q)) _ (q.id :: _), map_cons,
      cons_append, ← append_assoc]
    exact perm_middle.symm
  | fires inUse =>
    refine inv.passed ?_ (fun _ mem => mem) inv.queued
    simp [flight, filterMap_cons, replyId]

end BusFile
end Rumprun.Xen
