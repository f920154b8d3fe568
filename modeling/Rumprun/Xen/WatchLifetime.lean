import Mathlib.Data.List.TakeWhile
import Rumprun.Xen.XenbusMoves

/-! # Watches live longer than their events

Messages of the store stay in their order: in the ring, in the hands of the thread, and in the queue
of the file. The store reports nothing for a token after the reply that ends it, and the watch is
released where this reply is taken off the queue; so no event of the watch is behind it. But
`bmk_strcmp` can take the token of an event for that of another watch, if they first differ at the last
digit of the latter. -/

namespace Rumprun.Xen
open Core Function List

/-! ## Tokens -/

theorem hexDigits_lt {n d : Nat} (mem : d ∈ hexDigits n) : d < 16 := by
  unfold hexDigits at mem
  split at mem
  · rw [mem_singleton.mp mem]
    decide
  · exact Nat.digits_lt_base (by decide) mem

theorem ofDigits_hexDigits (n : Nat) : Nat.ofDigits 16 (hexDigits n) = n := by
  unfold hexDigits
  split
  · next zero => simp [zero]
  · exact Nat.ofDigits_digits 16 n

def hexValue (c : UInt8) : Nat := if c.toNat < 58 then c.toNat - 48 else c.toNat - 87

theorem hexValue_hexdigit : ∀ d < 16, hexValue (hexdigit d) = d ∧ hexdigit d ≠ 0 := by decide

theorem watchToken_bytes (w : Addr) :
    (watchToken w).bytes = [42, 48, 120] ++ ((hexDigits w).map hexdigit).reverse := by
  apply takeWhile_eq_self_iff.mpr
  intro c mem
  simp only [mem_append, mem_reverse, mem_map] at mem
  rcases mem with start | ⟨d, digit, rfl⟩
  · simp only [mem_cons, not_mem_nil, or_false] at start
    rcases start with rfl | rfl | rfl <;> rfl
  · exact decide_eq_true (hexValue_hexdigit d (hexDigits_lt digit)).2

theorem watchToken_injective : Injective watchToken := by
  intro v w same
  have bytes := congrArg CString.bytes same
  rw [watchToken_bytes, watchToken_bytes, append_cancel_left_eq, reverse_inj] at bytes
  have read (n : Nat) : ((hexDigits n).map hexdigit).map hexValue = hexDigits n := by
    rw [map_map]
    conv_rhs => rw [← map_id (hexDigits n)]
    apply map_congr_left
    intro d mem
    exact (hexValue_hexdigit d (hexDigits_lt mem)).1
  have digits := congrArg (map hexValue) bytes
  rw [read, read] at digits
  rw [← ofDigits_hexDigits v, digits, ofDigits_hexDigits]

/-- A message of the store, on its whole way to the reader. -/
inductive Passing where
  | reply (id : Nat) (error : Bool)
  | event (w : Addr)
  deriving DecidableEq

def StoreMessage.passing : StoreMessage → Passing
  | .reply id error => .reply id error
  | .event token _ => .event token

def QueueEvent.passing : QueueEvent → Passing
  | .reply _ id error => .reply id error
  | .watch w _ _ => .event w

namespace BusFile
variable {s r m : BusFile} {id : Nat} {ptr : RequestPtr} {req : DevRequest} {a x w p u : Addr}
  {error : Bool} {watch : DevWatch} {ev : QueueEvent} {rest : List QueueEvent} {e : BusEvent}

/-- `bmk_strcmp` tells the token of each other watch from that of the event which comes next. -/
def TokensApart (s : BusFile) : BusEvent → Prop
  | .deliver _ =>
    match s.ring with
    | .event token _ :: _ =>
      ∀ w ∈ s.watches, w ≠ token → TellsApart (watchToken w).bytes (watchToken token).bytes
    | _ => True
  | _ => True

instance decidableTokensApart (s : BusFile) : ∀ e, Decidable (s.TokensApart e) := by
  intro event
  induction event using BusEvent.casesOn with
  | deliver _ =>
    dsimp only [TokensApart]
    induction s.ring using List.casesOn with
    | cons first => induction first using StoreMessage.casesOn <;> dsimp only <;> infer_instance
    | _ => dsimp only; infer_instance
  | _ => dsimp only [TokensApart]; infer_instance

theorem findEventWatch_eq {behind : UInt8} {token : Addr} {path : List UInt8} {rest : List StoreMessage}
    (apart : s.TokensApart (.deliver behind)) (ring : s.ring = .event token path :: rest)
    (found : s.findEventWatch behind token = some w) : w = token := by
  simp only [TokensApart, ring] at apart
  by_contra ne
  have tests : TestsEqual signedChar (watchToken w) (watchToken token) :=
    (testsEqual_iff rfl signedChar_injective _ _).mpr (apart w (mem_of_find?_eq_some found) ne)
  have same := find?_some found
  rw [sameStringBehind_eq tests, decide_eq_true_iff] at same
  exact ne (watchToken_injective same)

/-- First what was queued, then what is in the ring. -/
def passing (s : BusFile) : List Passing :=
  s.replies.map QueueEvent.passing ++ s.ring.map StoreMessage.passing

/-- The reply after which the watch is released. -/
def Ends (s : BusFile) (w : Addr) : Passing → Prop
  | .reply id error => ∃ ptr req, s.flightAt id = some (ptr, req) ∧ req.held = some (.watch w) ∧
      (req.reqType = .unwatch ∨ error = true)
  | .event _ => False

structure Lifetime (s : BusFile) : Prop where
  order : s.passing.Pairwise fun first later => ∀ w, s.Ends w first → later ≠ .event w
  closed : ∀ msg ∈ s.passing, ∀ w, s.Ends w msg → s.closed w = true
  events : ∀ w serial path, .watch w serial path ∈ s.replies →
    ∃ watch, s.watchAt w = some watch ∧ watch.serial = serial

theorem lifetime_init : init.Lifetime where
  order := List.Pairwise.nil
  closed := by simp [passing, init]
  events := by simp [init]

theorem mem_flight_of_passing (mem : .reply id error ∈ s.passing) : id ∈ s.flight := by
  simp only [passing, mem_append, mem_map] at mem
  simp only [flight, mem_append, mem_filterMap]
  rcases mem with ⟨ev, queued, is⟩ | ⟨msg, ring, is⟩
  · cases ev with
    | reply ptr j e =>
      cases is
      exact .inr ⟨_, queued, rfl⟩
    | watch v serial path => cases is
  · cases msg with
    | reply j e =>
      cases is
      exact .inl (.inr ⟨_, ring, rfl⟩)
    | event token path => cases is

section
variable (inv : s.Lifetime)
include inv

theorem Lifetime.congr (passing : r.passing.Sublist s.passing)
    (ends : ∀ msg ∈ r.passing, ∀ w, r.Ends w msg → s.Ends w msg)
    (closed : ∀ msg ∈ r.passing, ∀ w, s.Ends w msg → s.closed w = true → r.closed w = true)
    (events : ∀ w serial path, .watch w serial path ∈ r.replies →
      ∃ watch, r.watchAt w = some watch ∧ watch.serial = serial) : r.Lifetime where
  order := by
    apply (inv.order.sublist passing).imp_of_mem
    intro first later mem _ apart w is
    exact apart w (ends first mem w is)
  closed := by
    intro msg mem w is
    have before := ends msg mem w is
    exact closed msg mem w before (inv.closed msg (passing.subset mem) w before)
  events := events

omit inv in
theorem ends_congr (same : r.flightAt = s.flightAt) (msg : Passing) : r.Ends w msg ↔ s.Ends w msg := by
  cases msg with
  | reply id error => simp only [Ends, same]
  | event v => exact Iff.rfl

theorem Lifetime.frame (same : r.flightAt = s.flightAt) (passing : r.passing = s.passing)
    (replies : r.replies = s.replies) (closed : r.closed = s.closed)
    (watchAt : ∀ w watch, s.watchAt w = some watch →
      ∃ after, r.watchAt w = some after ∧ after.serial = watch.serial) : r.Lifetime := by
  apply inv.congr (by rw [passing]) (fun msg _ w => (ends_congr same msg).mp)
  · intro msg _ w _ was
    rw [closed]
    exact was
  · intro w serial path mem
    rw [replies] at mem
    obtain ⟨watch, is, number⟩ := inv.events w serial path mem
    obtain ⟨after, is', kept⟩ := watchAt w watch is
    exact ⟨after, is', kept.trans number⟩

theorem Lifetime.newRequest (records : s.Records) (fresh : s.requests a = none)
    (reqType : RequestKind) : (s.newRequest a reqType).Lifetime :=
  inv.frame (flightAt_newRequest records fresh reqType) rfl rfl rfl fun _ watch is => ⟨watch, is, rfl⟩

theorem Lifetime.newTransaction (records : s.Records) (fresh : s.transactionAt x = none) :
    (s.newTransaction x).Lifetime :=
  inv.frame (flightAt_newTransaction records fresh) rfl rfl rfl fun _ watch is => ⟨watch, is, rfl⟩

theorem Lifetime.takeTransaction : Lifetime { s with transactions := s.transactions.erase x } :=
  inv.frame (flightAt_of_requestAt rfl rfl) rfl rfl rfl fun _ watch is => ⟨watch, is, rfl⟩

theorem Lifetime.newWatch (records : s.Records) (fresh : s.watchAt w = none)
    (path token : List UInt8) : (s.newWatch w p u path token).Lifetime := by
  apply inv.frame (flightAt_newWatch records fresh path token) rfl rfl rfl
  intro v watch is
  have ne : v ≠ w := by
    rintro rfl
    rw [fresh] at is
    cases is
  exact ⟨watch, (update_of_ne ne ..).trans is, rfl⟩

theorem Lifetime.setVisible (visible : Bool) : (s.setVisible w visible).Lifetime := by
  apply inv.frame (flightAt_setVisible visible) rfl rfl rfl
  intro v watch is
  by_cases same : v = w
  · subst same
    exact ⟨{ watch with visibleToUser := visible }, by simp [BusFile.setVisible, is], rfl⟩
  · exact ⟨watch, (update_of_ne same ..).trans is, rfl⟩

omit inv in
theorem watchAt_setRequest (is : s.watchAt w = some watch) :
    ∃ destroy, (s.setRequest ptr req).watchAt w = some { watch with destroy := destroy } := by
  cases ptr with
  | own | ofTransaction => exact ⟨_, is⟩
  | ofWatch v =>
    by_cases same : w = v
    · subst same
      exact ⟨some req, by simp [setRequest, is]⟩
    · exact ⟨_, (update_of_ne same ..).trans is⟩

theorem Lifetime.ask (records : s.Records) {reqType : RequestKind} {target : Addr}
    (free : s.IdFree id) (unused : ∀ j req, s.flightAt j ≠ some (ptr, req))
    (set : (s.setRequest ptr { xbId := id, reqType := reqType, target := target }).requestAt ptr =
      some { xbId := id, reqType := reqType, target := target })
    (alone : reqType = .watch → Flights.Unheld s.flightAt (.watch target)) :
    (s.asked ptr reqType target id).Lifetime := by
  have flightAt := flightAt_asked records.live unused set
  refine inv.congr (List.Sublist.refl _) ?_ ?_ ?_
  · intro msg mem w is
    cases msg with
    | event v => exact is
    | reply j error =>
      obtain ⟨ptr', req', flies, held⟩ := is
      have ne : j ≠ id := by
        rintro rfl
        exact (records.counted.mem_iff j).mp (mem_flight_of_passing mem) free.2
      rw [flightAt, update_of_ne ne] at flies
      exact ⟨ptr', req', flies, held⟩
  · intro msg _ w is was
    show (if reqType = .watch then update s.closed target false else s.closed) w = true
    by_cases watch : reqType = .watch
    · rw [if_pos watch]
      have ne : w ≠ target := by
        rintro rfl
        cases msg with
        | event v => exact is
        | reply j error =>
          obtain ⟨ptr', req', flies, held, -⟩ := is
          exact alone watch j ptr' req' flies held
      rw [update_of_ne ne]
      exact was
    · rw [if_neg watch]
      exact was
  · intro w serial path mem
    obtain ⟨watch, is, number⟩ := inv.events w serial path mem
    obtain ⟨destroy, is'⟩ := watchAt_setRequest is
    exact ⟨_, is', number⟩

end

/-! ## A response -/

theorem settled_watchAt (records : s.Records) (fits : ∀ h, req.held = some h → s.Fits h) {txId : Nat}
    (is : s.watchAt w = some watch) :
    (∃ after, (s.settled req error txId).watchAt w = some after ∧ after.serial = watch.serial) ∨
      req.held = some (.watch w) ∧ (req.reqType = .unwatch ∨ error = true) := by
  have stays : ∃ after, s.watchAt w = some after ∧ after.serial = watch.serial := ⟨watch, is, rfl⟩
  refine settled_cases records
    (P := fun r => (∃ after, r.watchAt w = some after ∧ after.serial = watch.serial) ∨ _) fits
    (fun _ _ => .inl stays) (fun _ => .inl stays) (fun _ => .inl stays) ?_ ?_
    (fun _ => .inl stays)
  · intro _ _ _
    left
    by_cases same : w = req.target
    · subst same
      exact ⟨{ watch with visibleToUser := true }, by simp [setVisible, is], rfl⟩
    · exact ⟨watch, (update_of_ne same ..).trans is, rfl⟩
  · intro _ held _ cause
    by_cases same : w = req.target
    · rw [same]
      exact .inr ⟨held, cause⟩
    · exact .inl ⟨watch, (update_of_ne same ..).trans is, rfl⟩

theorem passing_cons (queue : s.replies = ev :: rest) :
    s.passing = ev.passing :: (s.popped rest).passing := by
  simp [passing, popped, queue]

theorem flightAt_responded (records : s.Records) (queue : s.replies = .reply ptr id error :: rest)
    (flies : s.flightAt id = some (ptr, req)) (txId : Nat) :
    (s.responded rest ptr req error txId).flightAt = update s.flightAt id none := by
  have xbId := records.flights.xbId id ptr req flies
  have released : ((s.popped rest).released id ptr).flightAt = update s.flightAt id none := by
    have same := flightAt_released records flies
    exact same
  rw [← released]
  have settled := flightAt_settled (records.release queue flies)
    (records.released_unheld rest flies) error txId
  rw [← settled, responded, xbId]
  rfl

theorem Lifetime.responded (inv : s.Lifetime) (records : s.Records)
    (queue : s.replies = .reply ptr id error :: rest) (flies : s.flightAt id = some (ptr, req))
    (txId : Nat) : (s.responded rest ptr req error txId).Lifetime := by
  have flightAt := flightAt_responded records queue flies txId
  obtain ⟨_, _, _, _, _, responded⟩ := responded_eq s rest ptr req error txId
  have passing : (s.responded rest ptr req error txId).passing = (s.popped rest).passing := by
    rw [responded]
    rfl
  have order := inv.order
  rw [passing_cons queue, pairwise_cons] at order
  apply inv.congr
  · rw [passing, passing_cons queue]
    exact sublist_cons_self _ _
  · intro msg _ w is
    cases msg with
    | event v => exact is
    | reply j error' =>
      obtain ⟨ptr', req', flies', held⟩ := is
      rw [flightAt] at flies'
      exact ⟨ptr', req', (SlotTable.of_empty flies').2, held⟩
  · intro msg _ w _ was
    rw [responded]
    exact was
  · intro w serial path mem
    rw [responded] at mem
    have old : QueueEvent.watch w serial path ∈ s.replies := by
      rw [queue]
      exact mem_cons_of_mem _ mem
    obtain ⟨watch, is, number⟩ := inv.events w serial path old
    rw [BusFile.responded, records.flights.xbId id ptr req flies]
    have is' : ((s.popped rest).released id ptr).watchAt w = some watch := is
    rcases settled_watchAt (records.release queue flies)
      (fun h held => (records.released_unheld rest flies h held).1) is' with ⟨after, kept, same⟩ | ⟨held, ends⟩
    · exact ⟨after, kept, same.trans number⟩
    · -- The reply that ends the watch is in front of its events.
      refine absurd rfl (order.1 (.event w) ?_ w ⟨ptr, req, flies, held, ends⟩)
      simp only [BusFile.passing, popped, mem_append, mem_map]
      exact .inl ⟨_, mem, rfl⟩

/-! ## Every run -/

theorem Lifetime.withPhase (inv : s.Lifetime) (phase : ClosePhase) : (s.withPhase phase).Lifetime :=
  { inv with }

theorem Lifetime.popped (inv : s.Lifetime) (queue : s.replies = ev :: rest) :
    (s.popped rest).Lifetime := by
  refine inv.congr ?_ (fun msg _ w => (ends_congr rfl msg).mp) (fun _ _ _ _ was => was) ?_
  · rw [passing_cons queue]
    exact sublist_cons_self _ _
  · intro w serial path mem
    apply inv.events w serial path
    rw [queue]
    exact mem_cons_of_mem _ mem

theorem Lifetime.sent (inv : s.Lifetime) (msg : Passing) (same : r.flightAt = s.flightAt)
    (passing : r.passing = s.passing ++ [msg]) (inUse : ∀ w, s.closed w = true → msg ≠ .event w)
    (closed : ∀ w, s.closed w = true → r.closed w = true)
    (ended : ∀ w, s.Ends w msg → r.closed w = true) (replies : r.replies = s.replies)
    (watchAt : r.watchAt = s.watchAt) : r.Lifetime where
  order := by
    rw [passing, pairwise_append]
    refine ⟨?_, pairwise_singleton _ _, ?_⟩
    · apply inv.order.imp
      intro first later apart w is
      exact apart w ((ends_congr same first).mp is)
    · intro first mem last is w ends
      rw [mem_singleton.mp is]
      exact inUse w (inv.closed first mem w ((ends_congr same first).mp ends))
  closed := by
    intro other mem w ends
    have before := (ends_congr same other).mp ends
    rw [passing] at mem
    rcases mem_append.mp mem with old | new
    · exact closed w (inv.closed other old w before)
    · rw [mem_singleton.mp new] at before
      exact ended w before
  events := by
    rw [replies, watchAt]
    exact inv.events

theorem closed_of_ends (records : s.Records) {q : StoreRequest} (asked : q ∈ s.unanswered)
    (ends : s.Ends w (.reply q.id error)) : q.ends error = true ∧ q.token = w := by
  obtain ⟨ptr, req, flies, held, cause⟩ := ends
  obtain ⟨ptr', flies'⟩ := records.asked q asked
  cases Option.some.inj (flies.symm.trans flies')
  simp only [DevRequest.held] at held
  simp only [StoreRequest.ends, Bool.or_eq_true, decide_eq_true_eq, Bool.and_eq_true]
  cases type : q.reqType with
  | watch =>
    simp only [type] at held cause
    cases held
    exact ⟨.inr ⟨rfl, cause.resolve_left (by simp)⟩, rfl⟩
  | unwatch =>
    simp only [type] at held
    cases held
    exact ⟨.inl rfl, rfl⟩
  | transactionStart | transactionEnd | plain | unknown => simp [type] at held

theorem Lifetime.asks (inv : s.Lifetime) (records : s.Records) {m : BusFile} {reqType : RequestKind}
    {target : Addr} (asks : s.Asks ptr reqType target id m) :
    (m.asked ptr reqType target id).Lifetime := by
  obtain ⟨after, free, unused⟩ := asks.prepared records
  have prepared : m.Lifetime := by
    cases asks.prepares with
    | plain => exact inv
    | start fresh => exact inv.newTransaction records fresh
    | end_ opened => exact inv.takeTransaction
    | watch freshWatch => exact inv.newWatch records freshWatch _ _
    | unwatch listed visible => exact inv.setVisible false
  apply prepared.ask after free unused asks.set
  intro is
  have held : DevRequest.held { xbId := id, reqType := reqType, target := target } =
      some (.watch target) := by rw [DevRequest.held, is]
  rw [asks.prepares.flightAt records]
  exact (asks.prepares.held records _ held).2

theorem Lifetime.moves (inv : s.Lifetime) (records : s.Records) (apart : s.TokensApart e)
    (moves : Moves s e r) : r.Lifetime := by
  by_cases more : s.outstanding < r.outstanding
  · obtain ⟨ptr, reqType, target, id, m, asks, rfl⟩ := moves.asks records more
    exact inv.asks records asks
  cases moves with
  | noMemory | sleeps => exact inv
  | keeps reqType memory fresh => exact inv.newRequest records fresh reqType
  | plain | start | end_ | watch | unwatch | destroysWatch
  | destroysTransaction => exact absurd (Nat.lt_succ_self _) more
  | takesWatch takes queue => exact (inv.popped queue).withPhase _
  | takesReply takes queue flies right => exact (inv.responded records queue flies _).withPhase _
  | close | waits | finishes => exact inv.withPhase _
  | discards ring =>
    refine inv.congr ?_ (fun msg _ w => (ends_congr rfl msg).mp) (fun _ _ _ _ was => was) inv.events
    simp [passing, ring]
  | @queues behind token w path rest watch ring found is =>
    obtain rfl := findEventWatch_eq apart ring found
    refine inv.congr ?_ (fun msg _ w => (ends_congr rfl msg).mp) (fun _ _ _ _ was => was) ?_
    · simp [passing, ring, StoreMessage.passing, QueueEvent.passing]
    · intro w serial path' mem
      rcases mem_append.mp mem with old | new
      · exact inv.events w serial path' old
      · cases mem_singleton.mp new
        exact ⟨watch, is, rfl⟩
  | passes ring info =>
    refine inv.congr ?_ (fun msg _ w => (ends_congr rfl msg).mp) (fun _ _ _ _ was => was) ?_
    · simp [passing, ring, StoreMessage.passing, QueueEvent.passing]
    · intro w serial path mem
      rcases mem_append.mp mem with old | new
      · exact inv.events w serial path old
      · cases mem_singleton.mp new
  | @answers q error asked =>
    refine inv.sent (.reply q.id error) (flightAt_of_requestAt rfl rfl) ?_ (by simp) ?_ ?_ rfl rfl
    · simp [passing, StoreMessage.passing]
    · intro w was
      by_cases ends : q.ends error = true
      · by_cases same : w = q.token
        · simp [ends, same]
        · simpa [ends, same] using was
      · simpa [ends] using was
    · intro w is
      obtain ⟨ends, rfl⟩ := closed_of_ends records asked is
      simp [ends]
  | @fires token path inUse =>
    refine inv.sent (.event token) (flightAt_of_requestAt rfl rfl) ?_ ?_ (fun _ was => was) ?_
      rfl rfl
    · simp [passing, StoreMessage.passing]
    · rintro w was same
      cases same
      rw [inUse] at was
      cases was
    · intro w is
      exact is.elim

structure BusInv (s : BusFile) : Prop where
  records : s.Records
  lifetime : s.Lifetime

theorem busInv_init : init.BusInv := ⟨records_init, lifetime_init⟩

theorem BusInv.step (inv : s.BusInv) (allowed : s.Admits e) (apart : s.TokensApart e)
    (stepped : s.step e = .ok r) : r.BusInv := by
  have moves := moves_of_step inv.records allowed stepped
  exact ⟨inv.records.moves moves, inv.lifetime.moves inv.records apart moves⟩

/-- In every run in which no token is taken for another, each watch event in the queue is one of a watch
that is not released, with the path and the token of the request that made it. -/
theorem watch_events_live (ops : List BusEvent)
    (allowed : StepRuns.Admissible (fun s e => s.Admits e ∧ s.TokensApart e) step ops init)
    (final : BusFile) (ran : StepRuns.run step ops init = .ok final) (w : Addr) (serial : Nat)
    (eventPath : List UInt8) (queued : .watch w serial eventPath ∈ final.replies) :
    ∃ watch path token, final.watchAt w = some watch ∧ watch.serial = serial ∧
      final.given[serial]? = some (path, token) ∧ final.texts watch.path = some path ∧
      final.texts watch.userToken = some token := by
  have inv : final.BusInv :=
    StepRuns.run_reaches (fun _ _ _ inv allowed stepped => inv.step allowed.1 allowed.2 stepped) ops init
      final busInv_init allowed ran
  obtain ⟨watch, is, rfl⟩ := inv.lifetime.events w serial eventPath queued
  obtain ⟨path, token, given, first, second⟩ := inv.records.watchList.given w watch is
  exact ⟨watch, path, token, is, rfl, given, first, second⟩

/-- Two watches are set: one of `aa` with the token `tt`, and then one of `bb` with the token `uu`. -/
def twoWatches (first second : Addr) : List BusEvent :=
  [.write xsWatch 0 [97, 97, 0, 116, 116, 0] ⟨some 1, none, some first, some 4, some 5⟩ 0,
    .write xsWatch 0 [98, 98, 0, 117, 117, 0] ⟨some 2, none, some second, some 6, some 7⟩ 1,
    .answer 0 false, .answer 1 false, .deliver 0, .deliver 0, .read true 0, .read true 0]

/-- The second watch is removed, and then there is an event of the first. -/
def unwatchThenEvent (first : Addr) : List BusEvent :=
  [.write xsUnwatch 0 [98, 98, 0, 117, 117, 0] ⟨some 1, none, none, none, none⟩ 2, .answer 2 false,
    .fire first [97, 97], .deliver 0, .deliver 0]

theorem watch_events_live_twoWatches :
    ∃ final, StepRuns.run step (twoWatches 0x210340 0x210440 ++ unwatchThenEvent 0x210340) init = .ok final ∧
      .watch 0x210340 0 [97, 97] ∈ final.replies ∧
      ∃ watch path token, final.watchAt 0x210340 = some watch ∧ watch.serial = 0 ∧
        final.given[0]? = some (path, token) ∧ final.texts watch.path = some path ∧
        final.texts watch.userToken = some token :=
  ⟨_, rfl, by decide,
    watch_events_live (twoWatches 0x210340 0x210440 ++ unwatchThenEvent 0x210340) (by decide) _ rfl
      0x210340 0 [97, 97] (by decide)⟩

/-- `*0x2103400` is taken for `*0x210340` where a null byte is behind the latter: an event of the first
watch is queued for the second, behind the reply with which that is released. -/
theorem watch_event_of_released :
    StepRuns.Admissible Admits step
      (twoWatches 0x210340 0x2103400 ++ unwatchThenEvent 0x210340 ++ [.read true 0]) init ∧
    ∃ final,
      StepRuns.run step
        (twoWatches 0x210340 0x2103400 ++ unwatchThenEvent 0x210340 ++ [.read true 0]) init = .ok final ∧
      .watch 0x2103400 1 [97, 97] ∈ final.replies ∧ final.watchAt 0x2103400 = none :=
  ⟨by decide, _, rfl, by decide, by decide⟩

end BusFile
end Rumprun.Xen
