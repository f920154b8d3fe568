import Rumprun.Xen.WatchLifetime

/-! # Closing `/dev/xen/xenbus`

Every record is held by something that releases it, and nothing is used after it was released, unless
a request is refused (its record stays behind), a transaction fails to start, or the response to a
request that closing made itself is processed: this request lies inside of the record that the response
releases. The ids of these requests are only released by the loop that makes all of them first, so that
there have to be enough. -/

namespace Rumprun.Xen
open Core Function

/-- All of the memory that is asked for is there. -/
def BusEvent.Succeeds : BusEvent → Prop
  | .write _ _ _ mem _ =>
    mem.request ≠ none ∧ mem.transaction ≠ none ∧ mem.watch ≠ none ∧ mem.path ≠ none ∧
      mem.userToken ≠ none
  | .shutdown mem _ _ => mem = true
  | _ => True

instance : ∀ e, Decidable (BusEvent.Succeeds e) := by
  intro event
  induction event using BusEvent.casesOn <;> dsimp only [BusEvent.Succeeds] <;> infer_instance

namespace BusFile
variable {s r m : BusFile} {id : Nat} {ptr : RequestPtr} {req : DevRequest} {a x w p u : Addr}
  {phase : ClosePhase} {watch : DevWatch} {reqType : RequestKind} {target : Addr}
  {path : List UInt8} {error mem : Bool} {rest : List QueueEvent} {e : BusEvent} {txId : Nat}

def HeldBy (s : BusFile) (h : Held) : Prop :=
  ∃ id ptr req, s.flightAt id = some (ptr, req) ∧ req.held = some h

/-- Closing sleeps for an event, or for an id. -/
def Sleeps (s : BusFile) : Prop :=
  s.phase = .waiting ∧ s.replies = [] ∨
    s.phase = .destroying ∧ (s.watches.any s.isVisible ∨ s.transactions ≠ []) ∧ s.hasFreeId = false

/-- What closing has to ask for, with the requests that are in flight. -/
def toRelease (s : BusFile) : Nat :=
  s.outstanding + s.watches.countP s.isVisible + s.transactions.length

/-- Nothing was used after it was released, or released wrongly; closing does not sleep when the
store has answered everything and there is nothing to take; everything that is allocated will be
released; and when the file is closed, nothing is allocated. -/
structure Tidy (s : BusFile) : Prop where
  faultless : s.faults = []
  answered : s.unanswered = [] → s.ring = [] → ¬ s.Sleeps
  requests : ∀ a, s.requests a ≠ none → ∃ id, s.reqInfo id = some (.own a)
  transactions : ∀ x, s.transactionAt x ≠ none → x ∈ s.transactions ∨ s.HeldBy (.transaction x)
  watches : ∀ w, s.watchAt w ≠ none → w ∈ s.watches
  texts : ∀ p, s.texts p ≠ none → ∃ w watch, s.watchAt w = some watch ∧ p ∈ watch.strings
  done : s.phase = .finished → (∀ a, s.Fresh a) ∧ ∀ id, s.reqInfo id = none

/-- The first event is not the response to a request inside of a record, and not a failed start of a
transaction or a failed `XS_UNWATCH`. -/
def headRight (s : BusFile) : Bool :=
  match s.replies with
  | .reply (.own a) _ error :: _ =>
    !(error && (s.requests a).any fun req =>
      req.reqType = .transactionStart || req.reqType = .unwatch)
  | .reply _ _ _ :: _ => false
  | _ => true

def Careful (s : BusFile) : BusEvent → Prop
  | .write type txId payload mem id => s.asks (.write type txId payload mem id) = true
  | .read _ _ => s.headRight = true
  | .close => s.toRelease ≤ nrReqs
  | .shutdown _ _ _ => s.phase = .waiting → s.headRight = true
  | .deliver behind => s.TokensApart (.deliver behind)
  | _ => True

instance decidableCareful (s : BusFile) : ∀ e, Decidable (s.Careful e) := by
  intro event
  induction event using BusEvent.casesOn <;> dsimp only [Careful] <;> infer_instance

/-! ## Who holds what -/

structure Owned (s : BusFile) : Prop where
  requests : ∀ a, s.requests a ≠ none → ∃ id, s.reqInfo id = some (.own a)
  transactions : ∀ x, s.transactionAt x ≠ none → x ∈ s.transactions ∨ s.HeldBy (.transaction x)
  texts : ∀ p, s.texts p ≠ none → ∃ w watch, s.watchAt w = some watch ∧ p ∈ watch.strings
  watches : ∀ w ∈ s.watches, s.isVisible w = true ∨ s.HeldBy (.watch w)

/-- What closing has found before it waits, and before it is done. -/
structure Closing (s : BusFile) : Prop where
  waiting : s.phase = .waiting → s.outstanding ≠ 0
  ids : s.phase ≠ .opened → s.toRelease ≤ nrReqs
  finished : s.phase = .finished → s.outstanding = 0 ∧ s.transactions = [] ∧ s.watches = []

/-- The state of a file whose records are all held. -/
structure CloseInv (s : BusFile) : Prop where
  bus : s.BusInv
  owned : s.Owned
  faultless : s.faults = []
  closing : s.Closing

theorem closeInv_init : init.CloseInv where
  bus := busInv_init
  owned := by constructor <;> simp [init]
  faultless := rfl
  closing := by constructor <;> simp [init]

theorem Records.flight_nil (records : s.Records) (none_ : s.outstanding = 0) : s.flight = [] := by
  have length := records.counted.length
  rw [none_] at length
  exact List.eq_nil_of_length_eq_zero length.symm

theorem Records.not_heldBy (records : s.Records) (none_ : s.outstanding = 0) (h : Held) :
    ¬ s.HeldBy h := by
  rintro ⟨id, ptr, req, flies, -⟩
  have mem := records.mem_flight flies
  rw [records.flight_nil none_] at mem
  exact absurd mem List.not_mem_nil

theorem Records.all_taken (records : s.Records) (none_ : s.hasFreeId = false) : nrReqs ≤ s.outstanding := by
  have all : List.range nrReqs ⊆ s.flight := by
    intro id mem
    rw [records.counted.mem_iff]
    simpa using List.any_eq_false.mp none_ id mem
  have length := (List.nodup_range.subperm all).length_le
  rwa [List.length_range, ← records.counted.length] at length

theorem CloseInv.not_sleeps_for_id (inv : s.CloseInv) (destroying : s.phase = .destroying)
    (wants : s.watches.any s.isVisible ∨ s.transactions ≠ []) : s.hasFreeId = true := by
  by_contra none_
  have taken := inv.bus.records.all_taken (Bool.not_eq_true _ ▸ none_)
  have ids := inv.closing.ids (by simp [destroying])
  rw [toRelease] at ids
  rcases wants with visible | opened
  · have positive := List.countP_pos_iff.mpr (List.any_eq_true.mp visible)
    omega
  · have positive := List.length_pos_iff.mpr opened
    omega

theorem CloseInv.tidy (inv : s.CloseInv) : s.Tidy where
  faultless := inv.faultless
  answered := by
    rintro unanswered ring (⟨waiting, empty⟩ | ⟨destroying, wants, none_⟩)
    · apply inv.closing.waiting waiting
      rw [inv.bus.records.counted.length, flight, unanswered, ring, empty]
      rfl
    · rw [inv.not_sleeps_for_id destroying wants] at none_
      cases none_
  requests := inv.owned.requests
  transactions := inv.owned.transactions
  watches := fun w => (inv.bus.records.watchList.mem_iff w).mpr
  texts := inv.owned.texts
  done := by
    intro finished
    obtain ⟨none_, transactions, watches⟩ := inv.closing.finished finished
    have records := inv.bus.records
    have reqInfo (id : Nat) : s.reqInfo id = none := by
      by_contra taken
      have mem := (records.counted.mem_iff id).mpr taken
      rw [records.flight_nil none_] at mem
      exact absurd mem List.not_mem_nil
    have watchAt (w : Addr) : s.watchAt w = none := by
      by_contra there
      have mem := (records.watchList.mem_iff w).mpr there
      rw [watches] at mem
      exact absurd mem List.not_mem_nil
    refine ⟨?_, reqInfo⟩
    intro a
    refine ⟨?_, ?_, watchAt a, ?_⟩
    · by_contra there
      obtain ⟨id, info⟩ := inv.owned.requests a there
      rw [reqInfo id] at info
      cases info
    · by_contra there
      rcases inv.owned.transactions a there with mem | held
      · rw [transactions] at mem
        exact absurd mem List.not_mem_nil
      · exact records.not_heldBy none_ _ held
    · by_contra there
      obtain ⟨w, watch, is, -⟩ := inv.owned.texts a there
      rw [watchAt w] at is
      cases is

/-! ## The holders of each move -/

theorem Owned.congr (owned : s.Owned) (flightAt : r.flightAt = s.flightAt) (info : r.reqInfo = s.reqInfo)
    (requests : r.requests = s.requests) (transactionAt : r.transactionAt = s.transactionAt)
    (transactions : r.transactions = s.transactions) (watchAt : r.watchAt = s.watchAt)
    (watches : r.watches = s.watches) (texts : r.texts = s.texts) : r.Owned where
  requests := by
    rw [requests, info]
    exact owned.requests
  transactions := by
    simp only [HeldBy, flightAt, transactionAt, transactions]
    exact owned.transactions
  texts := by
    rw [texts, watchAt]
    exact owned.texts
  watches := by
    simp only [HeldBy, flightAt, isVisible, watchAt, watches]
    exact owned.watches

theorem Owned.moved (owned : s.Owned) {unanswered : List StoreRequest} {ring : List StoreMessage}
    {replies : List QueueEvent} {closed : Addr → Bool} :
    Owned { s with
      unanswered := unanswered, ring := ring, replies := replies, closed := closed, phase := phase } :=
  owned.congr (flightAt_of_requestAt rfl rfl) rfl rfl rfl rfl rfl rfl rfl

theorem heldBy_congr (same : r.flightAt = s.flightAt) (h : Held) : r.HeldBy h ↔ s.HeldBy h := by
  rw [HeldBy, HeldBy, same]

theorem Owned.texts_newWatch (owned : s.Owned) {token : List UInt8} (fresh : s.watchAt w = none)
    (q : Addr) (there : (s.newWatch w p u path token).texts q ≠ none) :
    ∃ v watch, (s.newWatch w p u path token).watchAt v = some watch ∧ q ∈ watch.strings := by
  by_cases new : q = p ∨ q = u
  · exact ⟨w, _, update_self .., List.mem_pair.mpr new⟩
  · obtain ⟨notPath, notToken⟩ := not_or.mp new
    have before : s.texts q ≠ none := by
      intro none_
      apply there
      exact (update_of_ne notToken ..).trans ((update_of_ne notPath ..).trans none_)
    obtain ⟨v, watch, is, mem⟩ := owned.texts q before
    have ne : v ≠ w := by
      rintro rfl
      rw [fresh] at is
      cases is
    exact ⟨v, watch, (update_of_ne ne ..).trans is, mem⟩

theorem texts_setVisible
    (texts : ∀ q, s.texts q ≠ none → ∃ v watch, s.watchAt v = some watch ∧ q ∈ watch.strings)
    (w : Addr) {visible : Bool} (q : Addr) (there : (s.setVisible w visible).texts q ≠ none) :
    ∃ v watch, (s.setVisible w visible).watchAt v = some watch ∧ q ∈ watch.strings := by
  obtain ⟨v, watch, is, mem⟩ := texts q there
  by_cases same : v = w
  · subst same
    exact ⟨v, { watch with visibleToUser := visible }, by simp [BusFile.setVisible, is], mem⟩
  · exact ⟨v, watch, (update_of_ne same ..).trans is, mem⟩

/-! ## A response -/

/-- All is held but what the request, which is no longer in flight, was about. -/
structure OwnedBut (s : BusFile) (loose : Option Held) : Prop where
  requests : ∀ a, s.requests a ≠ none → ∃ id, s.reqInfo id = some (.own a)
  transactions : ∀ x, s.transactionAt x ≠ none →
    x ∈ s.transactions ∨ s.HeldBy (.transaction x) ∨ loose = some (.transaction x)
  texts : ∀ p, s.texts p ≠ none → ∃ w watch, s.watchAt w = some watch ∧ p ∈ watch.strings
  watches : ∀ w ∈ s.watches, s.isVisible w = true ∨ s.HeldBy (.watch w) ∨ loose = some (.watch w)

theorem Owned.release (owned : s.Owned) (records : s.Records) (rest : List QueueEvent)
    (flies : s.flightAt id = some (ptr, req)) :
    ((s.popped rest).released id ptr).OwnedBut req.held := by
  have flightAt : ((s.popped rest).released id ptr).flightAt = update s.flightAt id none := by
    have same := flightAt_released records flies
    exact same
  have held {h : Held} (before : s.HeldBy h) :
      ((s.popped rest).released id ptr).HeldBy h ∨ req.held = some h := by
    obtain ⟨j, other, q, flies', held⟩ := before
    by_cases same : j = id
    · subst same
      cases Option.some.inj (flies.symm.trans flies')
      exact .inr held
    · left
      rw [HeldBy, flightAt]
      exact ⟨j, other, q, (update_of_ne same ..).trans flies', held⟩
  constructor
  · intro b there
    have before : s.requests b ≠ none := by
      intro none_
      apply there
      cases ptr with
      | own a =>
        by_cases same : b = a
        · rw [same]
          exact update_self ..
        · exact (update_of_ne same ..).trans none_
      | ofTransaction | ofWatch => exact none_
    obtain ⟨j, info⟩ := owned.requests b before
    have ne : j ≠ id := by
      rintro rfl
      cases (flightAt_eq_some.mp flies).1.symm.trans info
      exact there (update_self ..)
    exact ⟨j, (update_of_ne ne ..).trans info⟩
  · intro y there
    rcases owned.transactions y there with mem | before
    · exact .inl mem
    · exact .inr (held before)
  · exact owned.texts
  · intro w mem
    rcases owned.watches w mem with visible | before
    · exact .inl visible
    · exact .inr (held before)

theorem OwnedBut.owned {loose : Option Held} (but : s.OwnedBut loose) (none_ : loose = none) :
    s.Owned := by
  subst none_
  constructor
  · exact but.requests
  · simpa using but.transactions
  · exact but.texts
  · simpa using but.watches

theorem Owned.but (owned : s.Owned) : s.OwnedBut none where
  requests := owned.requests
  transactions := fun x there => (owned.transactions x there).imp_right .inl
  texts := owned.texts
  watches := fun w mem => (owned.watches w mem).imp_right .inl

/-- Each transaction and each watch is loose after the change, is in place, or is as before. -/
theorem OwnedBut.change {loose loose' : Option Held} (but : s.OwnedBut loose)
    (same : r.flightAt = s.flightAt) (requests : r.requests = s.requests) (info : r.reqInfo = s.reqInfo)
    (transactions : ∀ y, r.transactionAt y ≠ none → y ∈ r.transactions ∨
      loose' = some (.transaction y) ∨ loose ≠ some (.transaction y) ∧ s.transactionAt y ≠ none ∧
        (y ∈ s.transactions → y ∈ r.transactions))
    (texts : ∀ p, r.texts p ≠ none → ∃ w watch, r.watchAt w = some watch ∧ p ∈ watch.strings)
    (watches : ∀ v ∈ r.watches, r.isVisible v = true ∨ loose' = some (.watch v) ∨
      loose ≠ some (.watch v) ∧ v ∈ s.watches ∧ r.isVisible v = s.isVisible v) : r.OwnedBut loose' where
  requests := by
    rw [requests, info]
    exact but.requests
  transactions := by
    intro y there
    rw [heldBy_congr same]
    rcases transactions y there with mem | loose | ⟨tied, before, keeps⟩
    · exact .inl mem
    · exact .inr (.inr loose)
    · rcases but.transactions y before with mem | held | loose
      · exact .inl (keeps mem)
      · exact .inr (.inl held)
      · exact absurd loose tied
  texts := texts
  watches := by
    intro v mem
    rw [heldBy_congr same]
    rcases watches v mem with visible | loose | ⟨tied, before, kept⟩
    · exact .inl visible
    · exact .inr (.inr loose)
    · rw [kept]
      rcases but.watches v before with visible | held | loose
      · exact .inl visible
      · exact .inr (.inl held)
      · exact absurd loose tied

theorem OwnedBut.openTransaction (but : s.OwnedBut (some (.transaction x))) (txId : Nat) :
    (s.openTransaction x txId).OwnedBut none := by
  refine but.change (flightAt_openTransaction txId) rfl rfl ?_ but.texts
    fun v mem => .inr (.inr ⟨by simp, mem, rfl⟩)
  intro y there
  by_cases same : y = x
  · rw [same]
    exact .inl List.mem_cons_self
  · exact .inr (.inr ⟨by simpa using Ne.symm same,
      fun none_ => there ((update_of_ne same ..).trans none_), List.mem_cons_of_mem _⟩)

theorem OwnedBut.dropTransaction (but : s.OwnedBut (some (.transaction x)))
    (flightAt : (s.dropTransaction x).flightAt = s.flightAt) : (s.dropTransaction x).OwnedBut none := by
  refine but.change flightAt rfl rfl ?_ but.texts fun v mem => .inr (.inr ⟨by simp, mem, rfl⟩)
  intro y there
  have ne : y ≠ x := by
    rintro rfl
    exact there (update_self ..)
  exact .inr (.inr ⟨by simpa using ne.symm,
    fun none_ => there ((update_of_ne ne ..).trans none_), fun mem => mem⟩)

theorem OwnedBut.setVisible (but : s.OwnedBut (some (.watch w))) (there : s.watchAt w ≠ none) :
    (s.setVisible w true).OwnedBut none := by
  obtain ⟨watch, is⟩ := Option.ne_none_iff_exists'.mp there
  apply but.change (flightAt_setVisible true) rfl rfl
    (fun y there => .inr (.inr ⟨by simp, there, fun mem => mem⟩)) (texts_setVisible but.texts w)
  intro v mem
  by_cases same : v = w
  · left
    simp [isVisible, BusFile.setVisible, same, is]
  · exact .inr (.inr ⟨by simpa using Ne.symm same, mem, isVisible_setVisible_ne same true⟩)

theorem OwnedBut.dropWatch (but : s.OwnedBut (some (.watch w)))
    (list : WatchList s.watches s.watchAt s.texts s.given) (is : s.watchAt w = some watch)
    (flightAt : (s.dropWatch w watch).flightAt = s.flightAt) : (s.dropWatch w watch).OwnedBut none := by
  apply but.change flightAt rfl rfl
    (fun y there => .inr (.inr ⟨by simp, there, fun mem => mem⟩))
  · intro p there
    have notToken : p ≠ watch.userToken := by
      rintro rfl
      exact there (update_self ..)
    have notPath : p ≠ watch.path := by
      rintro rfl
      exact there ((update_of_ne notToken ..).trans (update_self ..))
    have before : s.texts p ≠ none := by
      intro none_
      apply there
      exact (update_of_ne notToken ..).trans ((update_of_ne notPath ..).trans none_)
    obtain ⟨v, watch', is', mem⟩ := but.texts p before
    have ne : v ≠ w := by
      rintro rfl
      cases Option.some.inj (is.symm.trans is')
      rcases List.mem_pair.mp mem with same | same
      · exact notPath same
      · exact notToken same
    exact ⟨v, watch', (update_of_ne ne ..).trans is', mem⟩
  · intro v mem
    obtain ⟨ne, before⟩ := list.nodup.mem_erase_iff.mp mem
    refine .inr (.inr ⟨by simpa using ne.symm, before, ?_⟩)
    simp [isVisible, BusFile.dropWatch, ne]

theorem Owned.responded (owned : s.Owned) (records : s.Records)
    (queue : s.replies = .reply ptr id error :: rest) (flies : s.flightAt id = some (ptr, req))
    (txId : Nat) (started : req.reqType = .transactionStart → error = false) :
    (s.responded rest ptr req error txId).Owned := by
  have but := owned.release records rest flies
  have after := records.release queue flies
  have alone := records.released_unheld rest flies
  have settled : (((s.popped rest).released id ptr).settled req error txId).OwnedBut none := by
    apply settled_cases after (P := fun r => r.OwnedBut none) fun h held => (alone h held).1
    · intro type failed
      rw [started type] at failed
      cases failed
    · intro held
      rw [held] at but
      exact but.openTransaction txId
    · intro held
      rw [held] at but
      exact but.dropTransaction (flightAt_dropTransaction after (alone _ held).2)
    · intro watch held is
      rw [held] at but
      apply but.setVisible
      rw [is]
      exact Option.some_ne_none watch
    · intro watch held is _
      rw [held] at but
      exact but.dropWatch after.watchList is (flightAt_dropWatch after (alone _ held).2 watch)
    · intro held
      rw [held] at but
      exact but
  rw [BusFile.responded, records.flights.xbId id ptr req flies]
  exact (settled.owned rfl).congr (flightAt_of_requestAt rfl rfl) rfl rfl rfl rfl rfl rfl rfl

/-! ## A request -/

theorem Prepares.ownedBut (owned : s.Owned) (records : s.Records)
    (prepares : s.Prepares reqType target m) :
    m.OwnedBut (DevRequest.held { xbId := id, reqType := reqType, target := target }) := by
  have same := prepares.flightAt records
  cases prepares with
  | plain => exact owned.but
  | start fresh =>
    refine owned.but.change same rfl rfl ?_ owned.texts fun v mem => .inr (.inr ⟨by simp, mem, rfl⟩)
    intro y there
    by_cases is : y = target
    · rw [is]
      exact .inr (.inl rfl)
    · exact .inr (.inr ⟨by simp, fun none_ => there ((update_of_ne is ..).trans none_),
        fun mem => mem⟩)
  | end_ opened =>
    refine owned.but.change same rfl rfl ?_ owned.texts fun v mem => .inr (.inr ⟨by simp, mem, rfl⟩)
    intro y there
    by_cases is : y = target
    · rw [is]
      exact .inr (.inl rfl)
    · exact .inr (.inr ⟨by simp, there, (List.mem_erase_of_ne is).mpr⟩)
  | watch freshWatch =>
    apply owned.but.change same rfl rfl
      (fun y there => .inr (.inr ⟨by simp, there, fun mem => mem⟩)) (owned.texts_newWatch freshWatch)
    intro v mem
    by_cases is : v = target
    · rw [is]
      exact .inr (.inl rfl)
    · refine .inr (.inr ⟨by simp, ?_, ?_⟩)
      · simpa [newWatch, is] using mem
      · simp [isVisible, newWatch, is]
  | unwatch listed visible =>
    apply owned.but.change same rfl rfl
      (fun y there => .inr (.inr ⟨by simp, there, fun mem => mem⟩))
      (texts_setVisible owned.texts target)
    intro v mem
    by_cases is : v = target
    · rw [is]
      exact .inr (.inl rfl)
    · exact .inr (.inr ⟨by simp, mem, isVisible_setVisible_ne is false⟩)

theorem Owned.asks (owned : s.Owned) (records : s.Records)
    (asks : s.Asks ptr reqType target id m) : (m.asked ptr reqType target id).Owned := by
  obtain ⟨after, free, unused⟩ := asks.prepared records
  have but : m.OwnedBut (DevRequest.held { xbId := id, reqType := reqType, target := target }) :=
    asks.prepares.ownedBut owned records
  have flightAt := flightAt_asked after.live unused asks.set
  have taken {j : Nat} {other : RequestPtr} (info : m.reqInfo j = some other) : j ≠ id := by
    rintro rfl
    rw [free.2] at info
    cases info
  have held {h : Held} (either : m.HeldBy h ∨
      DevRequest.held { xbId := id, reqType := reqType, target := target } = some h) :
      (m.asked ptr reqType target id).HeldBy h := by
    rw [HeldBy, flightAt]
    rcases either with ⟨j, other, q, flies, held⟩ | held
    · exact ⟨j, other, q, (update_of_ne (taken (flightAt_eq_some.mp flies).1) _ _).trans flies, held⟩
    · exact ⟨id, ptr, _, update_self .., held⟩
  constructor
  · intro b there
    by_cases own : ptr = .own b
    · rw [own]
      exact ⟨id, update_self ..⟩
    · have other : (m.asked ptr reqType target id).requests b = m.requests b :=
        requestAt_setRequest_ne (Ne.symm own)
      rw [other] at there
      obtain ⟨j, info⟩ := but.requests b there
      exact ⟨j, (update_of_ne (taken info) ..).trans info⟩
  · intro y there
    rcases but.transactions y (mt transactionAt_setRequest_none.mpr there) with mem | either
    · exact .inl mem
    · exact .inr (held either)
  · intro p there
    obtain ⟨w, watch, is, mem⟩ := but.texts p there
    obtain ⟨destroy, is'⟩ := watchAt_setRequest is
    exact ⟨w, _, is', mem⟩
  · intro w mem
    rcases but.watches w mem with visible | either
    · exact .inl (isVisible_setRequest.trans visible)
    · exact .inr (held either)

/-! ## Every step -/

theorem Owned.moves (owned : s.Owned) (records : s.Records) (moves : Moves s e r)
    (asks : ∀ type txId payload mem id, e = .write type txId payload mem id →
      s.outstanding < r.outstanding) (started : ∀ phase ptr id error rest req, s.Takes e phase →
      s.replies = .reply ptr id error :: rest → s.flightAt id = some (ptr, req) →
      req.reqType = .transactionStart → error = false) : r.Owned := by
  by_cases more : s.outstanding < r.outstanding
  · obtain ⟨ptr, reqType, target, id, m, request, rfl⟩ := moves.asks records more
    exact owned.asks records request
  cases moves with
  | noMemory | sleeps => exact owned
  | keeps reqType memory fresh => exact absurd (asks _ _ _ _ _ rfl) (lt_irrefl _)
  | plain | start | end_ | watch | unwatch | destroysWatch
  | destroysTransaction => exact absurd (Nat.lt_succ_self _) more
  | takesWatch | close | waits | finishes | discards | queues | passes | answers
  | fires => exact owned.moved
  | takesReply takes queue flies right =>
    exact (owned.responded records queue flies _ (started _ _ _ _ _ _ takes queue flies)).moved

/-! ## What closing has to ask for -/

section
variable {l : List Addr} {p q : Addr → Bool}

theorem countP_of_mem (mem : w ∈ l) (nodup : l.Nodup) (same : ∀ v, v ≠ w → q v = p v) :
    l.countP q = (l.erase w).countP p + if q w then 1 else 0 := by
  rw [(List.perm_cons_erase mem).countP_eq, List.countP_cons, Nat.add_right_cancel_iff]
  apply List.countP_congr
  intro v other
  rw [same v (nodup.mem_erase_iff.mp other).1]

end

/-- The watches and transactions that closing makes a request for. -/
def unasked (s : BusFile) : Nat := s.watches.countP s.isVisible + s.transactions.length

theorem toRelease_eq (s : BusFile) : s.toRelease = s.outstanding + s.unasked := Nat.add_assoc ..

theorem Records.unasked_settled (records : s.Records) (fits : ∀ h, req.held = some h → s.Fits h)
    (error : Bool) (txId : Nat) : (s.settled req error txId).unasked ≤ s.unasked + 1 := by
  have stays : s.unasked ≤ s.unasked + 1 := Nat.le_succ _
  refine settled_cases records (P := fun r => r.unasked ≤ s.unasked + 1) fits (fun _ _ => stays)
    (fun _ => le_rfl) (fun _ => stays) ?_ ?_ (fun _ => stays)
  · intro watch held _
    have mem := (fits _ held).1
    have nodup := records.watchList.nodup
    have before := countP_of_mem mem nodup fun v _ => Eq.refl (s.isVisible v)
    have after := countP_of_mem mem nodup fun v ne => isVisible_setVisible_ne (s := s) ne true
    have more : s.watches.countP (s.setVisible req.target true).isVisible ≤
        s.watches.countP s.isVisible + 1 := by
      rw [before, after]
      split <;> omega
    exact (Nat.add_le_add_right more _).trans (Nat.add_right_comm ..).le
  · intro watch _ _ _
    have fewer : (s.watches.erase req.target).countP (s.dropWatch req.target watch).isVisible ≤
        s.watches.countP s.isVisible := by
      refine le_trans (List.countP_mono_left ?_) (List.erase_sublist.countP_le)
      intro v mem visible
      have ne := (records.watchList.nodup.mem_erase_iff.mp mem).1
      simpa [isVisible, BusFile.dropWatch, ne] using visible
    exact le_trans (Nat.add_le_add_right fewer _) stays

theorem Records.unasked_hide (records : s.Records) (listed : w ∈ s.watches)
    (visible : s.isVisible w = true) : (s.setVisible w false).unasked + 1 = s.unasked := by
  have nodup := records.watchList.nodup
  have before := countP_of_mem listed nodup fun v _ => Eq.refl (s.isVisible v)
  have after := countP_of_mem listed nodup fun v ne => isVisible_setVisible_ne (s := s) ne false
  rw [if_pos visible] at before
  rw [if_neg (by simp [isVisible_setVisible_false])] at after
  have fewer : s.watches.countP (s.setVisible w false).isVisible + 1 = s.watches.countP s.isVisible := by
    rw [before, after]
  show s.watches.countP (s.setVisible w false).isVisible + s.transactions.length + 1 =
    s.watches.countP s.isVisible + s.transactions.length
  omega

theorem toRelease_asked (m : BusFile) (ptr : RequestPtr) (reqType : RequestKind) (target : Addr) (id : Nat) :
    (m.asked ptr reqType target id).toRelease = m.toRelease + 1 := by
  have same : (m.asked ptr reqType target id).isVisible = m.isVisible :=
    funext fun _ => isVisible_setRequest
  have asked : (m.asked ptr reqType target id).toRelease = m.outstanding + 1 +
    m.watches.countP (m.asked ptr reqType target id).isVisible + m.transactions.length := rfl
  rw [asked, same, toRelease]
  omega

theorem toRelease_moves (records : s.Records) (allowed : s.Admits e) (closing : s.phase ≠ .opened)
    (moves : Moves s e r) : r.toRelease ≤ s.toRelease := by
  cases moves with
  | noMemory | keeps | plain | start | end_ | watch | unwatch => exact absurd allowed.1 closing
  | takesWatch | close | sleeps | waits | finishes | discards | queues | passes | answers
  | fires => exact le_rfl
  | @takesReply _ phase ptr id error rest req txId takes queue flies right =>
    have settled := (records.release queue flies).unasked_settled
      (fun h held => (records.released_unheld rest flies h held).1) error txId
    rw [← records.flights.xbId id ptr req flies] at settled
    have unasked : ((s.responded rest ptr req error txId).withPhase phase).unasked ≤ s.unasked + 1 :=
      settled
    have outstanding : ((s.responded rest ptr req error txId).withPhase phase).outstanding =
        s.outstanding - 1 := by
      obtain ⟨_, _, _, _, _, responded⟩ := responded_eq s rest ptr req error txId
      rw [withPhase, responded]
      rfl
    have positive : 0 < s.outstanding := (records.answered queue flies).outstanding
    rw [toRelease_eq, toRelease_eq, outstanding]
    omega
  | destroysWatch phase listed visible free =>
    rw [toRelease_asked, toRelease_eq, toRelease_eq, ← records.unasked_hide listed visible]
    exact le_rfl
  | destroysTransaction phase opened free =>
    rw [toRelease_asked, toRelease, toRelease, ← List.length_erase_add_one opened]
    exact le_rfl

theorem Closing.of_phase (notWaiting : s.phase ≠ .waiting) (notFinished : s.phase ≠ .finished)
    (ids : s.phase ≠ .opened → s.toRelease ≤ nrReqs) : s.Closing :=
  ⟨fun is => absurd is notWaiting, ids, fun is => absurd is notFinished⟩

theorem Closing.opened (is : r.phase = .opened) : r.Closing :=
  .of_phase (by simp [is]) (by simp [is]) (absurd is)

theorem Closing.destroying (is : r.phase = .destroying) (ids : r.toRelease ≤ nrReqs) : r.Closing :=
  .of_phase (by simp [is]) (by simp [is]) fun _ => ids

theorem Closing.moves (closing : s.Closing) (records : s.Records) (allowed : s.Admits e)
    (careful : s.Careful e) (moves : Moves s e r) : r.Closing := by
  have ids (before : s.phase ≠ .opened) : r.toRelease ≤ nrReqs :=
    (toRelease_moves records allowed before moves).trans (closing.ids before)
  cases moves with
  | noMemory | sleeps => exact closing
  | keeps | plain | start | end_ fresh opened free | watch | unwatch => exact .opened allowed.1
  | takesWatch takes queue | takesReply takes queue flies right =>
    cases e with
    | read mem txId => exact .opened (takes.trans allowed.1)
    | shutdown mem txId id => exact .destroying takes.2 (ids (by simp [takes.1]))
    | write | close | deliver | answer | fire => exact takes.elim
  | close opened => exact .destroying rfl careful
  | destroysWatch phase listed visible free
  | destroysTransaction phase opened free => exact .destroying phase (ids (by simp [phase]))
  | waits phase some_ => exact ⟨fun _ => some_, fun _ => ids (by simp [phase]), fun is => by cases is⟩
  | finishes phase none_ transactions watches =>
    exact ⟨fun is => (by cases is), fun _ => ids (by simp [phase]), fun _ => ⟨none_, transactions, watches⟩⟩
  | discards | queues | passes | answers | fires => exact ⟨closing.waiting, ids, closing.finished⟩

theorem responded_faults (s : BusFile) (rest : List QueueEvent) (ptr : RequestPtr) (req : DevRequest)
    (error : Bool) (txId : Nat) :
    (s.responded rest ptr req error txId).faults = s.faults ++ ptr.faults := by
  obtain ⟨_, _, _, _, _, responded⟩ := responded_eq s rest ptr req error txId
  rw [responded]
  rfl

theorem faultless_moves (faultless : s.faults = []) (moves : Moves s e r)
    (own : ∀ phase ptr id error rest, s.Takes e phase → s.replies = .reply ptr id error :: rest →
      ∃ a, ptr = .own a) : r.faults = [] := by
  cases moves with
  | takesReply takes queue flies right =>
    obtain ⟨a, rfl⟩ := own _ _ _ _ _ takes queue
    rw [withPhase, responded_faults, faultless]
    rfl
  | noMemory | keeps | plain | start | end_ | watch | unwatch | takesWatch | close | destroysWatch
  | destroysTransaction | sleeps | waits | finishes | discards | queues | passes | answers
  | fires => exact faultless

theorem Takes.headRight (takes : s.Takes e phase) (careful : s.Careful e) : s.headRight = true := by
  cases e with
  | read mem txId => exact careful
  | shutdown mem txId id => exact careful takes.1
  | write | close | deliver | answer | fire => exact takes.elim

theorem headRight_iff (queue : s.replies = .reply ptr id error :: rest)
    (flies : s.flightAt id = some (ptr, req)) :
    s.headRight = true ↔ (∃ a, ptr = .own a) ∧
      (req.reqType = .transactionStart → error = false) ∧ (req.reqType = .unwatch → error = false) := by
  have at_ := (flightAt_eq_some.mp flies).2
  cases ptr with
  | ofTransaction | ofWatch => simp [headRight, queue]
  | own a =>
    rw [requestAt] at at_
    cases error with
    | false => simp [headRight, queue]
    | true => simp [headRight, queue, at_]

theorem CloseInv.after (inv : s.CloseInv) (allowed : s.Admits e) (careful : s.Careful e)
    (stepped : s.step e = .ok r) : r.CloseInv := by
  have records := inv.bus.records
  have moves := moves_of_step records allowed stepped
  have apart : s.TokensApart e := by
    cases e with
    | deliver behind => exact careful
    | write | read | close | shutdown | answer | fire => trivial
  constructor
  · exact inv.bus.step allowed apart stepped
  · apply inv.owned.moves records moves
    · rintro type txId payload mem id rfl
      have asks : s.asks (.write type txId payload mem id) = true := careful
      simp only [BusFile.asks, stepped] at asks
      exact of_decide_eq_true asks
    · intro phase ptr id error rest req takes queue flies
      exact ((headRight_iff queue flies).mp (takes.headRight careful)).2.1
  · apply faultless_moves inv.faultless moves
    intro phase ptr id error rest takes queue
    obtain ⟨req, flies⟩ := records.live id ptr (records.queued ptr id error (by simp [queue]))
    exact ((headRight_iff queue flies).mp (takes.headRight careful)).1
  · exact inv.closing.moves records allowed careful moves

/-! ## Every step returns -/

theorem Records.room (records : s.Records) : s.outstanding < intMax :=
  lt_of_le_of_lt records.counted.le (by decide)

theorem CloseInv.processEvent_returns (inv : s.CloseInv) {ev : QueueEvent}
    (queue : s.replies = ev :: rest) (right : s.headRight = true) (mem : Bool) (txId : Nat) :
    ∃ r discard, (s.popped rest).processEvent mem txId ev = .ok (r, discard) ∧
      (mem = true → discard = true) := by
  have records := inv.bus.records
  cases ev with
  | watch w serial path =>
    obtain ⟨watch, is, -⟩ := inv.bus.lifetime.events w serial path (by simp [queue])
    obtain ⟨_, token, -, -, text⟩ := records.watchList.given w watch is
    refine ⟨s.popped rest, mem, ?_, fun enough => enough⟩
    simp [processEvent, popped, is, text]
  | reply ptr id error =>
    obtain ⟨req, flies⟩ := records.live id ptr (records.queued ptr id error (by simp [queue]))
    obtain ⟨-, -, ended⟩ := (headRight_iff queue flies).mp right
    refine ⟨s.responded rest ptr req error txId, true, ?_, fun _ => rfl⟩
    rw [processEvent, processResponse_eq (records.answered queue flies) txId ended]
    rfl

theorem CloseInv.watches_nil (inv : s.CloseInv) (hidden : s.watches.find? s.isVisible = none)
    (none_ : s.outstanding = 0) : s.watches = [] := by
  apply List.eq_nil_iff_forall_not_mem.mpr
  intro w mem
  rcases inv.owned.watches w mem with visible | held
  · exact List.find?_eq_none.mp hidden w mem visible
  · exact inv.bus.records.not_heldBy none_ _ held

theorem CloseInv.shutdown_returns (inv : s.CloseInv) (enough : mem = true)
    (careful : s.Careful (.shutdown mem txId id)) : ∃ r, s.shutdown mem txId id = .ok r := by
  have records := inv.bus.records
  unfold shutdown
  split
  · exact ⟨_, rfl⟩
  · split
    · split
      · exact ⟨_, makeRequest_eq records.room⟩
      · exact ⟨_, rfl⟩
    · next hidden =>
        split
        · split
          · exact ⟨_, makeRequest_eq records.room⟩
          · exact ⟨_, rfl⟩
        · next transactions =>
            split
            · exact ⟨_, rfl⟩
            · next none_ =>
                have watches := inv.watches_nil hidden (not_not.mp none_)
                rw [bmkAssert_bind _ (decide_eq_true transactions), bmkAssert_bind _ (decide_eq_true watches)]
                exact ⟨_, rfl⟩
  · next phase =>
      split
      · exact ⟨_, rfl⟩
      · next ev rest queue =>
          obtain ⟨r, discard, ran, discards⟩ := inv.processEvent_returns queue (careful phase) mem txId
          rw [ran, ok_bind]
          dsimp only
          rw [bmkAssert_bind _ (discards enough)]
          exact ⟨_, rfl⟩
  · exact ⟨_, rfl⟩

theorem Records.deliver_returns (records : s.Records) (behind : UInt8) :
    ∃ r, s.deliver behind = .ok r := by
  unfold deliver
  split
  · exact ⟨_, rfl⟩
  · split
    · exact ⟨_, rfl⟩
    · next w found =>
        obtain ⟨watch, is⟩ := records.watch_of_mem (List.mem_of_find?_eq_some found)
        simp [is]
  · next id error rest ring =>
      have mem : id ∈ s.flight := by simp [flight, ring, StoreMessage.replyId]
      obtain ⟨ptr, req, flies⟩ := records.inFlight mem
      obtain ⟨info, at_⟩ := flightAt_eq_some.mp flies
      simp [info, at_]

theorem CloseInv.step_returns (inv : s.CloseInv) (enough : e.Succeeds) (careful : s.Careful e) :
    ∃ r, s.step e = .ok r := by
  have records := inv.bus.records
  cases e with
  | write type txId payload mem id =>
    have asks : s.asks (.write type txId payload mem id) = true := careful
    unfold BusFile.asks at asks
    split at asks
    · cases asks
    · next r stepped => exact ⟨r, stepped⟩
  | read mem txId =>
    simp only [step]
    cases queue : s.replies with
    | nil => exact ⟨_, rfl⟩
    | cons ev rest =>
      obtain ⟨r, discard, ran, -⟩ := inv.processEvent_returns queue careful mem txId
      exact ⟨r, by simp only [ran, ok_bind]⟩
  | close | answer | fire => exact ⟨_, rfl⟩
  | shutdown mem txId id => exact inv.shutdown_returns enough careful
  | deliver behind => exact records.deliver_returns behind

/-! ## Every run -/

/-- A watch that was set and removed, and the file closed. -/
def closeMemory : BusAlloc :=
  { request := some 1, transaction := some 2, watch := some 3, path := some 4, userToken := some 5 }

def setWatch : List BusEvent :=
  [.write xsWatch 0 [97, 0, 116, 0] closeMemory 0, .answer 0 false, .deliver 0, .read true 0]

def removeWatch : List BusEvent :=
  [.write xsUnwatch 0 [97, 0, 116, 0] { closeMemory with watch := some 6, path := some 7, userToken := some 8 } 0,
    .answer 0 false, .deliver 0]

end BusFile
end Rumprun.Xen
