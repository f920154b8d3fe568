import Rumprun.Xen.XenbusRecords

/-! # What each step does to the records of a file -/

namespace Rumprun.Xen
open Core Function List
namespace BusFile
variable {s r : BusFile} {id : Nat} {ptr : RequestPtr} {req : DevRequest} {a x w p u : Addr}
  {reqType : RequestKind} {target : Addr} {watch : DevWatch} {error : Bool} {rest : List QueueEvent}

/-! ## A request is made -/

def asked (s : BusFile) (ptr : RequestPtr) (reqType : RequestKind) (target : Addr) (id : Nat) :
    BusFile :=
  { s.setRequest ptr { xbId := id, reqType := reqType, target := target } with
    reqInfo := update s.reqInfo id (some ptr)
    outstanding := s.outstanding + 1
    unanswered := s.unanswered ++ [{ id := id, reqType := reqType, token := target }]
    closed := if reqType = .watch then update s.closed target false else s.closed }

theorem makeRequest_eq (room : s.outstanding < intMax) :
    s.makeRequest ptr reqType target id = .ok (s.asked ptr reqType target id) := by
  rw [makeRequest, bmkAssert_bind _ (decide_eq_true room)]
  rfl

theorem makeRequest_ok (ran : s.makeRequest ptr reqType target id = .ok r) :
    r = s.asked ptr reqType target id := by
  obtain ⟨-, ran⟩ := bmkAssert_bind_ok ran
  exact (Except.ok.inj ran).symm

theorem requestAt_setRequest_ne {other : RequestPtr} (ne : other ≠ ptr) :
    (s.setRequest ptr req).requestAt other = s.requestAt other := by
  cases ptr with
  | own a =>
    cases other with
    | own b => exact update_of_ne (fun same => ne (congrArg _ same)) _ _
    | ofTransaction | ofWatch => rfl
  | ofTransaction x =>
    cases other with
    | own | ofWatch => rfl
    | ofTransaction y =>
      have ne' : y ≠ x := fun same => ne (congrArg _ same)
      simp [setRequest, requestAt, ne']
  | ofWatch w =>
    cases other with
    | own | ofTransaction => rfl
    | ofWatch v =>
      have ne' : v ≠ w := fun same => ne (congrArg _ same)
      simp [setRequest, requestAt, ne']

theorem transactionAt_setRequest_none :
    (s.setRequest ptr req).transactionAt x = none ↔ s.transactionAt x = none := by
  cases ptr with
  | own | ofWatch => rfl
  | ofTransaction y =>
    by_cases same : x = y
    · subst same
      simp [setRequest]
    · simp [setRequest, same]

theorem isVisible_setRequest : (s.setRequest ptr req).isVisible w = s.isVisible w := by
  cases ptr with
  | own | ofTransaction => rfl
  | ofWatch v =>
    by_cases same : w = v
    · subst same
      cases is : s.watchAt w with
      | none | some => simp [setRequest, isVisible, is]
    · simp [setRequest, isVisible, same]

theorem fits_setRequest : (s.setRequest ptr req).Fits = s.Fits := by
  funext h
  cases h with
  | transaction x => simp only [Fits, ne_eq, transactionAt_setRequest_none]; rfl
  | watch w => simp only [Fits, isVisible_setRequest]; rfl

theorem watchList_setRequest (list : WatchList s.watches s.watchAt s.texts s.given) :
    WatchList s.watches (s.setRequest ptr req).watchAt s.texts s.given := by
  cases ptr with
  | own | ofTransaction => exact list
  | ofWatch v => exact list.map (fun _ => rfl) (fun _ => rfl) (fun _ => rfl)

theorem flightAt_asked
    (live : ∀ id ptr, s.reqInfo id = some ptr → ∃ req, s.flightAt id = some (ptr, req))
    (unused : ∀ j req, s.flightAt j ≠ some (ptr, req))
    (set : (s.setRequest ptr { xbId := id, reqType := reqType, target := target }).requestAt ptr =
      some { xbId := id, reqType := reqType, target := target }) :
    (s.asked ptr reqType target id).flightAt =
      update s.flightAt id
        (some (ptr, { xbId := id, reqType := reqType, target := target })) := by
  funext j
  by_cases same : j = id
  · subst same
    rw [update_self, flightAt_eq_some]
    exact ⟨update_self .., set⟩
  · rw [update_of_ne same]
    have info : (s.asked ptr reqType target id).reqInfo j = s.reqInfo j := update_of_ne same ..
    cases is : s.reqInfo j with
    | none => simp [flightAt, info, is]
    | some other =>
      obtain ⟨q, at_⟩ := live j other is
      have ne : other ≠ ptr := by
        rintro rfl
        exact unused j q at_
      rw [at_, flightAt_eq_some, info]
      exact ⟨is, (requestAt_setRequest_ne ne).trans (flightAt_eq_some.mp at_).2⟩

theorem flight_asked : (id :: s.flight).Perm (s.asked ptr reqType target id).flight := by
  simp only [flight, asked, setRequest, map_append, map_cons, map_nil,
    append_assoc, cons_append, nil_append]
  exact perm_middle.symm

theorem Records.ask (inv : s.Records) (free : s.IdFree id)
    (unused : ∀ j req, s.flightAt j ≠ some (ptr, req))
    (set : (s.setRequest ptr { xbId := id, reqType := reqType, target := target }).requestAt ptr =
      some { xbId := id, reqType := reqType, target := target })
    (fits : ptr.Fits { xbId := id, reqType := reqType, target := target })
    (held : ∀ h, DevRequest.held { xbId := id, reqType := reqType, target := target } = some h →
      s.Fits h ∧ Flights.Unheld s.flightAt h) : (s.asked ptr reqType target id).Records := by
  have flightAt := flightAt_asked inv.live unused set
  constructor
  · exact (inv.counted.cons free.2 free.1 ptr).perm flight_asked
  · intro j other info
    rw [flightAt]
    by_cases same : j = id
    · subst same
      rw [show other = ptr from Option.some.inj (info.symm.trans (update_self ..))]
      exact ⟨_, update_self ..⟩
    · rw [update_of_ne same]
      exact inv.live j other ((update_of_ne same ..).symm.trans info)
  · rw [flightAt, show (s.asked ptr reqType target id).Fits = s.Fits from fits_setRequest]
    exact inv.flights.add rfl fits held
  · intro q mem
    rw [flightAt]
    rcases mem_append.mp mem with old | new
    · obtain ⟨other, at_⟩ := inv.asked q old
      have ne : q.id ≠ id := by
        intro same
        rw [same, flightAt_eq_some, free.2] at at_
        cases at_.1
      exact ⟨other, (update_of_ne ne ..).trans at_⟩
    · cases mem_singleton.mp new
      exact ⟨ptr, update_self ..⟩
  · intro other j error mem
    have info := inv.queued other j error mem
    have ne : j ≠ id := by
      intro same
      rw [same, free.2] at info
      cases info
    exact (update_of_ne ne ..).trans info
  · exact watchList_setRequest inv.watchList
  · intro x mem
    exact mt transactionAt_setRequest_none.mp (inv.opened x mem)
  · exact inv.transactions_nodup

/-! ## Memory for a request -/

section
variable (inv : s.Records)
include inv

theorem Records.congr (same : r.flightAt = s.flightAt)
    (fits : ∀ id ptr req h, s.flightAt id = some (ptr, req) → req.held = some h → s.Fits h → r.Fits h)
    (info : r.reqInfo = s.reqInfo) (flight : s.flight.Perm r.flight)
    (outstanding : r.outstanding = s.outstanding) (asked : ∀ q ∈ r.unanswered, q ∈ s.unanswered)
    (queued : ∀ ptr id error, .reply ptr id error ∈ r.replies → s.reqInfo id = some ptr)
    (watchList : WatchList r.watches r.watchAt r.texts r.given)
    (opened : ∀ x ∈ r.transactions, r.transactionAt x ≠ none) (nodup : r.transactions.Nodup) :
    r.Records where
  counted := by
    rw [info, outstanding]
    exact inv.counted.perm flight
  live := by
    rw [same, info]
    exact inv.live
  flights := by
    rw [same]
    exact inv.flights.mono fits
  asked := by
    intro q mem
    rw [same]
    exact inv.asked q (asked q mem)
  queued := by
    rw [info]
    exact queued
  watchList := watchList
  opened := opened
  transactions_nodup := nodup

omit inv in
theorem unused_own (fresh : s.requests a = none) (j : Nat) (q : DevRequest) :
    s.flightAt j ≠ some (.own a, q) := by
  intro flies
  have at_ := (flightAt_eq_some.mp flies).2
  rw [requestAt, fresh] at at_
  cases at_

theorem flightAt_newRequest (fresh : s.requests a = none) (reqType : RequestKind) :
    (s.newRequest a reqType).flightAt = s.flightAt := by
  refine flightAt_congr rfl ?_ inv.live
  intro id ptr req is
  have at_ := (flightAt_eq_some.mp is).2
  cases ptr with
  | own b =>
    have ne : b ≠ a := by
      rintro rfl
      exact unused_own fresh id req is
    exact (update_of_ne ne ..).trans at_
  | ofTransaction | ofWatch => exact at_

theorem Records.newRequest (fresh : s.requests a = none) (reqType : RequestKind) :
    (s.newRequest a reqType).Records :=
  inv.congr (flightAt_newRequest inv fresh reqType) (fun _ _ _ _ _ _ fits => fits) rfl (.refl _) rfl
    (fun _ mem => mem) inv.queued inv.watchList inv.opened inv.transactions_nodup

theorem flightAt_newTransaction (fresh : s.transactionAt x = none) :
    (s.newTransaction x).flightAt = s.flightAt := by
  refine flightAt_congr rfl ?_ inv.live
  intro id ptr req is
  have at_ := (flightAt_eq_some.mp is).2
  cases ptr with
  | own | ofWatch => exact at_
  | ofTransaction y =>
    have ne : y ≠ x := by
      rintro rfl
      rw [requestAt, fresh] at at_
      cases at_
    simpa [requestAt, newTransaction, ne] using at_

theorem Records.newTransaction (fresh : s.transactionAt x = none) : (s.newTransaction x).Records := by
  have mono (y : Addr) (live : s.transactionAt y ≠ none) : (s.newTransaction x).transactionAt y ≠ none := by
    have ne : y ≠ x := by
      rintro rfl
      exact live fresh
    exact fun none_ => live ((update_of_ne ne ..).symm.trans none_)
  refine inv.congr (flightAt_newTransaction inv fresh) ?_ rfl (.refl _) rfl (fun _ mem => mem)
    inv.queued inv.watchList ?_ inv.transactions_nodup
  · intro id ptr req h _ _ fits
    cases h with
    | transaction y => exact ⟨mono y fits.1, fits.2⟩
    | watch w => exact fits
  · intro y mem
    exact mono y (inv.opened y mem)

theorem flightAt_newWatch (fresh : s.watchAt w = none) (path token : List UInt8) :
    (s.newWatch w p u path token).flightAt = s.flightAt := by
  refine flightAt_congr rfl ?_ inv.live
  intro id ptr req is
  have at_ := (flightAt_eq_some.mp is).2
  cases ptr with
  | own | ofTransaction => exact at_
  | ofWatch v =>
    have ne : v ≠ w := by
      rintro rfl
      rw [requestAt, fresh] at at_
      cases at_
    simpa [requestAt, newWatch, ne] using at_

theorem Records.newWatch (freshWatch : s.watchAt w = none) (freshPath : s.texts p = none)
    (freshToken : s.texts u = none) (two : p ≠ u) (path token : List UInt8) :
    (s.newWatch w p u path token).Records := by
  refine inv.congr (flightAt_newWatch inv freshWatch path token) ?_ rfl (.refl _) rfl
    (fun _ mem => mem) inv.queued
    (inv.watchList.add path token freshWatch freshPath freshToken two) inv.opened inv.transactions_nodup
  intro id ptr req h _ _ fits
  cases h with
  | transaction y => exact fits
  | watch v =>
    refine ⟨mem_cons_of_mem _ fits.1, ?_⟩
    have ne : v ≠ w := by
      rintro rfl
      exact (inv.watchList.mem_iff v).mp fits.1 freshWatch
    simpa [isVisible, BusFile.newWatch, ne] using fits.2

end

/-! ## Changes of what no request has -/

theorem requestAt_setVisible (visible : Bool) : (s.setVisible w visible).requestAt = s.requestAt := by
  funext ptr
  cases ptr with
  | own | ofTransaction => rfl
  | ofWatch v =>
    by_cases same : v = w
    · subst same
      cases is : s.watchAt v with
      | none | some => simp [requestAt, setVisible, is]
    · simp [requestAt, setVisible, same]

theorem isVisible_setVisible_ne {v : Addr} (ne : v ≠ w) (visible : Bool) :
    (s.setVisible w visible).isVisible v = s.isVisible v := by
  simp [isVisible, setVisible, ne]

theorem isVisible_setVisible_false : (s.setVisible w false).isVisible w = false := by
  cases is : s.watchAt w with
  | none | some => simp [isVisible, setVisible, is]

theorem flightAt_setVisible (visible : Bool) : (s.setVisible w visible).flightAt = s.flightAt :=
  flightAt_of_requestAt rfl (requestAt_setVisible visible)

theorem Records.setVisible (inv : s.Records) (unheld : Flights.Unheld s.flightAt (.watch w))
    (visible : Bool) : (s.setVisible w visible).Records := by
  refine inv.congr (flightAt_setVisible visible) ?_ rfl (.refl _) rfl (fun _ mem => mem) inv.queued
    (inv.watchList.map (fun _ => rfl) (fun _ => rfl) (fun _ => rfl)) inv.opened inv.transactions_nodup
  intro id ptr req h is held fits
  cases h with
  | transaction y => exact fits
  | watch v =>
    have ne : v ≠ w := by
      rintro rfl
      exact unheld id ptr req is held
    exact ⟨fits.1, (isVisible_setVisible_ne ne visible).trans fits.2⟩

theorem Records.unheld_of_visible (inv : s.Records) (visible : s.isVisible w = true) :
    Flights.Unheld s.flightAt (.watch w) := by
  intro id ptr req is held
  have hidden := (inv.flights.held id ptr req _ is held).2
  rw [visible] at hidden
  cases hidden

def openTransaction (s : BusFile) (x : Addr) (txId : Nat) : BusFile :=
  { s with
    transactionAt := update s.transactionAt x
      ((s.transactionAt x).map fun record => { record with txId := txId })
    transactions := x :: s.transactions }

theorem requestAt_openTransaction (txId : Nat) :
    (s.openTransaction x txId).requestAt = s.requestAt := by
  funext ptr
  cases ptr with
  | own | ofWatch => rfl
  | ofTransaction y =>
    by_cases same : y = x
    · subst same
      cases is : s.transactionAt y with
      | none | some => simp [requestAt, openTransaction, is]
    · simp [requestAt, openTransaction, same]

theorem flightAt_openTransaction (txId : Nat) : (s.openTransaction x txId).flightAt = s.flightAt :=
  flightAt_of_requestAt rfl (requestAt_openTransaction txId)

theorem Records.openTransaction (inv : s.Records)
    (unheld : Flights.Unheld s.flightAt (.transaction x)) (live : s.transactionAt x ≠ none)
    (new : x ∉ s.transactions) (txId : Nat) : (s.openTransaction x txId).Records := by
  have mono (y : Addr) (live : s.transactionAt y ≠ none) :
      (s.openTransaction x txId).transactionAt y ≠ none := by
    by_cases same : y = x
    · subst same
      simpa [BusFile.openTransaction] using live
    · simpa [BusFile.openTransaction, same] using live
  refine inv.congr (flightAt_openTransaction txId) ?_ rfl (.refl _) rfl (fun _ mem => mem)
    inv.queued inv.watchList ?_ (nodup_cons.mpr ⟨new, inv.transactions_nodup⟩)
  · intro id ptr req h is held fits
    cases h with
    | watch w => exact fits
    | transaction y =>
      refine ⟨mono y fits.1, ?_⟩
      intro mem
      rcases mem_cons.mp mem with rfl | mem
      · exact unheld id ptr req is held
      · exact fits.2 mem
  · intro y mem
    rcases mem_cons.mp mem with rfl | mem
    · exact mono y live
    · exact mono y (inv.opened y mem)

theorem Records.unheld_of_opened (inv : s.Records) (mem : x ∈ s.transactions) :
    Flights.Unheld s.flightAt (.transaction x) := by
  intro id ptr req is held
  exact (inv.flights.held id ptr req _ is held).2 mem

theorem Records.takeTransaction (inv : s.Records) :
    Records { s with transactions := s.transactions.erase x } := by
  refine inv.congr (flightAt_of_requestAt rfl rfl) ?_ rfl (.refl _) rfl (fun _ mem => mem) inv.queued
    inv.watchList ?_ (inv.transactions_nodup.erase x)
  · intro id ptr req h _ _ fits
    cases h with
    | watch w => exact fits
    | transaction y => exact ⟨fits.1, fun mem => fits.2 (mem_of_mem_erase mem)⟩
  · intro y mem
    exact inv.opened y (mem_of_mem_erase mem)

def dropTransaction (s : BusFile) (x : Addr) : BusFile :=
  { s with transactionAt := update s.transactionAt x none }

theorem flightAt_dropTransaction (inv : s.Records)
    (unheld : Flights.Unheld s.flightAt (.transaction x)) :
    (s.dropTransaction x).flightAt = s.flightAt := by
  refine flightAt_congr rfl ?_ inv.live
  intro id ptr req is
  have at_ := (flightAt_eq_some.mp is).2
  cases ptr with
  | own | ofWatch => exact at_
  | ofTransaction y =>
    have ne : y ≠ x := by
      rintro rfl
      obtain ⟨type, target⟩ := inv.flights.ptr id _ req is
      exact unheld id _ req is (by rw [DevRequest.held, type, target])
    simpa [requestAt, dropTransaction, ne] using at_

theorem Records.dropTransaction (inv : s.Records)
    (unheld : Flights.Unheld s.flightAt (.transaction x)) (gone : x ∉ s.transactions) :
    (s.dropTransaction x).Records := by
  refine inv.congr (flightAt_dropTransaction inv unheld) ?_ rfl (.refl _) rfl (fun _ mem => mem)
    inv.queued inv.watchList ?_ inv.transactions_nodup
  · intro id ptr req h is held fits
    cases h with
    | watch w => exact fits
    | transaction y =>
      have ne : y ≠ x := by
        rintro rfl
        exact unheld id ptr req is held
      exact ⟨fun none_ => fits.1 ((update_of_ne ne ..).symm.trans none_), fits.2⟩
  · intro y mem
    have ne : y ≠ x := by
      rintro rfl
      exact gone mem
    exact fun none_ => inv.opened y mem ((update_of_ne ne ..).symm.trans none_)

def dropWatch (s : BusFile) (w : Addr) (watch : DevWatch) : BusFile :=
  { s with
    watches := s.watches.erase w
    watchAt := update s.watchAt w none
    texts := update (update s.texts watch.path none) watch.userToken none }

theorem flightAt_dropWatch (inv : s.Records) (unheld : Flights.Unheld s.flightAt (.watch w))
    (watch : DevWatch) : (s.dropWatch w watch).flightAt = s.flightAt := by
  refine flightAt_congr rfl ?_ inv.live
  intro id ptr req is
  have at_ := (flightAt_eq_some.mp is).2
  cases ptr with
  | own | ofTransaction => exact at_
  | ofWatch v =>
    have ne : v ≠ w := by
      rintro rfl
      obtain ⟨type, target⟩ := inv.flights.ptr id _ req is
      exact unheld id _ req is (by rw [DevRequest.held, type, target])
    simpa [requestAt, dropWatch, ne] using at_

theorem Records.dropWatch (inv : s.Records) (unheld : Flights.Unheld s.flightAt (.watch w))
    (is : s.watchAt w = some watch) : (s.dropWatch w watch).Records := by
  refine inv.congr (flightAt_dropWatch inv unheld watch) ?_ rfl (.refl _) rfl (fun _ mem => mem)
    inv.queued (inv.watchList.drop is) inv.opened inv.transactions_nodup
  intro id ptr req h at_ held fits
  cases h with
  | transaction y => exact fits
  | watch v =>
    have ne : v ≠ w := by
      rintro rfl
      exact unheld id ptr req at_ held
    exact ⟨(mem_erase_of_ne ne).mpr fits.1,
      by simpa [isVisible, BusFile.dropWatch, ne] using fits.2⟩

/-! ## A response -/

/-- The request is no longer in flight, and its record released if it is one of its own. -/
def released (s : BusFile) (id : Nat) (ptr : RequestPtr) : BusFile :=
  { s with
    requests :=
      match ptr with
      | .own a => update s.requests a none
      | _ => s.requests
    reqInfo := update s.reqInfo id none
    outstanding := s.outstanding - 1 }

theorem flightAt_released (inv : s.Records) (is : s.flightAt id = some (ptr, req)) :
    (s.released id ptr).flightAt = update s.flightAt id none := by
  funext j
  by_cases same : j = id
  · subst same
    rw [update_self]
    simp [flightAt, released]
  · rw [update_of_ne same]
    have info : (s.released id ptr).reqInfo j = s.reqInfo j := update_of_ne same ..
    cases is' : s.reqInfo j with
    | none => simp [flightAt, info, is']
    | some other =>
      obtain ⟨q, flies⟩ := inv.live j other is'
      have at_ := (flightAt_eq_some.mp flies).2
      rw [flies, flightAt_eq_some, info]
      refine ⟨is', ?_⟩
      cases ptr with
      | ofTransaction | ofWatch => exact at_
      | own a =>
        cases other with
        | ofTransaction | ofWatch => exact at_
        | own b =>
          have ne : b ≠ a := by
            rintro rfl
            exact same (inv.ptr_once flies is)
          exact (update_of_ne ne ..).trans at_

theorem flight_reply (queue : s.replies = .reply ptr id error :: rest) :
    s.flight.Perm (id :: (s.popped rest).flight) := by
  simp only [flight, popped, queue, filterMap_cons, QueueEvent.replyId]
  exact perm_middle

theorem Records.release (inv : s.Records) (queue : s.replies = .reply ptr id error :: rest)
    (is : s.flightAt id = some (ptr, req)) : ((s.popped rest).released id ptr).Records := by
  have flightAt : ((s.popped rest).released id ptr).flightAt =
      update s.flightAt id none := by
    have same := flightAt_released inv is
    exact same
  have counted := inv.counted.perm (flight_reply queue)
  -- Nothing else is left of the request.
  have gone : id ∉ (s.popped rest).flight := (nodup_cons.mp counted.nodup).1
  constructor
  · exact counted.tail
  · intro j other info
    have ne : j ≠ id := by
      rintro rfl
      cases (update_self ..).symm.trans info
    rw [flightAt, update_of_ne ne]
    exact inv.live j other ((update_of_ne ne ..).symm.trans info)
  · rw [flightAt]
    exact inv.flights.remove
  · intro q mem
    have ne : q.id ≠ id := by
      intro same
      apply gone
      simp only [flight, popped, mem_append, mem_map]
      exact .inl (.inl ⟨q, mem, same⟩)
    rw [flightAt, update_of_ne ne]
    exact inv.asked q mem
  · intro other j error' mem
    have ne : j ≠ id := by
      rintro rfl
      apply gone
      simp only [flight, popped, mem_append, mem_filterMap]
      exact .inr ⟨_, mem, rfl⟩
    have old : QueueEvent.reply other j error' ∈ s.replies := by
      rw [queue]
      exact mem_cons_of_mem _ mem
    exact (update_of_ne ne ..).trans (inv.queued other j error' old)
  · exact inv.watchList
  · exact inv.opened
  · exact inv.transactions_nodup

/-- What the response does to the records, once the request is released. -/
def settled (s : BusFile) (req : DevRequest) (error : Bool) (txId : Nat) : BusFile :=
  match req.reqType with
  | .transactionStart => if error then s else s.openTransaction req.target txId
  | .transactionEnd => s.dropTransaction req.target
  | .watch =>
    match s.watchAt req.target with
    | none => s
    | some watch => if error then s.dropWatch req.target watch else s.setVisible req.target true
  | .unwatch =>
    match s.watchAt req.target with
    | none => s
    | some watch => s.dropWatch req.target watch
  | .plain => s
  | .unknown => s

/-- What is to be shown for each response, if what the request is about is there. -/
theorem settled_cases {P : BusFile → Prop} {txId : Nat} (inv : s.Records)
    (fits : ∀ h, req.held = some h → s.Fits h)
    (starts : req.reqType = .transactionStart → error = true → P s)
    (opens : req.held = some (.transaction req.target) → P (s.openTransaction req.target txId))
    (ends : req.held = some (.transaction req.target) → P (s.dropTransaction req.target))
    (shows : ∀ watch, req.held = some (.watch req.target) → s.watchAt req.target = some watch →
      P (s.setVisible req.target true))
    (drops : ∀ watch, req.held = some (.watch req.target) → s.watchAt req.target = some watch →
      req.reqType = .unwatch ∨ error = true → P (s.dropWatch req.target watch))
    (rest : req.held = none → P s) : P (s.settled req error txId) := by
  cases type : req.reqType with
  | transactionStart =>
    simp only [settled, type]
    cases error with
    | true => exact starts type rfl
    | false => exact opens (by rw [DevRequest.held, type])
  | transactionEnd =>
    simp only [settled, type]
    exact ends (by rw [DevRequest.held, type])
  | watch =>
    have held : req.held = some (.watch req.target) := by rw [DevRequest.held, type]
    obtain ⟨watch, is⟩ := inv.watch_of_mem (fits _ held).1
    simp only [settled, type, is]
    cases error with
    | true => exact drops watch held is (.inr rfl)
    | false => exact shows watch held is
  | unwatch =>
    have held : req.held = some (.watch req.target) := by rw [DevRequest.held, type]
    obtain ⟨watch, is⟩ := inv.watch_of_mem (fits _ held).1
    simp only [settled, type, is]
    exact drops watch held is (.inl type)
  | plain | unknown =>
    simp only [settled, type]
    exact rest (by rw [DevRequest.held, type])

section
variable (inv : s.Records)
  (unheld : ∀ h, req.held = some h → s.Fits h ∧ Flights.Unheld s.flightAt h)
include inv unheld

theorem Records.settle {txId : Nat} : (s.settled req error txId).Records := by
  refine settled_cases inv (fun h held => (unheld h held).1) (fun _ _ => inv) ?_ ?_ ?_ ?_ (fun _ => inv)
  · intro held
    obtain ⟨⟨live, new⟩, alone⟩ := unheld _ held
    exact inv.openTransaction alone live new txId
  · intro held
    obtain ⟨⟨-, gone⟩, alone⟩ := unheld _ held
    exact inv.dropTransaction alone gone
  · intro watch held is
    exact inv.setVisible (unheld _ held).2 true
  · intro watch held is _
    exact inv.dropWatch (unheld _ held).2 is

theorem flightAt_settled (error : Bool) (txId : Nat) :
    (s.settled req error txId).flightAt = s.flightAt := by
  apply settled_cases inv (P := fun r => r.flightAt = s.flightAt) fun h held => (unheld h held).1
  · intro _ _
    rfl
  · intro _
    exact flightAt_openTransaction txId
  · intro held
    exact flightAt_dropTransaction inv (unheld _ held).2
  · intro watch held is
    exact flightAt_setVisible true
  · intro watch held is _
    exact flightAt_dropWatch inv (unheld _ held).2 watch
  · intro _
    rfl

end

/-- The response is about records that are there. -/
structure Answered (s : BusFile) (ptr : RequestPtr) (req : DevRequest) : Prop where
  at_ : s.requestAt ptr = some req
  info : s.reqInfo req.xbId = some ptr
  ptrFits : ptr.Fits req
  held : ∀ h, req.held = some h → s.Fits h
  watchList : WatchList s.watches s.watchAt s.texts s.given
  outstanding : 0 < s.outstanding

theorem Records.answered (inv : s.Records) (queue : s.replies = .reply ptr id error :: rest)
    (is : s.flightAt id = some (ptr, req)) : (s.popped rest).Answered ptr req where
  at_ := (flightAt_eq_some.mp is).2
  info := by
    rw [inv.flights.xbId id ptr req is]
    exact (flightAt_eq_some.mp is).1
  ptrFits := inv.flights.ptr id ptr req is
  held := fun h held => inv.flights.held id ptr req h is held
  watchList := inv.watchList
  outstanding := by
    show 0 < s.outstanding
    rw [inv.counted.length, (flight_reply queue).length_eq]
    exact Nat.succ_pos _

theorem doUnwatch_eq (list : WatchList s.watches s.watchAt s.texts s.given)
    (is : s.watchAt w = some watch) (hidden : s.isVisible w = false) :
    s.doUnwatch w watch = .ok (s.dropWatch w watch) := by
  have invisible : watch.visibleToUser = false := by simpa [isVisible, is] using hidden
  have path : s.texts watch.path ≠ none := list.text_live is (by simp [DevWatch.strings])
  have token : s.texts watch.userToken ≠ none := list.text_live is (by simp [DevWatch.strings])
  rw [doUnwatch, bmkAssert_bind _ (by rw [invisible]; rfl)]
  simp [freeWatch, freeText, path, token, (list.two w watch is).symm, is, dropWatch]

theorem respond_eq (answered : s.Answered ptr req) (txId : Nat)
    (right : req.reqType = .unwatch → error = false) :
    s.respond req error txId = .ok (s.settled req error txId) := by
  have held := answered.held
  simp only [DevRequest.held] at held
  cases type : req.reqType with
  | transactionStart =>
    simp only [type, Option.some.injEq, forall_eq'] at held
    obtain ⟨record, is⟩ := Option.ne_none_iff_exists'.mp held.1
    cases error with
    | true => simp [respond, settled, type]
    | false => simp [respond, settled, type, is, openTransaction]
  | transactionEnd =>
    simp only [type, Option.some.injEq, forall_eq'] at held
    simp [respond, settled, type, freeTransaction, held.1, dropTransaction]
  | watch =>
    simp only [type, Option.some.injEq, forall_eq'] at held
    obtain ⟨watch, is⟩ := Option.ne_none_iff_exists'.mp ((answered.watchList.mem_iff _).mp held.1)
    cases error with
    | true => simp [respond, settled, type, is, doUnwatch_eq answered.watchList is held.2]
    | false => simp [respond, settled, type, is]
  | unwatch =>
    simp only [type, Option.some.injEq, forall_eq'] at held
    obtain ⟨watch, is⟩ := Option.ne_none_iff_exists'.mp ((answered.watchList.mem_iff _).mp held.1)
    simp only [respond, settled, type, is]
    rw [bmkAssert_bind _ (by rw [right type]; rfl)]
    exact doUnwatch_eq answered.watchList is held.2
  | plain | unknown => simp [respond, settled, type]

theorem settled_eq (s : BusFile) (req : DevRequest) (error : Bool) (txId : Nat) :
    ∃ transactionAt transactions watchAt watches texts, s.settled req error txId =
      { s with
        transactionAt := transactionAt, transactions := transactions, watchAt := watchAt
        watches := watches, texts := texts } := by
  unfold settled
  cases req.reqType with
  | transactionStart =>
    cases error with
    | true | false => exact ⟨_, _, _, _, _, rfl⟩
  | transactionEnd | plain | unknown => exact ⟨_, _, _, _, _, rfl⟩
  | watch =>
    cases s.watchAt req.target with
    | none => exact ⟨_, _, _, _, _, rfl⟩
    | some watch =>
      cases error with
      | true | false => exact ⟨_, _, _, _, _, rfl⟩
  | unwatch =>
    cases s.watchAt req.target with
    | none | some => exact ⟨_, _, _, _, _, rfl⟩

theorem settled_released (s : BusFile) (id : Nat) (ptr : RequestPtr) (req : DevRequest) (error : Bool)
    (txId : Nat) :
    (s.settled req error txId).released id ptr = (s.released id ptr).settled req error txId := by
  unfold settled
  cases req.reqType with
  | transactionStart => cases error <;> rfl
  | transactionEnd | plain | unknown => rfl
  | watch =>
    cases is : s.watchAt req.target with
    | none => simp only [released, is]
    | some watch => cases error <;> simp only [released, is] <;> rfl
  | unwatch =>
    cases is : s.watchAt req.target with
    | none => simp only [released, is]
    | some watch => simp only [released, is]; rfl

def withFaults (s : BusFile) (faults : List MemFault) : BusFile :=
  { s with faults := s.faults ++ faults }

theorem idRelease_eq (taken : s.reqInfo id = some ptr) :
    s.idRelease id = .ok { s with reqInfo := update s.reqInfo id none } := by
  rw [idRelease, miniosAssert, if_pos (by rw [taken]; rfl)]
  rfl

theorem endResponse_own (at_ : s.requests a ≠ none) (taken : s.reqInfo id = some ptr)
    (positive : 0 < s.outstanding) : s.endResponse (.own a) id = .ok (s.released id (.own a)) := by
  have here : s.requestAt (.own a) ≠ none := at_
  rw [endResponse, if_neg here, idRelease_eq taken, ok_bind, bmkAssert_bind]
  · simp [freeRequest, at_, released]
  · simp [freeRequest, at_, positive]

theorem endResponse_gone (gone : s.requestAt ptr = none) (inside : ∀ a, ptr ≠ .own a)
    (taken : s.reqInfo id = some ptr) (positive : 0 < s.outstanding) :
    s.endResponse ptr id = .ok ((s.released id ptr).withFaults [.readAfterFree, .badFree]) := by
  have taken' : (s.fault .readAfterFree).reqInfo id = some ptr := taken
  rw [endResponse, if_pos gone, idRelease_eq taken', ok_bind, bmkAssert_bind]
  · cases ptr with
    | own a => exact absurd rfl (inside a)
    | ofTransaction | ofWatch => simp [freeRequest, fault, released, withFaults]
  · cases ptr with
    | own a => exact absurd rfl (inside a)
    | ofTransaction | ofWatch => simp [freeRequest, fault, positive]

theorem processResponse_eq (answered : s.Answered ptr req) (txId : Nat)
    (right : req.reqType = .unwatch → error = false) :
    s.processResponse ptr error txId =
      .ok (((s.released req.xbId ptr).settled req error txId).withFaults ptr.faults) := by
  have taken := answered.info
  have positive := answered.outstanding
  obtain ⟨_, _, _, _, _, after⟩ := settled_eq s req error txId
  rw [← show (s.settled req error txId).reqInfo = s.reqInfo by rw [after]] at taken
  rw [← show (s.settled req error txId).outstanding = s.outstanding by rw [after]] at positive
  simp only [processResponse, answered.at_]
  rw [respond_eq answered txId right, ok_bind, ← settled_released]
  cases ptr with
  | own a =>
    have at_ : (s.settled req error txId).requests a ≠ none := by
      rw [after, show s.requests a = some req from answered.at_]
      exact Option.some_ne_none req
    rw [endResponse_own at_ taken positive, withFaults, RequestPtr.faults, append_nil]
  | ofTransaction x =>
    obtain ⟨type, rfl⟩ := answered.ptrFits
    have gone : (s.settled req error txId).requestAt (.ofTransaction req.target) = none := by
      simp [settled, type, dropTransaction, requestAt]
    exact endResponse_gone gone (by simp) taken positive
  | ofWatch w =>
    obtain ⟨type, rfl⟩ := answered.ptrFits
    have gone : (s.settled req error txId).requestAt (.ofWatch req.target) = none := by
      simp only [settled, type]
      cases is : s.watchAt req.target with
      | none => simp [requestAt, is]
      | some watch => simp [dropWatch, requestAt]
    exact endResponse_gone gone (by simp) taken positive

end BusFile
end Rumprun.Xen
