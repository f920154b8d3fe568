import Rumprun.Lib.SlotTable
import Rumprun.Xen.XenbusUser

/-! # Requests in flight, and the records that they have

A request is in flight from where it got its id to where its response is processed. Meanwhile the
store, the ring or the queue of the file has it, exactly once, and it has the transaction or the
watch that it is about. -/

namespace Rumprun.Xen
open Function SlotTable DevWatch List

/-- What a request is about. -/
inductive Held where
  | transaction (x : Addr)
  | watch (w : Addr)
  deriving DecidableEq

def DevRequest.held (r : DevRequest) : Option Held :=
  match r.reqType with
  | .transactionStart => some (.transaction r.target)
  | .transactionEnd => some (.transaction r.target)
  | .watch => some (.watch r.target)
  | .unwatch => some (.watch r.target)
  | .plain => none
  | .unknown => none

/-- A request inside of a record is the one that releases this record. -/
def RequestPtr.Fits (ptr : RequestPtr) (r : DevRequest) : Prop :=
  match ptr with
  | .own _ => True
  | .ofTransaction x => r.reqType = .transactionEnd ∧ r.target = x
  | .ofWatch w => r.reqType = .unwatch ∧ r.target = w

/-- The request inside of a record is read and freed after the record. -/
def RequestPtr.faults : RequestPtr → List MemFault
  | .own _ => []
  | .ofTransaction _ => [.readAfterFree, .badFree]
  | .ofWatch _ => [.readAfterFree, .badFree]

def StoreMessage.replyId : StoreMessage → Option Nat
  | .reply id _ => some id
  | .event _ _ => none

def QueueEvent.replyId : QueueEvent → Option Nat
  | .reply _ id _ => some id
  | .watch _ _ _ => none

/-! ## Ids -/

/-- The ids that are taken, each once, and how many. -/
structure IdsTaken {Info : Type} (ids : List Nat) (info : Nat → Option Info) (n : Nat) : Prop where
  nodup : ids.Nodup
  mem_iff : ∀ id, id ∈ ids ↔ info id ≠ none
  lt : ∀ id ∈ ids, id < nrReqs
  length : n = ids.length

namespace IdsTaken
variable {Info : Type} {ids ids' : List Nat} {info : Nat → Option Info} {n id : Nat}

theorem perm (counted : IdsTaken ids info n) (perm : ids.Perm ids') : IdsTaken ids' info n where
  nodup := perm.nodup_iff.mp counted.nodup
  mem_iff := by
    intro id
    rw [← perm.mem_iff]
    exact counted.mem_iff id
  lt := by
    intro id mem
    exact counted.lt id (perm.mem_iff.mpr mem)
  length := by rw [counted.length, perm.length_eq]

theorem cons (counted : IdsTaken ids info n) (free : info id = none) (lt : id < nrReqs)
    (value : Info) : IdsTaken (id :: ids) (update info id (some value)) (n + 1) where
  nodup := nodup_cons.mpr ⟨fun mem => (counted.mem_iff id).mp mem free, counted.nodup⟩
  mem_iff := by
    intro j
    by_cases same : j = id
    · simp [same]
    · rw [mem_cons, update_of_ne same, ← counted.mem_iff]
      simp [same]
  lt := by
    intro j mem
    rcases mem_cons.mp mem with rfl | mem
    · exact lt
    · exact counted.lt j mem
  length := by rw [counted.length, length_cons]

theorem tail (counted : IdsTaken (id :: ids) info n) : IdsTaken ids (update info id none) (n - 1) where
  nodup := (nodup_cons.mp counted.nodup).2
  mem_iff := by
    intro j
    have fresh := (nodup_cons.mp counted.nodup).1
    by_cases same : j = id
    · simp [same, fresh]
    · rw [update_of_ne same, ← counted.mem_iff, mem_cons]
      simp [same]
  lt := by
    intro j mem
    exact counted.lt j (mem_cons_of_mem _ mem)
  length := by rw [counted.length, length_cons, Nat.add_sub_cancel]

theorem le (counted : IdsTaken ids info n) : n ≤ nrReqs := by
  have within : ids ⊆ range nrReqs := by
    intro id mem
    exact mem_range.mpr (counted.lt id mem)
  have le := (counted.nodup.subperm within).length_le
  rw [length_range] at le
  rw [counted.length]
  exact le

end IdsTaken

/-! ## Flights -/

/-- The requests in flight, each with a record of its own, and each with what it is about. -/
structure Flights (F : Nat → Option (RequestPtr × DevRequest)) (fits : Held → Prop) : Prop where
  xbId : ∀ id ptr r, F id = some (ptr, r) → r.xbId = id
  ptr : ∀ id ptr r, F id = some (ptr, r) → ptr.Fits r
  held : ∀ id ptr r h, F id = some (ptr, r) → r.held = some h → fits h
  once : ∀ id ptr r id' ptr' r' h, F id = some (ptr, r) → F id' = some (ptr', r') →
    r.held = some h → r'.held = some h → id = id'

namespace Flights
variable {F : Nat → Option (RequestPtr × DevRequest)} {fits fits' : Held → Prop} {id : Nat}
  {ptr : RequestPtr} {r : DevRequest}

theorem mono (flights : Flights F fits)
    (imp : ∀ id ptr r h, F id = some (ptr, r) → r.held = some h → fits h → fits' h) : Flights F fits' :=
  { flights with
    held := fun id ptr r h is held => imp id ptr r h is held (flights.held id ptr r h is held) }

/-- Nobody has it. -/
def Unheld (F : Nat → Option (RequestPtr × DevRequest)) (h : Held) : Prop :=
  ∀ id ptr r, F id = some (ptr, r) → r.held ≠ some h

theorem add (flights : Flights F fits) (xbId : r.xbId = id) (ptrFits : ptr.Fits r)
    (free : ∀ h, r.held = some h → fits h ∧ Unheld F h) :
    Flights (update F id (some (ptr, r))) fits where
  xbId := by
    intro j ptr' r' is
    rcases of_fill is with ⟨rfl, new⟩ | ⟨-, is⟩
    · cases new
      exact xbId
    · exact flights.xbId j ptr' r' is
  ptr := by
    intro j ptr' r' is
    rcases of_fill is with ⟨rfl, new⟩ | ⟨-, is⟩
    · cases new
      exact ptrFits
    · exact flights.ptr j ptr' r' is
  held := by
    intro j ptr' r' h is held
    rcases of_fill is with ⟨rfl, new⟩ | ⟨-, is⟩
    · cases new
      exact (free h held).1
    · exact flights.held j ptr' r' h is held
  once := by
    intro j ptr' r' k ptr'' r'' h is is' held held'
    rcases of_fill is with ⟨rfl, new⟩ | ⟨-, old⟩
    · cases new
      rcases of_fill is' with ⟨rfl, -⟩ | ⟨-, old'⟩
      · rfl
      · exact absurd held' ((free h held).2 k ptr'' r'' old')
    · rcases of_fill is' with ⟨rfl, new⟩ | ⟨-, old'⟩
      · cases new
        exact absurd held ((free h held').2 j ptr' r' old)
      · exact flights.once j ptr' r' k ptr'' r'' h old old' held held'

theorem remove (flights : Flights F fits) : Flights (update F id none) fits where
  xbId := by
    intro j ptr' r' is
    exact flights.xbId j ptr' r' (of_empty is).2
  ptr := by
    intro j ptr' r' is
    exact flights.ptr j ptr' r' (of_empty is).2
  held := by
    intro j ptr' r' h is
    exact flights.held j ptr' r' h (of_empty is).2
  once := by
    intro j ptr' r' k ptr'' r'' h is is'
    exact flights.once j ptr' r' k ptr'' r'' h (of_empty is).2 (of_empty is').2

theorem remove_unheld (flights : Flights F fits) {h : Held} (is : F id = some (ptr, r))
    (held : r.held = some h) : Unheld (update F id none) h := by
  intro j ptr' r' is' held'
  obtain ⟨other, is'⟩ := of_empty is'
  exact other (flights.once j ptr' r' id ptr r h is' is held' held)

end Flights

/-! ## Watches -/

def DevWatch.strings (watch : DevWatch) : List Addr := [watch.path, watch.userToken]

/-- The records of the list are those that are allocated; each has strings of its own, which are the
ones of the request that made it. -/
structure WatchList (watches : List Addr) (watchAt : Addr → Option DevWatch)
    (texts : Addr → Option (List UInt8)) (given : List (List UInt8 × List UInt8)) : Prop where
  nodup : watches.Nodup
  mem_iff : ∀ w, w ∈ watches ↔ watchAt w ≠ none
  two : ∀ w watch, watchAt w = some watch → watch.path ≠ watch.userToken
  given : ∀ w watch, watchAt w = some watch →
    ∃ path token, given[watch.serial]? = some (path, token) ∧
      texts watch.path = some path ∧ texts watch.userToken = some token
  apart : ∀ w watch w' watch' p, watchAt w = some watch → watchAt w' = some watch' →
    p ∈ watch.strings → p ∈ watch'.strings → w = w'

namespace WatchList
variable {watches : List Addr} {watchAt : Addr → Option DevWatch} {texts : Addr → Option (List UInt8)}
  {given : List (List UInt8 × List UInt8)} {w p u : Addr}
variable (list : WatchList watches watchAt texts given)
include list

theorem text_live {watch : DevWatch} (is : watchAt w = some watch) (mem : p ∈ watch.strings) :
    texts p ≠ none := by
  obtain ⟨path, token, -, first, second⟩ := list.given w watch is
  rcases mem_pair.mp mem with rfl | rfl
  · rw [first]
    exact Option.some_ne_none path
  · rw [second]
    exact Option.some_ne_none token

theorem map {f : DevWatch → DevWatch} (path : ∀ watch, (f watch).path = watch.path)
    (userToken : ∀ watch, (f watch).userToken = watch.userToken)
    (serial : ∀ watch, (f watch).serial = watch.serial) :
    WatchList watches (update watchAt w ((watchAt w).map f)) texts given := by
  -- Every record comes from one with the same strings.
  have origin (v : Addr) (watch : DevWatch)
      (is : update watchAt w ((watchAt w).map f) v = some watch) :
      ∃ before, watchAt v = some before ∧ watch.path = before.path ∧
        watch.userToken = before.userToken ∧ watch.serial = before.serial := by
    by_cases same : v = w
    · subst same
      rw [update_self, Option.map_eq_some_iff] at is
      obtain ⟨before, was, rfl⟩ := is
      exact ⟨before, was, path before, userToken before, serial before⟩
    · rw [update_of_ne same] at is
      exact ⟨watch, is, rfl, rfl, rfl⟩
  constructor
  · exact list.nodup
  · intro v
    rw [list.mem_iff]
    by_cases same : v = w
    · subst same
      simp
    · rw [update_of_ne same]
  · intro v watch is
    obtain ⟨before, was, path, userToken, -⟩ := origin v watch is
    rw [path, userToken]
    exact list.two v before was
  · intro v watch is
    obtain ⟨before, was, path, userToken, serial⟩ := origin v watch is
    rw [path, userToken, serial]
    exact list.given v before was
  · intro v watch v' watch' p is is' mem mem'
    obtain ⟨before, was, path, userToken, -⟩ := origin v watch is
    obtain ⟨before', was', path', userToken', -⟩ := origin v' watch' is'
    rw [strings, path, userToken] at mem
    rw [strings, path', userToken'] at mem'
    exact list.apart v before v' before' p was was' mem mem'

theorem add (path token : List UInt8) (freshWatch : watchAt w = none) (freshPath : texts p = none)
    (freshToken : texts u = none) (two : p ≠ u) :
    WatchList (w :: watches)
      (update watchAt w
        (some { path := p, userToken := u, visibleToUser := false, destroy := none,
                serial := given.length }))
      (update (update texts p (some path)) u (some token))
      (given ++ [(path, token)]) := by
  -- The strings of the other watches are where they were.
  have other (v : Addr) (watch : DevWatch) (is : watchAt v = some watch) (q : Addr)
      (mem : q ∈ watch.strings) : q ∉ [p, u] := by
    have live := list.text_live is mem
    intro new
    rcases mem_pair.mp new with rfl | rfl
    · exact live freshPath
    · exact live freshToken
  have kept (v : Addr) (watch : DevWatch) (is : watchAt v = some watch) (q : Addr)
      (mem : q ∈ watch.strings) :
      update (update texts p (some path)) u (some token) q = texts q := by
    have apart := other v watch is q mem
    rw [update_of_ne (ne_of_not_mem_cons (not_mem_of_not_mem_cons apart)),
      update_of_ne (ne_of_not_mem_cons apart)]
  constructor
  · refine nodup_cons.mpr ⟨?_, list.nodup⟩
    rw [list.mem_iff]
    exact not_not.mpr freshWatch
  · intro v
    rw [mem_cons, list.mem_iff]
    by_cases same : v = w
    · subst same
      simp
    · rw [update_of_ne same]
      simp [same]
  · intro v watch is
    rcases of_fill is with ⟨-, rfl⟩ | ⟨-, is⟩
    · exact two
    · exact list.two v watch is
  · intro v watch is
    rcases of_fill is with ⟨-, rfl⟩ | ⟨-, is⟩
    · refine ⟨path, token, by simp, ?_, update_self ..⟩
      rw [update_of_ne two, update_self]
    · obtain ⟨path', token', was, first, second⟩ := list.given v watch is
      obtain ⟨lt, -⟩ := List.getElem?_eq_some_iff.mp was
      rw [kept v watch is watch.path (by simp [strings]),
        kept v watch is watch.userToken (by simp [strings]), List.getElem?_append_left lt]
      exact ⟨path', token', was, first, second⟩
  · intro v watch v' watch' q is is' mem mem'
    rcases of_fill is with ⟨rfl, rfl⟩ | ⟨-, old⟩
    · rcases of_fill is' with ⟨rfl, -⟩ | ⟨-, old'⟩
      · rfl
      · exact absurd mem (other v' watch' old' q mem')
    · rcases of_fill is' with ⟨rfl, rfl⟩ | ⟨-, old'⟩
      · exact absurd mem' (other v watch old q mem)
      · exact list.apart v watch v' watch' q old old' mem mem'

theorem drop {watch : DevWatch} (is : watchAt w = some watch) :
    WatchList (watches.erase w) (update watchAt w none)
      (update (update texts watch.path none) watch.userToken none) given := by
  have kept (v : Addr) (other : DevWatch) (at_ : update watchAt w none v = some other)
      (q : Addr) (mem : q ∈ other.strings) :
      update (update texts watch.path none) watch.userToken none q = texts q := by
    obtain ⟨apart, was⟩ := of_empty at_
    rw [update_of_ne, update_of_ne]
    · rintro rfl
      exact apart (list.apart v other w watch _ was is mem (by simp [strings]))
    · rintro rfl
      exact apart (list.apart v other w watch _ was is mem (by simp [strings]))
  constructor
  · exact list.nodup.erase w
  · intro v
    rw [list.nodup.mem_erase_iff, list.mem_iff]
    by_cases same : v = w
    · subst same
      simp
    · rw [update_of_ne same]
      simp [same]
  · intro v other at_
    exact list.two v other (of_empty at_).2
  · intro v other at_
    rw [kept v other at_ other.path (by simp [strings]),
      kept v other at_ other.userToken (by simp [strings])]
    exact list.given v other (of_empty at_).2
  · intro v other v' other' q at_ at_' mem mem'
    exact list.apart v other v' other' q (of_empty at_).2 (of_empty at_').2 mem mem'

end WatchList

/-! ## The records of a file -/

namespace BusFile
variable {s r : BusFile} {id : Nat} {ptr : RequestPtr} {req : DevRequest}

def flightAt (s : BusFile) (id : Nat) : Option (RequestPtr × DevRequest) :=
  (s.reqInfo id).bind fun ptr => (s.requestAt ptr).map fun req => (ptr, req)

theorem flightAt_eq_some :
    s.flightAt id = some (ptr, req) ↔ s.reqInfo id = some ptr ∧ s.requestAt ptr = some req := by
  simp only [flightAt, Option.bind_eq_some_iff, Option.map_eq_some_iff, Prod.mk.injEq]
  constructor
  · rintro ⟨_, info, _, at_, rfl, rfl⟩
    exact ⟨info, at_⟩
  · rintro ⟨info, at_⟩
    exact ⟨ptr, info, req, at_, rfl, rfl⟩

/-- Where the replies to the requests in flight are. -/
def flight (s : BusFile) : List Nat :=
  s.unanswered.map StoreRequest.id ++ s.ring.filterMap StoreMessage.replyId ++
    s.replies.filterMap QueueEvent.replyId

def Fits (s : BusFile) : Held → Prop
  | .transaction x => s.transactionAt x ≠ none ∧ x ∉ s.transactions
  | .watch w => w ∈ s.watches ∧ s.isVisible w = false

structure Records (s : BusFile) : Prop where
  counted : IdsTaken s.flight s.reqInfo s.outstanding
  live : ∀ id ptr, s.reqInfo id = some ptr → ∃ req, s.flightAt id = some (ptr, req)
  flights : Flights s.flightAt s.Fits
  asked : ∀ q ∈ s.unanswered,
    ∃ ptr, s.flightAt q.id = some (ptr, { xbId := q.id, reqType := q.reqType, target := q.token })
  queued : ∀ ptr id error, .reply ptr id error ∈ s.replies → s.reqInfo id = some ptr
  watchList : WatchList s.watches s.watchAt s.texts s.given
  opened : ∀ x ∈ s.transactions, s.transactionAt x ≠ none
  transactions_nodup : s.transactions.Nodup

theorem records_init : init.Records where
  counted := ⟨nodup_nil, by simp [flight, init], by simp [flight, init], rfl⟩
  live := by simp [init]
  flights := by constructor <;> simp [flightAt, init]
  asked := by simp [init]
  queued := by simp [init]
  watchList := by constructor <;> simp [init]
  opened := by simp [init]
  transactions_nodup := nodup_nil

namespace Records

theorem inFlight (inv : s.Records) (mem : id ∈ s.flight) :
    ∃ ptr req, s.flightAt id = some (ptr, req) := by
  obtain ⟨ptr, info⟩ := Option.ne_none_iff_exists'.mp ((inv.counted.mem_iff id).mp mem)
  obtain ⟨req, is⟩ := inv.live id ptr info
  exact ⟨ptr, req, is⟩

theorem mem_flight (inv : s.Records) (is : s.flightAt id = some (ptr, req)) : id ∈ s.flight := by
  rw [inv.counted.mem_iff, (flightAt_eq_some.mp is).1]
  exact Option.some_ne_none ptr

theorem ptr_once (inv : s.Records) {id' : Nat} {req' : DevRequest}
    (is : s.flightAt id = some (ptr, req)) (is' : s.flightAt id' = some (ptr, req')) : id = id' := by
  have at_ := (flightAt_eq_some.mp is).2
  rw [(flightAt_eq_some.mp is').2] at at_
  cases at_
  exact (inv.flights.xbId id ptr req is).symm.trans (inv.flights.xbId id' ptr req is')

theorem watch_of_mem (inv : s.Records) {w : Addr} (mem : w ∈ s.watches) :
    ∃ watch, s.watchAt w = some watch :=
  Option.ne_none_iff_exists'.mp ((inv.watchList.mem_iff w).mp mem)

end Records

theorem flightAt_congr (info : r.reqInfo = s.reqInfo)
    (same : ∀ id ptr req, s.flightAt id = some (ptr, req) → r.requestAt ptr = some req)
    (live : ∀ id ptr, s.reqInfo id = some ptr → ∃ req, s.flightAt id = some (ptr, req)) :
    r.flightAt = s.flightAt := by
  funext id
  cases is : s.reqInfo id with
  | none => simp [flightAt, info, is]
  | some ptr =>
    obtain ⟨req, at_⟩ := live id ptr is
    rw [at_, flightAt_eq_some, info]
    exact ⟨is, same id ptr req at_⟩

theorem flightAt_of_requestAt (info : r.reqInfo = s.reqInfo) (same : r.requestAt = s.requestAt) :
    r.flightAt = s.flightAt := by
  funext id
  rw [flightAt, flightAt, info, same]

end BusFile
end Rumprun.Xen
