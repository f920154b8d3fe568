import Mathlib.Data.Fintype.Basic
import Rumprun.Xen.SharedRings

/-! # Who owns a slot of a request ring

A submission reads `req_prod_pvt`, takes the slot of that number, and stores the number plus one
when its pages are granted. If it has to sleep for a grant, a second submission on the same ring
reads the same number. -/

namespace Rumprun.Xen
open Core StepRuns Function FrontRing BlkfrontDev NetfrontDev

/-! ## A ring on its own -/

namespace FrontRing
variable {ρ : Type} {size : Nat} {r : FrontRing ρ} {id : ρ → Nat} {done : List Nat}

@[simp] theorem getRequest_setRequest (i : RingIdx) (req : ρ) :
    (r.setRequest size i req).getRequest size i = req := by
  simp [getRequest, setRequest]

@[simp] theorem reqProdPvt_setRequest (i : RingIdx) (req : ρ) :
    (r.setRequest size i req).reqProdPvt = r.reqProdPvt := rfl

@[simp] theorem rspCons_setRequest (i : RingIdx) (req : ρ) :
    (r.setRequest size i req).rspCons = r.rspCons := rfl

/-- The slots that hold a request or its response. -/
def inUse (r : FrontRing ρ) : Nat := (r.reqProdPvt - r.rspCons).toNat

theorem ahead_succ {i cons : RingIdx} {n : Nat} (live : (i - cons).toNat < n) (small : n ≤ 2 ^ 31) :
    (i + 1 - cons).toNat = (i - cons).toNat + 1 := by
  bv_omega

theorem not_full {r : FrontRing ρ} (filled : r.inUse ≤ blkRingSize)
    (free : ¬ r.Full (.ofNat 32 blkRingSize)) : r.inUse < blkRingSize := by
  simp only [inUse, Full, blkRingSize] at *
  bv_omega

/-- Everything up to the producer is published, and `done` are the ids of it. -/
structure Settled (id : ρ → Nat) (r : FrontRing ρ) (done : List Nat) : Prop where
  pushed : r.reqProd = r.reqProdPvt
  advances : r.reqProdPvt = .ofNat 32 done.length
  ids : r.published.map id = done

theorem settled_init (id : ρ → Nat) (blank : ρ) : (init blank).Settled id [] := ⟨rfl, rfl, rfl⟩

theorem Settled.publish (settled : r.Settled id done) {x : Nat}
    (own : id (r.getRequest size r.reqProdPvt) = x) :
    (r.publish size r.reqProdPvt).Settled id (done ++ [x]) := by
  constructor
  · rfl
  · simp [FrontRing.publish, pushRequests, settled.advances, BitVec.ofNat_add]
  · have one : (r.reqProdPvt + 1 - r.reqProdPvt).toNat = 1 := by bv_omega
    have first : r.reqProdPvt + BitVec.ofNat 32 0 = r.reqProdPvt := BitVec.add_zero _
    simp only [FrontRing.publish, pushRequests, settled.pushed, one, List.range_one, List.map_append,
      settled.ids, List.map_singleton, ← own, first]
    rfl

/-- One response less: there is one, so the consumer does not run past the producer. -/
theorem Settled.consume (settled : r.Settled id done) (answered : r.rspCons ≠ r.reqProd) :
    inUse { r with rspCons := r.rspCons + 1 } + 1 = r.inUse := by
  rw [settled.pushed] at answered
  simp only [inUse]
  bv_omega

theorem Settled.congr {r' : FrontRing ρ} (settled : r.Settled id done)
    (pvt : r'.reqProdPvt = r.reqProdPvt) (prod : r'.reqProd = r.reqProd)
    (published : r'.published = r.published) : r'.Settled id done :=
  ⟨by rw [prod, pvt, settled.pushed], by rw [pvt, settled.advances], by rw [published, settled.ids]⟩

end FrontRing
namespace Gnttab

/-- The semaphore counts the free entries, and these are entries of the table. -/
structure Wf (g : Gnttab) : Prop where
  counts : g.gnttabSem = g.gnttabList.length
  entries : ∀ ref ∈ g.gnttabList, nrReservedEntries ≤ ref ∧ ref < nrGrantEntries

theorem Wf.getFreeEntry {g : Gnttab} (wf : g.Wf) :
    (g.gnttabSem = 0 ∧ g.getFreeEntry = .ok none) ∨
      ∃ ref g', g.getFreeEntry = .ok (some (ref, g')) ∧ g'.Wf := by
  by_cases none : g.gnttabSem = 0
  · exact .inl ⟨none, if_pos none⟩
  · right
    have counts := wf.counts
    cases is : g.gnttabList with
    | nil => rw [is] at counts; exact absurd counts none
    | cons ref rest =>
      have entry := wf.entries ref (by rw [is]; exact List.mem_cons_self)
      refine ⟨ref, { gnttabList := rest, gnttabSem := g.gnttabSem - 1 }, ?_, ?_, ?_⟩
      · simp [Gnttab.getFreeEntry, none, is, miniosAssert, entry, ok_bind]
      · rw [counts, is]; rfl
      · intro other mem
        exact wf.entries other (by rw [is]; exact List.mem_cons_of_mem ref mem)

theorem Wf.putFreeEntry {g : Gnttab} (wf : g.Wf) {ref : GrantRef}
    (entry : nrReservedEntries ≤ ref ∧ ref < nrGrantEntries) : (g.putFreeEntry ref).Wf := by
  refine ⟨by simp [Gnttab.putFreeEntry, wf.counts], ?_⟩
  intro other mem
  rcases List.mem_cons.mp mem with rfl | old
  · exact entry
  · exact wf.entries other old

end Gnttab

/-! ## The rings of the system -/

inductive RingName where
  | blk (d : Nat)
  | net (d : Nat)
  deriving DecidableEq, Repr

/-- The ring and the slot that a submission has taken. -/
def SubmitPlace.slot : SubmitPlace → Option (RingName × RingIdx)
  | .outside => none
  | .aio d _ i _ => some (.blk d, i)
  | .xmit d _ _ i => some (.net d, i)

namespace SubmitSys
variable {Thread : Type} {s : SubmitSys Thread} {d id len : Nat} {i : RingIdx} {dev : BlkfrontDev} {t : Thread}
  {place : SubmitPlace} {r : RingName} {cb : Aiocb} {event : SubmitEvent Thread}
  {next : SubmitSys Thread}

def reqProdPvt (s : SubmitSys Thread) : RingName → RingIdx
  | .blk d => (s.blk d).ring.reqProdPvt
  | .net d => (s.net d).tx.reqProdPvt

def rspCons (s : SubmitSys Thread) : RingName → RingIdx
  | .blk d => (s.blk d).ring.rspCons
  | .net d => (s.net d).tx.rspCons

def ringSize : RingName → Nat
  | .blk _ => blkRingSize
  | .net _ => netTxRingSize

/-- The ids that the backend was shown, in the order of the ring. -/
def published (s : SubmitSys Thread) : RingName → List Nat
  | .blk d => (s.blk d).ring.published.map BlkifRequest.id
  | .net d => (s.net d).tx.published.map NetifTxRequest.id

/-- The ids of the submissions that have returned. -/
def done (s : SubmitSys Thread) : RingName → List Nat
  | .blk d => s.blkDone d
  | .net d => s.netDone d

/-- No two submissions that are under way have the same slot, and none has the slot of a request
that is published and not answered. What is published are the requests of the submissions that
have returned, each once and with its id, and the producer has moved by one for each, modulo
`2 ^ 32`. -/
structure SlotsOwned (s : SubmitSys Thread) : Prop where
  apart : ∀ t u slot, (s.place t).slot = some slot → (s.place u).slot = some slot → t = u
  fresh : ∀ t r i, (s.place t).slot = some (r, i) →
    (s.reqProdPvt r - s.rspCons r).toNat ≤ (i - s.rspCons r).toNat ∧
      (i - s.rspCons r).toNat < ringSize r
  published : ∀ r, s.published r = s.done r
  advances : ∀ r, s.reqProdPvt r = .ofNat 32 (s.done r).length

/-- No thread sleeps in a submission on the ring. -/
def Quiet (s : SubmitSys Thread) (r : RingName) : Prop := ∀ t, ((s.place t).slot.map Prod.fst) ≠ some r

/-- A submission starts on a ring only while no thread sleeps in one on it. -/
def StartsAlone (s : SubmitSys Thread) : SubmitEvent Thread → Prop
  | .aio _ d _ => s.Quiet (.blk d)
  | .xmit _ d _ => s.Quiet (.net d)
  | _ => True

structure SlotsInv (s : SubmitSys Thread) : Prop where
  grants : s.gnttab.Wf
  blk : ∀ d, (s.blk d).ring.Settled BlkifRequest.id (s.blkDone d)
  net : ∀ d, (s.net d).tx.Settled NetifTxRequest.id (s.netDone d)
  alone : ∀ t u r, (s.place t).slot.map Prod.fst = some r → (s.place u).slot.map Prod.fst = some r →
    t = u
  next : ∀ t r i, (s.place t).slot = some (r, i) →
    i = s.reqProdPvt r ∧ (i - s.rspCons r).toNat < ringSize r
  header : ∀ t d cb i j, s.place t = .aio d cb i j →
    ((s.blk d).ring.getRequest blkRingSize i).id = cb.aiocbp ∧ j < cb.n
  filled : ∀ d, (s.blk d).ring.inUse ≤ blkRingSize
  -- `tx_sem` keeps track of the slots of a transmit ring.
  room : ∀ d, (s.net d).tx.inUse + (s.net d).txSem ≤ netTxRingSize
  taken : ∀ t d id len i, s.place t = .xmit d id len i →
    (s.net d).tx.inUse + (s.net d).txSem + 1 ≤ netTxRingSize

theorem SlotsInv.owned (inv : s.SlotsInv) : s.SlotsOwned where
  apart := by
    intro t u slot mine theirs
    exact inv.alone t u slot.1 (by rw [mine]; rfl) (by rw [theirs]; rfl)
  fresh := by
    intro t r i is
    obtain ⟨rfl, live⟩ := inv.next t r i is
    exact ⟨le_rfl, live⟩
  published := by
    intro r
    cases r with
    | blk d => exact (inv.blk d).ids
    | net d => exact (inv.net d).ids
  advances := by
    intro r
    cases r with
    | blk d => exact (inv.blk d).advances
    | net d => exact (inv.net d).advances

theorem init_slotsInv (handle sectorSize : Nat → Nat) (refs : List GrantRef)
    (entries : ∀ ref ∈ refs, nrReservedEntries ≤ ref ∧ ref < nrGrantEntries) :
    (init (fun d => .init (handle d) (sectorSize d)) refs : SubmitSys Thread).SlotsInv where
  grants := ⟨rfl, entries⟩
  blk := fun _ => settled_init _ _
  net := fun _ => settled_init _ _
  alone := by intro t u r is; cases is
  next := by intro t r i is; cases is
  header := by intro t d cb i j is; cases is
  filled := by intro d; simp [init, BlkfrontDev.init, FrontRing.init, inUse]
  room := by intro d; simp [init, NetfrontDev.init, FrontRing.init, inUse]
  taken := by intro t d id len i is; cases is

/-! ## Changes of a device -/

/-- A device changes that no thread submits to; what was published stays, or one request more. -/
theorem SlotsInv.setBlk (inv : s.SlotsInv) (quiet : s.Quiet (.blk d)) {done : List Nat}
    (settled : dev.ring.Settled BlkifRequest.id done) (filled : dev.ring.inUse ≤ blkRingSize) :
    SlotsInv { s.setBlk d dev with blkDone := update s.blkDone d done } := by
  have other : ∀ t d' i, (s.place t).slot = some (.blk d', i) → d' ≠ d := by
    intro t d' i is same
    exact quiet t (by rw [is, same]; rfl)
  exact { inv with
    blk := by
      intro d'
      by_cases same : d' = d
      · simp only [SubmitSys.setBlk, same, update_self]
        exact settled
      · simp only [SubmitSys.setBlk, update_of_ne same]
        exact inv.blk d'
    next := by
      intro t r i is
      cases r with
      | blk d' =>
        have far := other t d' i is
        simpa [reqProdPvt, rspCons, SubmitSys.setBlk, far] using inv.next t (.blk d') i is
      | net d' => exact inv.next t (.net d') i is
    header := by
      intro t d' cb i j is
      have far := other t d' i (by rw [show s.place t = _ from is]; rfl)
      simpa [SubmitSys.setBlk, far] using inv.header t d' cb i j is
    filled := (forall_update_iff s.blk fun _ (dev : BlkfrontDev) => dev.ring.inUse ≤ blkRingSize).mpr
      ⟨filled, fun d' _ => inv.filled d'⟩ }

theorem SlotsInv.setNet (inv : s.SlotsInv) (quiet : s.Quiet (.net d)) {dev : NetfrontDev}
    {done : List Nat} (settled : dev.tx.Settled NetifTxRequest.id done)
    (room : dev.tx.inUse + dev.txSem ≤ netTxRingSize) :
    SlotsInv { s.setNet d dev with netDone := update s.netDone d done } := by
  have other : ∀ t d' i, (s.place t).slot = some (.net d', i) → d' ≠ d := by
    intro t d' i is same
    exact quiet t (by rw [is, same]; rfl)
  exact { inv with
    net := by
      intro d'
      by_cases same : d' = d
      · simp only [SubmitSys.setNet, same, update_self]
        exact settled
      · simp only [SubmitSys.setNet, update_of_ne same]
        exact inv.net d'
    next := by
      intro t r i is
      cases r with
      | blk d' => exact inv.next t (.blk d') i is
      | net d' =>
        have far := other t d' i is
        simpa [reqProdPvt, rspCons, SubmitSys.setNet, far] using inv.next t (.net d') i is
    room := (forall_update_iff s.net fun _ (dev : NetfrontDev) =>
      dev.tx.inUse + dev.txSem ≤ netTxRingSize).mpr ⟨room, fun d' _ => inv.room d'⟩
    taken := by
      intro t d' id len i is
      have far := other t d' i (by rw [show s.place t = _ from is]; rfl)
      simpa [SubmitSys.setNet, far] using inv.taken t d' id len i is }

theorem SlotsInv.setBlk_same (inv : s.SlotsInv) (quiet : s.Quiet (.blk d))
    (settled : dev.ring.Settled BlkifRequest.id (s.blkDone d)) (filled : dev.ring.inUse ≤ blkRingSize) :
    (s.setBlk d dev).SlotsInv := by
  have after := inv.setBlk quiet settled filled
  rwa [update_eq_self] at after

theorem SlotsInv.setNet_same (inv : s.SlotsInv) (quiet : s.Quiet (.net d)) {dev : NetfrontDev}
    (settled : dev.tx.Settled NetifTxRequest.id (s.netDone d))
    (room : dev.tx.inUse + dev.txSem ≤ netTxRingSize) :
    (s.setNet d dev).SlotsInv := by
  have after := inv.setNet quiet settled room
  rwa [update_eq_self] at after

/-! ## Threads that come and go -/

variable [DecidableEq Thread]

@[simp] theorem place_goto_self (t : Thread) (place : SubmitPlace) : (s.goto t place).place t = place := by
  simp [goto]

theorem place_goto_ne {u : Thread} (other : u ≠ t) (place : SubmitPlace) :
    (s.goto t place).place u = s.place u := by
  simp [goto, other]

theorem goto_goto (t : Thread) (first second : SubmitPlace) :
    (s.goto t first).goto t second = s.goto t second := by
  simp [goto]

theorem goto_outside (is : s.place t = .outside) : s.goto t .outside = s := by
  rw [goto, ← is, update_eq_self]

theorem SlotsInv.leave (inv : s.SlotsInv) (t : Thread) : (s.goto t .outside).SlotsInv := by
  have stays : ∀ u, (s.goto t .outside).place u ≠ .outside →
      (s.goto t .outside).place u = s.place u := by
    intro u busy
    by_cases same : u = t
    · rw [same, place_goto_self] at busy
      exact absurd rfl busy
    · exact place_goto_ne same _
  have slots : ∀ u slot, ((s.goto t .outside).place u).slot = some slot →
      (s.place u).slot = some slot := by
    intro u slot is
    rw [stays u (by intro out; rw [out] at is; cases is)] at is
    exact is
  exact { inv with
    alone := by
      intro u v r mine theirs
      obtain ⟨a, isA, rfl⟩ := Option.map_eq_some_iff.mp mine
      obtain ⟨b, isB, same⟩ := Option.map_eq_some_iff.mp theirs
      exact inv.alone u v a.1 (by rw [slots u a isA]; rfl) (by rw [slots v b isB, ← same]; rfl)
    next := fun u r i is => inv.next u r i (slots u _ is)
    header := by
      intro u d cb i j is
      rw [stays u (by rw [is]; simp)] at is
      exact inv.header u d cb i j is
    taken := by
      intro u d id len i is
      rw [stays u (by rw [is]; simp)] at is
      exact inv.taken u d id len i is }

theorem SlotsInv.enter (inv : s.SlotsInv) (t : Thread) (quiet : s.Quiet r)
    (slot : place.slot = some (r, s.reqProdPvt r))
    (live : (s.reqProdPvt r - s.rspCons r).toNat < ringSize r) (header : ∀ d cb i j, place = .aio d cb i j →
      ((s.blk d).ring.getRequest blkRingSize i).id = cb.aiocbp ∧ j < cb.n)
    (taken : ∀ d id len i, place = .xmit d id len i →
      (s.net d).tx.inUse + (s.net d).txSem + 1 ≤ netTxRingSize) :
    (s.goto t place).SlotsInv :=
  { inv with
    alone := by
      intro u v r' mine theirs
      by_cases isU : u = t
      · by_cases isV : v = t
        · rw [isU, isV]
        · rw [isU, place_goto_self, slot] at mine
          rw [place_goto_ne isV] at theirs
          cases mine
          exact absurd theirs (quiet v)
      · rw [place_goto_ne isU] at mine
        by_cases isV : v = t
        · rw [isV, place_goto_self, slot] at theirs
          cases theirs
          exact absurd mine (quiet u)
        · rw [place_goto_ne isV] at theirs
          exact inv.alone u v r' mine theirs
    next := by
      intro u r' i is
      by_cases same : u = t
      · rw [same, place_goto_self, slot] at is
        cases is
        exact ⟨rfl, live⟩
      · rw [place_goto_ne same] at is
        exact inv.next u r' i is
    header := by
      intro u d cb i j is
      by_cases same : u = t
      · rw [same, place_goto_self] at is
        exact header d cb i j is
      · rw [place_goto_ne same] at is
        exact inv.header u d cb i j is
    taken := by
      intro u d id len i is
      by_cases same : u = t
      · rw [same, place_goto_self] at is
        exact taken d id len i is
      · rw [place_goto_ne same] at is
        exact inv.taken u d id len i is }

theorem quiet_of_leave (inv : s.SlotsInv) (mine : (s.place t).slot.map Prod.fst = some r) :
    (s.goto t .outside).Quiet r := by
  intro u is
  by_cases same : u = t
  · rw [same, place_goto_self] at is
    cases is
  · rw [place_goto_ne same] at is
    exact same (inv.alone u t r is mine)

/-! ## Submissions -/

/-- A thread has taken a slot for its request, and is the only one on the ring. -/
structure Submitting (s : SubmitSys Thread) (t : Thread) (d : Nat) (cb : Aiocb) (i : RingIdx) : Prop where
  rest : (s.goto t .outside).SlotsInv
  quiet : (s.goto t .outside).Quiet (.blk d)
  slot : i = (s.blk d).ring.reqProdPvt
  live : (i - (s.blk d).ring.rspCons).toNat < blkRingSize
  own : ((s.blk d).ring.getRequest blkRingSize i).id = cb.aiocbp

theorem Submitting.aioLoop :
    ∀ (left j : Nat) (s : SubmitSys Thread), s.Submitting t d cb i → j + left = cb.n →
      ∃ next, SubmitSys.aioLoop t d cb i left j s = .ok next ∧ next.SlotsInv := by
  intro left
  induction left with
  | zero =>
    intro j s sub _
    refine ⟨_, rfl, sub.rest.setBlk sub.quiet ?_ ?_⟩
    · have own := sub.own
      rw [sub.slot] at own ⊢
      exact (sub.rest.blk d).publish own
    · exact (ahead_succ sub.live (by decide)).trans_le sub.live
  | succ left ih =>
    intro j s sub total
    rcases sub.rest.grants.getFreeEntry with ⟨-, none⟩ | ⟨ref, gnttab, found, wf⟩
    · have sleeps : SubmitSys.aioLoop t d cb i (left + 1) j s = .ok (s.goto t (.aio d cb i j)) := by
        rw [SubmitSys.aioLoop, show s.gnttab.getFreeEntry = _ from none, ok_bind]
      refine ⟨_, sleeps, ?_⟩
      rw [← goto_goto t .outside]
      apply sub.rest.enter t sub.quiet (by rw [sub.slot]; rfl)
      · have live := sub.live
        rw [sub.slot] at live
        exact live
      · intro d' cb' i' j' is
        cases is
        exact ⟨sub.own, by omega⟩
      · intro d' id len i' is
        cases is
    · have goes : SubmitSys.aioLoop t d cb i (left + 1) j s =
          SubmitSys.aioLoop t d cb i left (j + 1) ({ s with gnttab := gnttab }.setBlk d
            ((s.blk d).aioGrant i j ref)) := by
        rw [SubmitSys.aioLoop, show s.gnttab.getFreeEntry = _ from found, ok_bind]
      rw [goes]
      refine ih (j + 1) _ ?_ (by omega)
      have granted : SlotsInv { s.goto t .outside with gnttab := gnttab } :=
        { sub.rest with grants := wf }
      exact
        { rest := granted.setBlk_same sub.quiet ((sub.rest.blk d).congr rfl rfl rfl)
            (sub.rest.filled d)
          quiet := sub.quiet
          slot := by simpa [SubmitSys.setBlk, aioGrant] using sub.slot
          live := by simpa [SubmitSys.setBlk, aioGrant] using sub.live
          own := by simpa [SubmitSys.setBlk, aioGrant] using sub.own }

theorem SlotsInv.aioFill (inv : s.SlotsInv) (out : s.place t = .outside)
    (notFull : ¬ (s.blk d).ring.Full (.ofNat 32 blkRingSize)) (quiet : s.Quiet (.blk d)) :
    ∃ next, s.aioFill t d cb = .ok next ∧ next.SlotsInv := by
  have here : (s.setBlk d ((s.blk d).aioBegin cb)).goto t .outside =
      s.setBlk d ((s.blk d).aioBegin cb) := goto_outside out
  apply Submitting.aioLoop cb.n 0 _ _ (zero_add _)
  exact
    { rest := by
        rw [here]
        exact inv.setBlk_same quiet ((inv.blk d).congr rfl rfl rfl) (inv.filled d)
      quiet := by
        rw [here]
        exact quiet
      slot := by simp [SubmitSys.setBlk, BlkfrontDev.aioBegin]
      live := by
        simp only [SubmitSys.setBlk, BlkfrontDev.aioBegin, update_self, rspCons_setRequest]
        exact not_full (inv.filled d) notFull
      own := by simp [SubmitSys.setBlk, BlkfrontDev.aioBegin, BlkfrontDev.header] }

theorem SlotsInv.aio (inv : s.SlotsInv) (allowed : s.Admits (.aio t d cb))
    (quiet : s.Quiet (.blk d)) : ∃ next, s.step (.aio t d cb) = .ok next ∧ next.SlotsInv := by
  obtain ⟨out, fits, notFull⟩ := allowed
  rw [SubmitSys.step, blkfrontAio, fits, ok_bind]
  exact inv.aioFill out notFull quiet

theorem SlotsInv.xmitGrant (inv : (s.goto t .outside).SlotsInv)
    (quiet : (s.goto t .outside).Quiet (.net d)) (slot : i = (s.net d).tx.reqProdPvt)
    (taken : (s.net d).tx.inUse + (s.net d).txSem + 1 ≤ netTxRingSize) :
    ∃ next, s.xmitGrant t d id len i = .ok next ∧ next.SlotsInv := by
  rcases inv.grants.getFreeEntry with ⟨-, none⟩ | ⟨ref, gnttab, found, wf⟩
  · have sleeps : s.xmitGrant t d id len i = .ok (s.goto t (.xmit d id len i)) := by
      rw [SubmitSys.xmitGrant, show s.gnttab.getFreeEntry = _ from none, ok_bind]
    refine ⟨_, sleeps, ?_⟩
    rw [← goto_goto t .outside]
    apply inv.enter t quiet (by rw [slot]; rfl)
    · exact (Nat.lt_succ_of_le (Nat.le_add_right _ _)).trans_le taken
    · intro d' cb i' j is
      cases is
    · intro d' id' len' i' is
      cases is
      exact taken
  · have ends : s.xmitGrant t d id len i = .ok (goto { SubmitSys.setNet { s with gnttab := gnttab } d
        ((s.net d).xmitEnd i id len ref) with
          netDone := update s.netDone d (s.netDone d ++ [id]) } t .outside) := by
      rw [SubmitSys.xmitGrant, show s.gnttab.getFreeEntry = _ from found, ok_bind]
      rfl
    refine ⟨_, ends, ?_⟩
    have granted : SlotsInv { s.goto t .outside with gnttab := gnttab } := { inv with grants := wf }
    apply granted.setNet quiet
    · let req : NetifTxRequest := { gref := ref, offset := 0, flags := 0, id := id, size := len }
      let ring := (s.net d).tx.setRequest netTxRingSize i req
      have written : ring.Settled NetifTxRequest.id (s.netDone d) := (inv.net d).congr rfl rfl rfl
      have published : (ring.publish netTxRingSize ring.reqProdPvt).Settled NetifTxRequest.id
          (s.netDone d ++ [id]) := written.publish (by simp [ring, ← slot, req])
      rw [slot]
      simpa [xmitEnd, slot, ring, req] using published
    · have live : (i - (s.net d).tx.rspCons).toNat < netTxRingSize := by
        rw [slot]
        exact (Nat.lt_succ_of_le (Nat.le_add_right _ _)).trans_le taken
      have one := ahead_succ live (by decide)
      rw [slot] at one
      simp only [inUse, xmitEnd, FrontRing.publish, pushRequests, slot, rspCons_setRequest] at taken ⊢
      omega

theorem SlotsInv.xmit (inv : s.SlotsInv) (allowed : s.Admits (.xmit t d len))
    (quiet : s.Quiet (.net d)) : ∃ next, s.step (.xmit t d len) = .ok next ∧ next.SlotsInv := by
  obtain ⟨out, fits, free⟩ := allowed
  let dev := (s.net d).getIdFromFreelist.2
  have begins : s.step (.xmit t d len) = (s.setNet d dev).xmitGrant t d
      (s.net d).getIdFromFreelist.1 len dev.tx.reqProdPvt := by
    simp only [SubmitSys.step, netfrontXmit, miniosAssert, fits, decide_true, if_true, ok_bind]
    rfl
  rw [begins]
  have here : (s.setNet d dev).goto t .outside = s.setNet d dev := goto_outside out
  have room := inv.room d
  refine SlotsInv.xmitGrant ?_ (by rw [here]; exact quiet) (by simp [SubmitSys.setNet]) ?_
  · rw [here]
    refine inv.setNet_same quiet ((inv.net d).congr rfl rfl rfl) ?_
    simp only [dev, getIdFromFreelist]
    omega
  · simp only [SubmitSys.setNet, update_self, dev, getIdFromFreelist]
    omega

/-! ## Steps -/

omit [DecidableEq Thread] in
theorem SlotsInv.aioPoll (inv : s.SlotsInv) (allowed : s.Admits (.aioPoll d)) :
    (s.setBlk d { s.blk d with
      ring := { (s.blk d).ring with rspCons := (s.blk d).ring.rspCons + 1 } }).SlotsInv := by
  have moved := (inv.blk d).consume allowed
  exact { inv with
    blk := (forall_update_iff s.blk fun d' (dev : BlkfrontDev) =>
      dev.ring.Settled BlkifRequest.id (s.blkDone d')).mpr
        ⟨(inv.blk d).congr rfl rfl rfl, fun d' _ => inv.blk d'⟩
    next := by
      intro t r i is
      obtain ⟨last, live⟩ := inv.next t r i is
      cases r with
      | net d' => exact ⟨last, live⟩
      | blk d' =>
        by_cases same : d' = d
        · subst same
          simp only [reqProdPvt, rspCons, SubmitSys.setBlk, update_self] at last live ⊢
          simp only [inUse, ← last] at moved
          exact ⟨last, by omega⟩
        · simpa [reqProdPvt, rspCons, SubmitSys.setBlk, same] using And.intro last live
    header := by
      intro t d' cb i j is
      have own := inv.header t d' cb i j is
      by_cases same : d' = d
      · subst same
        simpa [SubmitSys.setBlk, getRequest] using own
      · simpa [SubmitSys.setBlk, same] using own
    filled := (forall_update_iff s.blk fun _ (dev : BlkfrontDev) => dev.ring.inUse ≤ blkRingSize).mpr
      ⟨(Nat.le_of_succ_le moved.le).trans (inv.filled d), fun d' _ => inv.filled d'⟩ }

omit [DecidableEq Thread] in
theorem SlotsInv.txBufGc (inv : s.SlotsInv) (id : Nat) (allowed : s.Admits (.txBufGc d id)) :
    (s.setNet d ((s.net d).txBufGc id)).SlotsInv := by
  have moved := (inv.net d).consume allowed
  -- The id goes back when the slot does.
  have same : ((s.net d).txBufGc id).tx.inUse + ((s.net d).txBufGc id).txSem =
      (s.net d).tx.inUse + (s.net d).txSem := by
    simp only [NetfrontDev.txBufGc]
    omega
  exact { inv with
    net := (forall_update_iff s.net fun d' (dev : NetfrontDev) =>
      dev.tx.Settled NetifTxRequest.id (s.netDone d')).mpr
        ⟨(inv.net d).congr rfl rfl rfl, fun d' _ => inv.net d'⟩
    next := by
      intro t r i is
      obtain ⟨last, live⟩ := inv.next t r i is
      cases r with
      | blk d' => exact ⟨last, live⟩
      | net d' =>
        by_cases here : d' = d
        · subst here
          simp only [reqProdPvt, rspCons, SubmitSys.setNet, update_self,
            NetfrontDev.txBufGc] at last live ⊢
          simp only [inUse, ← last] at moved
          exact ⟨last, by omega⟩
        · simpa [reqProdPvt, rspCons, SubmitSys.setNet, here] using And.intro last live
    room := (forall_update_iff s.net fun _ (dev : NetfrontDev) =>
      dev.tx.inUse + dev.txSem ≤ netTxRingSize).mpr
        ⟨by rw [same]; exact inv.room d, fun d' _ => inv.room d'⟩
    taken := by
      intro t d' id' len i is
      have slot := inv.taken t d' id' len i is
      by_cases here : d' = d
      · subst here
        simp only [SubmitSys.setNet, update_self]
        omega
      · simpa [SubmitSys.setNet, here] using slot }

theorem SlotsInv.wake (inv : s.SlotsInv) (t : Thread) :
    ∃ next, s.step (.wake t) = .ok next ∧ next.SlotsInv := by
  cases is : s.place t with
  | outside => exact ⟨s, by simp only [SubmitSys.step, is], inv⟩
  | aio d cb i j =>
    have taken : (s.place t).slot = some (.blk d, i) := by rw [is]; rfl
    obtain ⟨last, live⟩ := inv.next t (.blk d) i taken
    obtain ⟨own, within⟩ := inv.header t d cb i j is
    simp only [SubmitSys.step, is]
    apply Submitting.aioLoop
    · exact ⟨inv.leave t, quiet_of_leave inv (by rw [taken]; rfl), last, live, own⟩
    · omega
  | xmit d id len i =>
    have taken : (s.place t).slot = some (.net d, i) := by rw [is]; rfl
    obtain ⟨last, -⟩ := inv.next t (.net d) i taken
    simp only [SubmitSys.step, is]
    exact SlotsInv.xmitGrant (inv.leave t) (quiet_of_leave inv (by rw [taken]; rfl)) last
      (inv.taken t d id len i is)

theorem SlotsInv.step (inv : s.SlotsInv) (allowed : s.Admits event) (alone : s.StartsAlone event) :
    ∃ next, s.step event = .ok next ∧ next.SlotsInv := by
  cases event with
  | aio t d cb => exact inv.aio allowed alone
  | xmit t d len => exact inv.xmit allowed alone
  | wake t => exact inv.wake t
  | aioPoll d => exact ⟨_, rfl, inv.aioPoll allowed⟩
  | txBufGc d id => exact ⟨_, rfl, inv.txBufGc id allowed⟩
  | access =>
    rcases inv.grants.getFreeEntry with ⟨-, none⟩ | ⟨ref, gnttab, found, wf⟩
    · exact ⟨s, by simp only [SubmitSys.step, none, ok_bind], inv⟩
    · have steps : s.step .access = .ok { s with gnttab := gnttab } := by
        simp only [SubmitSys.step, found, ok_bind]
      exact ⟨_, steps, { inv with grants := wf }⟩
  | endAccess ref => exact ⟨_, rfl, { inv with grants := inv.grants.putFreeEntry allowed }⟩

/-! ## A second submission on a ring -/

theorem aioLoop_ends :
    ∀ (left j : Nat) (s : SubmitSys Thread), aioLoop t d cb i left j s = .ok next →
      ((∃ j', next.place = update s.place t (.aio d cb i j')) ∧ next.blkDone = s.blkDone ∨
        next.place = update s.place t .outside ∧
          next.blkDone = update s.blkDone d (s.blkDone d ++ [cb.aiocbp])) ∧
      ∀ d', (next.blk d').ring.rspCons = (s.blk d').ring.rspCons := by
  intro left
  induction left with
  | zero =>
    intro j s ran
    cases ran
    refine ⟨.inr ⟨rfl, rfl⟩, ?_⟩
    intro d'
    by_cases same : d' = d
    · subst same
      simp [goto, setBlk, aioEnd, FrontRing.publish, pushRequests]
    · simp [goto, setBlk, same]
  | succ left ih =>
    intro j s ran
    rw [aioLoop] at ran
    obtain ⟨entry, found, ran⟩ := bind_eq_ok ran
    cases entry with
    | none =>
      cases ran
      exact ⟨.inl ⟨⟨j, rfl⟩, rfl⟩, fun _ => rfl⟩
    | some entry =>
      obtain ⟨ends, same⟩ := ih (j + 1) ({ s with gnttab := entry.2 }.setBlk d
        ((s.blk d).aioGrant i j entry.1)) ran
      refine ⟨ends, ?_⟩
      intro d'
      rw [same d']
      by_cases here : d' = d
      · subst here
        simp [setBlk, aioGrant]
      · simp [setBlk, here]

theorem xmitGrant_ends (ran : s.xmitGrant t d id len i = .ok next) :
    next.place = update s.place t (.xmit d id len i) ∨
      next.place = update s.place t .outside ∧ next.netDone d = s.netDone d ++ [id] ∧
        (next.net d).tx.rspCons = (s.net d).tx.rspCons := by
  rw [xmitGrant] at ran
  obtain ⟨entry, found, ran⟩ := bind_eq_ok ran
  cases entry with
  | none =>
    cases ran
    exact .inl rfl
  | some entry =>
    cases ran
    simp [goto, setNet, xmitEnd, FrontRing.publish, pushRequests]

theorem SlotsInv.not_owned_of_second (inv : s.SlotsInv) (out : s.place t = .outside)
    (busy : ¬ s.Quiet r) (placed : next.place = update s.place t place)
    (ends : place.slot = some (r, s.reqProdPvt r) ∨
      (next.done r).length = (s.done r).length + 1 ∧ next.rspCons r = s.rspCons r) :
    ¬ next.SlotsOwned := by
  intro owned
  obtain ⟨u, sleeps⟩ := not_forall_not.mp busy
  obtain ⟨⟨r', i⟩, taken, rfl⟩ := Option.map_eq_some_iff.mp sleeps
  obtain ⟨rfl, live⟩ := inv.next u r' i taken
  have other : u ≠ t := by
    rintro rfl
    rw [out] at taken
    cases taken
  have stays : (next.place u).slot = some (r', s.reqProdPvt r') := by
    rw [placed, update_of_ne other]
    exact taken
  rcases ends with same | ⟨more, cons⟩
  · exact other (owned.apart u t _ stays (by rw [placed, update_self]; exact same))
  · -- the producer is one further than the slot that `u` still has
    have fresh := (owned.fresh u r' _ stays).1
    have moved : next.reqProdPvt r' = s.reqProdPvt r' + 1 := by
      rw [owned.advances, inv.owned.advances]
      exact (congrArg _ more).trans (BitVec.ofNat_add ..)
    have small : ringSize r' ≤ 2 ^ 31 := by
      cases r' with
      | blk => exact (by decide : blkRingSize ≤ 2 ^ 31)
      | net => exact (by decide : netTxRingSize ≤ 2 ^ 31)
    dsimp only at cons
    rw [moved, cons, ahead_succ live small] at fresh
    exact absurd fresh (Nat.not_succ_le_self _)

theorem SlotsInv.loses (inv : s.SlotsInv) (allowed : s.Admits event)
    (second : ¬ s.StartsAlone event) (stepped : s.step event = .ok next) : ¬ next.SlotsOwned := by
  cases event with
  | aio t d cb =>
    rw [SubmitSys.step, blkfrontAio, allowed.2.1, ok_bind] at stepped
    obtain ⟨ends, cons⟩ := aioLoop_ends _ _ _ stepped
    rcases ends with ⟨⟨j, placed⟩, -⟩ | ⟨placed, done⟩
    · exact inv.not_owned_of_second allowed.1 second placed (.inl rfl)
    · refine inv.not_owned_of_second allowed.1 second placed (.inr ⟨?_, ?_⟩)
      · simp [SubmitSys.done, done, SubmitSys.setBlk]
      · exact (cons d).trans (by simp [rspCons, SubmitSys.setBlk, BlkfrontDev.aioBegin])
  | xmit t d len =>
    simp only [SubmitSys.step, netfrontXmit, miniosAssert, allowed.2.1, decide_true, if_true,
      ok_bind] at stepped
    rcases xmitGrant_ends stepped with placed | ⟨placed, done, cons⟩
    · exact inv.not_owned_of_second allowed.1 second placed (.inl rfl)
    · refine inv.not_owned_of_second allowed.1 second placed (.inr ⟨?_, ?_⟩)
      · simp [SubmitSys.done, done, SubmitSys.setNet]
      · exact cons.trans (by simp [rspCons, SubmitSys.setNet, getIdFromFreelist])
  | wake | aioPoll | txBufGc | access | endAccess => exact absurd trivial second

/-- From rings on which nothing was sent and any free grants: every submission has a slot of its
own, and is published once under its own id, exactly if none starts on a ring while a thread sleeps
in a submission there. -/
theorem slots_owned (handle sectorSize : Nat → Nat) (refs : List GrantRef)
    (entries : ∀ ref ∈ refs, nrReservedEntries ≤ ref ∧ ref < nrGrantEntries)
    (events : List (SubmitEvent Thread)) (allowed : Admissible Admits SubmitSys.step events
      (init (fun d => .init (handle d) (sectorSize d)) refs)) :
    Throughout SlotsOwned SubmitSys.step events
        (init (fun d => .init (handle d) (sectorSize d)) refs : SubmitSys Thread) ↔
      Admissible (fun s event => s.Admits event ∧ s.StartsAlone event) SubmitSys.step events
        (init (fun d => .init (handle d) (sectorSize d)) refs) :=
  throughout_iff SlotsInv (fun _ inv => inv.owned)
    (fun _ _ inv allowed alone => inv.step allowed alone)
    (fun _ _ _ inv allowed second stepped => inv.loses allowed second stepped) events _
    (init_slotsInv handle sectorSize refs entries) allowed

instance decidableQuiet [Fintype Thread] (s : SubmitSys Thread) (r : RingName) :
    Decidable (s.Quiet r) :=
  inferInstanceAs (Decidable (∀ _, _ ≠ _))

instance decidableStartsAlone [Fintype Thread] (s : SubmitSys Thread) :
    ∀ event, Decidable (s.StartsAlone event) := by
  intro event
  induction event using SubmitEvent.casesOn <;> dsimp only [StartsAlone] <;> infer_instance

end SubmitSys

def twoPages (aiocbp : Nat) : Aiocb :=
  { aiocbp := aiocbp, aioBuf := 4096, aioNbytes := 8192, aioOffset := 0, write := true }

theorem SubmitSys.slots_owned_apart :
    Throughout SlotsOwned SubmitSys.step
      [.aio 0 0 (twoPages 100), .xmit 1 0 60, .endAccess 9, .aio 2 1 (twoPages 200), .endAccess 10,
        .wake 0] (init (fun d => .init (768 + d) 512) [8] : SubmitSys (Fin 3)) :=
  (SubmitSys.slots_owned (fun d => 768 + d) (fun _ => 512) [8]
    (by decide) _ (by decide +kernel)).mpr (by decide +kernel)

/-- One grant is left. A request of two pages sleeps for the second one, a second request takes the
same slot; both return, the backend sees the second one only, and the producer has moved by one. -/
theorem SubmitSys.slot_taken_twice : let events : List (SubmitEvent (Fin 2)) :=
      [.aio 0 0 (twoPages 100), .aio 1 0 (twoPages 200), .endAccess 9, .wake 0, .endAccess 10,
        .endAccess 11, .wake 1]
    let start : SubmitSys (Fin 2) := init (fun d => .init (768 + d) 512) [8]
    Admissible Admits SubmitSys.step events start ∧
      ∃ final ∈ (run SubmitSys.step events start).toOption, final.done (.blk 0) = [100, 200] ∧
        final.published (.blk 0) = [200] ∧ final.reqProdPvt (.blk 0) = 1 := by
  decide +kernel

end Rumprun.Xen
