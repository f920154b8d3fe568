import Rumprun.Core.Platform
import Rumprun.Lib.StepRuns

/-! # Request rings on Xen: `blkfront_aio`, `netfront_xmit` and `gnttab_grant_access`

A driver puts a request into the next slot of a ring that it shares with the backend, grants
the backend access to its pages, and publishes the slot by moving the producer index.

A thread runs until it sleeps. Between the moment a submission reads `req_prod_pvt` and the
moment it stores it again, the only place to sleep is `down(&gnttab_sem)`, when no grant is
free. -/

namespace Rumprun.Xen
open Core Function

def miniosAssert (condition : Bool) (text : String) : Except Stop Unit :=
  if condition then .ok () else .error (.halt ("ASSERTION FAILED: " ++ text))

/-! ## The ring -/

/-- The indices of a ring run freely over 32 bits. -/
abbrev RingIdx := BitVec 32

/-- The private and the shared half of a front ring, with a list of what was published. -/
structure FrontRing (ρ : Type) where
  reqProdPvt : RingIdx
  rspCons : RingIdx
  reqProd : RingIdx
  slots : Nat → ρ
  published : List ρ

namespace FrontRing
variable {ρ : Type}

def init (blank : ρ) : FrontRing ρ :=
  { reqProdPvt := 0, rspCons := 0, reqProd := 0, slots := fun _ => blank, published := [] }

def Full (size : RingIdx) (r : FrontRing ρ) : Prop := size - (r.reqProdPvt - r.rspCons) = 0

instance (size : RingIdx) (r : FrontRing ρ) : Decidable (r.Full size) := inferInstanceAs (Decidable (_ = _))

def getRequest (size : Nat) (r : FrontRing ρ) (i : RingIdx) : ρ := r.slots (i.toNat % size)

def setRequest (size : Nat) (r : FrontRing ρ) (i : RingIdx) (req : ρ) : FrontRing ρ :=
  { r with slots := update r.slots (i.toNat % size) req }

def pushRequests (size : Nat) (r : FrontRing ρ) : FrontRing ρ :=
  { r with
    reqProd := r.reqProdPvt
    published := r.published ++ (List.range (r.reqProdPvt - r.reqProd).toNat).map fun k =>
      r.getRequest size (r.reqProd + BitVec.ofNat 32 k) }

/-- The end of a submission: `req_prod_pvt = i + 1` and the push. -/
def publish (size : Nat) (r : FrontRing ρ) (i : RingIdx) : FrontRing ρ :=
  { r with reqProdPvt := i + 1 }.pushRequests size

end FrontRing

/-! ## Grants -/

abbrev GrantRef := Nat

def nrReservedEntries : Nat := 8

/-- `NR_GRANT_ENTRIES`: four frames of 8 byte entries. -/
def nrGrantEntries : Nat := 2048

/-- The free entries in the order of the chain that starts at `gnttab_list[0]`. -/
structure Gnttab where
  gnttabList : List GrantRef
  gnttabSem : Nat

namespace Gnttab

def init (refs : List GrantRef) : Gnttab := { gnttabList := refs, gnttabSem := refs.length }

def putFreeEntry (g : Gnttab) (ref : GrantRef) : Gnttab :=
  { gnttabList := ref :: g.gnttabList, gnttabSem := g.gnttabSem + 1 }

/-- `get_free_entry`; without a result the thread sleeps in `down`. -/
def getFreeEntry (g : Gnttab) : Except Stop (Option (GrantRef × Gnttab)) :=
  if g.gnttabSem = 0 then .ok none
  else do
    let ref := g.gnttabList.headD 0
    miniosAssert (decide (nrReservedEntries ≤ ref ∧ ref < nrGrantEntries))
      "!(ref < NR_RESERVED_ENTRIES || ref >= NR_GRANT_ENTRIES)"
    .ok (some (ref, { gnttabList := g.gnttabList.tail, gnttabSem := g.gnttabSem - 1 }))

end Gnttab

/-! ## Block requests -/

def blkRingSize : Nat := 32

def blkifMaxSegmentsPerRequest : Nat := 11

/-- What `blkfront_aio` reads of a `struct blkfront_aiocb`, with its address. -/
structure Aiocb where
  aiocbp : Nat
  aioBuf : Nat
  aioNbytes : Nat
  aioOffset : Nat
  write : Bool
  deriving DecidableEq, Repr

namespace Aiocb

def start (cb : Aiocb) : Nat := cb.aioBuf / pageSize * pageSize

def end_ (cb : Aiocb) : Nat := (cb.aioBuf + cb.aioNbytes + pageSize - 1) / pageSize * pageSize

def n (cb : Aiocb) : Nat := (cb.end_ - cb.start) / pageSize

/-- The sector of the last byte in its page. -/
def lastSect (cb : Aiocb) : Nat := (cb.aioBuf + cb.aioNbytes - 1) % pageSize / 512

end Aiocb

structure BlkifSegment where
  gref : GrantRef
  firstSect : Nat
  lastSect : Nat
  deriving DecidableEq, Repr

structure BlkifRequest where
  write : Bool
  nrSegments : Nat
  handle : Nat
  id : Nat
  sectorNumber : Nat
  seg : Nat → BlkifSegment

structure BlkfrontDev where
  ring : FrontRing BlkifRequest
  handle : Nat
  sectorSize : Nat

namespace BlkfrontDev

def init (handle sectorSize : Nat) : BlkfrontDev :=
  { ring := .init ⟨false, 0, 0, 0, 0, fun _ => ⟨0, 0, 0⟩⟩
    handle := handle
    sectorSize := sectorSize }

def asserts (dev : BlkfrontDev) (cb : Aiocb) : Except Stop Unit := do
  miniosAssert (decide (cb.aioOffset &&& (dev.sectorSize - 1) = 0))
    "!(aiocbp->aio_offset & (dev->info.sector_size-1))"
  miniosAssert (decide (cb.aioNbytes &&& (dev.sectorSize - 1) = 0))
    "!(aiocbp->aio_nbytes & (dev->info.sector_size-1))"
  miniosAssert (decide (cb.aioBuf &&& (dev.sectorSize - 1) = 0))
    "!((uintptr_t) aiocbp->aio_buf & (dev->info.sector_size-1))"
  miniosAssert (decide (cb.n ≤ blkifMaxSegmentsPerRequest)) "n <= BLKIF_MAX_SEGMENTS_PER_REQUEST"

/-- `sector_number`. Without a page `seg[n-1].last_sect` lies before `seg[0]`: it is the byte of
this field that counts in steps of 2⁴⁰. -/
def sectorNumber (cb : Aiocb) : Nat :=
  let sector := cb.aioOffset / 512
  if cb.n = 0 then
    sector - sector / 1099511627776 % 256 * 1099511627776 + cb.lastSect * 1099511627776
  else sector

/-- The fields of a request that are written before its pages are granted. -/
def header (dev : BlkfrontDev) (cb : Aiocb) (req : BlkifRequest) : BlkifRequest :=
  { write := cb.write
    nrSegments := cb.n
    handle := dev.handle
    id := cb.aiocbp
    sectorNumber := sectorNumber cb
    seg := fun j =>
      { gref := (req.seg j).gref
        firstSect :=
          if j = 0 then cb.aioBuf % pageSize / 512
          else if j < cb.n then 0
          else (req.seg j).firstSect
        lastSect :=
          if j + 1 = cb.n then cb.lastSect
          else if j < cb.n then pageSize / 512 - 1
          else (req.seg j).lastSect } }

/-- From `i = dev->ring.req_prod_pvt` to the loop over the pages. -/
def aioBegin (dev : BlkfrontDev) (cb : Aiocb) : BlkfrontDev :=
  let i := dev.ring.reqProdPvt
  let req := dev.header cb (dev.ring.getRequest blkRingSize i)
  { dev with ring := dev.ring.setRequest blkRingSize i req }

/-- `req->seg[j].gref = ref`. -/
def aioGrant (dev : BlkfrontDev) (i : RingIdx) (j : Nat) (ref : GrantRef) : BlkfrontDev :=
  let old := dev.ring.getRequest blkRingSize i
  let req := { old with seg := update old.seg j { old.seg j with gref := ref } }
  { dev with ring := dev.ring.setRequest blkRingSize i req }

def aioEnd (dev : BlkfrontDev) (i : RingIdx) : BlkfrontDev :=
  { dev with ring := dev.ring.publish blkRingSize i }

end BlkfrontDev

/-! ## Packets -/

def netTxRingSize : Nat := 256

structure NetifTxRequest where
  gref : GrantRef
  offset : Nat
  flags : Nat
  id : Nat
  size : Nat
  deriving DecidableEq, Repr

/-- `txFreelist` holds the ids in the order of the chain in `tx_freelist`. -/
structure NetfrontDev where
  tx : FrontRing NetifTxRequest
  txFreelist : List Nat
  txSem : Nat

namespace NetfrontDev

def init : NetfrontDev :=
  { tx := .init ⟨0, 0, 0, 0, 0⟩
    txFreelist := (List.range netTxRingSize).reverse
    txSem := netTxRingSize }

/-- `get_id_from_freelist`, after `down(&dev->tx_sem)`. -/
def getIdFromFreelist (dev : NetfrontDev) : Nat × NetfrontDev :=
  (dev.txFreelist.headD 0, { dev with txFreelist := dev.txFreelist.tail, txSem := dev.txSem - 1 })

/-- From the grant of the page to the push. -/
def xmitEnd (dev : NetfrontDev) (i : RingIdx) (id len : Nat) (ref : GrantRef) : NetfrontDev :=
  let req := { gref := ref, offset := 0, flags := 0, id := id, size := len }
  { dev with tx := (dev.tx.setRequest netTxRingSize i req).publish netTxRingSize i }

/-- What `network_tx_buf_gc` does with the response to `id`, the grant apart. -/
def txBufGc (dev : NetfrontDev) (id : Nat) : NetfrontDev :=
  { dev with
    tx := { dev.tx with rspCons := dev.tx.rspCons + 1 }
    txFreelist := id :: dev.txFreelist
    txSem := dev.txSem + 1 }

end NetfrontDev

/-! ## Threads that submit -/

/-- A thread is outside, or asleep in `gnttab_grant_access`: for page `j` of a block request, or for
its packet. -/
inductive SubmitPlace where
  | outside
  | aio (dev : Nat) (cb : Aiocb) (i : RingIdx) (j : Nat)
  | xmit (dev id len : Nat) (i : RingIdx)
  deriving DecidableEq, Repr

structure SubmitSys (Thread : Type) where
  blk : Nat → BlkfrontDev
  net : Nat → NetfrontDev
  gnttab : Gnttab
  place : Thread → SubmitPlace
  blkDone : Nat → List Nat
  netDone : Nat → List Nat

namespace SubmitSys
variable {Thread : Type} [DecidableEq Thread]

def init (blk : Nat → BlkfrontDev) (refs : List GrantRef) : SubmitSys Thread :=
  { blk := blk
    net := fun _ => .init
    gnttab := .init refs
    place := fun _ => .outside
    blkDone := fun _ => []
    netDone := fun _ => [] }

def setBlk (s : SubmitSys Thread) (d : Nat) (dev : BlkfrontDev) : SubmitSys Thread :=
  { s with blk := update s.blk d dev }

def setNet (s : SubmitSys Thread) (d : Nat) (dev : NetfrontDev) : SubmitSys Thread :=
  { s with net := update s.net d dev }

def goto (s : SubmitSys Thread) (t : Thread) (place : SubmitPlace) : SubmitSys Thread :=
  { s with place := update s.place t place }

/-- `blkfront_aio` from the grant of page `j` on, with `left` pages to go. -/
def aioLoop (t : Thread) (d : Nat) (cb : Aiocb) (i : RingIdx) :
    Nat → Nat → SubmitSys Thread → Except Stop (SubmitSys Thread)
  | 0, _, s =>
    let s := s.setBlk d ((s.blk d).aioEnd i)
    .ok ({ s with blkDone := update s.blkDone d (s.blkDone d ++ [cb.aiocbp]) }.goto t
      .outside)
  | left + 1, j, s => do
    match ← s.gnttab.getFreeEntry with
    | none => .ok (s.goto t (.aio d cb i j))
    | some (ref, gnttab) =>
      aioLoop t d cb i left (j + 1) ({ s with gnttab := gnttab }.setBlk d
        ((s.blk d).aioGrant i j ref))

/-- `blkfront_aio`, after `blkfront_wait_slot`. -/
def aioFill (s : SubmitSys Thread) (t : Thread) (d : Nat) (cb : Aiocb) :
    Except Stop (SubmitSys Thread) :=
  let i := (s.blk d).ring.reqProdPvt
  aioLoop t d cb i cb.n 0 (s.setBlk d ((s.blk d).aioBegin cb))

/-- `blkfront_aio` where there is a slot. -/
def blkfrontAio (s : SubmitSys Thread) (t : Thread) (d : Nat) (cb : Aiocb) :
    Except Stop (SubmitSys Thread) := do
  (s.blk d).asserts cb
  s.aioFill t d cb

/-- `netfront_xmit` from the grant on. -/
def xmitGrant (s : SubmitSys Thread) (t : Thread) (d id len : Nat) (i : RingIdx) :
    Except Stop (SubmitSys Thread) := do
  match ← s.gnttab.getFreeEntry with
  | none => .ok (s.goto t (.xmit d id len i))
  | some (ref, gnttab) =>
    let s := { s with gnttab := gnttab }.setNet d ((s.net d).xmitEnd i id len ref)
    .ok ({ s with netDone := update s.netDone d (s.netDone d ++ [id]) }.goto t .outside)

/-- `netfront_xmit`, with a free id. -/
def netfrontXmit (s : SubmitSys Thread) (t : Thread) (d len : Nat) :
    Except Stop (SubmitSys Thread) := do
  miniosAssert (decide (len ≤ pageSize)) "!(len > PAGE_SIZE)"
  let (id, dev) := (s.net d).getIdFromFreelist
  xmitGrant (s.setNet d dev) t d id len dev.tx.reqProdPvt

end SubmitSys

inductive SubmitEvent (Thread : Type) where
  | aio (t : Thread) (d : Nat) (cb : Aiocb)
  | xmit (t : Thread) (d len : Nat)
  /-- A thread that sleeps for a grant looks again. -/
  | wake (t : Thread)
  /-- A response to a block request is consumed. -/
  | aioPoll (d : Nat)
  | txBufGc (d id : Nat)
  /-- Other code grants a page. -/
  | access
  | endAccess (ref : GrantRef)

namespace SubmitSys
variable {Thread : Type} [DecidableEq Thread]

def step (s : SubmitSys Thread) : SubmitEvent Thread → Except Stop (SubmitSys Thread)
  | .aio t d cb => s.blkfrontAio t d cb
  | .xmit t d len => s.netfrontXmit t d len
  | .wake t =>
    match s.place t with
    | .outside => .ok s
    | .aio d cb i j => aioLoop t d cb i (cb.n - j) j s
    | .xmit d id len i => s.xmitGrant t d id len i
  | .aioPoll d =>
    let dev := s.blk d
    .ok (s.setBlk d { dev with ring := { dev.ring with rspCons := dev.ring.rspCons + 1 } })
  | .txBufGc d id => .ok (s.setNet d ((s.net d).txBufGc id))
  | .access => do
    match ← s.gnttab.getFreeEntry with
    | none => .ok s
    | some (_, gnttab) => .ok { s with gnttab := gnttab }
  | .endAccess ref => .ok { s with gnttab := s.gnttab.putFreeEntry ref }

/-- What the callers and the waits before it make sure of: a request that fits, a free slot, a
free id. Grants that are given back are entries of the table. -/
def Admits (s : SubmitSys Thread) : SubmitEvent Thread → Prop
  | .aio t d cb => s.place t = .outside ∧ (s.blk d).asserts cb = .ok () ∧
      ¬ (s.blk d).ring.Full (.ofNat 32 blkRingSize)
  | .xmit t d len => s.place t = .outside ∧ len ≤ pageSize ∧ 0 < (s.net d).txSem
  | .wake t => s.place t ≠ .outside
  | .aioPoll d => (s.blk d).ring.rspCons ≠ (s.blk d).ring.reqProd
  | .txBufGc d _ => (s.net d).tx.rspCons ≠ (s.net d).tx.reqProd
  | .access => True
  | .endAccess ref => nrReservedEntries ≤ ref ∧ ref < nrGrantEntries

omit [DecidableEq Thread] in
instance decidableAdmits (s : SubmitSys Thread) : ∀ event, Decidable (s.Admits event) := by
  intro event
  unfold Admits
  split <;> infer_instance

end SubmitSys
end Rumprun.Xen
