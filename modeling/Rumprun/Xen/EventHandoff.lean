import Rumprun.Xen.EvtDev

/-! # Events from the ring to the instances

The producer of `xenevt_ring` takes its cursor modulo the size of the ring. The thread
never does that, so after the 2048th port has been stored the next pass leaves the ring.

A port that is stored after the thread has found nothing new, and before it has blocked,
stays in the ring: the callback wakes nobody. The slots of a pass are given back at its end,
so that a callback during it can find the ring full with few ports waiting.

The thread looks for the owner of a port when it takes the port out, not when the event
fired. An event reaches its owner as long as no port that waits in the ring is unbound. -/

namespace Rumprun.Xen
open Core StepRuns Function List
namespace EvtDev
variable {s : EvtDev} {d : Inst} {cons n : Nat} {port : Port} {event : EvtEvent} {next : EvtDev}

/-! ## The cursors -/

theorem next_slot {i : Nat} (below : i < evtdevRingMask) : (i + 1) &&& evtdevRingMask = i + 1 := by
  have masked := Nat.and_two_pow_sub_one_eq_mod (i + 1) 11
  have small : (i + 1) % 2 ^ 11 = i + 1 := Nat.mod_eq_of_lt (by simp [evtdevRingMask] at below; omega)
  exact masked.trans small

theorem last_slot : (evtdevRingMask + 1) &&& evtdevRingMask = 0 := by decide

/-- What the cursors are at the places of the thread, as long as the producer has not come round. -/
def AtPlace (s : EvtDev) : Prop :=
  match s.place with
  | .waiting | .tested | .asleep => s.prod = s.xenevtRingCons ∧
      s.xenevtRingCons ≤ s.xenevtRingProd ∧ s.queued.length = s.xenevtRingCons
  | .draining cons => s.xenevtRingCons ≤ cons ∧ cons ≤ s.prod ∧ s.prod ≤ s.xenevtRingProd ∧
      s.queued.length = cons
  | .taken cons port => s.xenevtRingCons ≤ cons ∧ cons < s.prod ∧ s.prod ≤ s.xenevtRingProd ∧
      s.queued.length = cons ∧ (s.stored[cons]?).map Prod.fst = some port

structure RingInv (s : EvtDev) : Prop where
  stored : s.stored.length = s.xenevtRingProd
  below : s.xenevtRingProd < evtdevRingSize
  ring : ∀ i : Fin evtdevRingSize, ∀ e, s.stored[i.val]? = some e → s.xenevtRing i = e.1
  atPlace : s.AtPlace

/-- The instance that owned a port when its event fired owns it still. -/
def Owned (s : EvtDev) : Prop := ∀ e ∈ s.waiting, ∃ d, e.2 = some d ∧ s.devevents e.1 = some d

/-- A call of `queue` as it should have been stored. -/
def fired (e : Port × Inst) : Port × Option Inst := (e.1, some e.2)

structure OwnerInv (s : EvtDev) : Prop where
  owned : s.Owned
  passed : s.stored.take s.queued.length = s.queued.map fired
  owners : ∀ port d, s.devevents port = some d → port < nrEventChannels ∧ s.data d ≠ none
  bound : ∀ port, s.bound port = true → s.unbinding = some port ∨ s.devevents port ≠ none
  free : ∀ port, s.bound port = false → s.devevents port = none
  unbound : ∀ port, s.unbinding = some port → s.devevents port = none
  data : ∀ d data, s.data d = some data → data.ringProd < evtdevRingSize

structure HandoffInv (s : EvtDev) : Prop extends RingInv s, OwnerInv s

/-- The thread does not go to sleep over a port. -/
def Attentive (s : EvtDev) : Prop :=
  s.place = .tested ∨ s.place = .asleep → s.xenevtRingProd = s.prod

theorem AtPlace.wakeUp (place : s.AtPlace) : AtPlace { s with place := s.place.wakeUp } := by
  cases at_ : s.place <;> simp only [AtPlace, at_, DrainPlace.wakeUp] at place ⊢ <;> exact place

theorem RingInv.queued_le (inv : s.RingInv) : s.queued.length ≤ s.stored.length := by
  have place := inv.atPlace
  have stored := inv.stored
  cases at_ : s.place <;> simp only [AtPlace, at_] at place <;> omega

theorem init_inv : init.HandoffInv where
  stored := rfl
  below := by decide
  ring := by intro i e is; simp [init] at is
  atPlace := by simp [AtPlace, init]
  owned := by intro e mem; simp [waiting, init] at mem
  passed := rfl
  owners := by intro port d is; simp [init] at is
  bound := by intro port is; simp [init] at is
  free := by intro port is; rfl
  unbound := by intro port is; rfl
  data := by intro d data is; simp [init] at is

/-! ## One event -/

theorem waiting_append (inv : s.RingInv) (e : Port × Option Inst) :
    (s.stored ++ [e]).drop s.queued.length = s.waiting ++ [e] := by
  rw [drop_append_of_le_length inv.queued_le]
  rfl

theorem full_iff (inv : s.RingInv) :
    s.Full ↔ s.xenevtRingProd = evtdevRingMask ∧ s.xenevtRingCons = 0 := by
  have below := inv.below
  have before : s.xenevtRingCons ≤ s.xenevtRingProd := by
    have place := inv.atPlace
    cases at_ : s.place <;> simp only [AtPlace, at_] at place <;> omega
  by_cases last : s.xenevtRingProd = evtdevRingMask
  · simp [Full, last, last_slot]
  · have short : s.xenevtRingProd < evtdevRingMask := by
      simp only [evtdevRingSize, evtdevRingMask] at *
      omega
    simp only [Full, next_slot short, last, false_and, iff_false]
    omega

theorem RingInv.store (inv : s.RingInv) (short : s.xenevtRingProd < evtdevRingMask)
    (e : Port × Option Inst) :
    RingInv { s with
      xenevtRing := update s.xenevtRing ⟨s.xenevtRingProd, inv.below⟩ e.1
      xenevtRingProd := s.xenevtRingProd + 1
      stored := s.stored ++ [e]
      place := s.place.wakeUp } where
  stored := by simp [inv.stored]
  below := by
    simp only [evtdevRingSize, evtdevRingMask] at *
    omega
  ring := by
    intro i f is
    by_cases new : i.val = s.stored.length
    · have slot : i = ⟨s.xenevtRingProd, inv.below⟩ := Fin.ext (new.trans inv.stored)
      rw [new] at is
      simp only [getElem?_concat_length, Option.some.injEq] at is
      simp [slot, is]
    · have other : i ≠ ⟨s.xenevtRingProd, inv.below⟩ := fun same => new (by rw [same, inv.stored])
      have old : s.stored[i.val]? = some f := by
        rcases lt_or_gt_of_ne new with lower | higher
        · rwa [getElem?_append_left lower] at is
        · rw [getElem?_eq_none (by simp; omega)] at is
          cases is
      simp only [update_of_ne other]
      exact inv.ring i f old
  atPlace := by
    have place := inv.atPlace
    cases at_ : s.place with
    | waiting | tested | asleep | draining =>
      simp only [AtPlace, at_, DrainPlace.wakeUp] at place ⊢
      omega
    | taken cons port =>
      have stored := inv.stored
      simp only [AtPlace, at_, DrainPlace.wakeUp] at place ⊢
      rw [getElem?_append_left (by omega)]
      exact ⟨place.1, place.2.1, by omega, place.2.2.2⟩

theorem HandoffInv.data_changed (inv : s.HandoffInv) (d : Inst) {after : XenevtDevData}
    (inside : after.ringProd < evtdevRingSize) :
    HandoffInv { s with data := update s.data d (some after) } :=
  { inv with
    owners := by
      intro port i is
      obtain ⟨named, opened⟩ := inv.owners port i is
      refine ⟨named, ?_⟩
      by_cases same : i = d
      · simp [same]
      · simpa [same] using opened
    data := (forall_update_iff s.data fun _ x => ∀ data, x = some data →
      data.ringProd < evtdevRingSize).mpr
        ⟨by intro data is; cases is; exact inside, fun i _ => inv.data i⟩ }

/-! ## The thread -/

theorem queue_eq {data : XenevtDevData} (port : Port) (is : s.data d = some data)
    (inside : data.ringProd < evtdevRingSize) :
    ∃ after : XenevtDevData, after.ringProd < evtdevRingSize ∧
      s.queue d port = .ok { s with
        queued := s.queued ++ [(port, d)]
        data := update s.data d (some after) } := by
  simp only [queue, is]
  by_cases full : data.ringCons = (data.ringProd + 1) &&& evtdevRingMask
  · exact ⟨{ data with overflow := true }, inside, by rw [if_pos full]⟩
  · refine ⟨_, ?_, by rw [if_neg full, dif_pos inside]⟩
    exact lt_of_le_of_lt Nat.and_le_right (by decide)

theorem next_waiting (inv : s.HandoffInv) (is : s.queued.length = cons)
    (more : cons < s.stored.length) :
    ∃ port d, s.stored[cons]? = some (port, some d) ∧ s.devevents port = some d ∧
      s.waiting = (port, some d) :: s.stored.drop (cons + 1) := by
  have head : s.waiting = s.stored[cons] :: s.stored.drop (cons + 1) := by
    rw [waiting, is]
    exact drop_eq_getElem_cons more
  obtain ⟨d, owner, still⟩ := inv.owned s.stored[cons] (by rw [head]; exact mem_cons_self)
  have split : s.stored[cons] = (s.stored[cons].1, some d) := by rw [← owner]
  exact ⟨s.stored[cons].1, d, by rw [getElem?_eq_getElem more, ← split], still,
    by rw [← split]; exact head⟩

/-- The thread sleeps, and has passed on what was stored. -/
def Drained (s : EvtDev) : Prop := s.place = .asleep ∧ s.queued.length = s.stored.length

def distance (s : EvtDev) : Nat :=
  4 * (s.stored.length - s.queued.length) +
    match s.place with
    | .waiting => 3
    | .tested => 1
    | .asleep => 0
    | .draining cons => if cons = s.prod then 4 else 2
    | .taken _ _ => 1

section
variable (inv : s.HandoffInv)
include inv

theorem HandoffInv.begin (is : s.place = .waiting) :
    HandoffInv { s with prod := s.xenevtRingProd, place := .draining s.xenevtRingCons } := by
  have place := inv.atPlace
  simp only [AtPlace, is] at place
  exact { inv with atPlace := ⟨le_rfl, place.2.1, le_rfl, place.2.2⟩ }

theorem HandoffInv.finish (is : s.place = .draining cons) (done : cons = s.prod) :
    HandoffInv { s with xenevtRingCons := cons, place := .waiting } := by
  have place := inv.atPlace
  simp only [AtPlace, is] at place
  exact { inv with atPlace := ⟨done.symm, by simp only; omega, place.2.2.2⟩ }

theorem HandoffInv.deliver (is : s.place = .taken cons port) :
    ∃ next, s.xenevtThreadFunc = .ok next ∧ next.HandoffInv ∧ next.stored = s.stored ∧
      next.unbinding = s.unbinding ∧ next.place = .draining (cons + 1) ∧
      next.queued.length = cons + 1 := by
  have place := inv.atPlace
  simp only [AtPlace, is] at place
  obtain ⟨given, passing, upTo, length, named⟩ := place
  have stored := inv.stored
  obtain ⟨port', d, found, owner, rest⟩ := next_waiting inv length (by omega)
  have same : port' = port := by rw [found] at named; exact Option.some.inj named
  subst port'
  obtain ⟨-, opened⟩ := inv.owners port d owner
  obtain ⟨data, isData⟩ := Option.ne_none_iff_exists'.mp opened
  obtain ⟨after, inside, queues⟩ := queue_eq port isData (inv.data d data isData)
  have steps : s.xenevtThreadFunc = .ok { s with
      queued := s.queued ++ [(port, d)]
      data := update s.data d (some after)
      place := .draining (cons + 1) } := by
    simp only [xenevtThreadFunc, is, owner, queues, ok_bind]
  refine ⟨_, steps, ?_, rfl, rfl, rfl, by simp [length]⟩
  exact { inv.data_changed d inside with
    atPlace := ⟨by simp only; omega, passing, upTo, by simp [length]⟩
    owned := by
      intro e mem
      apply inv.owned e
      rw [rest]
      simp only [waiting, length_append, length] at mem
      exact mem_cons_of_mem _ mem
    passed := by
      simp only [length_append, length_singleton, length, map_append]
      rw [take_add_one, found, ← length, inv.passed]
      rfl }

theorem HandoffInv.take (is : s.place = .draining cons) (more : cons ≠ s.prod) :
    ∃ port, s.xenevtThreadFunc = .ok { s with place := .taken cons port } ∧
      HandoffInv { s with place := .taken cons port } := by
  have place := inv.atPlace
  simp only [AtPlace, is] at place
  obtain ⟨given, passing, upTo, length⟩ := place
  have stored := inv.stored
  have below := inv.below
  have inside : cons < evtdevRingSize := by omega
  obtain ⟨port, d, found, owner, -⟩ := next_waiting inv length (by omega)
  have reads : s.xenevtRing ⟨cons, inside⟩ = port := inv.ring ⟨cons, inside⟩ _ found
  have named := (inv.owners port d owner).1
  refine ⟨port, ?_, { inv with atPlace := ⟨given, by simp only; omega, upTo, length, by simp [found]⟩ }⟩
  simp only [xenevtThreadFunc, is, if_pos more, dif_pos inside, reads, named, kassert, decide_true,
    if_true, ok_bind]

theorem HandoffInv.thread :
    ∃ next, s.xenevtThreadFunc = .ok next ∧ next.HandoffInv ∧ next.stored = s.stored ∧
      next.unbinding = s.unbinding ∧
      (s.Attentive → next.Attentive ∧ (¬ s.Drained → next.distance < s.distance)) := by
  have stored := inv.stored
  have place := inv.atPlace
  cases is : s.place with
  | waiting =>
    simp only [AtPlace, is] at place
    by_cases new : s.xenevtRingProd ≠ s.prod
    · refine ⟨_, by simp only [xenevtThreadFunc, is, if_pos new], inv.begin is, rfl, rfl, ?_⟩
      have some : s.xenevtRingCons ≠ s.xenevtRingProd := fun same => new (by omega)
      simp [Attentive, distance, is, some]
    · refine ⟨{ s with place := .tested }, by simp only [xenevtThreadFunc, is, if_neg new],
        { inv with atPlace := place }, rfl, rfl, ?_⟩
      simp [Attentive, distance, is, not_not.mp new]
  | tested =>
    simp only [AtPlace, is] at place
    refine ⟨{ s with place := .asleep }, by simp only [xenevtThreadFunc, is],
      { inv with atPlace := place }, rfl, rfl, ?_⟩
    intro attentive
    exact ⟨fun _ => attentive (.inl is), by simp [distance, is]⟩
  | asleep =>
    simp only [AtPlace, is] at place
    refine ⟨s, by simp only [xenevtThreadFunc, is], inv, rfl, rfl, ?_⟩
    intro attentive
    have nothing := attentive (.inr is)
    exact ⟨attentive, fun left => absurd ⟨is, by omega⟩ left⟩
  | draining cons =>
    by_cases more : cons ≠ s.prod
    · obtain ⟨port, steps, after⟩ := inv.take is more
      refine ⟨_, steps, after, rfl, rfl, ?_⟩
      simp [Attentive, distance, is, more]
    · have done : cons = s.prod := by simpa using more
      refine ⟨_, by simp only [xenevtThreadFunc, is, if_neg more], inv.finish is done, rfl, rfl, ?_⟩
      simp [Attentive, distance, is, done]
  | taken cons port =>
    simp only [AtPlace, is] at place
    obtain ⟨next, steps, after, same, alike, place', length⟩ := inv.deliver is
    refine ⟨next, steps, after, same, alike, ?_⟩
    intro _
    refine ⟨by simp [Attentive, place'], fun _ => ?_⟩
    simp only [distance, is, same, place', length]
    split <;> omega

theorem HandoffInv.drains (attentive : s.Attentive) :
    ∃ n t, run step (replicate n .thread) s = .ok t ∧ t.place = .asleep ∧
      t.queued.map fired = s.stored := by
  have progress : ∀ t : EvtDev, t.HandoffInv ∧ t.Attentive ∧ t.stored = s.stored → ¬ t.Drained →
      ∃ next, step t .thread = .ok next ∧
        (next.HandoffInv ∧ next.Attentive ∧ next.stored = s.stored) ∧
        next.distance < t.distance := by
    intro t holds left
    obtain ⟨next, steps, after, same, -, moves⟩ := holds.1.thread
    obtain ⟨still, nearer⟩ := moves holds.2.1
    exact ⟨next, steps, ⟨after, still, same.trans holds.2.2⟩, nearer left⟩
  obtain ⟨n, t, ran, ⟨after, -, same⟩, sleeps, all⟩ :=
    run_replicate_ends _ Drained distance progress s ⟨inv, attentive, rfl⟩
  refine ⟨n, t, ran, sleeps, ?_⟩
  rw [← after.passed, all, take_length, same]

end

/-! ## The other events -/

/-- A callback does not store a 2048th port. -/
def Short (s : EvtDev) : EvtEvent → Prop
  | .fire _ => s.Full ∨ s.stored.length < evtdevRingMask
  | _ => True

/-- The ports that the pass under way has passed on; their slots are not free yet. -/
def passedOn (s : EvtDev) : Nat :=
  match s.place with
  | .waiting | .tested | .asleep => 0
  | .draining cons => cons - s.xenevtRingCons
  | .taken cons _ => cons - s.xenevtRingCons

/-- A callback does not store a port between the test of `minios_wait_event` and its sleep, nor
find the ring full of slots that the pass under way will give back. -/
def Noticed (s : EvtDev) : EvtEvent → Prop
  | .fire _ => if s.Full then s.passedOn = 0 else s.place ≠ .tested
  | _ => True

/-- No event fires for a port without an owner, and no port is unbound or closed while it waits
in the ring. -/
def KeepsOwners (s : EvtDev) : EvtEvent → Prop
  | .fire port => s.Full ∨ s.devevents port ≠ none
  | .ioctl d (.unbind port) => s.devevents port = some d → ∀ e ∈ s.waiting, e.1 ≠ port
  | .close d => ∀ e ∈ s.waiting, s.devevents e.1 ≠ some d
  | _ => True

/-- Calls that unbind nothing. -/
def Binds : EvtEvent → Prop
  | .ioctl _ (.unbind _) => False
  | .close _ => False
  | _ => True

instance decidableBinds : ∀ event, Decidable (Binds event) := by
  intro event
  induction event using EvtEvent.casesOn with
  | ioctl _ request => induction request using Ioctl.casesOn <;> dsimp only [Binds] <;> infer_instance
  | _ => dsimp only [Binds]; infer_instance

instance decidableShort (s : EvtDev) : ∀ event, Decidable (s.Short event) := by
  intro event
  induction event using EvtEvent.casesOn <;> dsimp only [Short] <;> infer_instance

instance decidableNoticed (s : EvtDev) : ∀ event, Decidable (s.Noticed event) := by
  intro event
  induction event using EvtEvent.casesOn <;> dsimp only [Noticed] <;> infer_instance

instance decidableKeepsOwners (s : EvtDev) : ∀ event, Decidable (s.KeepsOwners event) := by
  intro event
  induction event using EvtEvent.casesOn with
  | ioctl _ request => induction request using Ioctl.casesOn <;> dsimp only [KeepsOwners] <;> infer_instance
  | _ => dsimp only [KeepsOwners]; infer_instance

theorem unmaskLoop_eq (d : Inst) : ∀ (chans : List Port) (s : EvtDev),
    ∃ masked, s.unmaskLoop d chans = { s with masked := masked } := by
  intro chans
  induction chans with
  | nil => intro s; exact ⟨s.masked, rfl⟩
  | cons chan chans ih =>
    intro s
    rw [unmaskLoop]
    split
    · obtain ⟨masked, is⟩ := ih (s.miniosUnmaskEvtchn chan)
      exact ⟨masked, is⟩
    · exact ih s

theorem rumpEvtdevCallback_eq (inv : s.RingInv) (open_ : ¬ s.Full) (port : Port) :
    s.rumpEvtdevCallback port = .ok { s with
      xenevtRing := update s.xenevtRing ⟨s.xenevtRingProd, inv.below⟩ port
      xenevtRingProd := (s.xenevtRingProd + 1) &&& evtdevRingMask
      stored := s.stored ++ [(port, s.devevents port)]
      place := s.place.wakeUp } := by
  rw [rumpEvtdevCallback, if_neg open_, dif_pos inv.below]

section
variable (inv : s.HandoffInv)
include inv

theorem HandoffInv.callback (port : Port) (short : s.Short (.fire port))
    (keeps : s.KeepsOwners (.fire port)) :
    ∃ next, s.rumpEvtdevCallback port = .ok next ∧ next.HandoffInv ∧ next.unbinding = s.unbinding ∧
      (s.Noticed (.fire port) → s.Attentive → next.Attentive) := by
  by_cases full : s.Full
  · refine ⟨_, if_pos full, { inv with atPlace := inv.atPlace.wakeUp }, rfl, ?_⟩
    intro _ attentive
    cases is : s.place <;> simp_all [Attentive, DrainPlace.wakeUp]
  · have below : s.xenevtRingProd < evtdevRingMask := inv.stored ▸ short.resolve_left full
    obtain ⟨d, owner⟩ := Option.ne_none_iff_exists'.mp (keeps.resolve_left full)
    refine ⟨_, rumpEvtdevCallback_eq inv.toRingInv full port, ?_, rfl, ?wakes⟩
    case wakes =>
      intro noticed _
      rw [Noticed, if_neg full] at noticed
      cases is : s.place <;> simp_all [Attentive, DrainPlace.wakeUp]
    rw [next_slot below]
    exact { inv with
      toRingInv := inv.toRingInv.store below (port, s.devevents port)
      owned := by
        intro e mem
        rw [waiting, waiting_append inv.toRingInv] at mem
        rcases mem_append.mp mem with old | new
        · exact inv.owned e old
        · cases mem_singleton.mp new
          exact ⟨d, owner, owner⟩
      passed := by
        rw [take_append_of_le_length inv.queued_le]
        exact inv.passed }

theorem HandoffInv.bindPort (opened : s.data d ≠ none) (idle : s.unbinding = none) (text : String)
    (answer : Except Nat Port)
    (given : ∀ port, answer = .ok port → port < nrEvs ∧ s.bound port = false) :
    ∃ result, s.bindPort d text answer = .ok result ∧ result.2.HandoffInv ∧
      result.2.unbinding = none ∧ (s.Attentive → result.2.Attentive) := by
  cases answer with
  | error err => exact ⟨(err, s), rfl, inv, idle, id⟩
  | ok port =>
    obtain ⟨small, closed⟩ := given port rfl
    have named : port < nrEventChannels := lt_trans small (by decide)
    have free := inv.free port closed
    have binds : s.bindPort d text (.ok port) = .ok (0, EvtDev.miniosUnmaskEvtchn { s with
        devevents := update s.devevents port (some d)
        bound := update s.bound port true } port) := by
      simp only [EvtDev.bindPort, free, kassert, decide_true, if_true, ok_bind]
    refine ⟨_, binds, ?_, idle, id⟩
    exact { inv with
      owned := by
        intro e mem
        obtain ⟨owner, fired, still⟩ := inv.owned e mem
        have other : e.1 ≠ port := by
          intro same
          rw [same, free] at still
          cases still
        exact ⟨owner, fired, by simpa [miniosUnmaskEvtchn, other] using still⟩
      owners := (forall_update_iff s.devevents fun p x => ∀ i, x = some i →
        p < nrEventChannels ∧ s.data i ≠ none).mpr
          ⟨by intro i is; cases is; exact ⟨named, opened⟩, fun p _ => inv.owners p⟩
      bound := by
        intro p is
        right
        by_cases same : p = port
        · simp [same, miniosUnmaskEvtchn]
        · simp only [miniosUnmaskEvtchn, update_of_ne same] at is ⊢
          rcases inv.bound p is with pending | owner
          · rw [idle] at pending; cases pending
          · exact owner
      free := by
        intro p is
        by_cases same : p = port
        · simp [same, miniosUnmaskEvtchn] at is
        · simp only [miniosUnmaskEvtchn, update_of_ne same] at is ⊢
          exact inv.free p is
      unbound := by intro p is; rw [miniosUnmaskEvtchn, idle] at is; cases is }

theorem HandoffInv.unbind (idle : s.unbinding = none) (calm : ∀ e ∈ s.waiting, e.1 ≠ port) :
    HandoffInv { s with
      devevents := update s.devevents port none
      unbinding := some port } :=
  { inv with
    owned := by
      intro e mem
      obtain ⟨owner, fired, still⟩ := inv.owned e mem
      exact ⟨owner, fired, by simpa [calm e mem] using still⟩
    owners := (forall_update_iff s.devevents fun p x => ∀ i, x = some i →
      p < nrEventChannels ∧ s.data i ≠ none).mpr
        ⟨by simp, fun p _ => inv.owners p⟩
    bound := by
      intro p is
      by_cases same : p = port
      · left; rw [same]
      · right
        rcases inv.bound p is with pending | owner
        · rw [idle] at pending; cases pending
        · simpa [same] using owner
    free := (forall_update_iff s.devevents fun p x => s.bound p = false → x = none).mpr
      ⟨fun _ => rfl, fun p _ => inv.free p⟩
    unbound := by intro p is; cases is; simp }

theorem HandoffInv.unbindEnd : s.unbindEnd.HandoffInv := by
  cases pending : s.unbinding with
  | none => simpa only [EvtDev.unbindEnd, pending] using inv
  | some port =>
    simp only [EvtDev.unbindEnd, pending]
    exact { inv with
      bound := by
        intro p is
        right
        by_cases same : p = port
        · simp [same, miniosUnbindEvtchn] at is
        · simp only [miniosUnbindEvtchn, miniosMaskEvtchn, update_of_ne same] at is ⊢
          rcases inv.bound p is with waits | owner
          · rw [pending] at waits
            exact absurd (Option.some.inj waits).symm same
          · exact owner
      free := (forall_update_iff s.bound fun p x => x = false →
        s.devevents p = none).mpr
          ⟨fun _ => inv.unbound port pending, fun p _ => inv.free p⟩
      unbound := by intro p is; cases is }

theorem HandoffInv.close (d : Inst) (calm : ∀ e ∈ s.waiting, s.devevents e.1 ≠ some d) :
    (s.xenevtDevClose d).HandoffInv := by
  have stays : ∀ {p : Port}, ¬ s.Owns d p → (s.xenevtDevClose d).devevents p = s.devevents p :=
    fun apart => if_neg apart
  exact { inv with
    owned := by
      intro e mem
      obtain ⟨owner, fired, still⟩ := inv.owned e mem
      exact ⟨owner, fired, (stays fun owns => calm e mem owns.2).trans still⟩
    owners := by
      intro p i is
      by_cases owns : s.Owns d p
      · simp [xenevtDevClose, owns] at is
      · rw [stays owns] at is
        obtain ⟨named, opened⟩ := inv.owners p i is
        have other : i ≠ d := fun same => owns ⟨named, same ▸ is⟩
        exact ⟨named, by simpa [xenevtDevClose, other] using opened⟩
    bound := by
      intro p is
      by_cases owns : s.Owns d p
      · simp [xenevtDevClose, owns] at is
      · rw [stays owns]
        exact inv.bound p (by simpa [xenevtDevClose, owns] using is)
    free := by
      intro p is
      by_cases owns : s.Owns d p
      · simp [xenevtDevClose, owns]
      · rw [stays owns]
        exact inv.free p (by simpa [xenevtDevClose, owns] using is)
    unbound := by
      intro p is
      by_cases owns : s.Owns d p
      · simp [xenevtDevClose, owns]
      · rw [stays owns]
        exact inv.unbound p is
    data := (forall_update_iff s.data fun _ x => ∀ data, x = some data →
      data.ringProd < evtdevRingSize).mpr
        ⟨by simp, fun i _ => inv.data i⟩ }

theorem HandoffInv.ioctl {request : Ioctl} (allowed : s.Admits (.ioctl d request))
    (keeps : s.KeepsOwners (.ioctl d request)) :
    ∃ result, s.xenevtDevIoctl d request = .ok result ∧ result.2.HandoffInv ∧
      (Binds (.ioctl d request) → result.2.unbinding = none) ∧
      (s.Attentive → result.2.Attentive) := by
  obtain ⟨⟨idle, opened⟩, given⟩ := allowed
  -- The three requests that bind a port differ in what they ask of the hypervisor.
  have binds : ∀ text answer, (∀ port, answer = .ok port → port ∈ request.given) →
      ∃ result, s.bindPort d text answer = .ok result ∧ result.2.HandoffInv ∧
        (Binds (.ioctl d request) → result.2.unbinding = none) ∧
        (s.Attentive → result.2.Attentive) := by
    intro text answer names
    obtain ⟨result, bound, after, still, notices⟩ :=
      inv.bindPort opened idle text answer fun port is => given port (names port is)
    exact ⟨result, bound, after, fun _ => still, notices⟩
  cases request with
  | reset =>
    obtain ⟨data, isData⟩ := Option.ne_none_iff_exists'.mp opened
    have empty : { data with ringCons := 0, ringProd := 0, overflow := false }.ringProd <
        evtdevRingSize := Nat.zero_lt_succ _
    exact ⟨_, by rw [xenevtDevIoctl, isData], inv.data_changed d empty, fun _ => idle, id⟩
  | bindVirq virq answer | bindInterdomain domain remote answer
  | bindUnboundPort domain answer => exact binds _ answer (by rintro port rfl; rfl)
  | unbind port =>
    simp only [xenevtDevIoctl]
    by_cases large : nrEventChannels ≤ port
    · exact ⟨_, if_pos large, inv, fun _ => idle, id⟩
    by_cases foreign : s.devevents port ≠ some d
    · exact ⟨_, by rw [if_neg large, if_pos foreign], inv, fun _ => idle, id⟩
    refine ⟨_, by rw [if_neg large, if_neg foreign], inv.unbind idle ?_, fun binds => binds.elim, id⟩
    exact keeps (not_not.mp foreign)
  | notify port =>
    simp only [xenevtDevIoctl]
    split
    · exact ⟨_, rfl, inv, fun _ => idle, id⟩
    split
    · exact ⟨_, rfl, inv, fun _ => idle, id⟩
    · exact ⟨_, rfl, inv, fun _ => idle, id⟩

theorem HandoffInv.step (allowed : s.Admits event) (short : s.Short event)
    (keeps : s.KeepsOwners event) :
    ∃ next, s.step event = .ok next ∧ next.HandoffInv ∧
      (Binds event → s.unbinding = none → next.unbinding = none) ∧
      (s.Noticed event → s.Attentive → next.Attentive) := by
  cases event with
  | open_ d => exact ⟨_, rfl, inv.data_changed d (by decide), fun _ idle => idle, fun _ => id⟩
  | write d chans =>
    obtain ⟨masked, is⟩ := unmaskLoop_eq d chans s
    by_cases long : nrEventChannels < chans.length
    · exact ⟨s, by rw [EvtDev.step, xenevtDevWrite, if_pos long], inv, fun _ idle => idle,
        fun _ => id⟩
    · exact ⟨{ s with masked := masked }, by rw [EvtDev.step, xenevtDevWrite, if_neg long, is],
        { inv with }, fun _ idle => idle, fun _ => id⟩
  | ioctl d request =>
    obtain ⟨result, ran, after, still, notices⟩ := inv.ioctl allowed keeps
    exact ⟨result.2, by simp only [EvtDev.step, ran]; rfl, after, fun binds _ => still binds,
      fun _ => notices⟩
  | unbindEnd =>
    refine ⟨_, rfl, inv.unbindEnd, ?_, ?_⟩
    · intro _ idle
      simp only [EvtDev.unbindEnd, idle]
    · intro _ attentive
      rw [EvtDev.unbindEnd]
      split <;> exact attentive
  | close d => exact ⟨_, rfl, inv.close d keeps, fun binds => binds.elim, fun _ => id⟩
  | fire port =>
    have masked : HandoffInv (s.miniosMaskEvtchn port) := { inv with }
    obtain ⟨next, ran, after, same, notices⟩ := masked.callback port short keeps
    exact ⟨next, ran, after, fun _ idle => same.trans idle, notices⟩
  | thread =>
    obtain ⟨next, ran, after, -, same, moves⟩ := inv.thread
    exact ⟨next, ran, after, fun _ idle => same.trans idle, fun _ attentive => (moves attentive).1⟩

end

/-! ## What a step that is not good leaves behind -/

/-- The producer has come round to slot 0 and the thread has not: it waits, or is on a pass that
ends before the last slot, or on the one that leaves the ring. -/
def Overrun (s : EvtDev) : Prop :=
  s.xenevtRingProd = 0 ∧ s.stored.length = evtdevRingSize ∧ 0 < s.xenevtRingCons ∧
    match s.place with
    | .waiting | .tested | .asleep => s.prod = s.xenevtRingCons ∧
        s.queued.length = s.xenevtRingCons ∧ s.xenevtRingCons < evtdevRingSize
    | .draining cons => s.queued.length = cons ∧ 0 < cons ∧
        (s.prod ≠ 0 → cons ≤ s.prod ∧ s.prod < evtdevRingSize)
    | .taken cons _ => s.queued.length = cons ∧ 0 < cons ∧
        (s.prod ≠ 0 → cons < s.prod ∧ s.prod < evtdevRingSize)

theorem thread_cases {s : EvtDev} (ran : s.step .thread = .ok next) :
    (s.place = .waiting ∧ s.xenevtRingProd ≠ s.prod ∧
      next = { s with prod := s.xenevtRingProd, place := .draining s.xenevtRingCons }) ∨
    ((s.place = .waiting ∨ s.place = .tested ∨ s.place = .asleep) ∧
      (next = { s with place := .tested } ∨ next = { s with place := .asleep })) ∨
    (∃ cons port, s.place = .draining cons ∧ cons ≠ s.prod ∧
      next = { s with place := .taken cons port }) ∨
    (s.place = .draining s.prod ∧ next = { s with xenevtRingCons := s.prod, place := .waiting }) ∨
    ∃ cons port d data, s.place = .taken cons port ∧ s.devevents port = some d ∧
      next = { s with
        queued := s.queued ++ [(port, d)]
        data := data
        place := .draining (cons + 1) } := by
  simp only [EvtDev.step, xenevtThreadFunc] at ran
  cases is : s.place with
  | waiting =>
    simp only [is] at ran
    by_cases new : s.xenevtRingProd ≠ s.prod
    · rw [if_pos new] at ran
      exact .inl ⟨rfl, new, (Except.ok.inj ran).symm⟩
    · rw [if_neg new] at ran
      exact .inr (.inl ⟨.inl rfl, .inl (Except.ok.inj ran).symm⟩)
  | tested =>
    simp only [is] at ran
    exact .inr (.inl ⟨.inr (.inl rfl), .inr (Except.ok.inj ran).symm⟩)
  | asleep =>
    simp only [is] at ran
    exact .inr (.inl ⟨.inr (.inr rfl), .inr (by rw [← is]; exact (Except.ok.inj ran).symm)⟩)
  | draining cons =>
    simp only [is] at ran
    right; right
    by_cases more : cons ≠ s.prod
    · left
      rw [if_pos more] at ran
      split at ran
      · obtain ⟨_, -, ran⟩ := bind_eq_ok ran
        exact ⟨cons, _, rfl, more, (Except.ok.inj ran).symm⟩
      · cases ran
    · right; left
      rw [if_neg more] at ran
      rw [not_not.mp more] at ran ⊢
      exact ⟨rfl, (Except.ok.inj ran).symm⟩
  | taken cons port =>
    simp only [is] at ran
    right; right; right; right
    cases owner : s.devevents port with
    | none => simp only [owner] at ran; cases ran
    | some d =>
      simp only [owner] at ran
      obtain ⟨mid, queues, ran⟩ := bind_eq_ok ran
      refine ⟨cons, port, d, mid.data, rfl, owner, ?_⟩
      rw [← Except.ok.inj ran]
      simp only [queue] at queues
      split at queues
      · cases queues
      split at queues
      · cases queues; rfl
      split at queues
      · cases queues; rfl
      · cases queues

theorem Overrun.thread {s : EvtDev} (overrun : s.Overrun) (ran : s.step .thread = .ok next) :
    next.Overrun := by
  obtain ⟨round, all, given, place⟩ := overrun
  rcases thread_cases ran with ⟨is, new, rfl⟩ | ⟨is, rests⟩ | ⟨cons, port, is, more, rfl⟩ |
    ⟨is, rfl⟩ | ⟨cons, port, d, data, is, -, rfl⟩
  · simp only [is] at place
    exact ⟨round, all, given, place.2.1, given, fun some => absurd round some⟩
  · have cursors : s.prod = s.xenevtRingCons ∧ s.queued.length = s.xenevtRingCons ∧
        s.xenevtRingCons < evtdevRingSize := by
      rcases is with is | is | is <;> simpa only [is] using place
    rcases rests with rfl | rfl <;> exact ⟨round, all, given, cursors⟩
  · simp only [is] at place
    refine ⟨round, all, given, place.1, place.2.1, ?_⟩
    intro some
    obtain ⟨upTo, inside⟩ := place.2.2 some
    exact ⟨lt_of_le_of_ne upTo more, inside⟩
  · simp only [is] at place
    obtain ⟨length, some, inside⟩ := place
    exact ⟨round, all, some, rfl, length, (inside some.ne').2⟩
  · simp only [is] at place
    refine ⟨round, all, given, by simp [place.1], Nat.succ_pos _, ?_⟩
    intro some
    exact place.2.2 some

theorem Overrun.not_drained (overrun : s.Overrun) {t : EvtDev}
    (ran : run EvtDev.step (replicate n .thread) s = .ok t) (sleeps : t.place = .asleep) :
    t.queued.length < s.stored.length := by
  have stays : t.Overrun :=
    run_replicate_keeps Overrun (fun _ _ overrun ran => overrun.thread ran) n s t overrun ran
  obtain ⟨-, -, -, place⟩ := stays
  simp only [sleeps] at place
  rw [overrun.2.1, place.2.1]
  exact place.2.2

theorem HandoffInv.overruns (inv : s.HandoffInv) (long : ¬ s.Short (.fire port))
    (ran : s.step (.fire port) = .ok next) : next.Overrun := by
  simp only [Short, not_or, not_lt] at long
  obtain ⟨open_, many⟩ := long
  have masked : HandoffInv (s.miniosMaskEvtchn port) := { inv with }
  cases Except.ok.inj (ran.symm.trans (rumpEvtdevCallback_eq masked.toRingInv open_ port))
  have stored := inv.stored
  have below := inv.below
  have last : s.xenevtRingProd = evtdevRingMask := by
    simp only [evtdevRingSize, evtdevRingMask] at *
    omega
  have given : 0 < s.xenevtRingCons := by
    apply pos_of_ne_zero
    intro zero
    exact open_ ((full_iff inv.toRingInv).mpr ⟨last, zero⟩)
  have place := inv.atPlace
  refine ⟨?_, by simp [miniosMaskEvtchn, stored, last, evtdevRingSize, evtdevRingMask], given, ?_⟩
  · simp only [miniosMaskEvtchn, last, last_slot]
  · cases is : s.place <;> simp only [AtPlace, is] at place <;>
      simp only [miniosMaskEvtchn, is, DrainPlace.wakeUp] <;> omega

/-- Where each port can still be passed to the instance that it fired for, `devevents` says so. -/
theorem owned_of_drains
    (drains : ∃ n t, run EvtDev.step (replicate n .thread) s = .ok t ∧ t.place = .asleep ∧
      t.queued.map fired = s.stored) : s.Owned := by
  obtain ⟨n, t, ran, -, all⟩ := drains
  have adds := run_replicate_keeps
    (fun u : EvtDev => u.devevents = s.devevents ∧
      ∃ later, u.queued = s.queued ++ later ∧ ∀ e ∈ later, s.devevents e.1 = some e.2) ?_ n s t
    ⟨rfl, [], by simp, by simp⟩ ran
  · obtain ⟨-, later, is, owners⟩ := adds
    intro e mem
    rw [waiting, ← all, is, map_append, drop_left' (by simp)] at mem
    obtain ⟨call, isLater, rfl⟩ := mem_map.mp mem
    exact ⟨call.2, rfl, owners call isLater⟩
  · rintro u next ⟨same, later, is, owners⟩ ran
    rcases thread_cases ran with ⟨-, -, rfl⟩ | ⟨-, rfl | rfl⟩ | ⟨_, _, -, -, rfl⟩ | ⟨-, rfl⟩ |
      ⟨_, port, d, _, -, owner, rfl⟩
    iterate 5 exact ⟨same, later, is, owners⟩
    refine ⟨same, later ++ [(port, d)], by simp [is], ?_⟩
    intro e mem
    rcases mem_append.mp mem with old | new
    · exact owners e old
    · cases mem_singleton.mp new
      rw [← same]
      exact owner

theorem HandoffInv.fire_eq (inv : s.HandoffInv) (ran : s.step (.fire port) = .ok next) :
    next.place = s.place.wakeUp ∧ next.queued = s.queued ∧
      next.stored = if s.Full then s.stored else s.stored ++ [(port, s.devevents port)] := by
  have masked : HandoffInv (s.miniosMaskEvtchn port) := { inv with }
  by_cases full : s.Full
  · have same : (s.miniosMaskEvtchn port).Full := full
    rw [EvtDev.step, miniosEvtdevHandler, rumpEvtdevCallback, if_pos same] at ran
    cases ran
    exact ⟨rfl, rfl, (if_pos full).symm⟩
  · cases Except.ok.inj (ran.symm.trans (rumpEvtdevCallback_eq masked.toRingInv full port))
    exact ⟨rfl, rfl, (if_neg full).symm⟩

theorem HandoffInv.disowns (inv : s.HandoffInv) (loses : ¬ s.KeepsOwners event)
    (ran : s.step event = .ok next) : ¬ next.Owned := by
  intro owned
  cases event with
  | fire port =>
    simp only [KeepsOwners, not_or, not_not] at loses
    obtain ⟨-, queued, stored⟩ := inv.fire_eq ran
    have last : (port, s.devevents port) ∈ next.waiting := by
      rw [waiting, queued, stored, if_neg loses.1, waiting_append inv.toRingInv]
      exact mem_append_right _ mem_cons_self
    obtain ⟨d, owner, -⟩ := owned _ last
    rw [loses.2] at owner
    cases owner
  | ioctl d request =>
    cases request with
    | unbind port =>
      simp only [KeepsOwners, Classical.not_imp, not_forall, not_not] at loses
      obtain ⟨owner, e, mem, rfl⟩ := loses
      have named : ¬ nrEventChannels ≤ e.1 := not_le.mpr (inv.owners e.1 d owner).1
      simp only [EvtDev.step, xenevtDevIoctl, if_neg named, owner, ne_eq, not_true,
        if_false] at ran
      cases ran
      obtain ⟨d', -, still⟩ := owned e mem
      simp at still
    | _ => exact loses trivial
  | close d =>
    simp only [KeepsOwners, not_forall, not_not] at loses
    obtain ⟨e, mem, owner⟩ := loses
    cases ran
    obtain ⟨d', -, still⟩ := owned e mem
    have owns : s.Owns d e.1 := ⟨(inv.owners e.1 d owner).1, owner⟩
    simp [xenevtDevClose, owns] at still
  | _ => exact loses trivial

/-- A port that is stored before the thread sleeps is not passed on. -/
theorem not_woken (gone : s.place = .tested ∨ s.place = .asleep) {t : EvtDev}
    (ran : run EvtDev.step (replicate n .thread) s = .ok t) : t.queued = s.queued := by
  have stays := run_replicate_keeps
    (fun t : EvtDev => (t.place = .tested ∨ t.place = .asleep) ∧ t.queued = s.queued) ?_ n s t
    ⟨gone, rfl⟩ ran
  · exact stays.2
  · rintro u next ⟨is | is, same⟩ ran
    all_goals
      simp only [EvtDev.step, xenevtThreadFunc, is] at ran
      cases ran
    · exact ⟨.inr rfl, same⟩
    · exact ⟨.inr is, same⟩

/-! ## Main results -/

/-- What was passed to `queue` are the first of the ports that were stored, in their order. The
thread, left to itself, goes to sleep with all of them passed on, and stays inside the ring. -/
def HandsOff (s : EvtDev) : Prop :=
  s.queued.map Prod.fst <+: s.stored.map Prod.fst ∧
    ∃ n t, run EvtDev.step (List.replicate n .thread) s = .ok t ∧ t.place = .asleep ∧
      t.queued.map Prod.fst = s.stored.map Prod.fst

/-- A callback drops its port only when 2047 ports are waiting. -/
def DropsFull (s : EvtDev) (event : EvtEvent) (next : EvtDev) : Prop :=
  ∀ port, event = .fire port → next.stored = s.stored → s.waiting.length = evtdevRingMask

/-- The thread before its test for new ports, if it sleeps or is about to. -/
def awake (s : EvtDev) : EvtDev :=
  { s with place := if s.place = .tested ∨ s.place = .asleep then .waiting else s.place }

/-- Each call of `queue` was for the instance that owned the port when the event fired; and the
thread, once it is awake, passes the ports that wait to the instances that owned them then. -/
def Isolated (s : EvtDev) : Prop :=
  s.queued.map fired <+: s.stored ∧
    ∃ n t, run EvtDev.step (List.replicate n .thread) s.awake = .ok t ∧ t.place = .asleep ∧
      t.queued.map fired = s.stored

theorem awake_attentive (s : EvtDev) : s.awake.Attentive := by
  intro sleeps
  by_cases is : s.place = .tested ∨ s.place = .asleep
  · simp [awake, is] at sleeps
  · simp only [awake, if_neg is] at sleeps
    exact absurd sleeps is

theorem HandoffInv.awake (inv : s.HandoffInv) : s.awake.HandoffInv := by
  have place := inv.atPlace
  refine { inv with atPlace := ?_ }
  cases is : s.place <;> simp only [AtPlace, is] at place <;>
    simpa [AtPlace, EvtDev.awake, is] using place

theorem Overrun.awake (overrun : s.Overrun) : s.awake.Overrun := by
  obtain ⟨round, all, given, place⟩ := overrun
  refine ⟨round, all, given, ?_⟩
  cases is : s.place <;> simp only [is] at place <;> simpa [EvtDev.awake, is] using place

theorem map_fst_fired (calls : List (Port × Inst)) :
    (calls.map fired).map Prod.fst = calls.map Prod.fst := by
  simp [fired, Function.comp_def]

theorem HandoffInv.isolated (inv : s.HandoffInv) : s.Isolated :=
  ⟨inv.passed ▸ take_prefix _ _, inv.awake.drains s.awake_attentive⟩

theorem HandoffInv.handsOff (inv : s.HandoffInv) (attentive : s.Attentive) : s.HandsOff := by
  obtain ⟨n, t, ran, sleeps, all⟩ := inv.drains attentive
  refine ⟨?_, n, t, ran, sleeps, ?_⟩
  · rw [← map_fst_fired]
    exact inv.isolated.1.map Prod.fst
  · rw [← map_fst_fired, all]

/-- The ports that have no free slot behind them when the ring is full. -/
theorem HandoffInv.waiting_length (inv : s.HandoffInv) (full : s.Full) :
    s.waiting.length + s.passedOn = evtdevRingMask := by
  obtain ⟨last, first⟩ := (full_iff inv.toRingInv).mp full
  have place := inv.atPlace
  have stored := inv.stored
  cases is : s.place <;> simp only [AtPlace, is] at place <;>
    simp only [passedOn, waiting, is, length_drop] <;> omega

theorem HandoffInv.dropsFull (inv : s.HandoffInv) (ran : s.step event = .ok next)
    (noticed : s.Noticed event) : s.DropsFull event next := by
  rintro port rfl same
  have full : s.Full := by
    by_contra open_
    rw [(inv.fire_eq ran).2.2, if_neg open_] at same
    simp at same
  rw [Noticed, if_pos full] at noticed
  have length := inv.waiting_length full
  omega

/-- A step that goes unnoticed loses a port: the thread sleeps over it, or it is dropped early. -/
theorem HandoffInv.unnoticed (inv : s.HandoffInv) (misses : ¬ s.Noticed event)
    (ran : s.step event = .ok next) (holds : next.HandsOff) : ¬ s.DropsFull event next := by
  cases event with
  | fire port =>
    obtain ⟨place, queued, stored⟩ := inv.fire_eq ran
    intro drops
    by_cases full : s.Full
    · rw [if_pos full] at stored
      rw [Noticed, if_pos full] at misses
      have few := inv.waiting_length full
      have many := drops port rfl stored
      omega
    · rw [Noticed, if_neg full, not_not] at misses
      rw [if_neg full] at stored
      rw [misses] at place
      obtain ⟨-, n, t, ends, -, all⟩ := holds
      have same := congrArg length all
      rw [not_woken (.inl place) ends, queued, stored] at same
      have before := inv.queued_le
      simp only [length_map, length_append, length_singleton] at same
      omega
  | _ => exact absurd trivial misses

/-- Ports are handed on exactly in the runs in which no callback stores a 2048th port, stores one
while the thread is about to sleep, or finds the ring full in a pass that has passed ports on. -/
theorem event_handoff (events : List EvtEvent)
    (allowed : Admissible (fun s event => s.Admits event ∧ Binds event) EvtDev.step events init) :
    Each (fun s event next => next.HandsOff ∧ s.DropsFull event next) EvtDev.step events init ↔
      Admissible (fun s event => (s.Admits event ∧ Binds event) ∧ s.Short event ∧ s.Noticed event)
        EvtDev.step events init := by
  refine each_iff (fun s => s.HandoffInv ∧ s.unbinding = none ∧ s.Attentive) ?_ ?_ events init
    ⟨init_inv, rfl, by simp [Attentive, init]⟩ allowed
  · intro s event inv allowed good
    have keeps : s.KeepsOwners event := by
      cases event with
      | fire port =>
        rcases inv.1.bound port allowed.1.1 with pending | owner
        · rw [inv.2.1] at pending; cases pending
        · exact .inr owner
      | ioctl d request => cases request <;> first | trivial | exact absurd allowed.2 id
      | close d => exact absurd allowed.2 id
      | _ => trivial
    obtain ⟨next, ran, after, still, notices⟩ := inv.1.step allowed.1 good.1 keeps
    have attentive := notices good.2 inv.2.2
    exact ⟨next, ran, ⟨after.handsOff attentive, inv.1.dropsFull ran good.2⟩, after,
      still allowed.2 inv.2.1, attentive⟩
  · rintro s event next inv allowed bad ran ⟨holds, drops⟩
    by_cases short : s.Short event
    · exact inv.1.unnoticed (fun noticed => bad ⟨short, noticed⟩) ran holds drops
    · cases event with
      | fire port =>
        have overrun := inv.1.overruns short ran
        obtain ⟨-, n, t, drains, sleeps, all⟩ := holds
        have fewer := overrun.not_drained drains sleeps
        have same := congrArg length all
        simp only [length_map] at same
        omega
      | _ => exact short trivial

/-! A port that fires, is drained and unmasked, 2048 times. -/

def firstPass : List EvtEvent := [.fire 1, .thread, .thread, .thread]

def endPass : List EvtEvent := [.thread, .write 7 [1]]

/-- Between two of them. -/
structure Turning (n : Nat) (s : EvtDev) : Prop where
  ringProd : s.xenevtRingProd = n
  ringCons : s.xenevtRingCons = n
  prod : s.prod = n
  place : s.place = .waiting
  owner : s.devevents 1 = some 7
  data : ∃ data, s.data 7 = some data ∧ data.ringProd < evtdevRingSize
  bound : s.bound 1 = true
  unmasked : s.masked 1 = false
  idle : s.unbinding = none

theorem Turning.firstPass (turning : s.Turning n) (inside : n < evtdevRingSize) :
    ∃ mid, Leads (fun s event => s.Admits event ∧ Binds event) EvtDev.step EvtDev.firstPass s mid ∧
      mid.place = .draining (n + 1) ∧ mid.prod = (n + 1) &&& evtdevRingMask ∧
      mid.xenevtRingProd = (n + 1) &&& evtdevRingMask ∧ mid.devevents 1 = some 7 ∧
      (∃ data, mid.data 7 = some data ∧ data.ringProd < evtdevRingSize) ∧ mid.bound 1 = true ∧
      mid.unbinding = none := by
  obtain ⟨ringProd, ringCons, prod, place, owner, ⟨data, isData, below⟩, bound, unmasked, idle⟩ :=
    turning
  have moves : n ≠ (n + 1) &&& evtdevRingMask := by
    by_cases last : n = evtdevRingMask
    · rw [last, last_slot]; decide
    · rw [next_slot (by simp only [evtdevRingSize, evtdevRingMask] at *; omega)]; omega
  have open_ : ¬ s.Full := by simpa only [Full, ringProd, ringCons] using moves
  have within : s.xenevtRingProd < evtdevRingSize := ringProd ▸ inside
  let stored : EvtDev := { s with
    masked := update s.masked 1 true
    xenevtRing := update s.xenevtRing ⟨s.xenevtRingProd, within⟩ 1
    xenevtRingProd := (s.xenevtRingProd + 1) &&& evtdevRingMask
    stored := s.stored ++ [(1, s.devevents 1)]
    place := s.place.wakeUp }
  let begun : EvtDev := { stored with
    prod := (s.xenevtRingProd + 1) &&& evtdevRingMask
    place := .draining n }
  have fires : s.step (.fire 1) = .ok stored := by
    have inside : (s.miniosMaskEvtchn 1).xenevtRingProd < evtdevRingSize := within
    have free : ¬ (s.miniosMaskEvtchn 1).Full := open_
    rw [EvtDev.step, miniosEvtdevHandler, rumpEvtdevCallback, if_neg free, dif_pos inside]
    rfl
  have begins : stored.step .thread = .ok begun := by
    simp only [EvtDev.step, xenevtThreadFunc, stored, begun, place, DrainPlace.wakeUp, prod,
      ringProd, ringCons]
    rw [if_pos moves.symm]
  have takes : begun.step .thread = .ok { begun with place := .taken n 1 } := by
    have slot : begun.xenevtRing ⟨n, inside⟩ = 1 := by
      simp only [begun, stored, ringProd, update_self]
    have more : n ≠ begun.prod := by simpa only [begun, ringProd] using moves
    have at_ : begun.place = .draining n := rfl
    simp only [EvtDev.step, xenevtThreadFunc, at_, if_pos more, dif_pos inside, slot]
    rfl
  obtain ⟨after, still, queues⟩ := queue_eq (s := { begun with place := .taken n 1 }) 1 isData below
  have delivers : EvtDev.step { begun with place := .taken n 1 } .thread = .ok { begun with
      queued := begun.queued ++ [(1, 7)]
      data := update begun.data 7 (some after)
      place := .draining (n + 1) } := by
    have owned : begun.devevents 1 = some 7 := owner
    simp only [EvtDev.step, xenevtThreadFunc, owned, queues, ok_bind]
  refine ⟨_, .cons ⟨⟨bound, unmasked⟩, trivial⟩ fires (.cons ⟨idle, trivial⟩ begins
    (.cons ⟨idle, trivial⟩ takes (.cons ⟨idle, trivial⟩ delivers .nil))), rfl, ?_, ?_, owner,
    ⟨after, by simp, still⟩, bound, idle⟩
  · simp only [begun, ringProd]
  · simp only [begun, stored, ringProd]

theorem Turning.turn (turning : s.Turning n) (short : n < evtdevRingMask) :
    ∃ next, Leads (fun s event => s.Admits event ∧ Binds event) EvtDev.step
      (EvtDev.firstPass ++ endPass) s next ∧ next.Turning (n + 1) := by
  have inside : n < evtdevRingSize := lt_trans short (by decide)
  obtain ⟨mid, leads, place, prod, ringProd, owner, data, bound, idle⟩ := turning.firstPass inside
  rw [next_slot short] at prod ringProd
  have ends : mid.step .thread = .ok { mid with xenevtRingCons := n + 1, place := .waiting } := by
    simp only [EvtDev.step, xenevtThreadFunc, place, prod, ne_eq, not_true, if_false]
  refine ⟨_, leads.append (.cons ⟨idle, trivial⟩ ends
    (.cons ⟨⟨idle, ?_⟩, trivial⟩ rfl .nil)), ?_⟩
  · obtain ⟨data, isData, -⟩ := data
    simp [isData]
  · have named : 1 < nrEventChannels ∧ mid.devevents 1 = some 7 := ⟨by decide, owner⟩
    have few : ¬ nrEventChannels < [1].length := by decide
    simp only [xenevtDevWrite, if_neg few, unmaskLoop, named, and_self, if_true]
    exact ⟨ringProd, rfl, prod, rfl, owner, data, bound, by simp [miniosUnmaskEvtchn], idle⟩

def passAfterPass : List EvtEvent :=
  [.open_ 7, .ioctl 7 (.bindVirq 0 (.ok 1))] ++
    ((List.range evtdevRingMask).flatMap fun _ => firstPass ++ endPass) ++ firstPass ++ [.thread]

/-- With the 2048th port the thread reads `xenevt_ring` outside of its bounds. -/
theorem handoff_leaves_ring :
    Admissible (fun s event => s.Admits event ∧ Binds event) EvtDev.step passAfterPass init ∧
      run EvtDev.step passAfterPass init =
        .error (.undefined "xenevt_ring is read outside of its bounds") := by
  have boots : ∃ booted, Leads (fun s event => s.Admits event ∧ Binds event) EvtDev.step
      [.open_ 7, .ioctl 7 (.bindVirq 0 (.ok 1))] init booted ∧ booted.Turning 0 :=
    ⟨_, .cons (by decide) rfl (.cons (by decide) rfl .nil),
      ⟨rfl, rfl, rfl, rfl, rfl, ⟨_, rfl, by decide⟩, rfl, rfl, rfl⟩⟩
  obtain ⟨booted, starts, atZero⟩ := boots
  obtain ⟨late, turns, atLast⟩ := leads_rounds Turning
    (fun n s short turning => turning.turn short) atZero evtdevRingMask (le_rfl)
  obtain ⟨mid, leads, place, prod, -, -, -, -, idle⟩ := atLast.firstPass (by decide)
  have all := (starts.append turns).append leads
  have last : Admissible (fun s event => s.Admits event ∧ Binds event) EvtDev.step [.thread] mid :=
    ⟨⟨idle, trivial⟩, fun _ _ => trivial⟩
  unfold passAfterPass
  refine ⟨all.then_admissible last, ?_⟩
  rw [run_append, all.2]
  have fails : mid.step .thread = .error (.undefined "xenevt_ring is read outside of its bounds") := by
    rw [last_slot] at prod
    simp only [EvtDev.step, xenevtThreadFunc, place, prod]
    rfl
  simp only [run, fails]

theorem event_handoff_once :
    Each (fun s event next => next.HandsOff ∧ s.DropsFull event next) EvtDev.step
      [.open_ 7, .thread, .thread, .ioctl 7 (.bindVirq 0 (.ok 1)), .fire 1, .thread, .thread, .thread,
        .thread, .thread, .thread] init :=
  (event_handoff _ (by decide)).mpr (by decide)

/-- An event reaches the instance that owned its port when it fired, and `KASSERT(d)` holds,
exactly in the runs in which no port is unbound or closed while an event of it waits in the ring,
none fires for a port that has just been unbound, and no 2048th is stored. -/
theorem event_isolation (events : List EvtEvent) (allowed : Admissible Admits EvtDev.step events init) :
    Throughout Isolated EvtDev.step events init ↔
      Admissible (fun s event => s.Admits event ∧ s.Short event ∧ s.KeepsOwners event)
        EvtDev.step events init := by
  refine throughout_iff HandoffInv (fun s inv => inv.isolated) ?_ ?_ events init init_inv allowed
  · intro s event inv allowed good
    obtain ⟨next, ran, after, -, -⟩ := inv.step allowed good.1 good.2
    exact ⟨next, ran, after⟩
  · intro s event next inv allowed bad ran holds
    by_cases short : s.Short event
    · have owned : next.awake.Owned := owned_of_drains holds.2
      exact inv.disowns (fun keeps => bad ⟨short, keeps⟩) ran owned
    · cases event with
      | fire port =>
        have overrun := (inv.overruns short ran).awake
        obtain ⟨-, n, t, drains, sleeps, all⟩ := holds
        have fewer : t.queued.length < next.stored.length := overrun.not_drained drains sleeps
        have same := congrArg length all
        simp only [length_map] at same
        omega
      | _ => exact short trivial

/-- A port that is unbound while its event waits: `KASSERT(d)` fires; and if another instance has
bound it by then, that one gets the event. -/
theorem unbound_event_misdelivered :
    (Admissible Admits EvtDev.step
        [.open_ 7, .ioctl 7 (.bindVirq 0 (.ok 1)), .fire 1, .ioctl 7 (.unbind 1), .unbindEnd,
          .thread, .thread, .thread] init ∧
      faultOf (run EvtDev.step
        [.open_ 7, .ioctl 7 (.bindVirq 0 (.ok 1)), .fire 1, .ioctl 7 (.unbind 1), .unbindEnd,
          .thread, .thread, .thread] init) = some (.halt "kernel diagnostic assertion \"d\" failed")) ∧
    Admissible Admits EvtDev.step
        [.open_ 7, .open_ 8, .ioctl 7 (.bindVirq 0 (.ok 1)), .fire 1, .close 7,
          .ioctl 8 (.bindVirq 0 (.ok 1)), .thread, .thread, .thread] init ∧
      ∃ final ∈ (run EvtDev.step
        [.open_ 7, .open_ 8, .ioctl 7 (.bindVirq 0 (.ok 1)), .fire 1, .close 7,
          .ioctl 8 (.bindVirq 0 (.ok 1)), .thread, .thread, .thread] init).toOption,
        final.stored = [(1, some 7)] ∧ final.queued = [(1, 8)] := by
  decide +kernel

theorem event_isolation_two_instances :
    Throughout Isolated EvtDev.step
      [.open_ 7, .open_ 8, .ioctl 7 (.bindVirq 0 (.ok 1)), .ioctl 8 (.bindUnboundPort 3 (.ok 2)),
        .fire 1, .fire 2, .thread, .thread, .thread, .thread, .thread, .thread,
        .ioctl 7 (.unbind 1), .unbindEnd, .close 8] init :=
  (event_isolation _ (by decide)).mpr (by decide)

end EvtDev
end Rumprun.Xen
