import Rumprun.Xen.NetReceive

/-! # Every packet that was accepted is delivered

The ring holds the packets that were accepted and not delivered, the one in delivery at its read
index: `myrecv` writes to the slot at the write index, which is another one. Whoever stores a packet
finds `viu_rcvr` set from the `blockprepare` on, so that a thread that sleeps is woken. -/

namespace Rumprun.Xen
open Core Scheduler StepRuns Function IndexRing PushPlace

/-- From the `blockprepare` to where `viu_rcvr` is cleared. -/
def PushPlace.waits : PushPlace → Bool
  | .prepared => true
  | .asleep => true
  | .woken => true
  | _ => false

namespace VirtifUser
variable {s : VirtifUser} {sys : System} {t : Tid} {event : NetEvent} {after : VirtifUser}

def Pending (s : VirtifUser) : Prop := s.viuRead ≠ s.viuWrite ∨ s.viuDying = true

/-- The thread, as the scheduler sees it. -/
structure ThreadInv (s : VirtifUser) : Prop where
  inv : SysInv s.sys
  service : s.Loops → ServiceInv s.sys s.viuThr s.place.stage s.Pending
  rcvr : s.viuRcvr = if s.place.waits = true then some s.viuThr else none

/-- The ring, and what went through it. -/
structure RingInv (s : VirtifUser) : Prop where
  readIn : s.viuRead < nbuf
  writeIn : s.viuWrite < nbuf
  history : s.accepted = s.delivered ++ s.waiting
  delivering : ∀ mypkt, s.place = .delivering mypkt → mypkt = s.viuRead ∧ s.viuRead ≠ s.viuWrite
  dropped : ∀ d ∈ s.dropped, d.1.length ≤ maxpkt → d.2 = nbuf - 1

structure NetInv (s : VirtifUser) : Prop extends ThreadInv s, RingInv s

theorem netInv_init (inv : SysInv sys) : (init sys).NetInv where
  inv := inv
  service := by
    rintro ⟨there, -⟩
    exact absurd rfl there
  rcvr := rfl
  readIn := by simp [init, nbuf]
  writeIn := by simp [init, nbuf]
  history := by simp [init, waiting, contents, count, nbuf]
  delivering := by simp [init]
  dropped := by simp [init]

/-! ## The ring -/

theorem waiting_length (s : VirtifUser) : s.waiting.length = count nbuf s.viuRead s.viuWrite := by
  rw [waiting, List.length_map, length_contents]

theorem RingInv.store (inv : s.RingInv) (data : List UInt8)
    (room : next nbuf s.viuWrite ≠ s.viuRead) : (s.store data).RingInv := by
  have waiting : (s.store data).waiting = s.waiting ++ [data] := by
    have pushed : contents nbuf
        (update s.viuPkts s.viuWrite ((s.viuPkts s.viuWrite).store data)) s.viuRead
          (next nbuf s.viuWrite) =
        contents nbuf s.viuPkts s.viuRead s.viuWrite ++ [(s.viuPkts s.viuWrite).store data] :=
      contents_push inv.readIn inv.writeIn room _
    simp only [VirtifUser.waiting, VirtifUser.store]
    rw [show (s.viuWrite + 1) % nbuf = next nbuf s.viuWrite from rfl, pushed,
      List.map_append, List.map_singleton, Onepkt.packet_store]
  constructor
  · exact inv.readIn
  · exact next_lt nbuf inv.writeIn
  · rw [waiting, ← List.append_assoc]
    exact congrArg (· ++ [data]) inv.history
  · intro mypkt is
    exact ⟨(inv.delivering mypkt is).1, room.symm⟩
  · exact inv.dropped

theorem RingInv.drop (inv : s.RingInv) (data : List UInt8)
    (cause : next nbuf s.viuWrite = s.viuRead ∨ maxpkt < data.length) : (s.drop data).RingInv :=
  { inv with
    dropped := by
      intro d mem short
      rcases List.mem_append.mp mem with old | new
      · exact inv.dropped d old short
      · rw [List.mem_singleton.mp new] at short ⊢
        rcases cause with full | long
        · have count := (full_iff inv.readIn inv.writeIn).mp full
          rw [← waiting_length] at count
          exact Nat.eq_sub_of_add_eq count
        · exact absurd short (Nat.not_le_of_lt long) }

theorem RingInv.finish (inv : s.RingInv) {mypkt : Nat} (is : s.place = .delivering mypkt) :
    s.accepted = (s.finish mypkt).delivered ++ (s.finish mypkt).waiting := by
  obtain ⟨rfl, some_⟩ := inv.delivering mypkt is
  have popped : s.waiting = (s.viuPkts s.viuRead).packet :: (s.finish s.viuRead).waiting := by
    rw [waiting, contents_pop inv.readIn inv.writeIn some_]
    rfl
  rw [inv.history, popped, VirtifUser.finish, List.append_assoc]
  rfl

/-! ## The thread -/

theorem PushPlace.awake {place : PushPlace} (is : place.waits = false) : place.stage.sleeps = false := by
  cases place with
  | prepared | asleep | woken => cases is
  | absent | starting | delivering | ended => rfl

theorem service_awake {stage : Stage} {pending : Prop} (service : ServiceInv sys t stage pending)
    (awake : stage.sleeps = false) (pending' : Prop) : ServiceInv sys t stage pending' :=
  { service with alerted := fun sleeps => absurd sleeps (by rw [awake]; simp) }

theorem wakeRcvr_none (none_ : s.viuRcvr = none) : s.wakeRcvr = .ok s := by
  rw [wakeRcvr, none_]

theorem wakeRcvr_some (some_ : s.viuRcvr = some t) (stepped : s.sys.step (.interrupt t) = .ok sys) :
    s.wakeRcvr = .ok { s with sys := sys } := by
  rw [wakeRcvr, some_]
  dsimp only
  rw [stepped]
  rfl

theorem ThreadInv.wakeRcvr (inv : s.ThreadInv) (next : VirtifUser) (sys : next.sys = s.sys)
    (thr : next.viuThr = s.viuThr) (rcvr : next.viuRcvr = s.viuRcvr) (place : next.place = s.place) :
    ∃ after, next.wakeRcvr = .ok { next with sys := after } ∧ ThreadInv { next with sys := after } := by
  have is : next.viuRcvr = if next.place.waits = true then some next.viuThr else none := by
    rw [rcvr, place, thr]
    exact inv.rcvr
  have loops : next.Loops ↔ s.Loops := by rw [Loops, Loops, place]
  cases waits : next.place.waits with
  | false =>
    refine ⟨next.sys, wakeRcvr_none (by rw [is, waits]; rfl), ?_, ?_, is⟩
    · rw [sys]
      exact inv.inv
    · intro there
      have service := inv.service (loops.mp there)
      rw [← sys, ← thr, ← place] at service
      exact service_awake service (PushPlace.awake waits) next.Pending
  | true =>
    have there : next.Loops := by
      constructor <;> intro at_ <;> rw [at_] at waits <;> cases waits
    have service := inv.service (loops.mp there)
    rw [← sys, ← thr, ← place] at service
    have woken : next.sys.step (.interrupt next.viuThr) =
        .ok { next.sys with sched := next.sys.sched.woken next.viuThr } := by
      rw [System.step, service.inv.core.wake_eq service.notDead]
      rfl
    have after := service.wake next.Pending
    exact ⟨_, wakeRcvr_some (by rw [is, waits]; rfl) woken, after.inv, fun _ => after, is⟩

theorem NetInv.again (sysInv : SysInv s.sys) (current : s.sys.sched.current = s.viuThr)
    (active : s.sys.pc s.viuThr = .active .caller) (remains : (s.sys.pc s.viuThr).exiting = false)
    (rcvr : s.viuRcvr = none) (ring : ∀ place, (∀ mypkt, place = delivering mypkt →
      mypkt = s.viuRead ∧ s.viuRead ≠ s.viuWrite) → RingInv { s with place := place }) :
    ∃ after, s.again = .ok after ∧ after.NetInv := by
  have service (stage : Stage) (awake : stage.sleeps = false) (pending : Prop) :
      ServiceInv s.sys s.viuThr stage pending := by
    refine ⟨sysInv, remains, fun _ => active, ?_, ?_, ?_⟩
    · rintro rfl
      cases awake
    · rintro rfl
      cases awake
    · intro sleeps
      rw [awake] at sleeps
      cases sleeps
  unfold VirtifUser.again
  by_cases dying : s.viuDying = true
  · rw [if_pos dying]
    refine ⟨_, rfl, ⟨sysInv, ?_, rcvr⟩, ring .ended (by simp)⟩
    rintro ⟨-, there⟩
    exact absurd rfl there
  · rw [if_neg dying]
    by_cases empty : s.viuRead = s.viuWrite
    · rw [if_pos empty]
      have nothing : ¬ s.Pending := fun pending => pending.elim (fun some_ => some_ empty) dying
      obtain ⟨sys, called, prepared⟩ := (service .own rfl True).prepare active inftime nothing
      rw [called]
      refine ⟨_, rfl, ⟨prepared.inv, fun _ => prepared, ?_⟩, ?_⟩
      · show some s.sys.sched.current = some s.viuThr
        rw [current]
      · exact { ring .prepared (by simp) with }
    · rw [if_neg empty]
      refine ⟨_, rfl, ⟨sysInv, fun _ => service _ rfl _, rcvr⟩, ?_⟩
      apply ring (.delivering s.viuRead)
      intro mypkt is
      cases is
      exact ⟨rfl, empty⟩

section
variable (inv : s.NetInv)
include inv

theorem NetInv.pusher (allowed : s.Admits .pusher) : ∃ after, s.pusher = .ok after ∧ after.NetInv := by
  obtain ⟨current, loops, awake, active⟩ := allowed
  have service := inv.service loops
  have rcvr := inv.rcvr
  unfold VirtifUser.pusher
  cases place : s.place with
  | absent => exact absurd place loops.1
  | ended => exact absurd place loops.2
  | asleep => exact absurd place awake
  | prepared =>
    rw [place] at service rcvr
    obtain ⟨sys, called, asleep⟩ := service.block
    dsimp only
    rw [called]
    refine ⟨_, rfl, ⟨asleep.inv, fun _ => asleep, rcvr⟩, ?_⟩
    exact { inv.toRingInv with delivering := by simp }
  | starting =>
    rw [place] at rcvr
    have ring := inv.toRingInv
    exact NetInv.again inv.inv current (active (by simp [place])) service.remains rcvr
      fun _ fits => { ring with delivering := fits }
  | woken =>
    have ring := inv.toRingInv
    exact NetInv.again inv.inv current (active (by simp [place])) service.remains rfl
      fun _ fits => { ring with delivering := fits }
  | delivering mypkt =>
    rw [place] at rcvr
    have ring := inv.toRingInv
    exact NetInv.again inv.inv current (active (by simp [place])) service.remains rcvr
      fun _ fits =>
        { readIn := next_lt nbuf ring.readIn
          writeIn := ring.writeIn
          history := ring.finish place
          delivering := fits
          dropped := ring.dropped }

theorem NetInv.myrecv (data : List UInt8) : ∃ after, s.myrecv data = .ok after ∧ after.NetInv := by
  have ring := inv.toRingInv
  unfold VirtifUser.myrecv
  dsimp only
  by_cases full : (s.viuWrite + 1) % nbuf = s.viuRead
  · rw [if_pos full]
    exact ⟨_, rfl, { inv.toThreadInv with }, ring.drop data (.inl full)⟩
  · rw [if_neg full]
    by_cases long : data.length > maxpkt
    · rw [if_pos long]
      exact ⟨_, rfl, { inv.toThreadInv with }, ring.drop data (.inr long)⟩
    · rw [if_neg long]
      obtain ⟨sys, woken, thread⟩ := inv.toThreadInv.wakeRcvr (s.store data) rfl rfl rfl rfl
      exact ⟨_, woken, thread, { ring.store data full with }⟩

theorem NetInv.dying : ∃ after, s.step .dying = .ok after ∧ after.NetInv := by
  obtain ⟨sys, woken, thread⟩ := inv.toThreadInv.wakeRcvr { s with viuDying := true } rfl rfl rfl rfl
  exact ⟨_, woken, thread, { inv.toRingInv with }⟩

theorem NetInv.create {pages tlsarea : Nat} (allowed : s.Admits (.create t pages tlsarea)) :
    ∃ after, s.create t pages tlsarea = .ok after ∧ after.NetInv := by
  obtain ⟨absent, admitted⟩ := allowed
  obtain ⟨sys, stepped, moves⟩ := inv.inv.steps (.call (.create t true 0 0 pages tlsarea)) admitted
  have after := inv.inv.moves moves
  have called : s.sys.call (.create t true 0 0 pages tlsarea) = .ok sys := stepped
  have virgin : sys.pc t = .virgin := by
    obtain ⟨sched, -, is⟩ := bind_eq_ok called
    cases is
    exact update_self ..
  have rcvr := inv.rcvr
  rw [absent] at rcvr
  refine ⟨{ s with sys := sys, viuThr := t, place := .starting }, ?_, ⟨after, ?_, rcvr⟩, ?_⟩
  · rw [VirtifUser.create, called]
    rfl
  · intro _
    exact ⟨after, by rw [virgin]; rfl, by simp [stage], by simp [stage],
      by simp [stage], by simp [stage, Stage.sleeps]⟩
  · exact { inv.toRingInv with delivering := by simp }

theorem NetInv.sched {event : Event} (allowed : s.Admits (.sched event)) :
    ∃ after, s.sched event = .ok after ∧ after.NetInv := by
  have admitted : s.sys.Admits event ∧
      (s.Loops → s.sys.AdmitsService s.viuThr s.place.stage event) := by
    by_cases loops : s.Loops
    · rw [Admits, if_pos loops] at allowed
      exact ⟨allowed.admits, fun _ => allowed⟩
    · rw [Admits, if_neg loops] at allowed
      exact ⟨allowed, fun there => absurd there loops⟩
  obtain ⟨sys, stepped, moves⟩ := inv.inv.steps event admitted.1
  have after := inv.inv.moves moves
  have service (loops : s.Loops) : ServiceInv sys s.viuThr s.place.stage s.Pending :=
    (inv.service loops).sched (admitted.2 loops) stepped
  unfold VirtifUser.sched
  rw [stepped, ok_bind]
  by_cases returns : event = .advance ∧ s.sys.sched.current = s.viuThr ∧ s.place = .asleep
  · rw [if_pos returns]
    obtain ⟨rfl, current, place⟩ := returns
    have loops : s.Loops := by rw [Loops, place]; simp
    have asleep := inv.service loops
    rw [place] at asleep
    have blocking := asleep.asleep rfl
    rw [← current] at blocking
    have active : sys.pc s.sys.sched.current = .active .caller :=
      inv.inv.advance_return (Pc.resumed_of_advancing blocking admitted.1) stepped
    have rcvr := inv.rcvr
    rw [place] at rcvr
    refine ⟨_, rfl, ⟨after, ?_, rcvr⟩, { inv.toRingInv with delivering := by simp }⟩
    intro _
    rw [current] at active
    exact (service loops).goto active rfl _
  · rw [if_neg returns]
    exact ⟨_, rfl, ⟨after, service, inv.rcvr⟩, { inv.toRingInv with }⟩

theorem NetInv.step (allowed : s.Admits event) : ∃ after, s.step event = .ok after ∧ after.NetInv := by
  cases event with
  | create t pages tlsarea => exact inv.create allowed
  | myrecv data => exact inv.myrecv data
  | pusher => exact inv.pusher allowed
  | dying => exact inv.dying
  | sched event => exact inv.sched allowed

end

/-! ## Every run -/

/-- `pusher` is in `bmk_sched_block`, neither running nor on the run queue. -/
def Blocked (s : VirtifUser) : Prop := s.place = .asleep ∧ ¬ s.sys.Ready s.viuThr

/-- What is said of every state: the packets that were accepted are those that were delivered and those
in the ring, in this order; what is in delivery is the next of them; a packet that is not too long was
dropped with `NBUF - 1` packets in the ring; and nobody is blocked unless the ring is empty. -/
structure HandsOver (s : VirtifUser) : Prop where
  history : s.accepted = s.delivered ++ s.waiting
  delivering : ∀ mypkt, s.place = .delivering mypkt →
    s.accepted[s.delivered.length]? = some (s.viuPkts mypkt).packet
  dropped : ∀ d ∈ s.dropped, d.1.length ≤ maxpkt → d.2 = nbuf - 1
  awake : s.Blocked → s.viuRead = s.viuWrite

/-- No step writes to the buffer that is in delivery. -/
def Untouched (s next : VirtifUser) : Prop :=
  ∀ mypkt, s.place = .delivering mypkt → next.viuPkts mypkt = s.viuPkts mypkt

theorem NetInv.handsOver (inv : s.NetInv) : s.HandsOver where
  history := inv.history
  delivering := by
    intro mypkt is
    obtain ⟨rfl, some_⟩ := inv.delivering mypkt is
    rw [inv.history, List.getElem?_append_right (le_rfl), Nat.sub_self, waiting,
      contents_pop inv.readIn inv.writeIn some_]
    rfl
  dropped := inv.dropped
  awake := by
    rintro ⟨asleep, notReady⟩
    by_contra some_
    have loops : s.Loops := by rw [Loops, asleep]; simp
    have service := inv.service loops
    rw [asleep] at service
    exact notReady (service.ready rfl (.inl some_))

theorem again_viuPkts (ran : s.again = .ok after) : after.viuPkts = s.viuPkts := by
  unfold again at ran
  split at ran
  · cases ran
    rfl
  · split at ran
    · obtain ⟨sys, -, ran⟩ := bind_eq_ok ran
      cases ran
      rfl
    · cases ran
      rfl

theorem wakeRcvr_viuPkts (ran : s.wakeRcvr = .ok after) : after.viuPkts = s.viuPkts := by
  unfold wakeRcvr at ran
  split at ran
  · cases ran
    rfl
  · obtain ⟨sys, -, ran⟩ := bind_eq_ok ran
    cases ran
    rfl

theorem NetInv.untouched (inv : s.NetInv) (stepped : s.step event = .ok after) : s.Untouched after := by
  intro mypkt place
  cases event with
  | create t pages tlsarea =>
    obtain ⟨sys, -, ran⟩ := bind_eq_ok stepped
    cases ran
    rfl
  | pusher =>
    simp only [VirtifUser.step, VirtifUser.pusher, place] at stepped
    exact congrFun (again_viuPkts stepped) mypkt
  | dying => exact congrFun (wakeRcvr_viuPkts stepped) mypkt
  | sched event =>
    obtain ⟨sys, -, ran⟩ := bind_eq_ok stepped
    split at ran
    · cases ran
      rfl
    · cases ran
      rfl
  | myrecv data =>
    obtain ⟨rfl, some_⟩ := inv.delivering mypkt place
    simp only [VirtifUser.step, VirtifUser.myrecv] at stepped
    split at stepped
    · cases stepped
      rfl
    · split at stepped
      · cases stepped
        rfl
      · -- The packet goes to the slot at the write index.
        rw [wakeRcvr_viuPkts stepped]
        exact update_of_ne some_ ..

/-- In every run of `myrecv`, `pusher` and the rest of the system. -/
theorem receive_hands_over (main stack stackSize tlsarea : Nat) (stacked : stack ≠ 0) :
    ∃ boot, System.start main stack stackSize tlsarea = .ok boot ∧
      ∀ events, Admissible Admits step events (init boot) →
        Throughout HandsOver step events (init boot) ∧
          Each (fun s _ next => s.Untouched next) step events (init boot) := by
  refine ⟨_, System.start_eq main stackSize tlsarea stacked, ?_⟩
  intro events allowed
  have start := netInv_init (System.mainOnly_inv main stack tlsarea)
  constructor
  · exact throughout_of_invariant NetInv (fun _ inv => inv.handsOver)
      (fun _ _ inv allowed => inv.step allowed) events _ start allowed
  · refine each_of_invariant NetInv ?_ events _ start allowed
    intro s event inv allowed
    obtain ⟨after, stepped, inv'⟩ := inv.step allowed
    exact ⟨after, stepped, inv.untouched stepped, inv'⟩

/-- The thread sleeps; a packet comes before its `bmk_sched_block`, and one in the delivery of it. -/
def twoPacketsRun : List NetEvent :=
  [.create 2 0x9000 0x20, .sched (.call .yield), .sched (.turn 100), .pusher, .myrecv [1, 2], .pusher,
    .sched (.turn 200), .sched .advance, .sched (.call .yield), .sched (.turn 300), .sched .advance,
    .pusher, .myrecv [3], .pusher, .pusher]

theorem receive_hands_over_twoPackets :
    ∃ boot ∈ (System.start 1 0x8000 0x1000 0x10).toOption,
      (∃ final ∈ (run step twoPacketsRun (init boot)).toOption, final.delivered = [[1, 2], [3]]) ∧
        Throughout HandsOver step twoPacketsRun (init boot) ∧
          Each (fun s _ next => s.Untouched next) step twoPacketsRun (init boot) := by
  have evaluated : ∀ boot ∈ (System.start 1 0x8000 0x1000 0x10).toOption,
      Admissible Admits step twoPacketsRun (init boot) ∧
      ∃ final ∈ (run step twoPacketsRun (init boot)).toOption, final.delivered = [[1, 2], [3]] := by
    decide +kernel
  obtain ⟨boot, booted, keeps⟩ := receive_hands_over 1 0x8000 0x1000 0x10 (by decide)
  have started : boot ∈ (System.start 1 0x8000 0x1000 0x10).toOption := by
    rw [booted]
    rfl
  obtain ⟨allowed, delivered⟩ := evaluated boot started
  exact ⟨boot, started, delivered, keeps twoPacketsRun allowed⟩

end VirtifUser
end Rumprun.Xen
