import Rumprun.Core.StepEffects
import Mathlib.Order.Bounds.Basic

/-! # Deadlines

The first thing that happens to a thread after `bmk_sched_blockprepare_timeout` decides
the fate of its deadline: a call of `bmk_sched_wake` or a pass of `schedule()` that reads
a clock at or after it. -/

namespace Rumprun.Core.Scheduler
open StepRuns Function Sched

inductive Fate where
  | idle
  | waiting (deadline : Int)
  | woken
  | expired (curtime : Int)
  deriving DecidableEq, Repr

/-- The flag `timedout` tells how the wait has ended. -/
def Fate.Ended (timedout : Bool) : Fate → Prop
  | .woken => timedout = false
  | .expired _ => timedout = true
  | _ => False

/-- A turn of `schedule()` that reads `curtime`. -/
def Fate.pass (curtime : Int) : Fate → Fate
  | .waiting deadline =>
    if deadline ≠ inftime ∧ deadline ≤ curtime then .expired curtime else .waiting deadline
  | fate => fate

def Fate.wake : Fate → Fate
  | .waiting _ => .woken
  | fate => fate

def nextFate (sys : System) (event : Event) (t : Tid) (fate : Fate) : Fate :=
  match sys.prepares event with
  | some deadline => if t = sys.sched.current then .waiting deadline else fate
  | none =>
    match event with
    | .turn curtime => fate.pass curtime
    | _ => if sys.wakes event = some t then fate.wake else fate

structure TimedSys where
  sys : System
  fate : Tid → Fate

namespace TimedSys

def step (s : TimedSys) (event : Event) : Except Stop TimedSys := do
  let sys ← s.sys.step event
  return { sys := sys, fate := fun t => nextFate s.sys event t (s.fate t) }

def Admits (s : TimedSys) (event : Event) : Prop := s.sys.Admits event

instance decidableAdmits (s : TimedSys) (event : Event) : Decidable (s.Admits event) :=
  System.decidableAdmits s.sys event

def init (sys : System) : TimedSys := { sys := sys, fate := fun _ => .idle }

end TimedSys

/-- What the current thread's `bmk_sched_block` returns, behind its `schedule()`. -/
def System.blockResult (sys : System) : Except Stop Nat := do
  let sys ← sys.reap
  let (_, rv) ← sys.sched.bmkSchedBlockReturn
  return rv

/-! ## The invariant -/

def Fate.Fits (w : Wait) : Fate → Prop
  | .idle => False
  | .waiting deadline => w = ⟨deadline, {Sched.waitQueue deadline}, false⟩
  | .woken => w.timedout = false ∧ w.qmask = {.runq}
  | .expired _ => w.timedout = true ∧ w.qmask = {.runq}

structure Tracks (s : TimedSys) : Prop where
  sys : SysInv s.sys
  waits : ∀ t, (s.sys.pc t).waits = true → (s.fate t).Fits (s.sys.sched.wait t)
  resumed : ∀ t site, s.sys.pc t = .resumed site →
    (s.fate t).Ended (s.sys.sched.thread t).flags.timedout

namespace Fate
variable {w : Wait} {fate : Fate}

theorem Fits.wake (fits : fate.Fits w) :
    fate.wake.Fits { w with wakeupTime := inftime, qmask := {.runq} } := by
  cases fate with
  | idle => exact fits
  | waiting deadline =>
    cases fits
    exact ⟨rfl, rfl⟩
  | woken | expired => exact ⟨fits.1, rfl⟩

theorem Ended.wake {timedout : Bool} (ended : fate.Ended timedout) : fate.wake.Ended timedout := by
  cases fate with
  | waiting deadline => exact ended.elim
  | _ => exact ended

theorem Fits.decided (fits : fate.Fits w) (ready : .runq ∈ w.qmask) : fate.Ended w.timedout := by
  cases fate with
  | idle => exact fits
  | waiting deadline =>
    cases fits
    exact absurd (Finset.mem_singleton.mp ready).symm (waitQueue_ne_runq deadline)
  | woken | expired => exact fits.1

theorem Fits.early {curtime : Int} (fits : fate.Fits w)
    (early : .timeq ∈ w.qmask → curtime < w.wakeupTime) : (fate.pass curtime).Fits w := by
  cases fate with
  | waiting deadline =>
    have same : (Fate.waiting deadline).pass curtime = .waiting deadline := by
      apply if_neg
      rintro ⟨finite, due⟩
      cases fits
      have late := early (by rw [waitQueue, if_pos finite]; exact Finset.mem_singleton_self _)
      exact absurd late (not_lt.mpr due)
    rw [same]
    exact fits
  | _ => exact fits

theorem Fits.due {curtime : Int} (fits : fate.Fits w) (queued : .timeq ∈ w.qmask)
    (finite : w.wakeupTime ≠ inftime) (due : w.wakeupTime ≤ curtime) :
    (fate.pass curtime).Fits ⟨inftime, {.runq}, true⟩ := by
  cases fate with
  | idle => exact fits.elim
  | waiting deadline =>
    cases fits
    rw [Fate.pass, if_pos ⟨finite, due⟩]
    exact ⟨rfl, rfl⟩
  | woken | expired => exact absurd queued (by rw [fits.2]; decide)

end Fate
namespace Tracks
variable {s : TimedSys} {event : Event} {next : System} {curtime : Int}

theorem init {sys : System} (inv : SysInv sys) (quiet : ∀ t, (sys.pc t).waits = false)
    (fresh : ∀ t site, sys.pc t ≠ .resumed site) : Tracks (TimedSys.init sys) where
  sys := inv
  waits := by
    intro t waits
    dsimp only [TimedSys.init] at waits
    rw [quiet t] at waits
    cases waits
  resumed := fun t site place => absurd place (fresh t site)

theorem effect (tracks : Tracks s) (after : SysInv next) (effect : Effect s.sys event next)
    (own : ∀ curtime, event ≠ .turn curtime)
    (calls : ∀ deadline, s.sys.prepares event = some deadline →
      (s.sys.pc s.sys.sched.current).waits = false ∧
        ∀ site, s.sys.pc s.sys.sched.current ≠ .resumed site) :
    Tracks { sys := next, fate := fun t => nextFate s.sys event t (s.fate t) } := by
  -- for a thread that does not start a wait here
  have fate : ∀ t, (s.sys.prepares event = none ∨ t ≠ s.sys.sched.current) →
      nextFate s.sys event t (s.fate t) =
        if s.sys.prepares event = none ∧ s.sys.wakes event = some t then (s.fate t).wake
        else s.fate t := by
    intro t apart
    unfold nextFate
    cases asks : s.sys.prepares event with
    | some deadline =>
      have other := apart.resolve_left (by rw [asks]; nofun)
      simp [other]
    | none =>
      cases event with
      | turn curtime => exact absurd rfl (own curtime)
      | _ => simp
  have unasked : ∀ t, s.sys.wakes event = some t → s.sys.prepares event = none := by
    intro t wakes
    unfold System.wakes at wakes
    unfold System.prepares
    split at wakes
    · rfl
    · rfl
    · split at wakes
      · next place => rw [place]
      · next place => rw [place]
      · cases wakes
    · cases wakes
  refine ⟨after, ?_, ?_⟩
  · intro t waits
    rcases effect.entered t waits with was | ⟨rfl, deadline, asks, now⟩
    · have apart : s.sys.prepares event = none ∨ t ≠ s.sys.sched.current := by
        cases asks : s.sys.prepares event with
        | none => exact .inl rfl
        | some deadline =>
          right
          rintro rfl
          rw [(calls deadline asks).1] at was
          cases was
      dsimp only
      rw [fate t apart]
      by_cases wakes : s.sys.wakes event = some t
      · rw [if_pos ⟨unasked t wakes, wakes⟩, effect.woken t was wakes]
        exact (tracks.waits t was).wake
      · rw [if_neg fun both => wakes both.2, effect.spared t was wakes]
        exact tracks.waits t was
    · dsimp only
      unfold nextFate
      rw [asks, now]
      dsimp only
      rw [if_pos rfl]
      rfl
  · intro t site place
    obtain ⟨was, same⟩ := effect.resumed t site place
    have apart : s.sys.prepares event = none ∨ t ≠ s.sys.sched.current := by
      cases asks : s.sys.prepares event with
      | none => exact .inl rfl
      | some deadline =>
        right
        rintro rfl
        exact absurd was ((calls deadline asks).2 site)
    have ended := tracks.resumed t site was
    dsimp only
    rw [same, fate t apart]
    split
    · exact ended.wake
    · exact ended

theorem pass {waketime w : Int} {s' : Sched} (tracks : Tracks s)
    (passed : Passed curtime waketime s.sys.sched s' w) {t : Tid}
    (waits : (s.sys.pc t).waits = true) : ((s.fate t).pass curtime).Fits (s'.wait t) := by
  have fits := tracks.waits t waits
  have queues := tracks.sys.core.queues
  by_cases due : t ∈ s.sys.sched.expired curtime
  · rw [passed.timedout t due]
    obtain ⟨mem, le⟩ := List.mem_filter.mp due
    exact fits.due ((queues.mem_iff _ _).mp mem).2 (queues.finite t mem)
      (of_decide_eq_true le)
  · rw [wait_congr (passed.others t due)]
    apply fits.early
    intro queued
    have live : s.sys.sched.live t = true := by
      have agrees := tracks.sys.core.agrees t
      unfold Pc.waits at waits
      split at waits
      · next place => rw [place] at agrees; exact agrees.2.1
      · next place => rw [place] at agrees; exact agrees.1
      · cases waits
    have mem := (queues.mem_iff .timeq t).mpr ⟨live, queued⟩
    by_contra late
    exact due (List.mem_filter.mpr ⟨mem, decide_eq_true (not_lt.mp late)⟩)

theorem turn (tracks : Tracks s) (after : SysInv next)
    (place : System.inSchedule (s.sys.pc s.sys.sched.current) = true)
    (turned : s.sys.turn curtime = .ok next) :
    Tracks { sys := next, fate := fun t => (s.fate t).pass curtime } := by
  obtain ⟨s', w, passed, decided⟩ := tracks.sys.scheduleTurn_spec place curtime
  have nobody : ∀ t site, s.sys.pc t ≠ .resumed site := by
    intro t site is
    rw [← tracks.sys.core.current_of_resumed is, is] at place
    cases place
  rcases decided with ⟨-, -, stays⟩ | ⟨n, rest, pc, runq, -, resumes, switches⟩
  · rw [turned] at stays
    cases stays
    exact ⟨after, fun t waits => tracks.pass passed waits, fun t site is => absurd is (nobody t site)⟩
  · rw [turned] at switches
    cases switches
    have wait : ∀ t, t ≠ n → (s'.switched n).wait t = s'.wait t := by
      intro t other
      simp only [wait, switched]
      rw [if_neg other]
      split <;> rfl
    refine ⟨after, ?_, ?_⟩
    · intro t waits
      dsimp only at waits ⊢
      by_cases here : t = n
      · subst here
        rw [update_self] at waits
        unfold System.resume at resumes
        split at resumes <;> cases resumes <;> cases waits
      · rw [update_of_ne here] at waits
        rw [wait t here]
        exact tracks.pass passed waits
    · intro t site is
      dsimp only at is ⊢
      by_cases here : t = n
      · subst here
        rw [update_self] at is
        have blocked : s.sys.pc t = .blocking site := by
          unfold System.resume at resumes
          split at resumes
          · cases resumes; cases is
          · next at_ => cases resumes; cases is; exact at_
          · cases resumes; cases is
          · cases resumes
          · cases resumes
        have fits := tracks.pass passed (show (s.sys.pc t).waits = true by rw [blocked]; rfl)
        have ready : .runq ∈ (s'.wait t).qmask := by
          by_cases due : t ∈ s.sys.sched.expired curtime
          · rw [passed.timedout t due]
            exact Finset.mem_singleton_self _
          · have mem : t ∈ s.sys.sched.queue .runq ++ s.sys.sched.expired curtime := by
              rw [← passed.runq, runq]
              exact List.mem_cons_self
            rw [wait_congr (passed.others t due)]
            have queued := (List.mem_append.mp mem).resolve_right due
            exact ((tracks.sys.core.queues.mem_iff _ _).mp queued).2
        simp only [switched, if_pos]
        exact fits.decided ready
      · rw [update_of_ne here] at is
        exact absurd is (nobody t site)

theorem step (tracks : Tracks s) (allowed : s.Admits event) :
    ∃ next, s.step event = .ok next ∧ Tracks next := by
  obtain ⟨next, stepped, moves⟩ := tracks.sys.steps event allowed
  have after := tracks.sys.moves moves
  refine ⟨_, by rw [TimedSys.step, stepped]; rfl, ?_⟩
  by_cases turns : ∃ curtime, event = .turn curtime
  · obtain ⟨curtime, rfl⟩ := turns
    exact tracks.turn after allowed stepped
  · have own : ∀ curtime, event ≠ .turn curtime := fun curtime is => turns ⟨curtime, is⟩
    apply tracks.effect after (tracks.sys.effect allowed stepped own) own
    intro deadline asks
    unfold System.prepares at asks
    split at asks
    · have place : s.sys.pc s.sys.sched.current = .active .caller := allowed
      rw [place]
      exact ⟨rfl, nofun⟩
    · split at asks
      · next place => rw [place]; exact ⟨rfl, nofun⟩
      · next place => rw [place]; exact ⟨rfl, nofun⟩
      · cases asks
    · cases asks

end Tracks

/-! ## Timeouts -/

/-- A turn that has read `curtime` and leaves `s'`: whom it has found expired and put on the run
queue, and what it decides. -/
structure PassSound (s : Sched) (curtime : Int) (s' : Sched) (turn : Turn) : Prop where
  queued : s'.queue .runq = s.queue .runq ++ s.expired curtime
  ordered : (s.expired curtime).Pairwise fun t u =>
    (s.thread t).wakeupTime ≤ (s.thread u).wakeupTime
  picks : ∀ next, turn = .run next → ∀ t ∈ s'.queue .timeq, curtime < (s'.thread t).wakeupTime
  blocks : ∀ waketime, turn = .block waketime → s'.queue .runq = [] ∧
    IsLeast (insert (curtime + blocktimeMax)
      { deadline | ∃ t ∈ s'.queue .timeq, deadline = (s'.thread t).wakeupTime }) waketime

structure TimeoutsSound (s : TimedSys) : Prop where
  result : ∀ site, s.sys.pc s.sys.sched.current = .resumed site →
    ∃ rv, s.sys.blockResult = .ok rv ∧
      (rv = etimedout ↔ ∃ curtime, s.fate s.sys.sched.current = .expired curtime)
  pass : System.inSchedule (s.sys.pc s.sys.sched.current) = true → ∀ curtime, ∃ s' turn,
    s.sys.sched.scheduleTurn curtime = .ok (s', turn) ∧ PassSound s.sys.sched curtime s' turn

theorem Passed.sound {s s' : Sched} {curtime w : Int} {turn : Turn} (queues : QueueInv s)
    (passed : Passed curtime (curtime + blocktimeMax) s s' w)
    (decided : turn = .block w ∧ s'.queue .runq = [] ∨ ∃ n, turn = .run n) :
    PassSound s curtime s' turn where
  queued := passed.runq
  ordered := queues.sorted.filter _
  picks := by
    intro next _ t mem
    rw [passed.timeq, List.mem_filter] at mem
    rw [passed.others t ?_]
    · exact of_decide_eq_true mem.2
    · intro due
      exact absurd (of_decide_eq_true (List.mem_filter.mp due).2)
        (not_le.mpr (of_decide_eq_true mem.2))
  blocks := by
    intro waketime is
    rcases decided with ⟨blocked, empty⟩ | ⟨n, runs⟩
    · rw [blocked] at is
      cases is
      obtain ⟨bound, lower, least⟩ := passed.least
      refine ⟨empty, ?_, ?_⟩
      · exact least
      · rintro deadline (rfl | ⟨t, mem, rfl⟩)
        · exact bound
        · exact lower t mem
    · rw [runs] at is
      cases is

theorem Tracks.sound {s : TimedSys} (tracks : Tracks s) : TimeoutsSound s where
  result := by
    intro site place
    obtain ⟨-, -, -, -, -, alive⟩ := tracks.sys.core.agrees_current place
    have kept := (JoinInv.reaped_live tracks.sys.core _).2 ⟨tracks.sys.core.current_live, alive⟩
    refine ⟨if (s.sys.sched.thread s.sys.sched.current).flags.timedout = true then etimedout else 0,
      ?_, ?_⟩
    · rw [System.blockResult, tracks.sys.reap_eq, ok_bind, bmkSchedBlockReturn,
        deref_eq (by exact kept), ok_bind]
      rfl
    · have ended := tracks.resumed _ site place
      cases fate : s.fate s.sys.sched.current with
      | idle | waiting => rw [fate] at ended; exact ended.elim
      | woken => rw [fate] at ended; rw [show _ = false from ended]; simp [etimedout]
      | expired curtime => rw [fate] at ended; rw [show _ = true from ended]; simp
  pass := by
    intro place curtime
    obtain ⟨s', w, passed, decided⟩ := tracks.sys.scheduleTurn_spec place curtime
    rcases decided with ⟨empty, turned, -⟩ | ⟨n, rest, pc, -, turned, -⟩
    · exact ⟨s', _, turned, passed.sound tracks.sys.core.queues (.inl ⟨rfl, empty⟩)⟩
    · exact ⟨s', _, turned, passed.sound tracks.sys.core.queues (.inr ⟨n, rfl⟩)⟩

theorem Tracks.boot (main stack tlsarea : Nat) :
    Tracks (TimedSys.init (System.mainOnly main stack tlsarea)) := by
  refine .init (System.mainOnly_inv main stack tlsarea) ?_ ?_
  · intro t
    by_cases here : t = main
    · simp [System.mainOnly, here, Pc.waits]
    · simp [System.mainOnly, here, Pc.waits]
  · intro t site
    by_cases here : t = main
    · simp [System.mainOnly, here]
    · simp [System.mainOnly, here]

/-- In every state of every run: a thread that returns from
`bmk_sched_block` gets `BMK_ETIMEDOUT` exactly when its finite deadline had passed, by the clock that
a turn of `schedule()` read, before anybody woke it, and every turn is sound. -/
theorem timeouts_fire_exactly_when_due (main stack stackSize tlsarea : Nat) (stacked : stack ≠ 0) :
    ∃ boot, System.start main stack stackSize tlsarea = .ok boot ∧
      ∀ events, Admissible TimedSys.Admits TimedSys.step events (TimedSys.init boot) →
        Throughout TimeoutsSound TimedSys.step events (TimedSys.init boot) := by
  refine ⟨_, System.start_eq main stackSize tlsarea stacked, ?_⟩
  intro events allowed
  exact throughout_of_invariant Tracks (fun _ tracks => tracks.sound)
    (fun _ _ tracks allowed => tracks.step allowed) events _ (.boot main stack tlsarea) allowed

theorem timeouts_fire_exactly_when_due_join :
    ∃ boot, System.start 1 0x8000 0x1000 0x10 = .ok boot ∧
      Throughout TimeoutsSound TimedSys.step joinRun (TimedSys.init boot) := by
  obtain ⟨boot, booted, runs⟩ := timeouts_fire_exactly_when_due 1 0x8000 0x1000 0x10 (by decide)
  have allowed : ∀ sys ∈ (System.start 1 0x8000 0x1000 0x10).toOption,
      Admissible TimedSys.Admits TimedSys.step joinRun (TimedSys.init sys) := by
    decide +kernel
  exact ⟨boot, booted, runs joinRun (allowed boot (by rw [booted]; rfl))⟩

end Rumprun.Core.Scheduler
