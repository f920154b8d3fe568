import Rumprun.Core.PendingWakes

/-! # What a step does to the run queue and to the threads that wait

`Effect` says it for every event but a turn of `schedule()`, `Passed` for the part
of a turn that goes over the timeout queue. -/

namespace Rumprun.Core.Scheduler
open Function Sched List
variable {s s' : Sched} {t : Tid} {sys : System} {curtime waketime w : Int}

/-- From `bmk_sched_blockprepare` until the thread is switched to. -/
def Pc.waits : Pc → Bool
  | .prepared _ => true
  | .blocking _ => true
  | _ => false

def Pc.isResumed : Pc → Bool
  | .resumed _ => true
  | _ => false

structure Wait where
  wakeupTime : Int
  qmask : Finset Queue
  timedout : Bool

def Sched.wait (s : Sched) (t : Tid) : Wait :=
  ⟨(s.thread t).wakeupTime, (s.thread t).flags.qmask, (s.thread t).flags.timedout⟩

namespace System

/-- The thread that a step passes to `bmk_sched_wake`; the turns of `schedule()` are apart. -/
def wakes (sys : System) : Event → Option Tid
  | .call (.wake t) => some t
  | .interrupt t => some t
  | .advance =>
    match sys.pc sys.sched.current with
    | .active (.joinWake j) => some j
    | .active .exitSignal =>
      (sys.sched.joinwq.find? fun jw => jw.wanted = sys.sched.current).map JoinWaiter.thread
    | _ => none
  | _ => none

/-- The deadline that a step gives to `bmk_sched_blockprepare_timeout`. -/
def prepares (sys : System) : Event → Option Int
  | .call (.blockprepareTimeout deadline) => some deadline
  | .advance =>
    match sys.pc sys.sched.current with
    | .active (.joinPrepare _) => some inftime
    | .active .exitPrepare => some inftime
    | _ => none
  | _ => none

end System

structure Effect (sys : System) (event : Event) (next : System) : Prop where
  grows : ∃ new, next.sched.queue .runq = sys.sched.queue .runq ++ new
  spared : ∀ t, (sys.pc t).waits = true → sys.wakes event ≠ some t →
    next.sched.wait t = sys.sched.wait t
  woken : ∀ t, (sys.pc t).waits = true → sys.wakes event = some t →
    next.sched.wait t = { sys.sched.wait t with wakeupTime := inftime, qmask := {.runq} }
  entered : ∀ t, (next.pc t).waits = true → (sys.pc t).waits = true ∨
    t = sys.sched.current ∧ ∃ deadline, sys.prepares event = some deadline ∧
      next.sched.wait t = ⟨deadline, {Sched.waitQueue deadline}, false⟩
  resumed : ∀ t site, next.pc t = .resumed site → sys.pc t = .resumed site ∧
    (next.sched.thread t).flags.timedout = (sys.sched.thread t).flags.timedout

theorem Sched.wait_congr (same : s'.thread t = s.thread t) : s'.wait t = s.wait t := by
  simp only [wait, same]

theorem Sched.woken_grows (s : Sched) (t : Tid) :
    ∃ new, (s.woken t).queue .runq = s.queue .runq ++ new := by
  simp only [Sched.woken]
  split
  · exact ⟨[t], rfl⟩
  · exact ⟨[], (append_nil _).symm⟩

theorem Sched.woken_wait_ne {u : Tid} (other : u ≠ t) : (s.woken t).wait u = s.wait u := by
  apply wait_congr
  rw [woken_thread, update_of_ne other]

theorem CoreInv.woken_wait (core : CoreInv sys) (waits : (sys.pc t).waits = true) :
    (sys.sched.woken t).wait t =
      { sys.sched.wait t with wakeupTime := inftime, qmask := {.runq} } := by
  have mask : wokenMask (sys.sched.thread t).flags.qmask = {.runq} := by
    have agrees := core.agrees t
    unfold Pc.waits at waits
    split at waits
    · next place =>
      rw [place] at agrees
      obtain ⟨-, -, ⟨q, is⟩, -⟩ := agrees
      rw [is, wokenMask_singleton]
    · next place =>
      rw [place] at agrees
      obtain ⟨-, ⟨q, is⟩, -⟩ := agrees
      rw [is, wokenMask_singleton]
    · cases waits
  simp only [wait, woken_thread, update_self, mask]

namespace Effect
variable {sys next : System} {event : Event} {pc : Pc} {t : Tid}

theorem own (core : CoreInv sys) (outside : (sys.pc sys.sched.current).waits = false)
    (places : next.pc = update sys.pc sys.sched.current pc)
    (grows : ∃ new, next.sched.queue .runq = sys.sched.queue .runq ++ new)
    (spared : ∀ t, t ≠ sys.sched.current → sys.wakes event ≠ some t →
      next.sched.wait t = sys.sched.wait t)
    (woken : ∀ t, (sys.pc t).waits = true → sys.wakes event = some t →
      next.sched.wait t = { sys.sched.wait t with wakeupTime := inftime, qmask := {.runq} })
    (there : pc.waits = true → ∃ deadline, sys.prepares event = some deadline ∧
      next.sched.wait sys.sched.current = ⟨deadline, {waitQueue deadline}, false⟩)
    (back : pc.isResumed = false) : Effect sys event next where
  grows := grows
  spared := by
    intro t waits apart
    refine spared t ?_ apart
    rintro rfl
    rw [outside] at waits
    cases waits
  woken := woken
  entered := by
    intro t waits
    rw [places] at waits
    by_cases here : t = sys.sched.current
    · subst here
      rw [update_self] at waits
      exact .inr ⟨rfl, there waits⟩
    · rw [update_of_ne here] at waits
      exact .inl waits
  resumed := by
    intro t site place
    rw [places] at place
    by_cases here : t = sys.sched.current
    · rw [here, update_self] at place
      rw [place] at back
      cases back
    · rw [update_of_ne here] at place
      exact absurd (core.current_of_resumed place) here

theorem walk (core : CoreInv sys) (outside : (sys.pc sys.sched.current).waits = false)
    (places : next.pc = update sys.pc sys.sched.current pc)
    (grows : ∃ new, next.sched.queue .runq = sys.sched.queue .runq ++ new)
    (spared : ∀ t, t ≠ sys.sched.current → next.sched.wait t = sys.sched.wait t)
    (silent : sys.wakes event = none) (stays : pc.waits = false) (back : pc.isResumed = false) :
    Effect sys event next :=
  own core outside places grows (fun t other _ => spared t other)
    (fun t _ wakes => by rw [silent] at wakes; cases wakes)
    (fun waits => by rw [stays] at waits; cases waits) back

theorem wake (core : CoreInv sys) (who : sys.wakes event = some t) :
    Effect sys event { sys with sched := sys.sched.woken t } where
  grows := woken_grows _ t
  spared := by
    intro u _ apart
    apply woken_wait_ne
    rintro rfl
    exact apart who
  woken := by
    intro u waits is
    rw [who] at is
    cases is
    exact core.woken_wait waits
  entered := fun u waits => .inl waits
  resumed := by
    intro u site place
    refine ⟨place, ?_⟩
    dsimp only
    rw [woken_thread]
    by_cases here : u = t
    · subst here
      rw [update_self]
    · rw [update_of_ne here]

theorem wake_walk (core : CoreInv sys) (outside : (sys.pc sys.sched.current).waits = false)
    (who : sys.wakes event = some t) (sched : next.sched = sys.sched.woken t)
    (places : next.pc = update sys.pc sys.sched.current pc) (stays : pc.waits = false)
    (back : pc.isResumed = false) : Effect sys event next := by
  refine own core outside places ?_ ?_ ?_ ?_ back
  · rw [sched]
    exact woken_grows _ t
  · intro u _ apart
    rw [sched]
    apply woken_wait_ne
    rintro rfl
    exact apart who
  · intro u waits is
    rw [who] at is
    cases is
    rw [sched]
    exact core.woken_wait waits
  · intro waits
    rw [stays] at waits
    cases waits

theorem same (sched : next.sched = sys.sched) (silent : sys.wakes event = none)
    (entered : ∀ t, (next.pc t).waits = true → (sys.pc t).waits = true)
    (resumed : ∀ t site, next.pc t = .resumed site → sys.pc t = .resumed site) :
    Effect sys event next where
  grows := ⟨[], by rw [sched, append_nil]⟩
  spared := fun t _ _ => by rw [sched]
  woken := fun t _ wakes => by rw [silent] at wakes; cases wakes
  entered := fun t waits => .inl (entered t waits)
  resumed := fun t site place => ⟨resumed t site place, by rw [sched]⟩

end Effect
namespace SysInv
variable {sys next : System} {event : Event}
variable (inv : SysInv sys)
include inv

theorem prepare_effect {sched : Sched} {deadline : Int} (site : Site)
    (place : sys.pc sys.sched.current = Pc.beforePrepare site)
    (ran : sys.sched.bmkSchedBlockprepareTimeout deadline = .ok sched)
    (asks : sys.prepares event = some deadline) (silent : sys.wakes event = none) :
    Effect sys event (sys.goto sched (.prepared site)) := by
  have outside : (sys.pc sys.sched.current).waits = false := by
    rw [place]
    cases site with
    | caller | join | exit => rfl
  obtain ⟨-, -, off, running, timedout, unprepared, -⟩ := inv.core.agrees_beforePrepare place
  obtain ⟨q, l, rfl, ran', -⟩ := inv.core.queues.bmkSchedBlockprepareTimeout_spec
    inv.core.current_live off running unprepared deadline
  rw [ran] at ran'
  cases Except.ok.inj ran'
  refine Effect.own inv.core outside rfl ⟨[], ?_⟩ ?_ ?_ ?_ rfl
  · rw [append_nil]
    exact update_of_ne (waitQueue_ne_runq deadline).symm ..
  · intro t other _
    exact wait_congr (update_of_ne other ..)
  · intro t _ wakes
    rw [silent] at wakes
    cases wakes
  · intro _
    refine ⟨deadline, asks, ?_⟩
    simp only [System.goto, wait, store_thread, update_self, prepared, timedout]

theorem create_effect {t : Tid} {thread : Thread} (fresh : sys.sched.live t = false)
    (sched : next.sched = sys.sched.created t thread) (places : next.pc = update sys.pc t .virgin)
    (silent : sys.wakes event = none) : Effect sys event next := by
  have gone := JoinInv.gone_of_not_live inv.core fresh
  have other : ∀ u, u ≠ t → next.sched.thread u = sys.sched.thread u := by
    intro u ne
    rw [sched]
    exact update_of_ne ne ..
  refine ⟨⟨[t], by rw [sched, created, setQueue_queue, update_self]⟩, ?_, ?_, ?_, ?_⟩
  · intro u waits _
    refine wait_congr (other u ?_)
    rintro rfl
    rw [gone] at waits
    cases waits
  · intro u _ wakes
    rw [silent] at wakes
    cases wakes
  · intro u waits
    rw [places] at waits
    by_cases here : u = t
    · rw [here, update_self] at waits
      cases waits
    · rw [update_of_ne here] at waits
      exact .inl waits
  · intro u site place
    rw [places] at place
    by_cases here : u = t
    · rw [here, update_self] at place
      cases place
    · rw [update_of_ne here] at place
      exact ⟨place, by rw [other u here]⟩

omit inv in
theorem block_effect {site : Site} (place : sys.pc sys.sched.current = .prepared site)
    (silent : sys.wakes event = none) : Effect sys event (sys.goto sys.sched (.blocking site)) := by
  refine .same rfl silent ?_ ?_
  · intro t waits
    rw [System.goto_pc] at waits
    split at waits
    · next here => rw [here, place]; rfl
    · exact waits
  · intro t site' at_
    rw [System.goto_pc] at at_
    split at at_
    · cases at_
    · exact at_

theorem call_effect {op : Op} (allowed : sys.AdmitsOp op) (called : sys.call op = .ok next) :
    Effect sys (.call op) next := by
  have outside : sys.pc sys.sched.current = .active .caller →
      (sys.pc sys.sched.current).waits = false := fun place => by rw [place]; rfl
  cases op with
  | create t joinable stackBase stackSize pages tlsarea =>
    rw [System.call, System.createThread,
      bmkSchedCreateWithtls_eq _ t joinable pages tlsarea allowed.2.1.2] at called
    cases called
    exact inv.create_effect allowed.2.1.1 rfl rfl rfl
  | createWithtls t joinable stackBase stackSize pages tlsarea =>
    rw [System.call, System.createThread,
      bmkSchedCreateWithtls_eq _ t joinable pages tlsarea allowed.2.2] at called
    cases called
    exact inv.create_effect allowed.2.1 rfl rfl rfl
  | blockprepareTimeout deadline =>
    obtain ⟨sched, ran, called⟩ := bind_eq_ok called
    cases called
    exact inv.prepare_effect .caller allowed ran rfl rfl
  | block =>
    rw [System.call_block_eq called]
    exact block_effect allowed rfl
  | wake t =>
    rw [System.call, inv.core.wake_eq allowed.2] at called
    cases called
    exact .wake inv.core rfl
  | yield =>
    obtain ⟨-, -, off, running, -, -, -⟩ := inv.core.agrees_current allowed
    rw [System.call, (inv.core.queues.bmkSchedYield_spec inv.core.current_live off running).1]
      at called
    cases called
    refine .walk inv.core (outside allowed) rfl ⟨[sys.sched.current], ?_⟩ ?_ rfl rfl rfl
    · rw [System.goto, yielded, store_queue, setQueue_queue, update_self]
    · intro t other
      exact wait_congr (update_of_ne other ..)
  | join j =>
    rw [System.call, bmkSchedJoin] at called
    obtain ⟨sched, joined, called⟩ := bind_eq_ok called
    obtain ⟨thread, -, joined⟩ := bind_eq_ok joined
    obtain ⟨_, -, joined⟩ := bind_eq_ok joined
    cases joined
    cases called
    exact .walk inv.core (outside allowed.1) rfl ⟨[], (append_nil _).symm⟩ (fun _ _ => rfl) rfl
      rfl rfl
  | exitWithtls =>
    cases called
    exact .walk inv.core (outside allowed) rfl ⟨[], (append_nil _).symm⟩ (fun _ _ => rfl) rfl rfl
      rfl
  | exit =>
    obtain ⟨thread, -, called⟩ := bind_eq_ok called
    cases called
    exact .walk inv.core (outside allowed) rfl ⟨[], (append_nil _).symm⟩ (fun _ _ => rfl) rfl rfl
      rfl

theorem advance_effect (allowed : System.advancing (sys.pc sys.sched.current) = true)
    (stepped : sys.advance = .ok next) : Effect sys .advance next := by
  have kept : ∃ new, sys.sched.queue .runq = sys.sched.queue .runq ++ new := ⟨[], (append_nil _).symm⟩
  rw [System.advance] at stepped
  cases place : sys.pc sys.sched.current with
  | active activity =>
    have outside : (sys.pc sys.sched.current).waits = false := by rw [place]; rfl
    rw [place] at stepped
    cases activity with
    | caller => rw [place] at allowed; cases allowed
    | joinTest j =>
      obtain ⟨⟨sched, seen⟩, tested, stepped⟩ := bind_eq_ok stepped
      cases stepped
      have spares : ∀ t, sched.queue = sys.sched.queue ∧ sched.wait t = sys.sched.wait t := by
        intro t
        rw [joinTest] at tested
        obtain ⟨thread, read, tested⟩ := bind_eq_ok tested
        split at tested
        · cases tested
          refine ⟨rfl, ?_⟩
          rw [deref_eq (inv.joins.joining _ j (by rw [place]; rfl)).1] at read
          cases read
          by_cases here : t = j
          · simp only [wait, store_thread, here, update_self]
          · exact wait_congr (update_of_ne here ..)
        · cases tested
          exact ⟨rfl, rfl⟩
      refine .walk inv.core outside rfl ?_ (fun t _ => (spares t).2) (by simp [System.wakes, place]) ?_ ?_
      · rw [System.goto, (spares 0).1]
        exact kept
      · split <;> rfl
      · split <;> rfl
    | joinRegister j =>
      cases stepped
      exact .walk inv.core outside rfl kept (fun _ _ => rfl) (by simp [System.wakes, place]) rfl rfl
    | joinPrepare j =>
      obtain ⟨sched, ran, stepped⟩ := bind_eq_ok stepped
      cases stepped
      exact inv.prepare_effect (.join j) place ran (by simp [System.prepares, place])
        (by simp [System.wakes, place])
    | joinUnlink j =>
      obtain ⟨sched, ran, stepped⟩ := bind_eq_ok stepped
      obtain ⟨joinwq, -, ran⟩ := bind_eq_ok ran
      cases ran
      cases stepped
      exact .walk inv.core outside rfl kept (fun _ _ => rfl) (by simp [System.wakes, place]) rfl rfl
    | joinWake j =>
      dsimp only at stepped
      rw [inv.core.wake_eq (inv.joins.waking _ j place).1] at stepped
      cases stepped
      exact .wake_walk inv.core outside (by simp [System.wakes, place]) rfl rfl rfl rfl
    | exitTest =>
      obtain ⟨⟨sched, wait⟩, tested, stepped⟩ := bind_eq_ok stepped
      rw [exitTest, deref_eq inv.core.current_live, ok_bind] at tested
      cases gate : (sys.sched.thread sys.sched.current).flags.mustjoin with
      | true =>
        rw [if_pos gate] at tested
        cases tested
        cases stepped
        exact .walk inv.core outside rfl kept
          (fun t other => wait_congr (update_of_ne other ..))
          (by simp [System.wakes, place]) rfl rfl
      | false =>
        rw [if_neg (by rw [gate]; decide)] at tested
        cases tested
        obtain ⟨sched, died, stepped⟩ := bind_eq_ok stepped
        obtain ⟨thread, -, died⟩ := bind_eq_ok died
        obtain ⟨_, -, died⟩ := bind_eq_ok died
        obtain ⟨threadq, -, died⟩ := bind_eq_ok died
        cases died
        cases stepped
        exact .walk inv.core outside rfl kept
          (fun t other => wait_congr (update_of_ne other ..))
          (by simp [System.wakes, place]) rfl rfl
    | exitSignal =>
      obtain ⟨sched, ran, stepped⟩ := bind_eq_ok stepped
      cases stepped
      rw [exitSignal] at ran
      cases found : sys.sched.joinwq.find? fun jw => jw.wanted = sys.sched.current with
      | none =>
        rw [found] at ran
        cases ran
        exact .walk inv.core outside rfl kept (fun _ _ => rfl) (by simp [System.wakes, place, found])
          rfl rfl
      | some jw =>
        rw [found] at ran
        have waiter := (inv.joins.waiters jw.thread jw.wanted).mp (mem_of_find?_eq_some found)
        dsimp only at ran
        rw [inv.core.wake_eq (inv.core.notDead_of_registered waiter)] at ran
        cases ran
        exact .wake_walk inv.core outside (by simp [System.wakes, place, found]) rfl rfl rfl rfl
    | exitPrepare =>
      obtain ⟨sched, ran, stepped⟩ := bind_eq_ok stepped
      cases stepped
      exact inv.prepare_effect .exit place ran (by simp [System.prepares, place])
        (by simp [System.wakes, place])
  | prepared site =>
    have ran : sys.sched.bmkSchedBlock = .ok sys.sched ∧ Moves ⟨False, False⟩ _ _ :=
      inv.block site place
    rw [place] at stepped
    cases site with
    | caller => rw [place] at allowed; cases allowed
    | join | exit =>
      dsimp only at stepped
      rw [ran.1] at stepped
      cases stepped
      exact block_effect place (by simp [System.wakes, place])
  | resumed site =>
    have outside : (sys.pc sys.sched.current).waits = false := by rw [place]; rfl
    rw [place] at stepped
    dsimp only at stepped
    rw [inv.reap_eq, ok_bind] at stepped
    obtain ⟨⟨sched, rv⟩, returned, stepped⟩ := bind_eq_ok stepped
    obtain ⟨thread, -, returned⟩ := bind_eq_ok returned
    cases returned
    cases stepped
    refine .walk inv.core outside rfl kept
      (fun t other => wait_congr (update_of_ne other ..))
      (by simp [System.wakes, place]) ?_ ?_
    · cases site <;> rfl
    · cases site <;> rfl
  | yielded =>
    have outside : (sys.pc sys.sched.current).waits = false := by rw [place]; rfl
    rw [place] at stepped
    dsimp only at stepped
    rw [inv.reap_eq, ok_bind] at stepped
    cases stepped
    exact .walk inv.core outside rfl kept (fun _ _ => rfl) (by simp [System.wakes, place]) rfl rfl
  | virgin | blocking | yielding | gone => rw [place] at allowed; cases allowed

theorem effect (allowed : sys.Admits event) (stepped : sys.step event = .ok next)
    (own : ∀ curtime, event ≠ .turn curtime) : Effect sys event next := by
  cases event with
  | call op => exact inv.call_effect allowed stepped
  | advance => exact inv.advance_effect allowed stepped
  | turn curtime => exact absurd rfl (own curtime)
  | interrupt t =>
    rw [System.step, inv.core.wake_eq allowed] at stepped
    cases stepped
    exact .wake inv.core rfl
  | memalloc | memfree =>
    cases stepped
    exact .same rfl rfl (fun _ => id) (fun _ _ => id)

end SysInv

/-! ## A pass over the timeout queue -/

/-- The threads on the timeout queue whose time has come, in their order there. -/
def Sched.expired (s : Sched) (curtime : Int) : List Tid :=
  (s.queue .timeq).filter fun t => (s.thread t).wakeupTime ≤ curtime

/-- `waketime` goes in, and comes out as `w`. -/
structure Passed (curtime waketime : Int) (s s' : Sched) (w : Int) : Prop where
  runq : s'.queue .runq = s.queue .runq ++ s.expired curtime
  timeq : s'.queue .timeq = (s.queue .timeq).filter fun t => curtime < (s.thread t).wakeupTime
  others : ∀ t, t ∉ s.expired curtime → s'.thread t = s.thread t
  timedout : ∀ t ∈ s.expired curtime, s'.wait t = ⟨inftime, {.runq}, true⟩
  least : w ≤ waketime ∧ (∀ t ∈ s'.queue .timeq, w ≤ (s'.thread t).wakeupTime) ∧
    (w = waketime ∨ ∃ t ∈ s'.queue .timeq, w = (s'.thread t).wakeupTime)

theorem Passed.done (none : s.expired curtime = [])
    (least : w ≤ waketime ∧ (∀ t ∈ s.queue .timeq, w ≤ (s.thread t).wakeupTime) ∧
      (w = waketime ∨ ∃ t ∈ s.queue .timeq, w = (s.thread t).wakeupTime)) :
    Passed curtime waketime s s w where
  runq := by rw [none, append_nil]
  timeq := by
    symm
    rw [filter_eq_self]
    intro t mem
    have late := filter_eq_nil_iff.mp none t mem
    simpa using late
  others := fun _ _ => rfl
  timedout := by
    intro t mem
    rw [none] at mem
    cases mem
  least := least

theorem Passed.cons {one : Sched} {rest : List Tid} (timeq : s.queue .timeq = t :: rest)
    (nodup : (t :: rest).Nodup) (due : (s.thread t).wakeupTime ≤ curtime)
    (shorter : one.queue .timeq = rest) (queued : one.queue .runq = s.queue .runq ++ [t])
    (spared : ∀ u, u ≠ t → one.thread u = s.thread u) (out : one.wait t = ⟨inftime, {.runq}, true⟩)
    (passed : Passed curtime waketime one s' w) : Passed curtime waketime s s' w := by
  have apart : ∀ u ∈ rest, u ≠ t := by
    rintro u mem rfl
    exact (nodup_cons.mp nodup).1 mem
  have first : s.expired curtime = t :: one.expired curtime := by
    unfold expired
    rw [timeq, shorter, filter_cons_of_pos (by simpa using due)]
    congr 1
    apply filter_congr
    intro u mem
    rw [spared u (apart u mem)]
  have gone : t ∉ one.expired curtime := by
    intro mem
    rw [expired, shorter] at mem
    exact (nodup_cons.mp nodup).1 (mem_of_mem_filter mem)
  refine ⟨?_, ?_, ?_, ?_, passed.least⟩
  · rw [passed.runq, queued, first, append_assoc]
    rfl
  · rw [passed.timeq, shorter, timeq, filter_cons_of_neg (by simpa using due)]
    apply filter_congr
    intro u mem
    rw [spared u (apart u mem)]
  · intro u out
    rw [first, mem_cons, not_or] at out
    rw [passed.others u out.2, spared u out.1]
  · intro u mem
    rw [first] at mem
    rcases mem_cons.mp mem with rfl | mem
    · rw [wait_congr (passed.others u gone), out]
    · exact passed.timedout u mem

theorem QueueInv.expireTimeouts_passed (curtime waketime : Int) (fuel : Nat) :
    ∀ {s : Sched}, QueueInv s → (∀ t ∈ s.queue .timeq, (s.thread t).flags.qmask = {.timeq}) →
      (s.queue .timeq).length ≤ fuel →
      ∃ s' w, s.expireTimeouts curtime fuel waketime = .ok (s', w) ∧
        Passed curtime waketime s s' w := by
  induction fuel with
  | zero =>
    intro s _ _ short
    have empty := length_eq_zero_iff.mp (Nat.le_zero.mp short)
    refine ⟨s, waketime, by rw [expireTimeouts, empty], .done ?_ ⟨le_rfl, ?_, .inl rfl⟩⟩
    · rw [expired, empty]
      rfl
    · rw [empty]
      intro t mem
      cases mem
  | succ fuel ih =>
    intro s inv masks short
    cases timeq : s.queue .timeq with
    | nil =>
      refine ⟨s, waketime, by rw [expireTimeouts, timeq], .done ?_ ⟨le_rfl, ?_, .inl rfl⟩⟩
      · rw [expired, timeq]
        rfl
      · rw [timeq]
        intro t mem
        cases mem
    | cons t rest =>
      have queued : t ∈ s.queue .timeq := by rw [timeq]; exact mem_cons_self
      have live := ((inv.mem_iff _ _).mp queued).1
      have sorted := inv.sorted
      rw [timeq] at sorted
      rw [expireTimeouts, timeq]
      dsimp only
      rw [deref_eq live, ok_bind]
      by_cases due : (s.thread t).wakeupTime ≤ curtime
      · rw [if_pos due]
        have only := masks t queued
        -- the thread with its `THR_TIMEDOUT`, then woken
        generalize flagged : s.store t
          { s.thread t with flags := { (s.thread t).flags with timedout := true } } = s₁
        have at_ : s₁.thread t =
            { s.thread t with flags := { (s.thread t).flags with timedout := true } } := by
          rw [← flagged]
          exact update_self ..
        have spared : ∀ u, u ≠ t → s₁.thread u = s.thread u := by
          intro u other
          rw [← flagged]
          exact update_of_ne other ..
        have inv₁ : QueueInv s₁ := by
          rw [← flagged]
          exact inv.touch rfl fun _ => rfl
        have mask₁ : (s₁.thread t).flags.qmask = {.timeq} := by rw [at_]; exact only
        have live₁ : s₁.live t = true := by rw [← flagged]; exact live
        have wakeable : QueueInv.Wakeable (s₁.thread t).flags := .inl ⟨_, mask₁⟩
        have named : .timeq ∈ (s₁.thread t).flags.qmask := by
          rw [mask₁]
          exact Finset.mem_singleton_self _
        have timeq₁ : s₁.queue = s.queue := by rw [← flagged]; rfl
        have shorter : (s₁.woken t).queue .timeq = rest := by
          rw [Sched.woken, if_pos (.inl named)]
          dsimp only
          rw [timeq₁, timeq, erase_cons_head]
        have nodup := inv.nodup .timeq
        rw [timeq] at nodup
        have frame : ∀ u, u ≠ t → (s₁.woken t).thread u = s.thread u := by
          intro u other
          rw [woken_thread, update_of_ne other, spared u other]
        obtain ⟨s', w, ran, passed⟩ := ih (inv₁.woken live₁ wakeable)
          (by
            rw [shorter]
            intro u mem
            rw [frame u fun is => (nodup_cons.mp nodup).1 (is ▸ mem)]
            exact masks u (by rw [timeq]; exact mem_cons_of_mem _ mem))
          (by
            rw [shorter]
            rw [timeq, length_cons] at short
            omega)
        refine ⟨s', w, ?_, .cons timeq nodup due shorter ?_ frame ?_ passed⟩
        · rw [inv₁.bmkSchedWake_eq live₁ wakeable, ok_bind, ran]
        · rw [Sched.woken, if_pos (.inl named), timeq₁]
        · simp only [wait, woken_thread, update_self, at_, only, wokenMask_singleton]
      · rw [if_neg due]
        have later : ∀ u ∈ s.queue .timeq, (s.thread t).wakeupTime ≤ (s.thread u).wakeupTime := by
          intro u mem
          rw [timeq] at mem
          rcases mem_cons.mp mem with rfl | mem
          · exact le_rfl
          · exact (pairwise_cons.mp sorted).1 u mem
        refine ⟨s, _, rfl, .done ?_ ?_⟩
        · rw [expired, filter_eq_nil_iff]
          intro u mem
          have := later u mem
          simp only [decide_eq_true_eq]
          omega
        · split
          · next less => exact ⟨le_of_lt less, later, .inr ⟨t, queued, rfl⟩⟩
          · next more =>
            refine ⟨le_rfl, ?_, .inl rfl⟩
            intro u mem
            have := later u mem
            omega

theorem SysInv.scheduleTurn_spec (inv : SysInv sys)
    (place : System.inSchedule (sys.pc sys.sched.current) = true) (curtime : Int) :
    ∃ s' w, Passed curtime (curtime + blocktimeMax) sys.sched s' w ∧
      ((s'.queue .runq = [] ∧ sys.sched.scheduleTurn curtime = .ok (s', .block w) ∧
          sys.turn curtime = .ok { sys with sched := s' }) ∨
        ∃ n rest pc, s'.queue .runq = n :: rest ∧
          sys.sched.scheduleTurn curtime = .ok (s', .run n) ∧ System.resume (sys.pc n) = .ok pc ∧
          sys.turn curtime = .ok
            { sys with sched := s'.switched n, pc := update sys.pc n pc }) := by
  have masks : ∀ t ∈ sys.sched.queue .timeq, (sys.sched.thread t).flags.qmask = {.timeq} := by
    intro t mem
    obtain ⟨live, named⟩ := (inv.core.queues.mem_iff _ _).mp mem
    rcases (inv.core.agrees t).masks live with ⟨off, -⟩ | ⟨⟨q, only⟩, -⟩
    · rw [off] at named
      cases named
    · rw [only] at named ⊢
      rw [Finset.mem_singleton.mp named]
  obtain ⟨s', w, ran, passed⟩ := inv.core.queues.expireTimeouts_passed curtime
    (curtime + blocktimeMax) _ masks le_rfl
  obtain ⟨s'', w', ran', -, -, decided⟩ := inv.turn_cases curtime place
  rw [ran] at ran'
  cases Except.ok.inj ran'
  exact ⟨s', w, passed, decided⟩

end Rumprun.Core.Scheduler
