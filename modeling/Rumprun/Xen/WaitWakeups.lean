import Rumprun.Xen.WaitEvent

/-! # Wakeups on Xen's wait queues

`minios_wait_event_deadline` tests its condition with interrupts enabled, and enters
the queue after that. A handler that makes the condition true in between finds the
thread off the queue, or on it and running: the thread then sleeps with the condition
true. -/

namespace Rumprun.Xen
open Core Scheduler StepRuns EventSys System List
open Function (update update_self forall_update_iff)
variable {σ : Type} {ready : σ → Bool} {take : σ → σ} {t : Tid} {s : EventSys σ}

/-- The thread has seen the condition false, and is not prepared to sleep yet. -/
def WaitPlace.inWindow : WaitPlace → Bool
  | .tested _ => true
  | _ => false

/-- No handler makes the condition true then. -/
def EventSys.Spares (ready : σ → Bool) (s : EventSys σ) : WaitEvent σ → Prop
  | .handler f => (s.place s.current).inWindow = true → ready (f s.data) = false
  | _ => True

instance EventSys.decidableSpares (s : EventSys σ) : ∀ event, Decidable (s.Spares ready event) := by
  intro event
  induction event using WaitEvent.casesOn <;> dsimp only [Spares] <;> infer_instance

/-! ## Threads in the loop -/

theorem WaitPlace.stage_own (place : WaitPlace) (awake : place.stage.sleeps = false)
    (apart : place ≠ .outside) : place.stage = .own := by
  cases place with
  | outside => exact absurd rfl apart
  | prepared | asleep => cases awake
  | _ => rfl

theorem ownStage {sys : System} (inv : SysInv sys) (place : sys.pc t = .active .caller)
    (pending : Prop) : ServiceInv sys t .own pending := by
  refine ⟨inv, ?_, fun _ => place, nofun, nofun, nofun⟩
  rw [place]
  rfl

namespace EventSys
variable {s : EventSys σ} {sys : System}

theorem addWaitQueue_frame (s : EventSys σ) :
    s.miniosAddWaitQueue.sys = s.sys ∧ s.miniosAddWaitQueue.data = s.data ∧
      s.miniosAddWaitQueue.place = s.place := by
  rw [miniosAddWaitQueue]
  split
  · exact ⟨rfl, rfl, rfl⟩
  · exact ⟨rfl, rfl, rfl⟩

theorem mem_addWaitQueue (listed : s.waiting s.current = true → s.current ∈ s.queue) :
    s.current ∈ s.miniosAddWaitQueue.queue := by
  rw [miniosAddWaitQueue]
  split
  · exact mem_cons_self
  · next on => exact listed (Bool.not_eq_false _ ▸ on)

theorem go_tested {call : WaitCall} (at_ : s.place s.current = .tested call)
    (called : s.sys.call (.blockprepareTimeout call.deadline) = .ok sys) :
    s.go ready take = .ok { s.miniosAddWaitQueue.goto (.prepared call) with sys := sys } := by
  rw [go, at_]
  dsimp only
  rw [(addWaitQueue_frame s).1, called]
  rfl

theorem go_prepared (ready : σ → Bool) (take : σ → σ) {call : WaitCall}
    (at_ : s.place s.current = .prepared call) (called : s.sys.call .block = .ok sys) :
    s.go ready take = .ok { s.goto (.asleep call) with sys := sys } := by
  rw [go, at_]
  dsimp only
  rw [called]
  rfl

theorem step_handler (f : σ → σ) (looped : wakeLoop s.queue s.sys = .ok sys) :
    s.step ready take (.handler f) = .ok { s with data := f s.data, sys := sys } := by
  rw [step, miniosWakeUp, looped]
  rfl

end EventSys

theorem wakeLoop_spec (queue : List Tid) :
    ∀ {sys : System}, SysInv sys → (∀ t ∈ queue, (sys.pc t).exiting = false) →
      ∃ next, wakeLoop queue sys = .ok next ∧ SysInv next ∧ next.pc = sys.pc ∧
        next.sched.current = sys.sched.current ∧
        (∀ {t stage} {pending : Prop}, ServiceInv sys t stage pending →
          ServiceInv next t stage pending) ∧
        ∀ {t stage} {pending : Prop}, t ∈ queue → ServiceInv sys t stage pending →
          ∀ pending', ServiceInv next t stage pending' := by
  induction queue with
  | nil =>
    intro sys inv _
    exact ⟨sys, rfl, inv, rfl, rfl, id, fun mem => absurd mem not_mem_nil⟩
  | cons curr rest ih =>
    intro sys inv remain
    have alive := inv.core.notDead_of_remains (remain curr mem_cons_self)
    have allowed : ∀ t stage, sys.AdmitsService t stage (.interrupt curr) :=
      fun _ _ => alive
    have woken : sys.step (.interrupt curr) =
        .ok { sys with sched := sys.sched.woken curr } := by
      rw [System.step, inv.core.wake_eq alive]
      rfl
    have move : Move ⟨False, False⟩ sys { sys with sched := sys.sched.woken curr } :=
      .wake curr alive
    obtain ⟨next, looped, after, pc, current, keeps, wakes⟩ :=
      ih (inv.move move) fun t mem => remain t (mem_cons_of_mem _ mem)
    refine ⟨next, ?_, after, pc, current.trans (Sched.woken_current ..), ?_, ?_⟩
    · rw [wakeLoop, woken, ok_bind, looped]
    · intro t stage pending service
      exact keeps (service.sched (allowed t stage) woken)
    · intro t stage pending mem service pending'
      rcases mem_cons.mp mem with here | later
      · subst here
        exact keeps (service.wake pending')
      · exact wakes later (service.sched (allowed t stage) woken) pending'

structure EventInv (ready : σ → Bool) (s : EventSys σ) : Prop where
  inv : SysInv s.sys
  inside : ∀ t, s.place t ≠ .outside → ServiceInv s.sys t (s.place t).stage (ready s.data = true)
  queued : ∀ t, (s.place t).stage.sleeps = true → t ∈ s.queue
  mem_iff : ∀ t, t ∈ s.queue ↔ s.waiting t = true
  listed : ∀ t ∈ s.queue, s.place t ≠ .outside ∧ s.place t ≠ .taking
  nodup : s.queue.Nodup
  /-- The test has failed, and nothing has changed since. -/
  window : ∀ t call, s.place t = .tested call → ready s.data = false

namespace EventInv
variable {s : EventSys σ} {sys : System} {place : WaitPlace} {op : Op}

theorem init (inv : SysInv sys) (data : σ) : EventInv ready (init sys data) where
  inv := inv
  inside := fun _ inside => absurd rfl inside
  queued := nofun
  mem_iff := fun _ => iff_of_false not_mem_nil nofun
  listed := fun _ mem => absurd mem not_mem_nil
  nodup := nodup_nil
  window := nofun

variable (inv : EventInv ready s)
include inv

theorem remain : ∀ t ∈ s.queue, (s.sys.pc t).exiting = false :=
  fun t mem => (inv.inside t (inv.listed t mem).1).remains

theorem goto (active : s.sys.pc s.current = .active .caller) (awake : place.stage.sleeps = false)
    (off : place = .outside ∨ place = .taking → s.current ∉ s.queue)
    (failed : ∀ call, place = .tested call → ready s.data = false) : EventInv ready (s.goto place) := by
  refine ⟨inv.inv, ?_, ?_, inv.mem_iff, ?_, inv.nodup, ?_⟩
  · apply (forall_update_iff s.place fun t place =>
      place ≠ .outside → ServiceInv s.sys t place.stage (ready s.data = true)).mpr
    refine ⟨?_, fun t _ => inv.inside t⟩
    intro apart
    rw [place.stage_own awake apart]
    exact ownStage inv.inv active _
  · apply (forall_update_iff s.place fun t place =>
      place.stage.sleeps = true → t ∈ s.queue).mpr
    refine ⟨?_, fun t _ => inv.queued t⟩
    rw [awake]
    nofun
  · apply (forall_update_iff s.place fun t place =>
      t ∈ s.queue → place ≠ .outside ∧ place ≠ .taking).mpr
    refine ⟨?_, fun t _ => inv.listed t⟩
    intro mem
    exact ⟨fun is => off (.inl is) mem, fun is => off (.inr is) mem⟩
  · apply (forall_update_iff s.place fun _ place =>
      ∀ call, place = .tested call → ready s.data = false).mpr
    exact ⟨failed, fun t _ => inv.window t⟩

theorem change {data : σ} (less : ready data = true → ready s.data = true) :
    EventInv ready { s with data := data } := by
  refine ⟨inv.inv, ?_, inv.queued, inv.mem_iff, inv.listed, inv.nodup, ?_⟩
  · exact fun t inside => (inv.inside t inside).imp less
  · intro t call at_
    have was := inv.window t call at_
    cases is : ready data with
    | false => rfl
    | true => exact absurd (less is) (by rw [was]; nofun)

theorem off_queue {t : Tid} (at_ : s.place t = .outside ∨ s.place t = .taking) : t ∉ s.queue := by
  intro mem
  obtain ⟨apart, notTaking⟩ := inv.listed t mem
  exact at_.elim apart notTaking

theorem start (active : s.sys.pc s.current = .active .caller) (off : s.current ∉ s.queue)
    (call : WaitCall) : EventInv ready (s.defineWait.goto (.testing call)) := by
  have defined : EventInv ready s.defineWait := by
    refine ⟨inv.inv, inv.inside, inv.queued, ?_, inv.listed, inv.nodup, inv.window⟩
    apply (forall_update_iff s.waiting fun t waiting =>
      t ∈ s.queue ↔ waiting = true).mpr
    exact ⟨iff_of_false off nofun, fun t _ => inv.mem_iff t⟩
  exact defined.goto active rfl nofun nofun

theorem removeWaitQueue (awake : (s.place s.current).stage.sleeps = false) :
    ∃ next, s.miniosRemoveWaitQueue = .ok next ∧ EventInv ready next ∧ next.sys = s.sys ∧
      s.current ∉ next.queue := by
  rw [miniosRemoveWaitQueue]
  by_cases on : s.waiting s.current = true
  · have mem := (inv.mem_iff _).mpr on
    rw [if_pos on, tailqRemove_eq mem]
    have gone : s.current ∉ s.queue.erase s.current := inv.nodup.not_mem_erase
    refine ⟨_, rfl, ⟨inv.inv, inv.inside, ?_, ?_, ?_, inv.nodup.erase _, inv.window⟩, rfl, gone⟩
    · intro t sleeps
      have other : t ≠ s.current := by
        rintro rfl
        rw [awake] at sleeps
        cases sleeps
      exact (mem_erase_of_ne other).mpr (inv.queued t sleeps)
    · apply (forall_update_iff s.waiting fun t waiting =>
        t ∈ s.queue.erase s.current ↔ waiting = true).mpr
      refine ⟨iff_of_false gone nofun, ?_⟩
      intro t other
      rw [mem_erase_of_ne other]
      exact inv.mem_iff t
    · exact fun t mem => inv.listed t (mem_of_mem_erase mem)
  · rw [if_neg on]
    exact ⟨s, rfl, inv, rfl, fun mem => on ((inv.mem_iff _).mp mem)⟩

theorem addWaitQueue (there : s.place s.current ≠ .outside) (waits : s.place s.current ≠ .taking) :
    EventInv ready s.miniosAddWaitQueue := by
  rw [miniosAddWaitQueue]
  by_cases off : s.waiting s.current = false
  · rw [if_pos off]
    have fresh : s.current ∉ s.queue := by
      rw [inv.mem_iff, off]
      nofun
    refine ⟨inv.inv, inv.inside, ?_, ?_, ?_, ?_, inv.window⟩
    · exact fun t sleeps => mem_cons_of_mem _ (inv.queued t sleeps)
    · apply (forall_update_iff s.waiting fun t waiting =>
        t ∈ s.current :: s.queue ↔ waiting = true).mpr
      refine ⟨iff_of_true mem_cons_self rfl, ?_⟩
      intro t other
      rw [mem_cons, ← inv.mem_iff]
      exact ⟨fun mem => mem.resolve_left other, .inr⟩
    · intro t mem
      rcases mem_cons.mp mem with here | old
      · rw [here]
        exact ⟨there, waits⟩
      · exact inv.listed t old
    · exact nodup_cons.mpr ⟨fresh, inv.nodup⟩
  · rw [if_neg off]
    exact inv

theorem others (allowed : s.sys.AdmitsOp op) (called : s.sys.call op = .ok sys) :
    ∀ t, t ≠ s.current → s.place t ≠ .outside →
      ServiceInv sys t (s.place t).stage (ready s.data = true) := by
  intro t other inside
  have stepped : s.sys.step (.call op) = .ok sys := called
  have admitted : s.sys.AdmitsService t (s.place t).stage (.call op) :=
    ⟨allowed, fun here => absurd here other⟩
  exact (inv.inside t inside).sched admitted stepped

theorem sleeps (allowed : s.sys.AdmitsOp op) (called : s.sys.call op = .ok sys)
    (queued : s.current ∈ s.queue) (waits : place.stage.sleeps = true)
    (service : ServiceInv sys s.current place.stage (ready s.data = true)) :
    EventInv ready { s.goto place with sys := sys } := by
  have apart : place ≠ .outside ∧ place ≠ .taking ∧ ∀ call, place ≠ .tested call := by
    refine ⟨?_, ?_, ?_⟩
    · rintro rfl
      cases waits
    · rintro rfl
      cases waits
    · rintro call rfl
      cases waits
  refine ⟨service.inv, ?_, ?_, inv.mem_iff, ?_, inv.nodup, ?_⟩
  · apply (forall_update_iff s.place fun t place =>
      place ≠ .outside → ServiceInv sys t place.stage (ready s.data = true)).mpr
    exact ⟨fun _ => service, inv.others allowed called⟩
  · apply (forall_update_iff s.place fun t place =>
      place.stage.sleeps = true → t ∈ s.queue).mpr
    exact ⟨fun _ => queued, fun t _ => inv.queued t⟩
  · apply (forall_update_iff s.place fun t place =>
      t ∈ s.queue → place ≠ .outside ∧ place ≠ .taking).mpr
    exact ⟨fun _ => ⟨apart.1, apart.2.1⟩, fun t _ => inv.listed t⟩
  · apply (forall_update_iff s.place fun _ place =>
      ∀ call, place = .tested call → ready s.data = false).mpr
    exact ⟨fun call is => absurd is (apart.2.2 call), fun t _ => inv.window t⟩

theorem go (there : s.place s.current ≠ .outside) (back : (s.place s.current).stage ≠ .asleep) :
    ∃ next, s.go ready take = .ok next ∧ EventInv ready next := by
  have service := inv.inside _ there
  cases at_ : s.place s.current with
  | outside => exact absurd at_ there
  | testing call =>
    rw [at_] at service
    rw [EventSys.go, at_]
    refine ⟨_, rfl, inv.goto (service.own rfl) ?_ ?_ ?_⟩
    · split
      · rfl
      · rfl
    · split
      · nofun
      · nofun
    · intro failed
      split
      · nofun
      · next false_ => exact fun _ => Bool.eq_false_iff.mpr false_
  | tested call =>
    rw [at_] at service
    have active := service.own rfl
    have none : ¬ ready s.data = true := by
      rw [inv.window _ _ at_]
      nofun
    obtain ⟨sys, called, prepared⟩ := service.prepare active call.deadline none
    refine ⟨_, go_tested at_ called, ?_⟩
    have added := inv.addWaitQueue there (by rw [at_]; nofun)
    have mem := mem_addWaitQueue (inv.mem_iff s.current).mpr
    obtain ⟨same, data, -⟩ := addWaitQueue_frame s
    have current : s.miniosAddWaitQueue.current = s.current := by
      rw [EventSys.current, same]
      rfl
    rw [← current] at mem prepared
    rw [← data] at prepared
    rw [← same] at called
    have allowed : s.miniosAddWaitQueue.sys.AdmitsOp (.blockprepareTimeout call.deadline) := by
      rw [same]
      exact active
    exact added.sleeps allowed called mem rfl prepared
  | prepared call =>
    rw [at_] at service
    obtain ⟨sys, called, asleep⟩ := service.block
    refine ⟨_, go_prepared ready take at_ called, ?_⟩
    have allowed : s.sys.AdmitsOp .block := service.prepared rfl
    have mem := inv.queued _ (by rw [at_]; rfl)
    exact inv.sleeps allowed called mem rfl asleep
  | asleep call => rw [at_] at back; exact absurd rfl back
  | woken call result =>
    rw [at_] at service
    rw [EventSys.go, at_]
    refine ⟨_, rfl, inv.goto (service.own rfl) ?_ ?_ ?_⟩
    · split
      · rfl
      · rfl
    · split
      · nofun
      · nofun
    · split
      · nofun
      · nofun
  | leaving call =>
    rw [at_] at service
    obtain ⟨next, removed, after, sys, off⟩ := inv.removeWaitQueue (by rw [at_]; rfl)
    have active : next.sys.pc next.current = .active .caller := by
      rw [EventSys.current, sys]
      exact service.own rfl
    have gone : next.current ∉ next.queue := by
      rw [EventSys.current, sys]
      exact off
    rw [EventSys.go, at_]
    cases call with
    | waitEvent deadline =>
      refine ⟨next.goto .outside, ?_, after.goto active rfl (fun _ => gone) nofun⟩
      dsimp only
      rw [removed]
      rfl
    | down =>
      refine ⟨next.goto .taking, ?_, after.goto active rfl (fun _ => gone) nofun⟩
      dsimp only
      rw [removed]
      rfl
  | taking =>
    rw [at_] at service
    have active := service.own rfl
    have off := inv.off_queue (.inr at_)
    rw [EventSys.go, at_]
    dsimp only
    by_cases enough : ready s.data = true
    · rw [if_pos enough]
      have taken : EventInv ready { s with data := take s.data } := inv.change fun _ => enough
      exact ⟨_, rfl, taken.goto active rfl (fun _ => off) nofun⟩
    · rw [if_neg enough]
      exact ⟨_, rfl, inv.start active off .down⟩

theorem sched {event : Event} (allowed : s.Admits ready (.sched event)) :
    ∃ next, s.sched event = .ok next ∧ EventInv ready next := by
  have admitted : s.sys.Admits event ∧
      ∀ t, s.place t ≠ .outside → s.sys.AdmitsService t (s.place t).stage event := by
    cases event with
    | call op =>
      refine ⟨allowed.1, fun t inside => ⟨allowed.1, ?_⟩⟩
      rintro rfl
      exact absurd allowed.2 inside
    | _ => exact ⟨allowed, fun _ _ => allowed⟩
  obtain ⟨sys, stepped, moves⟩ := inv.inv.steps event admitted.1
  have after : EventInv ready { s with sys := sys } :=
    ⟨inv.inv.moves moves,
      fun t inside => (inv.inside t inside).sched (admitted.2 t inside) stepped,
      inv.queued, inv.mem_iff, inv.listed, inv.nodup, inv.window⟩
  rw [EventSys.sched, stepped, ok_bind]
  by_cases returns : event = .advance ∧ ∃ call, s.place s.current = .asleep call
  · obtain ⟨rfl, call, at_⟩ := returns
    rw [at_]
    have service := inv.inside s.current (by rw [at_]; nofun)
    rw [at_] at service
    have resumed := Pc.resumed_of_advancing (service.asleep rfl) allowed
    have active : sys.pc s.current = .active .caller := inv.inv.advance_return resumed stepped
    have same : sys.sched.current = s.current := (after.inv.core.current_of_active active).symm
    have moved : ∀ result, EventInv ready { s.goto (.woken call result) with sys := sys } := by
      intro result
      have here : EventInv ready (EventSys.goto { s with sys := sys } (.woken call result)) :=
        after.goto (by rw [EventSys.current, same]; exact active) rfl nofun nofun
      rw [EventSys.goto, EventSys.current, same] at here
      exact here
    exact ⟨_, rfl, moved _⟩
  · refine ⟨{ s with sys := sys }, ?_, after⟩
    split
    · next place call at_ => exact absurd ⟨rfl, call, at_⟩ returns
    · rfl

theorem handler {f : σ → σ} (spared : s.Spares ready (.handler f)) :
    ∃ next, s.step ready take (.handler f) = .ok next ∧ EventInv ready next := by
  obtain ⟨sys, looped, after, pc, -, -, wakes⟩ := wakeLoop_spec s.queue inv.inv inv.remain
  refine ⟨_, step_handler f looped, after, ?_, inv.queued, inv.mem_iff, inv.listed, inv.nodup, ?_⟩
  · intro t inside
    have service := inv.inside t inside
    by_cases mem : t ∈ s.queue
    · exact wakes mem service _
    · have own := (s.place t).stage_own
        (Bool.eq_false_iff.mpr fun sleeps => mem (inv.queued t sleeps)) inside
      dsimp only
      rw [own]
      apply ownStage after
      rw [pc]
      exact service.own own
  · intro t call at_
    have active := (inv.inside t (by rw [at_]; nofun)).own (by rw [at_]; rfl)
    have here : t = s.current := inv.inv.core.current_of_active active
    rw [here] at at_
    exact spared (by rw [at_]; rfl)

theorem step {event : WaitEvent σ} (allowed : s.Admits ready event) (spared : s.Spares ready event) :
    ∃ next, s.step ready take event = .ok next ∧ EventInv ready next := by
  cases event with
  | waitEvent deadline =>
    exact ⟨_, rfl, inv.start allowed.1 (inv.off_queue (.inl allowed.2)) _⟩
  | down => exact ⟨_, rfl, inv.start allowed.1 (inv.off_queue (.inl allowed.2)) _⟩
  | go => exact inv.go allowed.1 allowed.2
  | handler f => exact inv.handler spared
  | change f => exact ⟨_, rfl, inv.change allowed⟩
  | sched event => exact inv.sched allowed

end EventInv

/-! ## Lost wakeups -/

/-- The thread is on the queue and in `bmk_sched_block`, neither running nor on the run queue. -/
def EventSys.Blocked (s : EventSys σ) (t : Tid) : Prop :=
  (s.place t).stage = .asleep ∧ t ∈ s.queue ∧ ¬ s.sys.Ready t

instance EventSys.decidableBlocked (s : EventSys σ) (t : Tid) : Decidable (s.Blocked t) :=
  inferInstanceAs (Decidable (_ ∧ _ ∧ ¬ (_ ∨ _ ∧ _)))

/-- An interrupt handler calls `up` when `down` has just found the count 0. -/
def upInWindowRun : List (WaitEvent Int) := [.down, .go, up, .go, .go]

theorem down_sleeps_on_free_semaphore :
    ∃ boot ∈ (System.start 1 0x8000 0x1000 0x10).toOption,
      Admissible (EventSys.Admits semReady) (EventSys.step semReady semTake) upInWindowRun
        (EventSys.init boot 0) ∧
      ∃ final ∈ (run (EventSys.step semReady semTake) upInWindowRun (EventSys.init boot 0)).toOption,
        final.Blocked 1 ∧ final.data = 1 := by
  decide +kernel

theorem EventInv.blocked (inv : EventInv ready s) (blocked : s.Blocked t) : ready s.data = false := by
  obtain ⟨asleep, -, notReady⟩ := blocked
  have inside : s.place t ≠ .outside := by
    intro is
    rw [is] at asleep
    cases asleep
  cases is : ready s.data with
  | false => rfl
  | true => exact absurd ((inv.inside t inside).ready (by rw [asleep]; rfl) is) notReady

theorem EventSys.falls_asleep (ready : σ → Bool) (take : σ → σ) (inv : SysInv s.sys)
    {call : WaitCall} (at_ : s.place s.current = .tested call)
    (active : s.sys.pc s.current = .active .caller)
    (listed : s.waiting s.current = true → s.current ∈ s.queue) :
    ∃ middle final, s.step ready take .go = .ok middle ∧ middle.Admits ready .go ∧
      middle.step ready take .go = .ok final ∧ final.Blocked s.current ∧ final.data = s.data := by
  obtain ⟨prepared, last, prepares, same, blocks, notReady⟩ := inv.falls_asleep active call.deadline
  obtain ⟨kept, data, -⟩ := addWaitQueue_frame s
  have here : s.miniosAddWaitQueue.current = s.current := by
    rw [current, kept]
    rfl
  have place : update s.miniosAddWaitQueue.place s.miniosAddWaitQueue.current
      (.prepared call) prepared.sched.current = .prepared call := by
    rw [here, same]
    exact update_self ..
  have goes := go_prepared ready take
    (s := { s.miniosAddWaitQueue.goto (.prepared call) with sys := prepared }) place blocks
  refine ⟨_, _, go_tested at_ prepares, ⟨?_, ?_⟩, goes, ⟨?_, ?_, notReady⟩, data⟩
  · intro is
    exact absurd (place.symm.trans is) nofun
  · rw [show EventSys.place _ (EventSys.current _) = .prepared call from place]
    nofun
  · have asleep : update (update s.miniosAddWaitQueue.place
        s.miniosAddWaitQueue.current (.prepared call)) prepared.sched.current (.asleep call)
        s.current = .asleep call := by
      rw [same]
      exact update_self ..
    exact congrArg WaitPlace.stage asleep
  · exact mem_addWaitQueue listed

theorem EventInv.loses (inv : EventInv ready s) {f : σ → σ} (hits : ¬ s.Spares ready (.handler f)) :
    Admissible (EventSys.Admits ready) (EventSys.step ready take) [.handler f, .go, .go] s ∧
      ∃ final, run (EventSys.step ready take) [.handler f, .go, .go] s = .ok final ∧
        final.Blocked s.current ∧ ready final.data = true := by
  rw [EventSys.Spares, Classical.not_imp, Bool.not_eq_false] at hits
  obtain ⟨window, becomes⟩ := hits
  obtain ⟨call, at_⟩ : ∃ call, s.place s.current = .tested call := by
    cases at_ : s.place s.current with
    | tested call => exact ⟨call, rfl⟩
    | _ => rw [at_] at window; cases window
  have active := (inv.inside _ (by rw [at_]; nofun)).own (by rw [at_]; rfl)
  obtain ⟨woken, looped, after, pc, current, -⟩ := wakeLoop_spec s.queue inv.inv inv.remain
  have handled : s.step ready take (.handler f) = .ok { s with data := f s.data, sys := woken } :=
    step_handler f looped
  have same : EventSys.current { s with data := f s.data, sys := woken } = s.current := current
  obtain ⟨middle, final, prepares, goesOn, blocks, blocked, data⟩ :=
    falls_asleep ready take (s := { s with data := f s.data, sys := woken }) after
      (by rw [same]; exact at_) (by rw [same, pc]; exact active) (inv.mem_iff _).mpr
  refine ⟨?_, final, ?_, same ▸ blocked, by rw [data]; exact becomes⟩
  · rw [admissible_cons_ok handled, admissible_cons_ok prepares, admissible_cons_ok blocks]
    refine ⟨trivial, ⟨?_, ?_⟩, goesOn, trivial⟩
    · rw [same, at_]
      nofun
    · rw [same, at_]
      nofun
  · simp only [run, handled, prepares, blocks]

/-! ## The runs -/

/-- No handler makes the condition true while the running thread has it as false. -/
def EventSys.AdmitsSpared (ready : σ → Bool) (s : EventSys σ) (event : WaitEvent σ) : Prop :=
  s.Admits ready event ∧ s.Spares ready event

instance EventSys.decidableAdmitsSpared (s : EventSys σ) (event : WaitEvent σ) :
    Decidable (s.AdmitsSpared ready event) :=
  inferInstanceAs (Decidable (_ ∧ _))

/-- In a run in which no handler makes the condition true between a thread's failed
test and its `blockprepare`, nobody is blocked on the queue while the condition is true. Where a
handler does so, the thread is blocked two steps later with the condition true. -/
theorem wait_event_keeps_wakeups (ready : σ → Bool) (take : σ → σ)
    (main stack stackSize tlsarea : Nat) (stacked : stack ≠ 0) (data : σ) :
    ∃ boot, System.start main stack stackSize tlsarea = .ok boot ∧
      (∀ events, Admissible (EventSys.AdmitsSpared ready) (EventSys.step ready take) events
          (EventSys.init boot data) →
        ∃ final, run (EventSys.step ready take) events (EventSys.init boot data) = .ok final ∧
          ∀ t, final.Blocked t → ready final.data = false) ∧
      ∀ events s, Admissible (EventSys.AdmitsSpared ready) (EventSys.step ready take) events
          (EventSys.init boot data) →
        run (EventSys.step ready take) events (EventSys.init boot data) = .ok s →
        ∀ f, ¬ s.Spares ready (.handler f) →
          Admissible (EventSys.Admits ready) (EventSys.step ready take) [.handler f, .go, .go] s ∧
          ∃ final, run (EventSys.step ready take) [.handler f, .go, .go] s = .ok final ∧
            final.Blocked s.current ∧ ready final.data = true := by
  have preserved : ∀ (s : EventSys σ) (event : WaitEvent σ), EventInv ready s →
      s.AdmitsSpared ready event →
      ∃ next, s.step ready take event = .ok next ∧ EventInv ready next :=
    fun s event inv admitted => inv.step admitted.1 admitted.2
  have start : EventInv ready (init (mainOnly main stack tlsarea) data) :=
    EventInv.init (mainOnly_inv main stack tlsarea) data
  refine ⟨_, start_eq main stackSize tlsarea stacked, ?_, ?_⟩
  · intro events allowed
    obtain ⟨final, ran, inv⟩ := run_invariant preserved events _ start allowed
    exact ⟨final, ran, fun t blocked => inv.blocked blocked⟩
  · intro events s allowed ran f hits
    have inv := of_ok (run_invariant preserved events _ start allowed) ran
    exact inv.loses hits

/-- The main thread sleeps in `down`; another thread's `trydown` gets nothing; an interrupt comes
with `up`, and the main thread takes the count. -/
def upWhileAsleepRun : List (WaitEvent Int) :=
  [.sched (.call (.create 2 false 0 0 0x9000 0x20)), .down, .go, .go, .go, .sched (.turn 100),
    trydown, up, .sched (.call .yield), .sched (.turn 200), .sched .advance, .go, .go, .go, .go]

theorem wait_event_keeps_wakeups_down :
    ∃ boot ∈ (System.start 1 0x8000 0x1000 0x10).toOption,
      Admissible (EventSys.AdmitsSpared semReady) (EventSys.step semReady semTake)
        upWhileAsleepRun (EventSys.init boot 0) ∧
      ∃ final ∈ (run (EventSys.step semReady semTake) upWhileAsleepRun (EventSys.init boot 0)).toOption,
        final.place 1 = .outside ∧ final.data = 0 ∧
          ∀ t, final.Blocked t → semReady final.data = false := by
  have evaluated : ∀ boot ∈ (start 1 0x8000 0x1000 0x10).toOption,
      Admissible (EventSys.AdmitsSpared semReady) (EventSys.step semReady semTake)
        upWhileAsleepRun (init boot 0) ∧
      ∃ final ∈ (run (EventSys.step semReady semTake) upWhileAsleepRun
          (init boot 0)).toOption,
        final.place 1 = .outside ∧ final.data = 0 := by
    decide +kernel
  obtain ⟨boot, booted, keeps, -⟩ :=
    wait_event_keeps_wakeups semReady semTake 1 0x8000 0x1000 0x10 (by decide) 0
  have started : boot ∈ (start 1 0x8000 0x1000 0x10).toOption := by
    rw [booted]
    rfl
  obtain ⟨allowed, final, ended, outside, count⟩ := evaluated boot started
  obtain ⟨final', ran, free⟩ := keeps upWhileAsleepRun allowed
  rw [eq_ok_of_mem ended] at ran
  cases ran
  exact ⟨boot, started, allowed, final, ended, outside, count, free⟩

end Rumprun.Xen
