import Rumprun.Core.PendingWakes

/-! # Threads that sleep until there is work

A service thread works, then looks for more work and, if there is none, calls
`bmk_sched_blockprepare` in the same critical section, leaves that and calls
`bmk_sched_block`. Whoever brings work wakes it. -/

namespace Rumprun.Core.Scheduler
open Function

/-! ## Wakes from the `blockprepare` on -/

/-- A wake has come since the thread's `blockprepare`. -/
def Alerted (sys : System) (t : Tid) : Prop :=
  sys.pc t = .prepared .caller ∧ (sys.sched.thread t).flags.qmask = {.runq} ∨ Called sys t

theorem Alerted.ready {sys : System} {t : Tid} (alerted : Alerted sys t) (core : CoreInv sys) :
    sys.Ready t := by
  rcases alerted with ⟨place, -⟩ | called
  · exact .inr ⟨core.current_of_prepared place, by rw [place]; rfl⟩
  · exact called.ready core

theorem SysInv.alerted_step {sys next : System} (inv : SysInv sys) {event : Event}
    (allowed : sys.Admits event) (stepped : sys.step event = .ok next) {t : Tid}
    (alerted : Alerted sys t) (blocks : t = sys.sched.current → ∀ op, event = .call op → op = .block) :
    Alerted next t := by
  rcases alerted with ⟨place, mask⟩ | called
  · have here := inv.core.current_of_prepared place
    cases event with
    | call op =>
      cases blocks here op rfl
      rw [System.call_block_eq stepped]
      refine .inr (.inl (.inl ⟨?_, mask⟩))
      rw [System.goto_pc, if_pos here]
    | advance | turn => rw [System.Admits, ← here, place] at allowed; cases allowed
    | interrupt u =>
      rw [System.step, inv.core.wake_eq allowed] at stepped
      cases stepped
      exact .inl ⟨place, (woken_flags sys.sched u t).2.2.2 mask⟩
    | memalloc | memfree => cases stepped; exact .inl ⟨place, mask⟩
  · exact .inr (inv.called_step allowed stepped called blocks)

theorem CoreInv.alerted_wake {sys : System} (core : CoreInv sys) {t : Tid}
    (inside : (sys.pc t).inCallerBlock = true) : Alerted { sys with sched := sys.sched.woken t } t := by
  have agrees := core.agrees t
  have moved : ∀ {q : Queue}, (sys.sched.thread t).flags.qmask = {q} →
      ((sys.sched.woken t).thread t).flags.qmask = {.runq} := by
    intro q mask
    rw [Sched.woken_thread, update_self]
    dsimp only
    rw [mask, wokenMask_singleton]
  unfold Pc.inCallerBlock at inside
  split at inside
  · next place =>
      rw [place] at agrees
      obtain ⟨-, -, ⟨q, mask⟩, -⟩ := agrees
      exact .inl ⟨place, moved mask⟩
  · next place =>
      rw [place] at agrees
      obtain ⟨-, ⟨q, mask⟩, -⟩ := agrees
      exact .inr (.inl (.inl ⟨place, moved mask⟩))
  · next place => exact .inr (.inl (.inr place))
  · next place => exact .inr (.inr place)
  · exact absurd inside Bool.false_ne_true

theorem SysInv.falls_asleep {sys : System} (inv : SysInv sys)
    (place : sys.pc sys.sched.current = .active .caller) (deadline : Int) :
    ∃ next final, sys.call (.blockprepareTimeout deadline) = .ok next ∧
      next.sched.current = sys.sched.current ∧ next.call .block = .ok final ∧
      ¬ final.Ready sys.sched.current := by
  obtain ⟨sched, called, moves, same, blocked⟩ := inv.prepare_caller place deadline
  have after := inv.moves (moves ⟨False, False⟩)
  have prepared : (sys.goto sched (.prepared .caller)).pc sched.current = .prepared .caller := by
    rw [System.goto_pc, if_pos same]
  obtain ⟨final, stepped, -⟩ := after.steps (.call .block) prepared
  refine ⟨_, final, called, same, stepped, ?_⟩
  rw [System.call_block_eq stepped]
  rintro (queued | ⟨-, runs⟩)
  · exact blocked ((after.core.queues.mem_iff .runq _).mp queued).2
  · rw [System.goto_pc, if_pos (by exact same.symm)] at runs
    cases runs

/-! ## Threads that do not exit -/

theorem Move.remains {promises : Promises} {sys next : System} (move : Move promises sys next)
    (core : CoreInv sys) {t : Tid} (stays : (sys.pc t).exiting = false) :
    (next.pc t).exiting = false ∨
      t = sys.sched.current ∧ sys.pc t = .active .caller ∧ next.pc t = .active .exitTest := by
  have moved : ∀ (sched : Sched) {place pc : Pc}, sys.pc sys.sched.current = place →
      (place.exiting = false → pc.exiting = false) →
      ((sys.goto sched pc).pc t).exiting = false := by
    intro sched place pc is kept
    rw [System.goto_pc]
    split
    · next here =>
        rw [here, is] at stays
        exact kept stays
    · exact stays
  cases move with
  | create u extstack joinable ownTls stackbase tp heap fresh _ _ =>
    left
    by_cases here : t = u
    · rw [here, JoinInv.gone_of_not_live core fresh] at stays
      cases stays
    · dsimp only
      rw [update_of_ne here]
      exact stays
  | prepare site q l deadline place _ | block site place =>
    left
    apply moved _ place
    cases site with
    | caller | join | exit => exact id
  | wake | timeout | memalloc | memfree => exact .inl stays
  | yield place | joinSeen j place _ | joinUnseen j place _ | register j place
  | unlink j place => exact .inl (moved _ place fun _ => rfl)
  | join j place _ | yieldReturn place => exact .inl (moved sys.sched place fun _ => rfl)
  | exit heap place _ =>
    by_cases here : t = sys.sched.current
    · refine .inr ⟨here, by rw [here, place], ?_⟩
      rw [here]
      exact update_self ..
    · left
      dsimp only
      rw [System.goto_pc, if_neg here]
      exact stays
  | joinDone j place => exact .inl (moved (sys.sched.woken j) place fun _ => rfl)
  | exitWait place _ | signal u place _ | noSignal place _ => exact .inl (moved _ place nofun)
  | die place _ => exact .inl (moved sys.sched.died place nofun)
  | blockReturn site place =>
    left
    apply moved sys.sched place
    cases site with
    | caller | join | exit => exact id
  | dispatch n pc _ _ resumes =>
    left
    dsimp only
    by_cases here : t = n
    · subst here
      rw [update_self]
      cases at_ : sys.pc t with
      | virgin | yielding => rw [at_] at resumes; cases resumes; rfl
      | blocking site =>
        rw [at_] at resumes stays
        cases resumes
        cases site with
        | caller | join => rfl
        | exit => cases stays
      | _ => rw [at_] at resumes; cases resumes
    · rw [update_of_ne here]
      exact stays

theorem System.call_exitTest {sys next : System} {op : Op} (called : sys.call op = .ok next)
    (outside : sys.pc sys.sched.current = .active .caller)
    (inside : next.pc sys.sched.current = .active .exitTest) : op = .exit ∨ op = .exitWithtls := by
  have create : ∀ {ownTls : Bool} {u : Tid} {joinable : Bool} {a b c d : Nat} (heap),
      ({ sys with heap := heap } : System).createThread ownTls u joinable a b c d = .ok next →
      False := by
    intro ownTls u joinable a b c d heap created
    obtain ⟨sched, -, is⟩ := bind_eq_ok created
    cases is
    dsimp only at inside
    rw [update_apply] at inside
    split at inside
    · cases inside
    · rw [outside] at inside
      cases inside
  have goes : ∀ (x : Except Stop Sched) (pc : Pc), pc ≠ .active .exitTest →
      (do return sys.goto (← x) pc) = Except.ok next → False := by
    intro x pc other ran
    obtain ⟨sched, -, is⟩ := bind_eq_ok ran
    cases is
    rw [System.goto_pc, if_pos rfl] at inside
    exact other inside
  cases op with
  | create u joinable a b c d => exact (create _ called).elim
  | createWithtls u joinable a b c d => exact (create sys.heap called).elim
  | blockprepareTimeout deadline => exact (goes _ (.prepared .caller) nofun called).elim
  | block => exact (goes _ (.blocking .caller) nofun called).elim
  | wake u =>
    obtain ⟨sched, -, is⟩ := bind_eq_ok called
    cases is
    rw [show ({ sys with sched := sched } : System).pc = sys.pc from rfl, outside] at inside
    cases inside
  | yield => exact (goes _ .yielding nofun called).elim
  | join j =>
    obtain ⟨sched, -, is⟩ := bind_eq_ok called
    cases is
    rw [System.goto_pc, if_pos rfl] at inside
    cases inside
  | exitWithtls => exact .inr rfl
  | exit => exact .inl rfl

theorem SysInv.remains_step {sys next : System} (inv : SysInv sys) {event : Event}
    (allowed : sys.Admits event) (stepped : sys.step event = .ok next) {t : Tid}
    (stays : (sys.pc t).exiting = false)
    (noExit : t = sys.sched.current → ∀ op, event = .call op → op ≠ .exit ∧ op ≠ .exitWithtls) :
    (next.pc t).exiting = false := by
  have moves := of_ok (inv.steps event allowed) stepped
  rcases moves with move | path
  · rcases move.remains inv.core stays with still | ⟨here, outside, inside⟩
    · exact still
    · rw [here] at outside inside
      cases event with
      | call op =>
        have apart := noExit here op rfl
        rcases System.call_exitTest stepped outside inside with is | is
        · exact absurd is apart.1
        · exact absurd is apart.2
      | advance | turn => rw [System.Admits, outside] at allowed; cases allowed
      | interrupt u =>
        rw [System.step, inv.core.wake_eq allowed] at stepped
        cases stepped
        rw [here]
        exact outside ▸ rfl
      | memalloc | memfree => cases stepped; rw [here, outside]; rfl
  · clear stepped
    have both : SysInv next ∧ (next.pc t).exiting = false := by
      induction path with
      | refl => exact ⟨inv, stays⟩
      | tail _ move ih =>
        refine ⟨ih.1.move move.2, ?_⟩
        rcases move.2.remains ih.1.core ih.2 with still | ⟨here, outside, -⟩
        · exact still
        · have looping := move.1
          rw [← here, outside] at looping
          cases looping
    exact both.2

theorem CoreInv.notDead_of_remains {sys : System} (core : CoreInv sys) {t : Tid}
    (stays : (sys.pc t).exiting = false) : sys.NotDead t := by
  have agrees := core.agrees t
  cases place : sys.pc t with
  | virgin | active | prepared
  | yielded => rw [place] at agrees; exact ⟨agrees.2.1, agrees.2.2.2.2.2.2⟩
  | blocking | yielding => rw [place] at agrees; exact ⟨agrees.1, agrees.2.2.2.2.2⟩
  | resumed _ => rw [place] at agrees; exact ⟨agrees.2.1, agrees.2.2.2.2.2⟩
  | gone => rw [place] at stays; cases stays

/-! ## The service thread -/

/-- Where a service thread is in its loop: in code that may use the scheduler as it likes, in a
stretch that does not, between its `blockprepare` and its `bmk_sched_block`, or in that call. -/
inductive Stage where
  | working
  | own
  | prepared
  | asleep
  deriving DecidableEq, Repr

def Stage.sleeps : Stage → Bool
  | .prepared => true
  | .asleep => true
  | _ => false

/-- A service thread does not exit, and calls the scheduler on its own only while it works. -/
def System.AdmitsService (sys : System) (t : Tid) (stage : Stage) : Event → Prop
  | .call op => sys.AdmitsOp op ∧ (t = sys.sched.current →
      stage = .working ∧ op ≠ .exit ∧ op ≠ .exitWithtls)
  | event => sys.Admits event

instance System.decidableAdmitsService (sys : System) (t : Tid) (stage : Stage) :
    ∀ event, Decidable (sys.AdmitsService t stage event) := by
  intro event
  induction event using Event.casesOn <;> dsimp only [AdmitsService] <;> infer_instance

theorem System.AdmitsService.admits {sys : System} {t : Tid} {stage : Stage} {event : Event}
    (allowed : sys.AdmitsService t stage event) : sys.Admits event := by
  cases event with
  | call op => exact allowed.1
  | _ => exact allowed

theorem System.AdmitsService.call {sys : System} {t : Tid} {stage : Stage} {event : Event}
    (allowed : sys.AdmitsService t stage event) (here : t = sys.sched.current) {op : Op}
    (is : event = .call op) : stage = .working ∧ op ≠ .exit ∧ op ≠ .exitWithtls := by
  subst is
  exact allowed.2 here

/-- The thread is where its loop says, and if it sleeps with work pending it has been woken. -/
structure ServiceInv (sys : System) (t : Tid) (stage : Stage) (pending : Prop) : Prop where
  inv : SysInv sys
  remains : (sys.pc t).exiting = false
  own : stage = .own → sys.pc t = .active .caller
  prepared : stage = .prepared → sys.pc t = .prepared .caller
  asleep : stage = .asleep → (sys.pc t).inCallerBlock = true
  alerted : stage.sleeps = true → pending → Alerted sys t

namespace ServiceInv
variable {sys next : System} {t : Tid} {stage : Stage} {pending : Prop}
variable (service : ServiceInv sys t stage pending) {event : Event} {pending' : Prop}
include service

theorem ready (sleeps : stage.sleeps = true) (work : pending) : sys.Ready t :=
  (service.alerted sleeps work).ready service.inv.core

omit service in
theorem pc_stays (inv : SysInv sys) (allowed : sys.Admits event)
    (stepped : sys.step event = .ok next) {pc : Pc} (place : sys.pc t = pc)
    (own : pc = .active .caller ∨ pc = .prepared .caller) (silent : ∀ op, event ≠ .call op) :
    next.pc t = pc := by
  have here : t = sys.sched.current := by
    rcases own with is | is
    · exact inv.core.current_of_active (place.trans is)
    · exact inv.core.current_of_prepared (place.trans is)
  cases event with
  | call op => exact absurd rfl (silent op)
  | advance | turn =>
    rw [System.Admits, ← here, place] at allowed
    rcases own with rfl | rfl <;> cases allowed
  | interrupt u =>
    rw [System.step, inv.core.wake_eq allowed] at stepped
    cases stepped
    exact place
  | memalloc | memfree => cases stepped; exact place

theorem sched (allowed : sys.AdmitsService t stage event) (stepped : sys.step event = .ok next) :
    ServiceInv next t stage pending := by
  have inv := service.inv
  have moves := of_ok (inv.steps event allowed.admits) stepped
  have silent : stage ≠ .working → t = sys.sched.current → ∀ op, event ≠ .call op :=
    fun idle here op is => idle (allowed.call here is).1
  have blocks : stage ≠ .working → t = sys.sched.current → ∀ op, event = .call op → op = .block :=
    fun idle here op is => absurd is (silent idle here op)
  refine ⟨inv.moves moves, ?_, ?_, ?_, ?_, ?_⟩
  · exact inv.remains_step allowed.admits stepped service.remains
      fun here op is => (allowed.call here is).2
  · intro is
    have place := service.own is
    exact pc_stays inv allowed.admits stepped place (.inl rfl)
      (silent (by rw [is]; nofun) (inv.core.current_of_active place))
  · intro is
    have place := service.prepared is
    exact pc_stays inv allowed.admits stepped place (.inr rfl)
      (silent (by rw [is]; nofun) (inv.core.current_of_prepared place))
  · intro is
    exact inv.inCallerBlock_step allowed.admits stepped (service.asleep is)
      (blocks (by rw [is]; nofun))
  · intro sleeps work
    apply inv.alerted_step allowed.admits stepped (service.alerted sleeps work)
    apply blocks
    rintro rfl
    cases sleeps

theorem notDead : sys.NotDead t := service.inv.core.notDead_of_remains service.remains

theorem imp (less : pending' → pending) : ServiceInv sys t stage pending' :=
  ⟨service.inv, service.remains, service.own, service.prepared, service.asleep,
    fun sleeps work => service.alerted sleeps (less work)⟩

theorem wake (pending' : Prop) :
    ServiceInv { sys with sched := sys.sched.woken t } t stage pending' := by
  have moved : Move ⟨False, False⟩ sys { sys with sched := sys.sched.woken t } :=
    .wake t service.notDead
  refine ⟨service.inv.move moved, service.remains, service.own, service.prepared, service.asleep, ?_⟩
  intro sleeps _
  apply service.inv.core.alerted_wake
  cases stage with
  | prepared => rw [service.prepared rfl]; rfl
  | asleep => exact service.asleep rfl
  | working | own => cases sleeps

theorem goto (place : sys.pc t = .active .caller)
    {stage' : Stage} (awake : stage'.sleeps = false) (pending' : Prop) :
    ServiceInv sys t stage' pending' := by
  refine ⟨service.inv, service.remains, fun _ => place, ?_, ?_, ?_⟩
  · rintro rfl
    cases awake
  · rintro rfl
    cases awake
  · intro sleeps
    rw [awake] at sleeps
    cases sleeps

theorem prepare (place : sys.pc t = .active .caller) (deadline : Int) (none : ¬ pending') :
    ∃ next, sys.call (.blockprepareTimeout deadline) = .ok next ∧
      ServiceInv next t .prepared pending' := by
  have here := service.inv.core.current_of_active place
  subst here
  obtain ⟨sched, called, moves, -, -⟩ := service.inv.prepare_caller place deadline
  have at_ : (sys.goto sched (.prepared .caller)).pc sys.sched.current = .prepared .caller := by
    rw [System.goto_pc, if_pos rfl]
  refine ⟨_, called, service.inv.moves (moves ⟨False, False⟩), ?_, nofun, fun _ => at_, nofun,
    fun _ work => absurd work none⟩
  rw [at_]
  rfl

omit service in
theorem block (service : ServiceInv sys t .prepared pending) :
    ∃ next, sys.call .block = .ok next ∧ ServiceInv next t .asleep pending := by
  have place := service.prepared rfl
  have here := service.inv.core.current_of_prepared place
  have allowed : sys.Admits (.call .block) := by
    rw [System.Admits, System.AdmitsOp, ← here, place]
  obtain ⟨next, stepped, moves⟩ := service.inv.steps _ allowed
  refine ⟨next, stepped, service.inv.moves moves, ?_, by simp, by simp, ?_, ?_⟩
  · exact service.inv.remains_step allowed stepped service.remains
      fun _ op is => by cases is; exact ⟨by simp, by simp⟩
  · intro _
    apply service.inv.inCallerBlock_step allowed stepped
    · rw [place]
      rfl
    · intro _ op is
      cases is
      rfl
  · intro _ work
    apply service.inv.alerted_step allowed stepped (service.alerted rfl work)
    intro _ op is
    cases is
    rfl

end ServiceInv
end Rumprun.Core.Scheduler
