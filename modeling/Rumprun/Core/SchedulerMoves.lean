import Rumprun.Core.SchedulerSystem

/-! # What one step of the scheduler does

`Move` lists the state changes a step is made of, each with its result in closed
form; every invariant is proved by cases on it. `CoreInv` relates the flag word
of each thread to its place in the code, `JoinInv` is the protocol between a
thread that exits and the one that joins it. -/

namespace Rumprun.Core.Scheduler
open Function Sched

/-! ## Views of a thread's place -/

namespace Pc

/-- The thread whose join the thread is in, from the call until `THR_MUSTJOIN` is cleared. -/
def joining : Pc → Option Tid
  | .active (.joinTest j) => some j
  | .active (.joinRegister j) => some j
  | .active (.joinPrepare j) => some j
  | .active (.joinUnlink j) => some j
  | .prepared (.join j) => some j
  | .blocking (.join j) => some j
  | .resumed (.join j) => some j
  | _ => none

/-- The same, while its `join_waiter` is on `joinwq`. -/
def registered : Pc → Option Tid
  | .active (.joinPrepare j) => some j
  | .active (.joinUnlink j) => some j
  | .prepared (.join j) => some j
  | .blocking (.join j) => some j
  | .resumed (.join j) => some j
  | _ => none

/-- The same, from a failed test of `THR_JOINED` until it calls `schedule()`. -/
def committed : Pc → Option Tid
  | .active (.joinRegister j) => some j
  | .active (.joinPrepare j) => some j
  | .prepared (.join j) => some j
  | _ => none

def exiting : Pc → Bool
  | .active .exitTest => true
  | .active .exitSignal => true
  | .active .exitPrepare => true
  | .prepared .exit => true
  | .blocking .exit => true
  | .resumed .exit => true
  | .gone => true
  | _ => false

/-- Where `bmk_sched_blockprepare` is called from. -/
def beforePrepare : Site → Pc
  | .caller => .active .caller
  | .join j => .active (.joinPrepare j)
  | .exit => .active .exitPrepare

end Pc

/-- The flag word a thread has at each place; `cur` says whether it is the current thread. -/
def Agrees (cur live : Bool) (flags : Flags) : Pc → Prop
  | .virgin => cur = false ∧ live = true ∧ flags.qmask = {.runq} ∧ flags.running = false ∧
      flags.timedout = false ∧ flags.blockprep = false ∧ flags.dead = false
  | .active _ => cur = true ∧ live = true ∧ flags.qmask = ∅ ∧ flags.running = true ∧
      flags.timedout = false ∧ flags.blockprep = false ∧ flags.dead = false
  | .prepared _ => cur = true ∧ live = true ∧ (∃ q, flags.qmask = {q}) ∧ flags.running = true ∧
      flags.timedout = false ∧ flags.blockprep = true ∧ flags.dead = false
  | .blocking _ => live = true ∧ (∃ q, flags.qmask = {q}) ∧ flags.running = cur ∧
      (flags.timedout = true → flags.qmask = {.runq}) ∧ flags.blockprep = true ∧
      flags.dead = false
  | .resumed _ => cur = true ∧ live = true ∧ flags.qmask = ∅ ∧ flags.running = true ∧
      flags.blockprep = true ∧ flags.dead = false
  | .yielding => live = true ∧ flags.qmask = {.runq} ∧ flags.running = false ∧
      flags.timedout = false ∧ flags.blockprep = false ∧ flags.dead = false
  | .yielded => cur = true ∧ live = true ∧ flags.qmask = ∅ ∧ flags.running = true ∧
      flags.timedout = false ∧ flags.blockprep = false ∧ flags.dead = false
  | .gone => live = true → flags.qmask = ∅ ∧ flags.running = false ∧ flags.dead = true ∧
      flags.mustjoin = false

structure CoreInv (sys : System) : Prop where
  queues : QueueInv sys.sched
  agrees : ∀ t, Agrees (decide (t = sys.sched.current)) (sys.sched.live t)
    (sys.sched.thread t).flags (sys.pc t)
  threadq_iff : ∀ t, t ∈ sys.sched.threadq ↔ sys.NotDead t
  threadq_nodup : sys.sched.threadq.Nodup
  zombieq_iff : ∀ t, t ∈ sys.sched.zombieq ↔
    sys.sched.live t = true ∧ (sys.sched.thread t).flags.dead = true
  zombieq_nodup : sys.sched.zombieq.Nodup
  current_live : sys.sched.live sys.sched.current = true

structure JoinInv (sys : System) : Prop where
  waiters : ∀ t j, { thread := t, wanted := j } ∈ sys.sched.joinwq ↔ (sys.pc t).registered = some j
  waiters_nodup : sys.sched.joinwq.Nodup
  joining : ∀ t j, (sys.pc t).joining = some j → sys.sched.live j = true ∧
    (sys.sched.thread j).flags.mustjoin = true ∧ sys.unjoined j = false
  unique : ∀ t u j, (sys.pc t).joining = some j → (sys.pc u).joining = some j → t = u
  unjoined : ∀ j, sys.unjoined j = true → sys.sched.live j = true ∧
    (sys.sched.thread j).flags.mustjoin = true
  waking : ∀ t j, sys.pc t = .active (.joinWake j) → sys.NotDead j ∧
    (sys.pc j).exiting = true ∧ (sys.sched.thread j).flags.mustjoin = false
  exiting : ∀ j, sys.sched.live j = true → (sys.sched.thread j).flags.joined = true →
    (sys.pc j).exiting = true
  cleared : ∀ j, sys.sched.live j = true → sys.joinable j = true →
    (sys.sched.thread j).flags.mustjoin = false → (sys.sched.thread j).flags.joined = true
  unseen : ∀ t j, (sys.pc t).committed = some j → (sys.sched.thread j).flags.joined = false
  /-- A joiner that sleeps although the joinee has announced itself has been woken, or the joinee
  is about to look for it. -/
  handshake : ∀ t j, sys.pc t = .blocking (.join j) → (sys.sched.thread j).flags.joined = true →
    (sys.sched.thread t).flags.qmask = {.runq} ∨ sys.pc j = .active .exitSignal

/-! ## The moves -/

/-- The current thread's struct with its flags replaced. -/
def Sched.withFlags (s : Sched) (t : Tid) (flags : Flags) : Sched :=
  s.store t { s.thread t with flags := flags }

/-- The state after the exit path has put the current thread on the zombie queue. -/
def Sched.died (s : Sched) : Sched :=
  { s.withFlags s.current { (s.thread s.current).flags with dead := true, running := false } with
    threadq := s.threadq.erase s.current
    zombieq := s.current :: s.zombieq }

def Sched.unlinked (s : Sched) (j : Tid) : Sched :=
  { s with joinwq := s.joinwq.erase { thread := s.current, wanted := j } }

/-- The state after a create has put the new struct on the thread and run queues. -/
def Sched.created (s : Sched) (t : Tid) (thread : Thread) : Sched :=
  ({ s.store t thread with
    live := update s.live t true
    threadq := s.threadq ++ [t] } : Sched).setQueue .runq (s.queue .runq ++ [t])

def newThread (extstack joinable : Bool) (stackbase tp : Nat) : Thread :=
  { wakeupTime := inftime
    flags := { Flags.zero with extstack := extstack, mustjoin := joinable, qmask := {.runq} }
    stackbase := stackbase
    tp := tp }

namespace System

def reapLog (sys : System) : List LogEntry :=
  ((sys.sched.freedBy sys.sched.zombieq).map fun what =>
    .freed what (sys.sched.thread what.victim) sys.sched.current
      (sys.sched.thread sys.sched.current).stackbase).reverse ++ sys.log

end System

/-- Promises that only some results need: nobody creates a thread on the stack of another one,
and no TLS block that `bmk_sched_create` allocated is given back by `bmk_sched_exit`. -/
structure Promises where
  ownStacks : Prop
  keepTls : Prop

inductive Move (promises : Promises) (sys : System) : System → Prop where
  | create (t : Tid) (extstack joinable ownTls : Bool) (stackbase tp : Nat)
      (heap : Nat → Option Owner) (fresh : sys.sched.live t = false)
      (stack : promises.ownStacks → ∀ u, sys.sched.live u = true →
        (sys.sched.thread u).stackbase ≠ stackbase)
      (tls : ownTls = false ∧ heap = sys.heap ∨ ownTls = true ∧ sys.heap tp = none ∧
        heap = update sys.heap tp (some (.tls t))) :
      Move promises sys { sys with
        sched := sys.sched.created t (newThread extstack joinable stackbase tp)
        pc := update sys.pc t .virgin
        joinable := update sys.joinable t joinable
        unjoined := update sys.unjoined t joinable
        ownTls := update sys.ownTls t ownTls
        heap := heap
        log := .created t :: sys.log }
  | prepare (site : Site) (q : Queue) (l : List Tid) (deadline : Int)
      (place : sys.pc sys.sched.current = Pc.beforePrepare site)
      (queues : QueueInv ((sys.sched.setQueue q l).store sys.sched.current
        (sys.sched.prepared deadline {q}))) :
      Move promises sys (sys.goto ((sys.sched.setQueue q l).store sys.sched.current
        (sys.sched.prepared deadline {q})) (.prepared site))
  | block (site : Site) (place : sys.pc sys.sched.current = .prepared site) :
      Move promises sys (sys.goto sys.sched (.blocking site))
  | wake (t : Tid) (alive : sys.NotDead t) :
      Move promises sys { sys with sched := sys.sched.woken t }
  | yield (place : sys.pc sys.sched.current = .active .caller) :
      Move promises sys (sys.goto sys.sched.yielded .yielding)
  | join (j : Tid) (place : sys.pc sys.sched.current = .active .caller)
      (unjoined : sys.unjoined j = true) :
      Move promises sys { sys.goto sys.sched (.active (.joinTest j)) with
        unjoined := update sys.unjoined j false }
  | exit (heap : Nat → Option Owner) (place : sys.pc sys.sched.current = .active .caller)
      (tls : heap = sys.heap ∨
        heap = update sys.heap (sys.sched.thread sys.sched.current).tp none ∧
          (promises.keepTls → ∀ u, sys.heap (sys.sched.thread sys.sched.current).tp ≠ some (.tls u))) :
      Move promises sys { sys.goto sys.sched (.active .exitTest) with heap := heap }
  | joinSeen (j : Tid) (place : sys.pc sys.sched.current = .active (.joinTest j))
      (seen : (sys.sched.thread j).flags.joined = true) :
      Move promises sys (sys.goto
        (sys.sched.withFlags j { (sys.sched.thread j).flags with mustjoin := false })
        (.active (.joinWake j)))
  | joinUnseen (j : Tid) (place : sys.pc sys.sched.current = .active (.joinTest j))
      (unseen : (sys.sched.thread j).flags.joined = false) :
      Move promises sys (sys.goto sys.sched (.active (.joinRegister j)))
  | register (j : Tid) (place : sys.pc sys.sched.current = .active (.joinRegister j)) :
      Move promises sys (sys.goto (sys.sched.joinRegister j) (.active (.joinPrepare j)))
  | unlink (j : Tid) (place : sys.pc sys.sched.current = .active (.joinUnlink j)) :
      Move promises sys (sys.goto (sys.sched.unlinked j) (.active (.joinTest j)))
  | joinDone (j : Tid) (place : sys.pc sys.sched.current = .active (.joinWake j)) :
      Move promises sys { sys.goto (sys.sched.woken j) (.active .caller) with
        log := .joinReturned j :: sys.log }
  | exitWait (place : sys.pc sys.sched.current = .active .exitTest)
      (gated : (sys.sched.thread sys.sched.current).flags.mustjoin = true) :
      Move promises sys (sys.goto (sys.sched.withFlags sys.sched.current
        { (sys.sched.thread sys.sched.current).flags with joined := true }) (.active .exitSignal))
  | die (place : sys.pc sys.sched.current = .active .exitTest)
      (ungated : (sys.sched.thread sys.sched.current).flags.mustjoin = false) :
      Move promises sys { sys.goto sys.sched.died .gone with
        log := .exited sys.sched.current
          (sys.sched.thread sys.sched.current).flags.extstack :: sys.log }
  | signal (t : Tid) (place : sys.pc sys.sched.current = .active .exitSignal)
      (waiter : { thread := t, wanted := sys.sched.current } ∈ sys.sched.joinwq) :
      Move promises sys (sys.goto (sys.sched.woken t) (.active .exitPrepare))
  | noSignal (place : sys.pc sys.sched.current = .active .exitSignal)
      (none : ∀ t, { thread := t, wanted := sys.sched.current } ∉ sys.sched.joinwq) :
      Move promises sys (sys.goto sys.sched (.active .exitPrepare))
  | blockReturn (site : Site) (place : sys.pc sys.sched.current = .resumed site) :
      Move promises sys { sys.goto (sys.sched.reaped.withFlags sys.sched.current
        { (sys.sched.thread sys.sched.current).flags with timedout := false, blockprep := false })
        (System.returnTo site) with log := sys.reapLog }
  | yieldReturn (place : sys.pc sys.sched.current = .yielded) :
      Move promises sys { sys.goto sys.sched.reaped (.active .caller) with log := sys.reapLog }
  | timeout (t : Tid) (place : System.inSchedule (sys.pc sys.sched.current) = true)
      (queued : t ∈ sys.sched.queue .timeq) :
      Move promises sys { sys with sched := (sys.sched.withFlags t
        { (sys.sched.thread t).flags with timedout := true }).woken t }
  | dispatch (next : Tid) (pc : Pc) (place : System.inSchedule (sys.pc sys.sched.current) = true)
      (queued : next ∈ sys.sched.queue .runq) (resumes : System.resume (sys.pc next) = .ok pc) :
      Move promises sys { sys with
        sched := sys.sched.switched next, pc := update sys.pc next pc }
  | memalloc (block : Nat) (free : sys.heap block = none) :
      Move promises sys { sys with heap := update sys.heap block (some .caller) }
  | memfree (block : Nat) (owned : sys.heap block = some .caller) :
      Move promises sys { sys with heap := update sys.heap block none }

/-! ## The core invariant -/

namespace Agrees
variable {cur live : Bool} {flags : Flags} {pc : Pc}

theorem wakeable (agrees : Agrees cur live flags pc) (is : live = true)
    (alive : flags.dead = false) : QueueInv.Wakeable flags := by
  cases pc with
  | virgin => exact .inl ⟨_, agrees.2.2.1⟩
  | active | resumed | yielded => exact .inr ⟨agrees.2.2.1, agrees.2.2.2.1⟩
  | prepared _ => exact .inl agrees.2.2.1
  | blocking _ => exact .inl agrees.2.1
  | yielding => exact .inl ⟨_, agrees.2.1⟩
  | gone =>
    have dead := (agrees is).2.2.1
    rw [alive] at dead
    exact absurd dead Bool.false_ne_true

theorem gone_of_dead (agrees : Agrees cur live flags pc) (dead : flags.dead = true) : pc = .gone := by
  have contra : flags.dead = false → pc = .gone := by
    intro alive
    rw [dead] at alive
    exact absurd alive.symm Bool.false_ne_true
  cases pc with
  | virgin | active | prepared | yielded => exact contra agrees.2.2.2.2.2.2
  | blocking | resumed | yielding => exact contra agrees.2.2.2.2.2
  | gone => rfl

end Agrees

theorem wokenMask_singleton (q : Queue) : wokenMask {q} = {.runq} := by
  cases q <;> decide

theorem wokenMask_empty : wokenMask ∅ = ∅ := by decide

theorem Agrees.woken {cur live : Bool} {flags : Flags} {pc : Pc} (agrees : Agrees cur live flags pc) :
    Agrees cur live { flags with qmask := wokenMask flags.qmask } pc := by
  cases pc with
  | virgin =>
    obtain ⟨c, l, mask, rest⟩ := agrees
    refine ⟨c, l, ?_, rest⟩
    dsimp only
    rw [mask, wokenMask_singleton]
  | active | resumed | yielded =>
    obtain ⟨c, l, mask, rest⟩ := agrees
    refine ⟨c, l, ?_, rest⟩
    dsimp only
    rw [mask, wokenMask_empty]
  | prepared _ =>
    obtain ⟨c, l, ⟨q, mask⟩, rest⟩ := agrees
    refine ⟨c, l, ⟨.runq, ?_⟩, rest⟩
    dsimp only
    rw [mask, wokenMask_singleton]
  | blocking _ =>
    obtain ⟨l, ⟨q, mask⟩, running, -, rest⟩ := agrees
    have ready : wokenMask flags.qmask = {.runq} := by
      rw [mask, wokenMask_singleton]
    exact ⟨l, ⟨.runq, ready⟩, running, fun _ => ready, rest⟩
  | yielding =>
    obtain ⟨l, mask, rest⟩ := agrees
    refine ⟨l, ?_, rest⟩
    dsimp only
    rw [mask, wokenMask_singleton]
  | gone =>
    intro l
    obtain ⟨mask, rest⟩ := agrees l
    refine ⟨?_, rest⟩
    dsimp only
    rw [mask, wokenMask_empty]

namespace CoreInv
variable {sys next : System} {pc : Pc} {t : Tid} {sched : Sched} {before : Activity}
variable (core : CoreInv sys)
include core

theorem agrees_current (place : sys.pc sys.sched.current = pc) :
    Agrees true true (sys.sched.thread sys.sched.current).flags pc := by
  have agrees := core.agrees sys.sched.current
  rw [place, core.current_live, decide_eq_true rfl] at agrees
  exact agrees

theorem agrees_beforePrepare {site : Site} (place : sys.pc sys.sched.current = .beforePrepare site) :
    Agrees true true (sys.sched.thread sys.sched.current).flags (.active .caller) := by
  have agrees := core.agrees_current place
  cases site with
  | caller | join | exit => exact agrees

theorem current_of_active {activity : Activity} (place : sys.pc t = .active activity) :
    t = sys.sched.current := by
  have agrees := core.agrees t
  rw [place] at agrees
  exact of_decide_eq_true agrees.1

theorem current_of_prepared {site : Site} (place : sys.pc t = .prepared site) :
    t = sys.sched.current := by
  have agrees := core.agrees t
  rw [place] at agrees
  exact of_decide_eq_true agrees.1

theorem change (t : Tid) (queues : QueueInv next.sched) (live : next.sched.live = sys.sched.live)
    (current : next.sched.current = sys.sched.current)
    (threadq : next.sched.threadq = sys.sched.threadq)
    (zombieq : next.sched.zombieq = sys.sched.zombieq)
    (others : ∀ u, u ≠ t → next.sched.thread u = sys.sched.thread u ∧ next.pc u = sys.pc u)
    (dead : (next.sched.thread t).flags.dead = (sys.sched.thread t).flags.dead)
    (there : Agrees (decide (t = sys.sched.current)) (sys.sched.live t)
      (next.sched.thread t).flags (next.pc t)) : CoreInv next := by
  have sameDead : ∀ u, (next.sched.thread u).flags.dead = (sys.sched.thread u).flags.dead := by
    intro u
    by_cases here : u = t
    · rw [here]
      exact dead
    · rw [(others u here).1]
  refine ⟨queues, ?_, ?_, by rw [threadq]; exact core.threadq_nodup, ?_,
    by rw [zombieq]; exact core.zombieq_nodup, by rw [live, current]; exact core.current_live⟩
  · intro u
    rw [live, current]
    by_cases here : u = t
    · rw [here]
      exact there
    · rw [(others u here).1, (others u here).2]
      exact core.agrees u
  · intro u
    rw [threadq, core.threadq_iff, System.NotDead, System.NotDead, live, sameDead u]
  · intro u
    rw [zombieq, core.zombieq_iff, live, sameDead u]

theorem ghost (joinable unjoined ownTls : Tid → Bool) (heap : Nat → Option Owner)
    (log : List LogEntry) :
    CoreInv { sys with
      joinable := joinable, unjoined := unjoined, ownTls := ownTls, heap := heap, log := log } :=
  ⟨core.queues, core.agrees, core.threadq_iff, core.threadq_nodup, core.zombieq_iff,
    core.zombieq_nodup, core.current_live⟩

theorem goto_store {thread : Thread} (queues : QueueInv (sched.store sys.sched.current thread))
    (frame : sched.thread = sys.sched.thread ∧ sched.live = sys.sched.live ∧
      sched.current = sys.sched.current ∧ sched.threadq = sys.sched.threadq ∧
      sched.zombieq = sys.sched.zombieq)
    (dead : thread.flags.dead = (sys.sched.thread sys.sched.current).flags.dead)
    (there : Agrees true true thread.flags pc) :
    CoreInv (sys.goto (sched.store sys.sched.current thread) pc) := by
  obtain ⟨threads, live, current, threadq, zombieq⟩ := frame
  apply core.change sys.sched.current queues live current threadq zombieq
  · intro u other
    simp only [System.goto, store_thread]
    rw [update_of_ne other, update_of_ne other, threads]
    exact ⟨rfl, rfl⟩
  · simp only [System.goto, store_thread, update_self]
    exact dead
  · simp only [System.goto, store_thread, update_self, core.current_live]
    exact there

theorem goto (frame : sched.thread = sys.sched.thread ∧ sched.live = sys.sched.live ∧
      sched.current = sys.sched.current ∧ sched.threadq = sys.sched.threadq ∧
      sched.zombieq = sys.sched.zombieq ∧ sched.queue = sys.sched.queue)
    (there : Agrees true true (sys.sched.thread sys.sched.current).flags pc) :
    CoreInv (sys.goto sched pc) := by
  obtain ⟨threads, live, current, threadq, zombieq, queue⟩ := frame
  have queues : QueueInv sched := by
    refine ⟨?_, ?_, ?_, ?_⟩
    · rw [queue, live, threads]
      exact core.queues.mem_iff
    · rw [queue]
      exact core.queues.nodup
    · rw [queue, threads]
      exact core.queues.sorted
    · rw [queue, threads]
      exact core.queues.finite
  apply core.change sys.sched.current queues live current threadq zombieq
  · intro u other
    simp only [System.goto]
    rw [update_of_ne other, threads]
    exact ⟨rfl, rfl⟩
  · simp only [System.goto, threads]
  · simp only [System.goto, threads, update_self, core.current_live]
    exact there

theorem wake (alive : sys.NotDead t) : CoreInv { sys with sched := sys.sched.woken t } := by
  have agrees := core.agrees t
  apply core.change t (core.queues.woken alive.1 (agrees.wakeable alive.1 alive.2))
    (sys.sched.woken_live t) (sys.sched.woken_current t) (sys.sched.woken_threadq t)
    (sys.sched.woken_zombieq t)
  · intro u other
    simp only [woken_thread]
    rw [update_of_ne other]
    exact ⟨rfl, trivial⟩
  · simp only [woken_thread, update_self]
  · simp only [woken_thread, update_self]
    exact agrees.woken

theorem wake_eq (alive : sys.NotDead t) : sys.sched.bmkSchedWake t = .ok (sys.sched.woken t) :=
  core.queues.bmkSchedWake_eq alive.1 ((core.agrees t).wakeable alive.1 alive.2)

theorem walk (after : Activity) (place : sys.pc sys.sched.current = .active before)
    (frame : sched.thread = sys.sched.thread ∧ sched.live = sys.sched.live ∧
      sched.current = sys.sched.current ∧ sched.threadq = sys.sched.threadq ∧
      sched.zombieq = sys.sched.zombieq ∧ sched.queue = sys.sched.queue) :
    CoreInv (sys.goto sched (.active after)) := by
  have agrees : Agrees true true (sys.sched.thread sys.sched.current).flags (.active before) :=
    core.agrees_current place
  exact core.goto frame agrees

theorem wake_walk (after : Activity) (alive : sys.NotDead t)
    (place : sys.pc sys.sched.current = .active before) :
    CoreInv (sys.goto (sys.sched.woken t) (.active after)) := by
  have current := sys.sched.woken_current t
  have there : sys.pc (sys.sched.woken t).current = .active before := by
    rw [current]
    exact place
  have walked := (core.wake alive).walk after there ⟨rfl, rfl, rfl, rfl, rfl, rfl⟩
  simpa only [System.goto, current] using walked

section
variable (place : System.inSchedule (sys.pc sys.sched.current) = true)
include place

theorem queued_inSchedule {q : Queue} (queued : t ∈ sys.sched.queue q) :
    (sys.sched.thread t).flags.qmask = {q} ∧ sys.sched.live t = true ∧
      ((∃ site, sys.pc t = .blocking site) ∨
        q = .runq ∧ (sys.pc t = .virgin ∨ sys.pc t = .yielding)) := by
  obtain ⟨live, named⟩ := (core.queues.mem_iff q t).mp queued
  have agrees := core.agrees t
  have absurdEmpty : ∀ {P : Prop}, (sys.sched.thread t).flags.qmask = ∅ → P := by
    intro P off
    rw [off] at named
    exact absurd named (Finset.notMem_empty q)
  have single : ∀ {p : Queue}, (sys.sched.thread t).flags.qmask = {p} → q = p := by
    intro p only
    rw [only] at named
    exact Finset.mem_singleton.mp named
  cases at_ : sys.pc t with
  | virgin =>
    rw [at_] at agrees
    have is := single agrees.2.2.1
    subst is
    exact ⟨agrees.2.2.1, live, .inr ⟨rfl, .inl rfl⟩⟩
  | active | resumed | yielded =>
    rw [at_] at agrees
    exact absurdEmpty agrees.2.2.1
  | prepared site =>
    rw [← core.current_of_prepared at_, at_] at place
    exact absurd place Bool.false_ne_true
  | blocking site =>
    rw [at_] at agrees
    obtain ⟨p, only⟩ := agrees.2.1
    have is := single only
    subst is
    exact ⟨only, live, .inl ⟨site, rfl⟩⟩
  | yielding =>
    rw [at_] at agrees
    have is := single agrees.2.1
    subst is
    exact ⟨agrees.2.1, live, .inr ⟨rfl, .inr rfl⟩⟩
  | gone =>
    rw [at_] at agrees
    exact absurdEmpty (agrees live).1

theorem timeout (queued : t ∈ sys.sched.queue .timeq) :
    (sys.sched.withFlags t { (sys.sched.thread t).flags with timedout := true }).bmkSchedWake t =
      .ok ((sys.sched.withFlags t { (sys.sched.thread t).flags with timedout := true }).woken t) ∧
    CoreInv { sys with sched := (sys.sched.withFlags t
      { (sys.sched.thread t).flags with timedout := true }).woken t } := by
  obtain ⟨only, live, there⟩ := core.queued_inSchedule place queued
  have marked : QueueInv (sys.sched.withFlags t
      { (sys.sched.thread t).flags with timedout := true }) :=
    core.queues.touch rfl (fun _ => rfl)
  have sound : QueueInv.Wakeable ((sys.sched.withFlags t
      { (sys.sched.thread t).flags with timedout := true }).thread t).flags := by
    rw [withFlags, store_thread, update_self]
    exact .inl ⟨.timeq, only⟩
  refine ⟨marked.bmkSchedWake_eq live sound, ?_⟩
  apply core.change t (marked.woken live sound) (woken_live _ t) (woken_current _ t)
    (woken_threadq _ t) (woken_zombieq _ t)
  · intro u other
    simp only [woken_thread, withFlags, store_thread]
    rw [update_of_ne other, update_of_ne other]
    exact ⟨rfl, trivial⟩
  · simp only [woken_thread, withFlags, store_thread, update_self]
  · simp only [woken_thread, withFlags, store_thread, update_self]
    have agrees := core.agrees t
    rcases there with ⟨site, at_⟩ | ⟨bad, -⟩
    · rw [at_] at agrees ⊢
      have ready : wokenMask (sys.sched.thread t).flags.qmask = {.runq} := by
        rw [only, wokenMask_singleton]
      exact ⟨agrees.1, ⟨.runq, ready⟩, agrees.2.2.1, fun _ => ready, agrees.2.2.2.2⟩
    · exact absurd bad (by decide)

theorem dispatch {next : Tid} (queued : next ∈ sys.sched.queue .runq) :
    sys.sched.scheduleCommit next = .ok (sys.sched.switched next) ∧
      ∃ pc, System.resume (sys.pc next) = .ok pc ∧
        CoreInv { sys with
          sched := sys.sched.switched next, pc := update sys.pc next pc } := by
  obtain ⟨only, live, there⟩ := core.queued_inSchedule place queued
  obtain ⟨committed, queues⟩ := core.queues.scheduleCommit_spec core.current_live live only
  have agrees := core.agrees next
  have resumed : ∃ pc, System.resume (sys.pc next) = .ok pc ∧ Agrees true true
      { (sys.sched.thread next).flags with qmask := ∅, running := true } pc := by
    rcases there with ⟨site, at_⟩ | ⟨-, at_ | at_⟩
    · rw [at_] at agrees ⊢
      exact ⟨_, rfl, rfl, rfl, rfl, rfl, agrees.2.2.2.2⟩
    · rw [at_] at agrees ⊢
      exact ⟨_, rfl, rfl, rfl, rfl, rfl, agrees.2.2.2.2⟩
    · rw [at_] at agrees ⊢
      exact ⟨_, rfl, rfl, rfl, rfl, rfl, agrees.2.2.2⟩
  obtain ⟨pc, resumes, resumedAgrees⟩ := resumed
  have sameDead : ∀ u, ((sys.sched.switched next).thread u).flags.dead =
      (sys.sched.thread u).flags.dead := by
    intro u
    simp only [switched]
    split
    · rfl
    · split
      · rfl
      · rfl
  refine ⟨committed, pc, resumes, queues, ?_, ?_, core.threadq_nodup, ?_, core.zombieq_nodup, live⟩
  · intro u
    by_cases here : u = next
    · subst here
      simp only [switched, update_self, if_true, live]
      exact resumedAgrees
    · simp only [switched]
      rw [update_of_ne here, if_neg here, decide_eq_false here]
      by_cases prev : u = sys.sched.current
      · subst prev
        rw [if_pos rfl]
        -- the thread that called `schedule()` is not current any more
        have was := core.agrees sys.sched.current
        cases at_ : sys.pc sys.sched.current with
        | blocking | yielding =>
          rw [at_] at was
          exact ⟨was.1, was.2.1, rfl, was.2.2.2⟩
        | gone =>
          rw [at_] at was
          intro live
          obtain ⟨mask, -, rest⟩ := was live
          exact ⟨mask, rfl, rest⟩
        | virgin | active | prepared | resumed
        | yielded => rw [at_] at place; exact absurd place Bool.false_ne_true
      · rw [if_neg prev]
        have was := core.agrees u
        rwa [decide_eq_false prev] at was
  · intro u
    rw [System.NotDead]
    simp only [sameDead u]
    exact core.threadq_iff u
  · intro u
    simp only [sameDead u]
    exact core.zombieq_iff u

end

theorem reap (alive : sys.NotDead sys.sched.current) :
    CoreInv { sys with sched := sys.sched.reaped } := by
  have zombie : ∀ t ∈ sys.sched.zombieq, sys.pc t = .gone ∧
      (sys.sched.thread t).flags.dead = true ∧ (sys.sched.thread t).flags.qmask = ∅ := by
    intro t mem
    obtain ⟨live, dead⟩ := (core.zombieq_iff t).mp mem
    have agrees := core.agrees t
    have at_ := agrees.gone_of_dead dead
    rw [at_] at agrees
    exact ⟨at_, dead, (agrees live).1⟩
  have notZombie : ∀ t, sys.NotDead t → t ∉ sys.sched.zombieq := by
    intro t notDead mem
    have dead := (zombie t mem).2.1
    rw [notDead.2] at dead
    cases dead
  refine ⟨core.queues.reaped fun t mem => (zombie t mem).2.2, ?_, ?_, core.threadq_nodup, ?_,
    List.nodup_nil, ?_⟩
  · intro t
    simp only [reaped]
    by_cases mem : t ∈ sys.sched.zombieq
    · rw [if_pos mem, (zombie t mem).1]
      intro live
      exact absurd live Bool.false_ne_true
    · rw [if_neg mem]
      exact core.agrees t
  · intro t
    rw [System.NotDead]
    simp only [reaped]
    rw [core.threadq_iff]
    constructor
    · intro notDead
      rw [if_neg (notZombie t notDead)]
      exact notDead
    · intro h
      by_cases mem : t ∈ sys.sched.zombieq
      · rw [if_pos mem] at h
        exact absurd h.1 Bool.false_ne_true
      · rw [if_neg mem] at h
        exact h
  · intro t
    simp only [reaped, List.not_mem_nil, false_iff]
    intro h
    by_cases mem : t ∈ sys.sched.zombieq
    · rw [if_pos mem] at h
      exact absurd h.1 Bool.false_ne_true
    · rw [if_neg mem] at h
      exact mem ((core.zombieq_iff t).mpr h)
  · simp only [reaped]
    rw [if_neg (notZombie _ alive)]
    exact alive.1

theorem create (fresh : sys.sched.live t = false) (extstack joinable : Bool) (stackbase tp : Nat) :
    CoreInv { sys with
      sched := sys.sched.created t (newThread extstack joinable stackbase tp)
      pc := update sys.pc t .virgin } := by
  have old : ∀ {u}, sys.sched.live u = true → u ≠ t := by
    intro u live is
    rw [is, fresh] at live
    cases live
  have queues : QueueInv (sys.sched.created t (newThread extstack joinable stackbase tp)) := by
    -- allocated on no queue first, then put on the run queue
    have allocated := core.queues.allocate fresh
      (show (newThread extstack joinable stackbase tp |> fun th =>
        ({ th with flags := Flags.zero } : Thread)).flags.qmask = ∅ from rfl)
    have entered : QueueInv _ := allocated.enqueue_tail (t := t) (q := .runq)
      (update_self ..) (by simp only [store, update_self]; rfl)
      (show (newThread extstack joinable stackbase tp).flags.qmask = {.runq} from rfl) (by decide)
    refine ⟨?_, entered.nodup, ?_, ?_⟩
    · have iff := entered.mem_iff
      simpa only [created, store, setQueue, update_idem] using iff
    · have sorted := entered.sorted
      simpa only [created, store, setQueue, update_idem] using sorted
    · have finite := entered.finite
      simpa only [created, store, setQueue, update_idem] using finite
  refine ⟨queues, ?_, ?_, ?_, ?_, core.zombieq_nodup, ?_⟩
  · intro u
    simp only [created, setQueue, store]
    by_cases here : u = t
    · subst here
      rw [update_self, update_self, update_self]
      exact ⟨decide_eq_false (Ne.symm (old core.current_live)), rfl, rfl, rfl, rfl, rfl, rfl⟩
    · rw [update_of_ne here, update_of_ne here, update_of_ne here]
      exact core.agrees u
  · intro u
    rw [System.NotDead]
    simp only [created, setQueue, store, List.mem_append, List.mem_singleton, core.threadq_iff]
    by_cases here : u = t
    · subst here
      rw [update_self, update_self]
      exact ⟨fun _ => ⟨rfl, rfl⟩, fun _ => .inr rfl⟩
    · rw [update_of_ne here, update_of_ne here]
      simp only [here, or_false]
      exact Iff.rfl
  · simp only [created, setQueue, store]
    rw [List.nodup_append]
    refine ⟨core.threadq_nodup, List.nodup_singleton t, ?_⟩
    intro u mem v memV
    rw [List.mem_singleton.mp memV]
    exact old ((core.threadq_iff u).mp mem).1
  · intro u
    simp only [created, setQueue, store, core.zombieq_iff]
    by_cases here : u = t
    · subst here
      rw [update_self, update_self, fresh]
      constructor
      · intro h
        exact absurd h.1 Bool.false_ne_true
      · intro h
        exact absurd h.2 Bool.false_ne_true
    · rw [update_of_ne here, update_of_ne here]
  · simp only [created, setQueue, store]
    rw [update_of_ne (old core.current_live)]
    exact core.current_live

theorem die (place : sys.pc sys.sched.current = .active .exitTest)
    (ungated : (sys.sched.thread sys.sched.current).flags.mustjoin = false) :
    CoreInv (sys.goto sys.sched.died .gone) := by
  have agrees := core.agrees_current place
  have alive : sys.NotDead sys.sched.current := ⟨core.current_live, agrees.2.2.2.2.2.2⟩
  have touched : QueueInv (sys.sched.withFlags sys.sched.current
      { (sys.sched.thread sys.sched.current).flags with dead := true, running := false }) :=
    core.queues.touch rfl (fun _ => rfl)
  have unlisted : sys.sched.current ∉ sys.sched.zombieq := by
    intro mem
    have dead := ((core.zombieq_iff _).mp mem).2
    rw [alive.2] at dead
    cases dead
  refine ⟨⟨touched.mem_iff, touched.nodup, touched.sorted, touched.finite⟩, ?_, ?_, ?_, ?_, ?_, ?_⟩
  · intro u
    simp only [System.goto, died, withFlags, store]
    by_cases here : u = sys.sched.current
    · rw [here, update_self, update_self]
      intro _
      exact ⟨agrees.2.2.1, rfl, rfl, ungated⟩
    · rw [update_of_ne here, update_of_ne here]
      exact core.agrees u
  · intro u
    rw [System.NotDead]
    simp only [System.goto, died, withFlags, store,
      core.threadq_nodup.mem_erase_iff, core.threadq_iff]
    by_cases here : u = sys.sched.current
    · rw [here, update_self]
      constructor
      · intro h
        exact absurd rfl h.1
      · intro h
        exact absurd h.2.symm Bool.false_ne_true
    · rw [update_of_ne here]
      exact ⟨fun h => h.2, fun h => ⟨here, h⟩⟩
  · exact core.threadq_nodup.erase _
  · intro u
    simp only [System.goto, died, withFlags, store, List.mem_cons,
      core.zombieq_iff]
    by_cases here : u = sys.sched.current
    · rw [here, update_self]
      exact ⟨fun _ => ⟨core.current_live, rfl⟩, fun _ => .inl rfl⟩
    · rw [update_of_ne here]
      simp only [here, false_or]
  · exact List.nodup_cons.mpr ⟨unlisted, core.zombieq_nodup⟩
  · exact core.current_live

theorem release (j : Tid) :
    CoreInv { sys with
      sched := sys.sched.withFlags j { (sys.sched.thread j).flags with mustjoin := false } } := by
  refine core.change j (core.queues.touch rfl (fun _ => rfl)) rfl rfl rfl rfl ?_ ?_ ?_
  · intro u other
    simp only [withFlags, store_thread]
    rw [update_of_ne other]
    exact ⟨rfl, trivial⟩
  · simp only [withFlags, store_thread, update_self]
  · simp only [withFlags, store_thread, update_self]
    have agrees := core.agrees j
    cases at_ : sys.pc j with
    | gone =>
      rw [at_] at agrees
      intro live
      obtain ⟨mask, running, dead, -⟩ := agrees live
      exact ⟨mask, running, dead, rfl⟩
    | virgin | active | prepared | blocking | resumed | yielding
    | yielded => rw [at_] at agrees; exact agrees

end CoreInv

theorem CoreInv.notDead_of_registered {sys : System} (core : CoreInv sys) {t j : Tid}
    (registered : (sys.pc t).registered = some j) : sys.NotDead t := by
  have agrees := core.agrees t
  cases at_ : sys.pc t with
  | active | prepared => rw [at_] at agrees; exact ⟨agrees.2.1, agrees.2.2.2.2.2.2⟩
  | blocking _ => rw [at_] at agrees; exact ⟨agrees.1, agrees.2.2.2.2.2⟩
  | resumed _ => rw [at_] at agrees; exact ⟨agrees.2.1, agrees.2.2.2.2.2⟩
  | virgin | yielding | yielded | gone => rw [at_] at registered; cases registered

theorem Move.core {promises : Promises} {sys next : System} (move : Move promises sys next) (core : CoreInv sys)
    (joins : JoinInv sys) : CoreInv next := by
  cases move with
  | create t extstack joinable ownTls stackbase tp heap fresh _ _ =>
    exact (core.create fresh extstack joinable stackbase tp).ghost _ _ _ _ _
  | prepare site q l deadline place queues =>
    have agrees : Agrees true true (sys.sched.thread sys.sched.current).flags
        (.active .caller) := by
      have agrees := core.agrees_current place
      cases site with
      | caller | join | exit => exact agrees
    apply core.goto_store queues ⟨rfl, rfl, rfl, rfl, rfl⟩ rfl
    exact ⟨rfl, rfl, ⟨q, rfl⟩, agrees.2.2.2.1, agrees.2.2.2.2.1, rfl, agrees.2.2.2.2.2.2⟩
  | block site place =>
    obtain ⟨-, live, mask, running, timedout, prepared, alive⟩ := core.agrees_current place
    refine core.goto ⟨rfl, rfl, rfl, rfl, rfl, rfl⟩ ⟨rfl, mask, running, ?_, prepared, alive⟩
    intro fired
    rw [timedout] at fired
    exact absurd fired Bool.false_ne_true
  | wake t alive => exact core.wake alive
  | yield place =>
    obtain ⟨-, -, off, running, timedout, unprepared, alive⟩ := core.agrees_current place
    exact core.goto_store (core.queues.bmkSchedYield_spec core.current_live off running).2
      ⟨rfl, rfl, rfl, rfl, rfl⟩ rfl ⟨rfl, rfl, rfl, timedout, unprepared, alive⟩
  | join j place _ =>
    have started := core.walk (.joinTest j) place ⟨rfl, rfl, rfl, rfl, rfl, rfl⟩
    exact started.ghost _ _ _ _ _
  | exit heap place _ =>
    have started := core.walk .exitTest place ⟨rfl, rfl, rfl, rfl, rfl, rfl⟩
    exact started.ghost _ _ _ _ _
  | joinSeen j place _ =>
    exact (core.release j).walk (.joinWake j) place ⟨rfl, rfl, rfl, rfl, rfl, rfl⟩
  | joinUnseen j place _ | register j place | unlink j place | noSignal place _ =>
    exact core.walk _ place ⟨rfl, rfl, rfl, rfl, rfl, rfl⟩
  | joinDone j place =>
    exact (core.wake_walk .caller (joins.waking _ j place).1 place).ghost _ _ _ _ _
  | exitWait place _ =>
    have agrees := core.agrees_current place
    exact core.goto_store (core.queues.touch rfl (fun _ => rfl)) ⟨rfl, rfl, rfl, rfl, rfl⟩ rfl
      agrees
  | die place ungated => exact (core.die place ungated).ghost _ _ _ _ _
  | signal t place waiter =>
    have alive := core.notDead_of_registered ((joins.waiters t _).mp waiter)
    exact core.wake_walk .exitPrepare alive place
  | blockReturn site place =>
    obtain ⟨-, -, off, running, -, alive⟩ := core.agrees_current place
    have reaped := core.reap ⟨core.current_live, alive⟩
    have cleared : Agrees true true { (sys.sched.thread sys.sched.current).flags with
        timedout := false, blockprep := false } (System.returnTo site) := by
      cases site with
      | caller | join | exit => exact ⟨rfl, rfl, off, running, rfl, rfl, alive⟩
    have touched : QueueInv (sys.sched.reaped.store sys.sched.current
        { sys.sched.thread sys.sched.current with flags :=
          { (sys.sched.thread sys.sched.current).flags with
            timedout := false, blockprep := false } }) :=
      reaped.queues.touch rfl (fun _ => rfl)
    exact (reaped.goto_store touched ⟨rfl, rfl, rfl, rfl, rfl⟩ rfl cleared).ghost _ _ _ _ _
  | yieldReturn place =>
    have agrees := core.agrees_current place
    have reaped := core.reap ⟨core.current_live, agrees.2.2.2.2.2.2⟩
    have done : CoreInv ({ sys with sched := sys.sched.reaped }.goto sys.sched.reaped
        (.active .caller)) := reaped.goto ⟨rfl, rfl, rfl, rfl, rfl, rfl⟩ agrees
    exact done.ghost _ _ _ _ _
  | timeout t place queued => exact (core.timeout place queued).2
  | dispatch n pc place queued resumes =>
    obtain ⟨-, pc', resumes', dispatched⟩ := core.dispatch place queued
    rw [resumes] at resumes'
    cases Except.ok.inj resumes'
    exact dispatched
  | memalloc block _ | memfree block _ => exact core.ghost _ _ _ _ _

end Rumprun.Core.Scheduler
