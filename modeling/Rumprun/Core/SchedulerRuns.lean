import Rumprun.Core.JoinProtocol

/-! # Every run of the scheduler

Each admitted event returns and is a sequence of moves, so what the moves keep
holds along every run from `bmk_sched_startmain`. -/

namespace Rumprun.Core.Scheduler
open StepRuns Function Sched List
variable {promises : Promises} {sys next : System} {cur live : Bool} {flags : Flags} {pc : Pc}

structure SysInv (sys : System) : Prop where
  core : CoreInv sys
  joins : JoinInv sys

theorem SysInv.move (inv : SysInv sys) (move : Move promises sys next) : SysInv next :=
  ⟨move.core inv.core inv.joins, move.join_inv inv.core inv.joins⟩

/-- Moves made in the loop of `schedule()`. -/
abbrev LoopMoves (promises : Promises) : System → System → Prop :=
  Relation.ReflTransGen fun sys next =>
    System.inSchedule (sys.pc sys.sched.current) = true ∧ Move promises sys next

def Moves (promises : Promises) (sys next : System) : Prop :=
  Move promises sys next ∨ LoopMoves promises sys next

theorem Moves.keep {Inv : System → Prop}
    (kept : ∀ {sys next : System}, Inv sys → Move promises sys next → Inv next)
    (moves : Moves promises sys next) (holds : Inv sys) : Inv next := by
  rcases moves with move | path
  · exact kept holds move
  · induction path with
    | refl => exact holds
    | tail _ move ih => exact kept ih move.2

theorem SysInv.moves (inv : SysInv sys) (moves : Moves promises sys next) : SysInv next :=
  moves.keep (fun holds move => holds.move move) inv

/-- The stack a create names, or the pages it gets. -/
def createdStack (stackBase pages : Nat) : Nat := if stackBase = 0 then pages else stackBase

theorem bmkSchedCreateWithtls_eq (s : Sched) (t : Tid) (joinable : Bool)
    {stackBase stackSize : Nat} (pages tlsarea : Nat) (sized : stackBase = 0 → stackSize = 0) :
    s.bmkSchedCreateWithtls t joinable stackBase stackSize pages tlsarea =
      .ok (s.created t (newThread (stackBase ≠ 0) joinable
        (createdStack stackBase pages) tlsarea)) := by
  rw [bmkSchedCreateWithtls]
  by_cases none : stackBase = 0
  · rw [if_pos none, bmkAssert_bind _ (decide_eq_true (sized none))]
    rfl
  · rw [if_neg none]
    rfl

/-- The new thread's stack is not the stack of a thread that is still there. -/
def System.FreshStack (sys : System) (stack : Nat) : Prop :=
  ∀ u ∈ sys.sched.threadq ++ sys.sched.zombieq, (sys.sched.thread u).stackbase ≠ stack

def System.OwnStack (sys : System) : Event → Prop
  | .call (.create _ _ stackBase _ pages _) => sys.FreshStack (createdStack stackBase pages)
  | .call (.createWithtls _ _ stackBase _ pages _) =>
    sys.FreshStack (createdStack stackBase pages)
  | _ => True

/-- A call of `bmk_sched_exit` does not free the TLS block of a `bmk_sched_create`. -/
def System.KeepsTls (sys : System) (event : Event) : Prop :=
  event = .call .exit → ∀ u, sys.heap (sys.sched.thread sys.sched.current).tp ≠ some (.tls u)

/-- The event keeps the promises. -/
structure Promises.Kept (promises : Promises) (sys : System) (event : Event) : Prop where
  ownStacks : promises.ownStacks → sys.OwnStack event
  keepTls : promises.keepTls → sys.KeepsTls event

namespace SysInv
variable {promises : Promises} {sys : System}
variable (inv : SysInv sys)
include inv

theorem createThread {t : Tid} {stackBase stackSize : Nat}
    (allowed : sys.AdmitsCreate t stackBase stackSize) (joinable ownTls : Bool)
    (pages tlsarea : Nat) (heap : Nat → Option Owner)
    (stack : promises.ownStacks → sys.FreshStack (createdStack stackBase pages))
    (tls : ownTls = false ∧ heap = sys.heap ∨ ownTls = true ∧ sys.heap tlsarea = none ∧
      heap = update sys.heap tlsarea (some (.tls t))) :
    ∃ next, { sys with heap := heap }.createThread ownTls t joinable stackBase stackSize pages
      tlsarea = .ok next ∧ Moves promises sys next := by
  have apart : promises.ownStacks → ∀ u, sys.sched.live u = true →
      (sys.sched.thread u).stackbase ≠ createdStack stackBase pages := by
    intro own u live
    apply stack own u
    rw [mem_append, inv.core.threadq_iff, inv.core.zombieq_iff, System.NotDead]
    cases dead : (sys.sched.thread u).flags.dead with
    | false => exact .inl ⟨live, rfl⟩
    | true => exact .inr ⟨live, rfl⟩
  refine ⟨_, ?_, .inl
    (.create t (stackBase ≠ 0) joinable ownTls (createdStack stackBase pages) tlsarea heap
      allowed.1 apart tls)⟩
  rw [System.createThread, bmkSchedCreateWithtls_eq _ t joinable pages tlsarea allowed.2]
  rfl

theorem blockprepare (site : Site) (deadline : Int)
    (place : sys.pc sys.sched.current = Pc.beforePrepare site) :
    ∃ sched, sys.sched.bmkSchedBlockprepareTimeout deadline = .ok sched ∧
      Moves promises sys (sys.goto sched (.prepared site)) := by
  obtain ⟨-, -, off, running, -, unprepared, -⟩ := inv.core.agrees_beforePrepare place
  obtain ⟨q, l, -, ran, queues⟩ := inv.core.queues.bmkSchedBlockprepareTimeout_spec
    inv.core.current_live off running unprepared deadline
  exact ⟨_, ran, .inl (.prepare site q l deadline place queues)⟩

theorem block (site : Site) (place : sys.pc sys.sched.current = .prepared site) :
    sys.sched.bmkSchedBlock = .ok sys.sched ∧ Moves promises sys (sys.goto sys.sched (.blocking site)) := by
  obtain ⟨-, -, -, -, timedout, prepared, -⟩ := inv.core.agrees_current place
  refine ⟨?_, .inl (.block site place)⟩
  rw [bmkSchedBlock, deref_eq inv.core.current_live, ok_bind,
    bmkAssert_bind _ (by rw [timedout]; rfl), bmkAssert_bind _ prepared]
  rfl

theorem call (op : Op) (allowed : sys.AdmitsOp op) (kept : promises.Kept sys (.call op)) :
    ∃ next, sys.call op = .ok next ∧ Moves promises sys next := by
  cases op with
  | create t joinable stackBase stackSize pages tlsarea =>
    exact inv.createThread allowed.2.1 joinable true pages tlsarea _ kept.ownStacks
      (.inr ⟨rfl, allowed.2.2, rfl⟩)
  | createWithtls t joinable stackBase stackSize pages tlsarea =>
    exact inv.createThread allowed.2 joinable false pages tlsarea sys.heap kept.ownStacks
      (.inl ⟨rfl, rfl⟩)
  | blockprepareTimeout deadline =>
    obtain ⟨sched, ran, moves⟩ := inv.blockprepare .caller deadline allowed
    refine ⟨_, ?_, moves⟩
    rw [System.call, ran]
    rfl
  | block =>
    obtain ⟨ran, moves⟩ := inv.block .caller allowed
    refine ⟨_, ?_, moves⟩
    rw [System.call, ran]
    rfl
  | wake t =>
    refine ⟨_, ?_, .inl (.wake t allowed.2)⟩
    rw [System.call, inv.core.wake_eq allowed.2]
    rfl
  | yield =>
    obtain ⟨-, -, off, running, -, -, -⟩ := inv.core.agrees_current allowed
    refine ⟨_, ?_, .inl (.yield allowed)⟩
    rw [System.call, (inv.core.queues.bmkSchedYield_spec inv.core.current_live off running).1]
    rfl
  | join j =>
    obtain ⟨live, due⟩ := inv.joins.unjoined j allowed.2
    refine ⟨_, ?_, .inl (.join j allowed.1 allowed.2)⟩
    rw [System.call]
    dsimp only
    rw [bmkSchedJoin, deref_eq live, ok_bind, bmkAssert_bind _ due]
    rfl
  | exitWithtls =>
    exact ⟨_, rfl, .inl (.exit sys.heap allowed (.inl rfl))⟩
  | exit =>
    refine ⟨_, ?_, .inl (.exit _ allowed (.inr ⟨rfl, fun keep => kept.keepTls keep rfl⟩))⟩
    rw [System.call, deref_eq inv.core.current_live, ok_bind]
    rfl

theorem reap_eq : sys.reap = .ok { sys with sched := sys.sched.reaped, log := sys.reapLog } := by
  have live : ∀ t ∈ sys.sched.zombieq, sys.sched.live t = true := fun t mem =>
    ((inv.core.zombieq_iff t).mp mem).1
  rw [System.reap, reaper_eq inv.core.zombieq_nodup live, ok_bind]
  rfl

theorem advance (allowed : System.advancing (sys.pc sys.sched.current) = true) :
    ∃ next, sys.advance = .ok next ∧ Moves promises sys next := by
  rw [System.advance]
  cases place : sys.pc sys.sched.current with
  | active activity =>
    cases activity with
    | caller => rw [place] at allowed; exact absurd allowed Bool.false_ne_true
    | joinTest j =>
      obtain ⟨live, -, -⟩ := inv.joins.joining _ j (by rw [place]; rfl)
      dsimp only
      rw [joinTest, deref_eq live, ok_bind]
      cases seen : (sys.sched.thread j).flags.joined with
      | true => exact ⟨_, rfl, .inl (.joinSeen j place seen)⟩
      | false => exact ⟨_, rfl, .inl (.joinUnseen j place seen)⟩
    | joinRegister j => exact ⟨_, rfl, .inl (.register j place)⟩
    | joinPrepare j =>
      obtain ⟨sched, ran, moves⟩ := inv.blockprepare (.join j) inftime place
      refine ⟨_, ?_, moves⟩
      dsimp only
      rw [bmkSchedBlockprepare, ran]
      rfl
    | joinUnlink j =>
      have mem := (inv.joins.waiters _ j).mpr (by rw [place]; rfl)
      refine ⟨_, ?_, .inl (.unlink j place)⟩
      dsimp only
      rw [joinUnlink, tailqRemove_eq mem, ok_bind]
      rfl
    | joinWake j =>
      refine ⟨_, ?_, .inl (.joinDone j place)⟩
      dsimp only
      rw [inv.core.wake_eq (inv.joins.waking _ j place).1]
      rfl
    | exitTest =>
      dsimp only
      rw [exitTest, deref_eq inv.core.current_live, ok_bind]
      cases gate : (sys.sched.thread sys.sched.current).flags.mustjoin with
      | true => exact ⟨_, rfl, .inl (.exitWait place gate)⟩
      | false =>
        obtain ⟨-, -, off, -, -, -, alive⟩ := inv.core.agrees_current place
        have listed := (inv.core.threadq_iff _).mpr ⟨inv.core.current_live, alive⟩
        have died : sys.sched.exitDie = .ok sys.sched.died := by
          rw [exitDie]
          dsimp only
          rw [deref_eq inv.core.current_live, ok_bind,
            bmkAssert_bind _ (by rw [off]; rfl), tailqRemove_eq listed, ok_bind]
          rfl
        refine ⟨_, ?_, .inl (.die place gate)⟩
        simp only [Bool.false_eq_true, if_false]
        rw [show (pure (sys.sched, false) : Except Stop (Sched × Bool)) =
          .ok (sys.sched, false) from rfl, ok_bind]
        simp only [Bool.false_eq_true, if_false]
        rw [died]
        rfl
    | exitSignal =>
      dsimp only
      rw [exitSignal]
      cases found : sys.sched.joinwq.find? fun jw => jw.wanted = sys.sched.current with
      | none =>
        refine ⟨_, rfl, .inl (.noSignal place ?_)⟩
        intro t mem
        exact find?_eq_none.mp found _ mem (decide_eq_true rfl)
      | some jw =>
        have wanted : jw.wanted = sys.sched.current := by
          simpa using find?_some found
        have waiter : { thread := jw.thread, wanted := sys.sched.current } ∈
            sys.sched.joinwq := by
          rw [← wanted]
          exact mem_of_find?_eq_some found
        have alive := inv.core.notDead_of_registered
          ((inv.joins.waiters jw.thread _).mp waiter)
        refine ⟨_, ?_, .inl (.signal jw.thread place waiter)⟩
        dsimp only
        rw [inv.core.wake_eq alive]
        rfl
    | exitPrepare =>
      obtain ⟨sched, ran, moves⟩ := inv.blockprepare .exit inftime place
      refine ⟨_, ?_, moves⟩
      dsimp only
      rw [bmkSchedBlockprepare, ran]
      rfl
  | prepared site =>
    obtain ⟨ran, moves⟩ := inv.block site place
    cases site with
    | caller => rw [place] at allowed; exact absurd allowed Bool.false_ne_true
    | join | exit =>
      refine ⟨_, ?_, moves⟩
      dsimp only
      rw [ran]
      rfl
  | resumed site =>
    obtain ⟨-, -, -, -, -, alive⟩ := inv.core.agrees_current place
    have kept := (JoinInv.reaped_live inv.core sys.sched.current).2 ⟨inv.core.current_live, alive⟩
    refine ⟨_, ?_, .inl (.blockReturn site place)⟩
    dsimp only
    rw [inv.reap_eq, ok_bind, bmkSchedBlockReturn, deref_eq (by exact kept), ok_bind]
    rfl
  | yielded =>
    refine ⟨_, ?_, .inl (.yieldReturn place)⟩
    dsimp only
    rw [inv.reap_eq, ok_bind]
    rfl
  | virgin | blocking | yielding
  | gone => rw [place] at allowed; exact absurd allowed Bool.false_ne_true

omit inv in
theorem expireTimeouts (curtime : Int) (fuel : Nat) :
    ∀ {sys : System} (waketime : Int), SysInv sys →
      System.inSchedule (sys.pc sys.sched.current) = true → (sys.sched.queue .timeq).length ≤ fuel →
      ∃ sched w, sys.sched.expireTimeouts curtime fuel waketime = .ok (sched, w) ∧
        sched.current = sys.sched.current ∧ LoopMoves promises sys { sys with sched := sched } := by
  induction fuel with
  | zero =>
    intro sys waketime inv place short
    have empty := length_eq_zero_iff.mp (Nat.le_zero.mp short)
    refine ⟨sys.sched, waketime, ?_, rfl, Relation.ReflTransGen.refl⟩
    rw [Sched.expireTimeouts, empty]
  | succ fuel ih =>
    intro sys waketime inv place short
    cases timeq : sys.sched.queue .timeq with
    | nil =>
      refine ⟨sys.sched, waketime, ?_, rfl, Relation.ReflTransGen.refl⟩
      rw [Sched.expireTimeouts, timeq]
    | cons t rest =>
      have queued : t ∈ sys.sched.queue .timeq := by
        rw [timeq]
        exact mem_cons_self
      have live := ((inv.core.queues.mem_iff _ _).mp queued).1
      rw [Sched.expireTimeouts, timeq]
      dsimp only
      rw [deref_eq live, ok_bind]
      by_cases expired : (sys.sched.thread t).wakeupTime ≤ curtime
      · obtain ⟨woke, -⟩ := inv.core.timeout place queued
        have move : Move promises sys _ := .timeout t place queued
        -- the queue is one shorter
        have named : .timeq ∈ ((sys.sched.withFlags t
            { (sys.sched.thread t).flags with timedout := true }).thread t).flags.qmask := by
          rw [withFlags_thread, if_pos rfl]
          exact ((inv.core.queues.mem_iff _ _).mp queued).2
        have shorter : ((sys.sched.withFlags t
            { (sys.sched.thread t).flags with timedout := true }).woken t).queue .timeq =
            rest := by
          rw [woken, if_pos (.inl named)]
          dsimp only
          rw [withFlags, store_queue, timeq, erase_cons_head]
        have current := woken_current (sys.sched.withFlags t
          { (sys.sched.thread t).flags with timedout := true }) t
        obtain ⟨sched, w, ran, same, moves⟩ := ih waketime (inv.move move)
          (by dsimp only; rw [current]; exact place)
          (by
            dsimp only
            rw [shorter]
            rw [timeq, length_cons] at short
            exact Nat.le_of_succ_le_succ short)
        refine ⟨sched, w, ?_, same.trans current, Relation.ReflTransGen.head ⟨place, move⟩ moves⟩
        rw [if_pos expired]
        rw [withFlags] at woke ran
        rw [woke, ok_bind, ran]
      · rw [if_neg expired]
        exact ⟨sys.sched, _, rfl, rfl, Relation.ReflTransGen.refl⟩

theorem turn_cases (curtime : Int) (place : System.inSchedule (sys.pc sys.sched.current) = true) :
    ∃ sched w, sys.sched.expireTimeouts curtime (sys.sched.queue .timeq).length
        (curtime + blocktimeMax) = .ok (sched, w) ∧ sched.current = sys.sched.current ∧
      (∀ promises, LoopMoves promises sys { sys with sched := sched }) ∧
      ((sched.queue .runq = [] ∧ sys.sched.scheduleTurn curtime = .ok (sched, .block w) ∧
          sys.turn curtime = .ok { sys with sched := sched }) ∨
        ∃ n rest pc, sched.queue .runq = n :: rest ∧
          sys.sched.scheduleTurn curtime = .ok (sched, .run n) ∧
          System.resume (sys.pc n) = .ok pc ∧
          sys.turn curtime = .ok
            { sys with sched := sched.switched n, pc := update sys.pc n pc }) := by
  have expires : ∀ promises, ∃ sched w, sys.sched.expireTimeouts curtime
      (sys.sched.queue .timeq).length (curtime + blocktimeMax) = .ok (sched, w) ∧
      sched.current = sys.sched.current ∧ LoopMoves promises sys { sys with sched := sched } :=
    fun promises => expireTimeouts curtime _ (curtime + blocktimeMax) inv place le_rfl
  obtain ⟨sched, w, expired, current, moves⟩ := expires ⟨False, False⟩
  have after := inv.moves (.inr moves)
  refine ⟨sched, w, expired, current, ?_, ?_⟩
  · intro promises
    obtain ⟨sched', w', expired', -, moves'⟩ := expires promises
    rw [expired] at expired'
    cases Except.ok.inj expired'
    exact moves'
  cases runq : sched.queue .runq with
  | nil =>
    have turned : sys.sched.scheduleTurn curtime = .ok (sched, .block w) := by
      simp only [scheduleTurn, expired, ok_bind, runq]
      rfl
    refine .inl ⟨rfl, turned, ?_⟩
    rw [System.turn, turned]
    rfl
  | cons n rest =>
    have queued : n ∈ sched.queue .runq := by
      rw [runq]
      exact mem_cons_self
    have still : System.inSchedule (sys.pc sched.current) = true := by
      rw [current]
      exact place
    obtain ⟨only, live, -⟩ := after.core.queued_inSchedule still queued
    obtain ⟨committed, pc, resumes, -⟩ := after.core.dispatch still queued
    have alive : (sched.thread n).flags.dead = false := by
      cases dead : (sched.thread n).flags.dead with
      | false => rfl
      | true =>
        have agrees := after.core.agrees n
        rw [agrees.gone_of_dead dead] at agrees
        have off := (agrees live).1
        rw [only] at off
        exact absurd off (by decide)
    have turned : sys.sched.scheduleTurn curtime = .ok (sched, .run n) := by
      simp only [scheduleTurn, expired, ok_bind, runq]
      rw [deref_eq live, ok_bind, bmkAssert_bind _ (decide_eq_true (by rw [only]; decide)),
        bmkAssert_bind _ (by rw [alive]; rfl)]
      rfl
    dsimp only at committed resumes
    refine .inr ⟨n, rest, pc, rfl, turned, resumes, ?_⟩
    rw [System.turn, turned, ok_bind]
    dsimp only
    rw [committed, ok_bind, resumes, ok_bind]
    rfl

theorem turn (curtime : Int) (place : System.inSchedule (sys.pc sys.sched.current) = true) :
    ∃ next, sys.turn curtime = .ok next ∧ Moves promises sys next := by
  obtain ⟨sched, w, -, current, moves, decided⟩ := inv.turn_cases curtime place
  rcases decided with ⟨-, -, turned⟩ | ⟨n, rest, pc, runq, -, resumes, turned⟩
  · exact ⟨_, turned, .inr (moves promises)⟩
  · have still : System.inSchedule (sys.pc sched.current) = true := by
      rw [current]
      exact place
    have queued : n ∈ sched.queue .runq := by
      rw [runq]
      exact mem_cons_self
    exact ⟨_, turned, .inr ((moves promises).tail ⟨still, .dispatch n pc still queued resumes⟩)⟩

theorem step (event : Event) (allowed : sys.Admits event) (kept : promises.Kept sys event) :
    ∃ next, sys.step event = .ok next ∧ Moves promises sys next := by
  cases event with
  | call op => exact inv.call op allowed kept
  | advance => exact inv.advance allowed
  | turn curtime => exact inv.turn curtime allowed
  | interrupt t =>
    refine ⟨_, ?_, .inl (.wake t allowed)⟩
    rw [System.step, inv.core.wake_eq allowed]
    rfl
  | memalloc block => exact ⟨_, rfl, .inl (.memalloc block allowed)⟩
  | memfree block => exact ⟨_, rfl, .inl (.memfree block allowed)⟩

theorem steps (event : Event) (allowed : sys.Admits event) :
    ∃ next, sys.step event = .ok next ∧ Moves ⟨False, False⟩ sys next :=
  inv.step event allowed ⟨False.elim, False.elim⟩

end SysInv

/-! ## The start -/

namespace System

def mainThread (stack tlsarea : Nat) : Thread :=
  { newThread true false stack tlsarea with
    flags := { (newThread true false stack tlsarea).flags with qmask := ∅, running := true } }

def mainOnly (main stack tlsarea : Nat) : System :=
  { sched :=
      { Sched.boot.store main (mainThread stack tlsarea) with
        live := update Sched.boot.live main true
        threadq := [main]
        current := main }
    pc := update (fun _ => .gone) main (.active .caller)
    joinable := fun _ => false
    unjoined := fun _ => false
    ownTls := update (fun _ => false) main true
    heap := update (fun _ => none) tlsarea (some (.tls main))
    log := [.created main] }

theorem start_eq (main : Tid) {stack : Nat} (stackSize tlsarea : Nat) (stacked : stack ≠ 0) :
    start main stack stackSize tlsarea = .ok (mainOnly main stack tlsarea) := by
  have sized : stack = 0 → stackSize = 0 := fun none => absurd none stacked
  have created := bmkSchedCreateWithtls_eq boot main false 0 tlsarea sized
  rw [createdStack, if_neg stacked, decide_eq_true stacked] at created
  have mem : main ∈ (boot.created main (newThread true false stack tlsarea)).queue .runq :=
    mem_singleton.mpr rfl
  have live : (boot.created main (newThread true false stack tlsarea)).live main = true :=
    update_self ..
  have emptied : update boot.queue .runq ((update boot.queue .runq
      (boot.queue .runq ++ [main]) .runq).erase main) = boot.queue := by
    rw [update_self, update_eq_iff]
    exact ⟨erase_cons_head main [], fun _ _ => rfl⟩
  have switched : boot.bmkSchedStartmain main stack stackSize tlsarea =
      .ok (mainOnly main stack tlsarea).sched := by
    rw [bmkSchedStartmain, created, ok_bind, tailqRemove_eq mem, ok_bind,
      deref_eq live, ok_bind, schedSwitch, deref_eq (by exact live), ok_bind]
    simp only [store_thread, update_self]
    have stored : (boot.created main (newThread true false stack tlsarea)).thread main =
        newThread true false stack tlsarea := update_self ..
    rw [bmkAssert_bind _ rfl, stored, bmkAssert_bind _ (by rfl)]
    simp only [Sched.created, Sched.setQueue, Sched.store, update_idem, mainOnly]
    rw [emptied]
    rfl
  rw [start, switched]
  rfl

theorem mainOnly_inv (main stack tlsarea : Nat) : SysInv (mainOnly main stack tlsarea) := by
  have live : ∀ t, (mainOnly main stack tlsarea).sched.live t = decide (t = main) := by
    intro t
    simp only [mainOnly, update_apply, boot]
    by_cases here : t = main
    · rw [if_pos here, decide_eq_true here]
    · rw [if_neg here, decide_eq_false here]
  have place : ∀ t, (mainOnly main stack tlsarea).pc t =
      if t = main then .active .caller else .gone :=
    update_apply (fun _ => Pc.gone) main (.active .caller)
  have thread : (mainOnly main stack tlsarea).sched.thread main = mainThread stack tlsarea :=
    update_self ..
  have isMain : ∀ {t}, (mainOnly main stack tlsarea).sched.live t = true → t = main := by
    intro t is
    rw [live] at is
    exact of_decide_eq_true is
  have idle : ∀ t, ((mainOnly main stack tlsarea).pc t).joining = none ∧
      ((mainOnly main stack tlsarea).pc t).registered = none ∧
      ((mainOnly main stack tlsarea).pc t).committed = none ∧
      (∀ j, (mainOnly main stack tlsarea).pc t ≠ .active (.joinWake j)) ∧
      ∀ site, (mainOnly main stack tlsarea).pc t ≠ .blocking site := by
    intro t
    rw [place]
    split
    · exact ⟨rfl, rfl, rfl, nofun, nofun⟩
    · exact ⟨rfl, rfl, rfl, nofun, nofun⟩
  have mainLive : (mainOnly main stack tlsarea).sched.live main = true := by
    rw [live]
    exact decide_eq_true rfl
  have core : CoreInv (mainOnly main stack tlsarea) := by
    refine ⟨⟨?_, fun q => nodup_nil, List.Pairwise.nil, nofun⟩, ?_, ?_,
      nodup_singleton main, ?_, nodup_nil, mainLive⟩
    · intro q t
      constructor
      · intro mem
        exact absurd mem not_mem_nil
      · intro h
        have named := h.2
        rw [isMain h.1, thread] at named
        exact absurd named (Finset.notMem_empty q)
    · intro t
      rw [place]
      split
      · next here =>
          rw [here, mainLive, thread]
          exact ⟨decide_eq_true rfl, rfl, rfl, rfl, rfl, rfl, rfl⟩
      · next other =>
          intro is
          exact absurd (isMain is) other
    · intro t
      constructor
      · intro mem
        rw [mem_singleton.mp mem]
        exact ⟨mainLive, by rw [thread]; rfl⟩
      · intro alive
        exact mem_singleton.mpr (isMain alive.1)
    · intro t
      constructor
      · intro mem
        exact absurd mem not_mem_nil
      · intro h
        have dead := h.2
        rw [isMain h.1, thread] at dead
        exact absurd dead Bool.false_ne_true
  have joins : JoinInv (mainOnly main stack tlsarea) := by
    constructor
    · intro t j
      rw [(idle t).2.1]
      exact ⟨fun mem => absurd mem not_mem_nil, nofun⟩
    · exact nodup_nil
    · intro t j is
      rw [(idle t).1] at is
      cases is
    · intro t u j is
      rw [(idle t).1] at is
      cases is
    · intro j is
      exact absurd is Bool.false_ne_true
    · intro t j is
      exact absurd is ((idle t).2.2.2.1 j)
    · intro j is joined
      rw [isMain is, thread] at joined
      exact absurd joined Bool.false_ne_true
    · intro j _ made
      exact absurd made Bool.false_ne_true
    · intro t j is
      rw [(idle t).2.2.1] at is
      cases is
    · intro t j is
      exact absurd is ((idle t).2.2.2.2 _)
  exact ⟨core, joins⟩

end System

theorem SysInv.run (inv : SysInv sys) (events : List Event)
    (allowed : Admissible System.Admits System.step events sys) :
    ∃ final, StepRuns.run System.step events sys = .ok final ∧ SysInv final := by
  refine run_invariant ?_ events sys inv allowed
  intro state event holds admitted
  obtain ⟨next, stepped, moves⟩ := holds.steps event admitted
  exact ⟨next, stepped, holds.moves moves⟩

/-! ## Queues and flags -/

/-- The current thread is in its caller's code, between two operations. -/
def System.AtBoundary (sys : System) : Prop :=
  sys.pc sys.sched.current = .active .caller ∨ sys.pc sys.sched.current = .prepared .caller

structure QueueDiscipline (sys : System) : Prop where
  /-- A thread is on the queues its `THR_QMASK` bits name, at most one, and there once. -/
  flagged : ∀ t, sys.NotDead t → ∀ q, t ∈ sys.sched.queue q ↔ q ∈ (sys.sched.thread t).flags.qmask
  once : ∀ q, (sys.sched.queue q).Nodup
  atMostOne : ∀ t p q, t ∈ sys.sched.queue p → t ∈ sys.sched.queue q → p = q
  queued : ∀ q t, t ∈ sys.sched.queue q → sys.NotDead t
  others : ∀ t, sys.NotDead t → t ≠ sys.sched.current → ∃ q, t ∈ sys.sched.queue q
  onlyRunning : ∀ t, sys.sched.live t = true → (sys.sched.thread t).flags.running = true →
    t = sys.sched.current
  current : sys.AtBoundary → sys.NotDead sys.sched.current ∧
    (sys.sched.thread sys.sched.current).flags.running = true ∧
    ∀ q, sys.sched.current ∈ sys.sched.queue q →
      (sys.sched.thread sys.sched.current).flags.blockprep = true
  sorted : (sys.sched.queue .timeq).Pairwise fun t u =>
    (sys.sched.thread t).wakeupTime ≤ (sys.sched.thread u).wakeupTime
  finite : ∀ t ∈ sys.sched.queue .timeq, (sys.sched.thread t).wakeupTime ≠ inftime

theorem Agrees.masks (agrees : Agrees cur live flags pc) (is : live = true) :
    (flags.qmask = ∅ ∧ (cur = true ∨ flags.dead = true)) ∨
      ((∃ q, flags.qmask = {q}) ∧ flags.dead = false) := by
  cases pc with
  | virgin => exact .inr ⟨⟨_, agrees.2.2.1⟩, agrees.2.2.2.2.2.2⟩
  | active | resumed | yielded => exact .inl ⟨agrees.2.2.1, .inl agrees.1⟩
  | prepared _ => exact .inr ⟨agrees.2.2.1, agrees.2.2.2.2.2.2⟩
  | blocking _ => exact .inr ⟨agrees.2.1, agrees.2.2.2.2.2⟩
  | yielding => exact .inr ⟨⟨_, agrees.2.1⟩, agrees.2.2.2.2.2⟩
  | gone => exact .inl ⟨(agrees is).1, .inr (agrees is).2.2.1⟩

theorem Agrees.running (agrees : Agrees cur live flags pc) (is : live = true)
    (runs : flags.running = true) : cur = true := by
  have contra : flags.running = false → cur = true := by
    intro stopped
    rw [runs] at stopped
    exact absurd stopped.symm Bool.false_ne_true
  cases pc with
  | virgin => exact contra agrees.2.2.2.1
  | active | prepared | resumed | yielded => exact agrees.1
  | blocking _ => exact agrees.2.2.1.symm.trans runs
  | yielding => exact contra agrees.2.2.1
  | gone => exact contra (agrees is).2.1

theorem CoreInv.queueDiscipline (core : CoreInv sys) : QueueDiscipline sys where
  flagged := by
    intro t alive q
    rw [core.queues.mem_iff]
    exact and_iff_right alive.1
  once := core.queues.nodup
  atMostOne := by
    intro t p q inP inQ
    obtain ⟨live, namedP⟩ := (core.queues.mem_iff p t).mp inP
    obtain ⟨-, namedQ⟩ := (core.queues.mem_iff q t).mp inQ
    rcases (core.agrees t).masks live with ⟨off, -⟩ | ⟨⟨r, only⟩, -⟩
    · rw [off] at namedP
      exact absurd namedP (Finset.notMem_empty p)
    · rw [only] at namedP namedQ
      exact (Finset.mem_singleton.mp namedP).trans (Finset.mem_singleton.mp namedQ).symm
  queued := by
    intro q t mem
    obtain ⟨live, named⟩ := (core.queues.mem_iff q t).mp mem
    rcases (core.agrees t).masks live with ⟨off, -⟩ | ⟨-, alive⟩
    · rw [off] at named
      exact absurd named (Finset.notMem_empty q)
    · exact ⟨live, alive⟩
  others := by
    intro t alive other
    rcases (core.agrees t).masks alive.1 with ⟨-, isCurrent | dead⟩ | ⟨⟨q, only⟩, -⟩
    · exact absurd (of_decide_eq_true isCurrent) other
    · rw [alive.2] at dead
      exact absurd dead Bool.false_ne_true
    · exact ⟨q, (core.queues.mem_iff q t).mpr ⟨alive.1, by rw [only]; exact Finset.mem_singleton_self q⟩⟩
  onlyRunning := by
    intro t live runs
    exact of_decide_eq_true ((core.agrees t).running live runs)
  current := by
    intro boundary
    rcases boundary with place | place
    · obtain ⟨-, -, off, running, -, -, alive⟩ := core.agrees_current place
      refine ⟨⟨core.current_live, alive⟩, running, ?_⟩
      intro q mem
      exact absurd mem (core.queues.not_mem_of_empty off q)
    · obtain ⟨-, -, -, running, -, prepared, alive⟩ := core.agrees_current place
      exact ⟨⟨core.current_live, alive⟩, running, fun _ _ => prepared⟩
  sorted := core.queues.sorted
  finite := core.queues.finite

/-- From `bmk_sched_startmain` on, every run of scheduler operations and
interrupt wakes returns from every step: no assert and no halt is reached, and queues and flags
agree. -/
theorem sched_runs_keep_queues (main stack stackSize tlsarea : Nat) (stacked : stack ≠ 0) :
    ∃ boot, System.start main stack stackSize tlsarea = .ok boot ∧
      ∀ events, Admissible System.Admits System.step events boot →
        ∃ final, run System.step events boot = .ok final ∧ QueueDiscipline final := by
  refine ⟨_, System.start_eq main stackSize tlsarea stacked, ?_⟩
  intro events allowed
  obtain ⟨final, ran, inv⟩ := (System.mainOnly_inv main stack tlsarea).run events allowed
  exact ⟨final, ran, inv.core.queueDiscipline⟩

/-- The main thread joins a new one, which sleeps until 500. Interrupts wake the joiner too
early; the sleeper times out, exits, is released and reaped. -/
def joinRun : List Event :=
  [.call (.create 2 true 0 0 0x9000 0x20), .call (.join 2), .advance, .advance, .interrupt 1,
    .advance, .advance, .turn 100, .call (.blockprepareTimeout 500), .call .block, .turn 200,
    .interrupt 1, .turn 300, .advance, .advance, .advance, .advance, .advance, .advance, .turn 600,
    .advance, .call .exitWithtls, .advance, .advance, .advance, .advance, .turn 700, .advance,
    .advance, .advance, .advance, .call .yield, .turn 800, .advance, .advance, .turn 900, .advance]

theorem sched_runs_keep_queues_join :
    ∃ boot final, System.start 1 0x8000 0x1000 0x10 = .ok boot ∧
      run System.step joinRun boot = .ok final ∧ QueueDiscipline final := by
  obtain ⟨boot, booted, runs⟩ := sched_runs_keep_queues 1 0x8000 0x1000 0x10 (by decide)
  have allowed : ∀ sys ∈ (System.start 1 0x8000 0x1000 0x10).toOption,
      Admissible System.Admits System.step joinRun sys := by
    decide +kernel
  obtain ⟨final, ran, discipline⟩ := runs joinRun (allowed boot (by rw [booted]; rfl))
  exact ⟨boot, final, booted, ran, discipline⟩

end Rumprun.Core.Scheduler
