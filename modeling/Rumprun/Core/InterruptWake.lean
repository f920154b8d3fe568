import Rumprun.Core.SchedulerRuns
import Rumprun.Lib.TailQueue

/-! # An interrupt inside a wake

`set_runnable` chooses the queue before it raises the interrupt level. Here
`bmk_sched_wake` is cut at every point at which an interrupt may come, and the queues
are the pointers of the queue macros: a removal through the wrong head is not an
operation on lists. -/

namespace Rumprun.Core.Scheduler
open StepRuns TailQueue
open Function (update update_self update_of_ne update_idem)

structure Machine where
  thread : Tid → Thread
  live : Tid → Bool
  links : Links Queue Tid
  /-- Interrupts are enabled at depth 0. -/
  spldepth : Nat
  /-- Every `TAILQ_REMOVE` so far: the head it was given, and the queues it found. -/
  removed : List (Queue × Links Queue Tid)

/-- What `bmk_sched_wake` does next. -/
inductive WakePoint where
  | stamp
  | loadFlags
  | chooseQueue (tflags : Flags)
  | splhigh (tq : Queue)
  | remove (tq : Queue)
  | setFlags
  | insertTail
  | splx
  | done
  deriving DecidableEq

/-- The flags have been read, and interrupts are still enabled. -/
def WakePoint.Exposed : WakePoint → Prop
  | .chooseQueue _ => True
  | .splhigh _ => True
  | _ => False

namespace Machine

def deref (m : Machine) (t : Tid) : Except Stop Thread :=
  if m.live t = true then .ok (m.thread t)
  else .error (.undefined "access to a thread that is not allocated")

def store (m : Machine) (t : Tid) (thread : Thread) : Machine :=
  { m with thread := update m.thread t thread }

def wakeStep (t : Tid) (m : Machine) : WakePoint → Except Stop (Machine × WakePoint)
  | .stamp => do
    let thread ← m.deref t
    return (m.store t { thread with wakeupTime := inftime }, .loadFlags)
  | .loadFlags => do
    let thread ← m.deref t
    return (m, .chooseQueue thread.flags)
  | .chooseQueue tflags =>
    if .runq ∈ tflags.qmask then .ok (m, .done)
    else if tflags.qmask = {.timeq} then .ok (m, .splhigh .timeq)
    else if tflags.qmask = {.blockq} then .ok (m, .splhigh .blockq)
    else if tflags.qmask = ∅ ∧ tflags.running = true then .ok (m, .done)
    else .error (.halt "invalid thread queue")
  | .splhigh tq => .ok ({ m with spldepth := m.spldepth + 1 }, .remove tq)
  | .remove tq =>
    .ok ({ m with links := m.links.remove tq t, removed := (tq, m.links) :: m.removed }, .setFlags)
  | .setFlags => do
    let thread ← m.deref t
    return (m.store t { thread with flags := { thread.flags with qmask := {.runq} } }, .insertTail)
  | .insertTail => .ok ({ m with links := m.links.insertTail .runq t }, .splx)
  | .splx =>
    match m.spldepth with
    | 0 => .error (.halt "out of interrupt depth!")
    | depth + 1 => .ok ({ m with spldepth := depth }, .done)
  | .done => .ok (m, .done)

def wakeSteps (t : Tid) : Nat → Machine × WakePoint → Except Stop (Machine × WakePoint)
  | 0, at_ => .ok at_
  | k + 1, at_ => do wakeSteps t k (← wakeStep t at_.1 at_.2)

/-- The rest of the call; it has eight steps at most. -/
def finish (t : Tid) (m : Machine) (point : WakePoint) : Except Stop Machine :=
  (wakeSteps t 8 (m, point)).map Prod.fst

def bmkSchedWake (m : Machine) (t : Tid) : Except Stop Machine := m.finish t .stamp

/-- `bmk_sched_wake(t)` with an interrupt after its first `k` steps, whose handler calls
`bmk_sched_wake(t)` too. -/
def wakeInterrupted (m : Machine) (t : Tid) (k : Nat) : Except Stop Machine := do
  let (m, point) ← wakeSteps t k (m, .stamp)
  let m ← m.bmkSchedWake t
  m.finish t point

/-- The machine is in the scheduler's state, its pointers in order. -/
structure Represents (m : Machine) (s : Sched) : Prop where
  thread : m.thread = s.thread
  live : m.live = s.live
  links : m.links.Ordered s.queue

/-- What two wakes of a blocked thread are to achieve. -/
structure WokenOnce (m : Machine) (t : Tid) : Prop where
  onRunq : ∃ l, m.links.Visits (m.links.first .runq) l ∧ l.count t = 1
  flags : (m.thread t).flags.qmask = {.runq}
  removed : ∀ entry ∈ m.removed, ∃ l, entry.2.Visits (entry.2.first entry.1) l ∧ t ∈ l

end Machine
open Machine

/-! ## A wake without interrupts -/

namespace Machine
variable {tflags : Flags} {queue : Queue → List Tid} {final at_ : Machine} {k : Nat}
  {point : WakePoint}

def stamped (m : Machine) (t : Tid) : Machine := m.store t { m.thread t with wakeupTime := inftime }

/-- The part under `splhigh`, for a thread believed to be on `tq`. -/
def moved (m : Machine) (t : Tid) (tq : Queue) : Machine :=
  { m.store t { m.thread t with flags := { (m.thread t).flags with qmask := {.runq} } } with
    links := (m.links.remove tq t).insertTail .runq t
    removed := (tq, m.links) :: m.removed }

variable {m : Machine} {t : Tid} {q : Queue}

theorem deref_eq (live : m.live t = true) : m.deref t = .ok (m.thread t) := by
  rw [deref, if_pos live]

theorem wakeSteps_add (k n : Nat) (at_ : Machine × WakePoint) :
    wakeSteps t (k + n) at_ = wakeSteps t k at_ >>= wakeSteps t n := by
  induction k generalizing at_ with
  | zero => rw [zero_add]; rfl
  | succ k ih =>
    rw [Nat.succ_add, wakeSteps, wakeSteps]
    cases stepped : wakeStep t at_.1 at_.2 with
    | error stop => rfl
    | ok next => exact ih next

theorem wakeSteps_done (n : Nat) : wakeSteps t n (m, .done) = .ok (m, .done) := by
  induction n with
  | zero => rfl
  | succ n ih => exact ih

section
variable (live : m.live t = true)
include live

theorem stamp_steps (n : Nat) :
    wakeSteps t (n + 2) (m, .stamp) = wakeSteps t n (m.stamped t, .chooseQueue (m.thread t).flags) := by
  rw [wakeSteps, wakeStep, deref_eq live, ok_bind]
  dsimp only [pure, Except.pure]
  rw [ok_bind, wakeSteps, wakeStep, deref_eq (by exact live), ok_bind]
  dsimp only [pure, Except.pure]
  rw [ok_bind]
  simp only [stamped, store, update_self]

omit live in
theorem choose_step (only : tflags.qmask = {q}) (blocked : q ≠ .runq) :
    wakeStep t m (.chooseQueue tflags) = .ok (m, .splhigh q) := by
  cases q with
  | runq => exact absurd rfl blocked
  | timeq | blockq => simp [wakeStep, only]

theorem masked_steps (n : Nat) : wakeSteps t (n + 5) (m, .splhigh q) = .ok (m.moved t q, .done) := by
  have moved : wakeSteps t 5 (m, .splhigh q) = .ok (m.moved t q, .done) := by
    simp only [wakeSteps, wakeStep, ok_bind]
    rw [deref_eq (by exact live), ok_bind]
    rfl
  rw [add_comm, wakeSteps_add, moved, ok_bind, wakeSteps_done]

theorem finish_splhigh : m.finish t (.splhigh q) = .ok (m.moved t q) := by
  rw [finish, masked_steps live 3]
  rfl

theorem finish_choose (only : tflags.qmask = {q}) (blocked : q ≠ .runq) :
    m.finish t (.chooseQueue tflags) = .ok (m.moved t q) := by
  rw [finish, wakeSteps, choose_step only blocked, ok_bind, masked_steps live 2]
  rfl

omit live in
theorem finish_done : m.finish t .done = .ok m := by
  rw [finish, wakeSteps_done]
  rfl

omit live in
theorem choose_runnable (ready : tflags.qmask = {.runq}) (n : Nat) :
    wakeSteps t (n + 1) (m, .chooseQueue tflags) = .ok (m, .done) := by
  have on : Queue.runq ∈ tflags.qmask := by
    rw [ready]
    exact Finset.mem_singleton_self _
  rw [wakeSteps, wakeStep, if_pos on, ok_bind, wakeSteps_done]

theorem finish_loadFlags (ready : (m.thread t).flags.qmask = {.runq}) :
    m.finish t .loadFlags = .ok m := by
  rw [finish, wakeSteps, wakeStep, deref_eq live, ok_bind]
  dsimp only [pure, Except.pure]
  rw [ok_bind, choose_runnable ready 6]
  rfl

theorem wake_runnable (ready : (m.thread t).flags.qmask = {.runq}) :
    m.bmkSchedWake t = .ok (m.stamped t) := by
  rw [bmkSchedWake, finish, stamp_steps live 6, choose_runnable ready 5]
  rfl

theorem wake_blocked (only : (m.thread t).flags.qmask = {q}) (blocked : q ≠ .runq) :
    m.bmkSchedWake t = .ok ((m.stamped t).moved t q) := by
  rw [bmkSchedWake, finish, stamp_steps live 6, wakeSteps, choose_step only blocked, ok_bind,
    masked_steps (by exact live) 0]
  rfl

end

@[simp] theorem stamped_qmask : ((m.stamped t).thread t).flags.qmask = (m.thread t).flags.qmask := by
  simp only [stamped, store, update_self]

@[simp] theorem moved_qmask : ((m.moved t q).thread t).flags.qmask = {.runq} := by
  simp only [moved, store, update_self]

theorem moved_ordered (ordered : m.links.Ordered queue) (mem : t ∈ queue q) (blocked : q ≠ .runq) :
    (m.moved t q).links.Ordered (update
      (update queue q ((queue q).erase t)) .runq (queue .runq ++ [t])) := by
  have unlinked := ordered.remove q mem
  have off : ∀ k, t ∉ update queue q ((queue q).erase t) k := by
    intro k
    by_cases here : k = q
    · subst here
      rw [update_self]
      exact (ordered.nodup k).not_mem_erase
    · rw [update_of_ne here]
      exact fun inK => here (ordered.apart inK mem)
  have linked := unlinked.insertTail .runq off
  rw [update_of_ne blocked.symm] at linked
  exact linked

theorem Represents.wake {s : Sched} (represents : m.Represents s) (inv : QueueInv s)
    (only : (s.thread t).flags.qmask = {q}) (blocked : q ≠ .runq) (live : s.live t = true) :
    ∃ next, m.bmkSchedWake t = .ok next ∧ next.Represents (s.woken t) := by
  have mem : t ∈ s.queue q := by
    rw [inv.mem_iff, only]
    exact ⟨live, Finset.mem_singleton_self q⟩
  have isLive : m.live t = true := by
    rw [represents.live]
    exact live
  have isOnly : (m.thread t).flags.qmask = {q} := by
    rw [represents.thread]
    exact only
  have stamped : (m.stamped t).links.Ordered s.queue := represents.links
  refine ⟨_, wake_blocked isLive isOnly blocked, ?_, ?_, ?_⟩
  · rw [inv.woken_eq only blocked]
    simp only [moved, Machine.stamped, store, Sched.store, Sched.setQueue, represents.thread,
      update_self, update_idem]
  · rw [Sched.woken_live]
    exact represents.live
  · rw [inv.woken_eq only blocked]
    exact moved_ordered stamped mem blocked

/-! ## A wake with an interrupt -/

theorem wokenOnce (ordered : m.links.Ordered queue) (mem : t ∈ queue q) (blocked : q ≠ .runq)
    (links : final.links = (m.moved t q).links) (flags : (final.thread t).flags.qmask = {.runq})
    (removed : final.removed = [(q, m.links)]) : final.WokenOnce t := by
  refine ⟨⟨queue .runq ++ [t], ?_, ?_⟩, flags, ?_⟩
  · have holds := (moved_ordered ordered mem blocked).holds .runq
    rw [update_self] at holds
    rw [links]
    exact holds.visits
  · have off : t ∉ queue .runq := fun on => blocked (ordered.apart mem on)
    rw [List.count_append, List.count_eq_zero.mpr off, List.count_singleton_self]
  · intro entry inLog
    rw [removed, List.mem_singleton] at inLog
    rw [inLog]
    exact ⟨queue q, (ordered.holds q).visits, mem⟩

theorem not_wokenOnce (ordered : m.links.Ordered queue) (mem : t ∈ queue q) (blocked : q ≠ .runq)
    (links : final.links = ((m.moved t q).moved t q).links) : ¬ final.WokenOnce t := by
  intro woken
  have off : t ∉ queue .runq := fun on => blocked (ordered.apart mem on)
  have moved := moved_ordered ordered mem blocked
  have holds := moved.holds .runq
  have nodup := moved.nodup .runq
  rw [update_self] at holds nodup
  obtain ⟨l, visits, once⟩ := woken.onRunq
  rw [links] at visits
  rw [visits.unique (holds.lost nodup blocked).1, List.count_eq_zero.mpr off] at once
  exact absurd once (by decide)

theorem wake_points (live : m.live t = true) (only : (m.thread t).flags.qmask = {q})
    (blocked : q ≠ .runq) (reached : wakeSteps t k (m, .stamp) = .ok (at_, point))
    (enabled : at_.spldepth = 0) :
    (at_ = m ∧ point = .stamp) ∨ (at_ = m.stamped t ∧ point = .loadFlags) ∨
      (at_ = m.stamped t ∧ (point = .chooseQueue (m.thread t).flags ∨ point = .splhigh q)) ∨
      (at_ = (m.stamped t).moved t q ∧ point = .done) := by
  have masked : ∀ {depth : Nat}, depth + 1 = 0 → False := fun is => Nat.succ_ne_zero _ is
  match k with
  | 0 =>
    cases reached
    exact .inl ⟨rfl, rfl⟩
  | 1 =>
    rw [wakeSteps, wakeStep, deref_eq live, ok_bind] at reached
    cases reached
    exact .inr (.inl ⟨rfl, rfl⟩)
  | n + 2 =>
    rw [stamp_steps live] at reached
    refine .inr (.inr ?_)
    match n with
    | 0 =>
      cases reached
      exact .inl ⟨rfl, .inl rfl⟩
    | n + 1 =>
      rw [wakeSteps, choose_step only blocked, ok_bind] at reached
      match n with
      | 0 =>
        cases reached
        exact .inl ⟨rfl, .inr rfl⟩
      | 1 => cases reached; exact (masked enabled).elim
      | 2 => cases reached; exact (masked enabled).elim
      | 3 | 4 =>
        have liveNow : (m.stamped t).live t = true := live
        simp only [wakeSteps, wakeStep, ok_bind] at reached
        rw [deref_eq (by exact liveNow), ok_bind] at reached
        cases reached
        exact (masked enabled).elim
      | n + 5 =>
        rw [masked_steps (by exact live)] at reached
        cases reached
        exact .inr ⟨rfl, rfl⟩

theorem wakeInterrupted_iff (ordered : m.links.Ordered queue) (live : m.live t = true)
    (only : (m.thread t).flags.qmask = {q}) (mem : t ∈ queue q) (blocked : q ≠ .runq)
    (clean : m.removed = []) (reached : wakeSteps t k (m, .stamp) = .ok (at_, point))
    (enabled : at_.spldepth = 0) :
    ∃ final, m.wakeInterrupted t k = .ok final ∧ (final.WokenOnce t ↔ ¬ point.Exposed) := by
  have stampedOnly : ((m.stamped t).thread t).flags.qmask = {q} := stamped_qmask.trans only
  rw [wakeInterrupted, reached, ok_bind]
  dsimp only
  rcases wake_points live only blocked reached enabled with
    ⟨is, place⟩ | ⟨is, place⟩ | ⟨is, place⟩ | ⟨is, place⟩
  · -- the interrupted call finds the thread on the run queue
    subst is place
    rw [wake_blocked live only blocked, ok_bind]
    have again : ((at_.stamped t).moved t q).finish t .stamp =
        .ok (((at_.stamped t).moved t q).stamped t) :=
      wake_runnable (by exact live) moved_qmask
    refine ⟨_, again, iff_of_true ?_ id⟩
    refine wokenOnce ordered mem blocked rfl (stamped_qmask.trans moved_qmask) ?_
    simp only [stamped, moved, store, clean]
  · subst is place
    rw [wake_blocked (by exact live) stampedOnly blocked, ok_bind]
    refine ⟨_, finish_loadFlags (by exact live) moved_qmask, iff_of_true ?_ id⟩
    refine wokenOnce ordered mem blocked rfl moved_qmask ?_
    simp only [stamped, moved, store, clean]
  · -- it goes on with the queue it has chosen
    subst is
    rw [wake_blocked (by exact live) stampedOnly blocked, ok_bind]
    have exposed : point.Exposed := by
      rcases place with is | is
      · rw [is]
        trivial
      · rw [is]
        trivial
    have finished : (((m.stamped t).stamped t).moved t q).finish t point =
        .ok ((((m.stamped t).stamped t).moved t q).moved t q) := by
      rcases place with is | is
      · rw [is]
        exact finish_choose (by exact live) only blocked
      · rw [is]
        exact finish_splhigh (by exact live)
    refine ⟨_, finished, iff_of_false ?_ (not_not.mpr exposed)⟩
    exact not_wokenOnce ordered mem blocked rfl
  · subst is place
    rw [wake_runnable (by exact live) moved_qmask, ok_bind]
    refine ⟨_, finish_done, iff_of_true ?_ id⟩
    refine wokenOnce ordered mem blocked rfl (stamped_qmask.trans moved_qmask) ?_
    simp only [stamped, moved, store, clean]

end Machine

/-- An interrupt handler that wakes the same blocked thread as the
interrupted `bmk_sched_wake` does no harm, except between the read of the flags and `splhigh`. -/
theorem interrupt_wake_iff (main stack stackSize tlsarea : Nat) (stacked : stack ≠ 0) :
    ∃ boot, System.start main stack stackSize tlsarea = .ok boot ∧
      ∀ events sys, Admissible System.Admits System.step events boot →
        run System.step events boot = .ok sys →
        ∀ (m : Machine) (t : Tid) (q : Queue), m.Represents sys.sched → m.removed = [] →
          t ∈ sys.sched.queue q → q ≠ .runq →
          ∀ k at_ point, Machine.wakeSteps t k (m, .stamp) = .ok (at_, point) → at_.spldepth = 0 →
            ∃ final, m.wakeInterrupted t k = .ok final ∧ (final.WokenOnce t ↔ ¬ point.Exposed) := by
  refine ⟨_, System.start_eq main stackSize tlsarea stacked, ?_⟩
  intro events sys allowed ran m t q represents clean mem blocked k at_ point reached enabled
  have inv := of_ok ((System.mainOnly_inv main stack tlsarea).run events allowed) ran
  obtain ⟨live, named⟩ := (inv.core.queues.mem_iff q t).mp mem
  have only : (sys.sched.thread t).flags.qmask = {q} := by
    rcases (inv.core.agrees t).masks live with ⟨off, -⟩ | ⟨⟨p, only⟩, -⟩
    · rw [off] at named
      exact absurd named (Finset.notMem_empty q)
    · rw [only, Finset.mem_singleton] at named
      rw [named, only]
  refine wakeInterrupted_iff represents.links ?_ ?_ mem blocked clean reached enabled
  · rw [represents.live]
    exact live
  · rw [represents.thread]
    exact only

def sleeperRun : List Event :=
  [.call (.create 2 false 0 0 0x9000 0x20), .call .yield, .turn 100,
    .call (.blockprepareTimeout inftime), .call .block, .turn 200, .advance]

/-- The machine with nothing but thread 2 on the block queue. -/
def Machine.withSleeper (s : Sched) : Machine :=
  { thread := s.thread
    live := s.live
    links := Links.init.insertTail .blockq 2
    spldepth := 0
    removed := [] }

theorem Machine.withSleeper_represents {s : Sched}
    (queues : s.queue .runq = [] ∧ s.queue .timeq = [] ∧ s.queue .blockq = [2]) :
    (withSleeper s).Represents s ∧ 2 ∈ s.queue .blockq := by
  obtain ⟨runq, timeq, blockq⟩ := queues
  refine ⟨⟨rfl, rfl, ?_⟩, by simp [blockq]⟩
  have links := (Links.Ordered.init (H := Queue) (E := Tid)).insertTail .blockq
    (fun _ => List.not_mem_nil (a := 2))
  have same : update (fun _ => []) .blockq ([] ++ [2]) = s.queue := by
    funext q
    cases q with
    | runq => exact runq.symm
    | timeq => exact timeq.symm
    | blockq => exact blockq.symm
  rw [same] at links
  exact links

/-- Thread 2 is said to be on the run queue, which is empty; it points to itself; and the next
thread to block will be put on the run queue. -/
def Machine.SleeperLost (m : Machine) : Prop :=
  (m.thread 2).flags.qmask = {.runq} ∧ m.links.Visits (m.links.first .runq) [] ∧
    m.links.next 2 = some 2 ∧ m.links.last .blockq = .first .runq

instance (m : Machine) : Decidable m.SleeperLost := inferInstanceAs (Decidable (_ ∧ _))

theorem interrupted_wake_loses_thread :
    ∃ boot ∈ (System.start 1 0x8000 0x1000 0x10).toOption,
      Admissible System.Admits System.step sleeperRun boot ∧
      ∃ sys ∈ (run System.step sleeperRun boot).toOption,
        (Machine.withSleeper sys.sched).Represents sys.sched ∧ 2 ∈ sys.sched.queue .blockq ∧
        ∃ at_ ∈ (Machine.wakeSteps 2 3 (Machine.withSleeper sys.sched, .stamp)).toOption,
          at_.1.spldepth = 0 ∧
        ∃ final ∈ ((Machine.withSleeper sys.sched).wakeInterrupted 2 3).toOption,
          final.SleeperLost := by
  have evaluated : ∃ boot ∈ (System.start 1 0x8000 0x1000 0x10).toOption,
      Admissible System.Admits System.step sleeperRun boot ∧
      ∃ sys ∈ (run System.step sleeperRun boot).toOption,
        (sys.sched.queue .runq = [] ∧ sys.sched.queue .timeq = [] ∧ sys.sched.queue .blockq = [2]) ∧
        ∃ at_ ∈ (wakeSteps 2 3 (withSleeper sys.sched, .stamp)).toOption, at_.1.spldepth = 0 ∧
        ∃ final ∈ ((withSleeper sys.sched).wakeInterrupted 2 3).toOption,
          final.SleeperLost := by
    decide +kernel
  obtain ⟨boot, booted, allowed, sys, ran, queues, interrupted⟩ := evaluated
  obtain ⟨represents, mem⟩ := withSleeper_represents queues
  exact ⟨boot, booted, allowed, sys, ran, represents, mem, interrupted⟩

theorem interrupt_wake_iff_before_flags :
    ∃ boot sys final, System.start 1 0x8000 0x1000 0x10 = .ok boot ∧
      run System.step sleeperRun boot = .ok sys ∧
      (Machine.withSleeper sys.sched).wakeInterrupted 2 1 = .ok final ∧ final.WokenOnce 2 := by
  obtain ⟨boot, booted, runs⟩ := interrupt_wake_iff 1 0x8000 0x1000 0x10 (by decide)
  have evaluated : ∀ boot ∈ (System.start 1 0x8000 0x1000 0x10).toOption,
      Admissible System.Admits System.step sleeperRun boot ∧
      ∃ sys ∈ (run System.step sleeperRun boot).toOption,
        (sys.sched.queue .runq = [] ∧ sys.sched.queue .timeq = [] ∧ sys.sched.queue .blockq = [2]) ∧
        ∃ at_ ∈ (wakeSteps 2 1 (withSleeper sys.sched, .stamp)).toOption,
          at_.1.spldepth = 0 ∧ at_.2 = .loadFlags := by
    decide +kernel
  obtain ⟨allowed, sys, ran, queues, at_, reached, enabled, point⟩ :=
    evaluated boot (by rw [booted]; rfl)
  obtain ⟨represents, mem⟩ := withSleeper_represents queues
  have ran := eq_ok_of_mem ran
  have reached := eq_ok_of_mem reached
  obtain ⟨final, finished, woken⟩ := runs sleeperRun sys allowed ran (withSleeper sys.sched)
    2 .blockq represents rfl mem (by decide) 1 at_.1 at_.2 reached enabled
  refine ⟨boot, sys, final, booted, ran, finished, woken.mpr ?_⟩
  rw [point]
  exact id

end Rumprun.Core.Scheduler
