import Rumprun.Rumpuser.RwExclusion
import Rumprun.Rumpuser.ReleasedWaiters

/-! # The reader/writer lock loses no wakeup

Readers wait while a writer owns the lock, and also while writers only wait for it.
Every `rumpuser_rw_exit` leaves the lock without an owner and wakes one writer, or all
readers if there is no writer. So whenever threads wait for a lock without an owner, a
writer is on its way to it. -/

namespace Rumprun.Rumpuser
open Core Scheduler StepRuns Function RwSys

/-- `rumpuser_rw_enter`, `rumpuser_rw_tryenter`, `rumpuser_rw_exit`, and what goes on between
them. -/
def RwEvent.entersAndExits : RwEvent → Bool
  | .enter _ => true
  | .tryenter _ => true
  | .exit => true
  | .resume => true
  | .sched _ => true
  | _ => false

namespace RwSys

def AdmitsEnters (s : RwSys) (event : RwEvent) : Prop := s.Admits event ∧ event.entersAndExits = true

instance decidableAdmitsEnters (s : RwSys) (event : RwEvent) : Decidable (s.AdmitsEnters event) :=
  inferInstanceAs (Decidable (_ ∧ _))

/-- The writer has been taken off `wwait` and has not tried again yet. -/
structure Pending (s : RwSys) (t : Tid) : Prop where
  waits : s.phase t = .waiting .writer
  dequeued : s.queues.onlist t = false

/-- Threads wait although nobody owns the lock. -/
def Stalled (s : RwSys) : Prop := s.o = 0 ∧ (s.queues.head .rwait ≠ [] ∨ s.queues.head .wwait ≠ [])

end RwSys

theorem RwPhase.head_eq_wwait {phase : RwPhase} (is : phase.head = some .wwait) :
    phase = .waiting .writer := by
  cases phase with
  | waiting lk =>
    cases lk with
    | reader => cases is
    | writer => rfl
  | outside | unsched | sched => cases is

structure RwAwake (s : RwSys) : Prop where
  woken : s.Stalled → ∃ t, s.Pending t
  ready : ∀ t, s.Pending t → s.queues.sys.Ready t
  quiet : s.readers = [] → s.writers = [] → (∀ t, ¬ s.queues.sys.Ready t) →
    s.queues.head .rwait = [] ∧ s.queues.head .wwait = []

/-! ## The invariant -/

/-- The words of the lock count the holds, whoever has them. -/
structure RwCounts (s : RwSys) : Prop where
  counted : s.v + (if s.o = 0 then 0 else 1) = s.readers.length + s.writers.length
  nonneg : 0 ≤ s.v

structure RwWakeInv (s : RwSys) : Prop where
  inv : RwInv s
  counts : RwCounts s
  released : s.queues.Released
  woken : s.Stalled → ∃ t, s.Pending t

namespace RwCounts
variable {s next : RwSys} {curlwp : Tid → Nat}

theorem same (counts : RwCounts s) (same : SameHolds s next) : RwCounts next := by
  obtain ⟨counted, nonneg⟩ := counts
  exact ⟨by rw [same.v, same.o, same.readers, same.writers]; exact counted, by rw [same.v]; exact nonneg⟩

theorem tryenter (counts : RwCounts s) (nonNull : ∀ t, curlwp t ≠ 0) {lk : RwKind} {result : Int}
    (ran : s.rwTryenter curlwp lk = .ok (next, result)) : RwCounts next := by
  obtain ⟨counted, nonneg⟩ := counts
  rcases rwTryenter_cases ran with ⟨-, is, -⟩ | ⟨-, free, -, is⟩ | ⟨-, free, -, is⟩
  · rw [is]
    exact ⟨counted, nonneg⟩
  · rw [is]
    refine ⟨?_, nonneg⟩
    simp only [free, nonNull, if_true, if_false, List.length_cons] at counted ⊢
    omega
  · rw [is]
    constructor
    · simp only [free, if_true, List.length_cons] at counted ⊢
      omega
    · dsimp only
      omega

theorem release (counts : RwCounts s) (mine : s.current ∈ s.writers ∨ s.current ∈ s.readers) :
    RwCounts (if s.o ≠ 0 then { s.release with o := 0 } else { s.release with v := s.v - 1 }) := by
  obtain ⟨counted, nonneg⟩ := counts
  have fewer : (s.release.readers.length + s.release.writers.length : Int) =
      s.readers.length + s.writers.length - 1 := by
    rw [RwSys.release]
    split
    · next isWriter =>
        have some := List.length_pos_of_mem isWriter
        simp only [List.length_erase_of_mem isWriter]
        omega
    · next notWriter =>
        have isReader := mine.resolve_left notWriter
        have some := List.length_pos_of_mem isReader
        simp only [List.length_erase_of_mem isReader]
        omega
  obtain ⟨-, -, v, o⟩ := s.release_frame
  split
  · next owned =>
      rw [if_neg owned] at counted
      refine ⟨?_, by simpa only [v] using nonneg⟩
      simp only [if_true, v]
      omega
  · next free =>
      have free := not_not.mp free
      rw [if_pos free] at counted
      have holds : 0 < (s.readers.length + s.writers.length : Int) := by
        rcases mine with isWriter | isReader
        · have some := List.length_pos_of_mem isWriter
          omega
        · have some := List.length_pos_of_mem isReader
          omega
      refine ⟨?_, ?_⟩
      · simp only [o, free, if_true]
        omega
      · dsimp only
        omega

end RwCounts
namespace RwWakeInv
variable {s next : RwSys} {curlwp : Tid → Nat}

theorem ready (awake : RwWakeInv s) {t : Tid} (pending : s.Pending t) : s.queues.sys.Ready t := by
  have waits : s.queues.waiting t = some .wwait := by
    rw [awake.inv.waits, pending.waits]
    rfl
  exact (awake.released t .wwait waits pending.dequeued).ready awake.inv.wait.sys.core

theorem quiet (awake : RwWakeInv s) (noReader : s.readers = []) (noWriter : s.writers = [])
    (asleep : ∀ t, ¬ s.queues.sys.Ready t) : s.queues.head .rwait = [] ∧ s.queues.head .wwait = [] := by
  have free : s.o = 0 := by
    have counted := awake.counts.counted
    have nonneg := awake.counts.nonneg
    by_contra owned
    rw [noReader, noWriter, if_neg owned] at counted
    simp only [List.length_nil] at counted
    omega
  by_contra some
  have stalled : s.Stalled := ⟨free, by simpa only [not_and_or] using some⟩
  obtain ⟨t, pending⟩ := awake.woken stalled
  exact asleep t (awake.ready pending)

end RwWakeInv

/-! ## The steps -/

namespace RwSys
variable {s next : RwSys} {curlwp : Tid → Nat} {lk : RwKind} {result : Int} {t : Tid}

theorem rwTryenter_busy (ran : s.rwTryenter curlwp lk = .ok (next, result)) (busy : result ≠ 0) :
    next = s ∧ (s.o = 0 → lk = .reader ∧ s.queues.head .wwait ≠ []) := by
  cases lk with
  | writer =>
    rw [rwTryenter] at ran
    split at ran
    · cases ran
      exact absurd rfl busy
    · next owned =>
        cases ran
        exact ⟨rfl, fun free => absurd free owned⟩
  | reader =>
    rw [rwTryenter] at ran
    split at ran
    · obtain ⟨v, -, ran⟩ := bind_eq_ok ran
      cases ran
      exact absurd rfl busy
    · next closed =>
        cases ran
        exact ⟨rfl, fun free => ⟨rfl, fun empty => closed ⟨free, empty⟩⟩⟩

theorem rwTryenter_let (nonNull : ∀ t, curlwp t ≠ 0)
    (ran : s.rwTryenter curlwp lk = .ok (next, result)) (free : next.o = 0) :
    s.o = 0 ∧ (result = 0 → lk = .reader) := by
  rcases rwTryenter_cases ran with ⟨busy, is, -⟩ | ⟨-, -, -, is⟩ | ⟨-, free, kind, -⟩
  · rw [is] at free
    exact ⟨free, fun zero => absurd zero busy⟩
  · rw [is] at free
    exact absurd free (nonNull s.current)
  · exact ⟨free, fun _ => kind⟩

theorem Pending.other (pending : s.Pending t) (elsewhere : s.phase s.current ≠ .waiting .writer) :
    t ≠ s.current := by
  intro here
  apply elsewhere
  rw [← here]
  exact pending.waits

theorem Pending.setPhase (pending : s.Pending t) (elsewhere : s.phase s.current ≠ .waiting .writer)
    (phase : RwPhase) : (s.setPhase phase).Pending t := by
  have other := pending.other elsewhere
  exact ⟨by simp [RwSys.setPhase, other, pending.waits], pending.dequeued⟩

theorem woken_tryenter (nonNull : ∀ t, curlwp t ≠ 0) (woken : s.Stalled → ∃ t, s.Pending t)
    (ran : s.rwTryenter curlwp lk = .ok (next, result)) : next.Stalled → ∃ t, next.Pending t := by
  obtain ⟨queues, phase⟩ := rwTryenter_frame ran
  rintro ⟨free, some⟩
  rw [queues] at some
  obtain ⟨t, pending⟩ := woken ⟨(rwTryenter_let nonNull ran free).1, some⟩
  exact ⟨t, by rw [phase]; exact pending.waits, by rw [queues]; exact pending.dequeued⟩

/-- One turn of the loop of `rumpuser_rw_enter`. Nothing has to be known of the others when a
writer tries: the lock has an owner afterwards. -/
theorem rwRetry_woken (wait : WaitInv s.queues) (runs : s.Runs)
    (idle : s.queues.waiting s.current = none) (released : s.queues.Released)
    (nonNull : ∀ t, curlwp t ≠ 0) (woken : lk = .reader → s.Stalled → ∃ t, s.Pending t ∧ t ≠ s.current)
    (ran : s.rwRetry curlwp lk = .ok next) :
    next.queues.Released ∧ (next.Stalled → ∃ t, next.Pending t) := by
  rw [rwRetry] at ran
  obtain ⟨⟨middle, result⟩, tried, settled⟩ := bind_eq_ok ran
  obtain ⟨queues, phase⟩ := rwTryenter_frame tried
  have current : middle.current = s.current := by simp [current, queues]
  dsimp only at settled
  split at settled
  · next busy =>
      obtain ⟨is, closed⟩ := rwTryenter_busy tried busy
      subst is
      obtain ⟨sched, started, -, -⟩ := wait.waitStart lk.head inftime 0 runs idle
      rw [started] at settled
      cases settled
      refine ⟨released.waitStart wait runs started, ?_⟩
      rintro ⟨free, -⟩
      obtain ⟨kind, writers⟩ := closed free
      obtain ⟨t, pending, other⟩ := woken kind ⟨free, .inr writers⟩
      refine ⟨t, ?_, ?_⟩
      · simp [other, pending.waits]
      · exact (update_of_ne other ..).trans pending.dequeued
  · next entered =>
      cases settled
      refine ⟨by simpa only [RwSys.setPhase, queues] using released, ?_⟩
      rintro ⟨free, some⟩
      obtain ⟨wasFree, kind⟩ := rwTryenter_let nonNull tried free
      simp only [RwSys.setPhase, queues] at some
      obtain ⟨t, pending, other⟩ := woken (kind (not_not.mp entered)) ⟨wasFree, some⟩
      refine ⟨t, ?_, ?_⟩
      · simp [RwSys.setPhase, current, phase, other, pending.waits]
      · simp [RwSys.setPhase, queues, pending.dequeued]

theorem rwWakeup_woken (inv : RwInv s) (outside : s.phase s.current = .outside)
    (released : s.queues.Released) (free : s.o = 0) (ran : s.rwWakeup = .ok next) :
    next.queues.Released ∧ (next.Stalled → ∃ t, next.Pending t) := by
  have idle : s.queues.waiting s.queues.current = none := by
    rw [inv.waits]
    exact congrArg RwPhase.head outside
  rw [rwWakeup] at ran
  split at ran
  · next some =>
      obtain ⟨queues, wakes, ran⟩ := bind_eq_ok ran
      cases ran
      refine ⟨released.wakeupOne inv.wait idle wakes, fun _ => ?_⟩
      obtain ⟨who, rest, first⟩ := List.exists_cons_of_ne_nil some
      obtain ⟨-, -, onlist⟩ := WaitSys.wakeupOne_frame wakes
      have waits := ((inv.wait.mem_iff .wwait who).mp (by simp [first])).1
      rw [inv.waits] at waits
      exact ⟨who, RwPhase.head_eq_wwait waits, by simp [onlist, first]⟩
  · next none =>
      have none := not_not.mp none
      split at ran
      · obtain ⟨queues, wakes, ran⟩ := bind_eq_ok ran
        cases ran
        refine ⟨released.wakeupAll inv.wait idle wakes, ?_⟩
        rintro ⟨-, some⟩
        obtain ⟨-, head, -⟩ := WaitSys.wakeupAll_frame wakes
        simp [head, none] at some
      · next empty =>
          cases ran
          refine ⟨released, ?_⟩
          rintro ⟨-, some⟩
          have readers := some.resolve_right (not_not.mpr none)
          exact absurd ⟨readers, free⟩ empty

end RwSys
namespace RwWakeInv
variable {s next : RwSys} {curlwp : Tid → Nat}

theorem enter (awake : RwWakeInv s) (nonNull : ∀ t, curlwp t ≠ 0)
    (outside : s.phase s.current = .outside) {lk : RwKind} (ran : s.rwEnter curlwp lk = .ok next) :
    next.queues.Released ∧ (next.Stalled → ∃ t, next.Pending t) := by
  rw [rwEnter] at ran
  obtain ⟨⟨middle, result⟩, tried, ran⟩ := bind_eq_ok ran
  obtain ⟨queues, phase⟩ := rwTryenter_frame tried
  have released : middle.queues.Released := by
    rw [queues]
    exact awake.released
  have woken := woken_tryenter nonNull awake.woken tried
  cases ran
  split
  · refine ⟨released, fun stalled => ?_⟩
    obtain ⟨t, pending⟩ := woken stalled
    refine ⟨t, pending.setPhase ?_ _⟩
    simp [current, queues, phase, show s.phase s.queues.current = .outside from outside]
  · exact ⟨released, woken⟩

theorem exit (awake : RwWakeInv s) (outside : s.phase s.current = .outside)
    (mine : s.current ∈ s.writers ∨ s.current ∈ s.readers) (ran : s.rwExit = .ok next) :
    RwCounts next ∧ next.queues.Released ∧ (next.Stalled → ∃ t, next.Pending t) := by
  obtain ⟨queues, phase, v, o⟩ := s.release_frame
  have same : ∀ (v' : Int) (o' : Nat), RwInv { s.release with v := v', o := o' } := by
    intro v' o'
    exact ⟨by simpa only [queues] using awake.inv.wait,
      by simpa only [queues, phase] using awake.inv.waits⟩
  have counts := awake.counts.release mine
  rw [rwExit] at ran
  split at ran
  · next owned =>
      rw [if_pos owned] at counts
      refine ⟨counts.same (rwWakeup_spec (same _ _) ran).2, ?_⟩
      apply rwWakeup_woken (same _ _) _ _ rfl ran
      · simpa only [current, queues, phase] using outside
      · simpa only [queues] using awake.released
  · next unowned =>
      rw [if_neg unowned] at counts
      refine ⟨counts.same (rwWakeup_spec (same _ s.release.o) ran).2, ?_⟩
      apply rwWakeup_woken (same _ s.release.o) _ _ _ ran
      · simpa only [current, queues, phase] using outside
      · simpa only [queues] using awake.released
      · simpa only [o] using not_not.mp unowned

theorem resume (awake : RwWakeInv s) (nonNull : ∀ t, curlwp t ≠ 0) (runs : s.Runs)
    (ran : s.resume curlwp = .ok next) :
    next.queues.Released ∧ (next.Stalled → ∃ t, next.Pending t) := by
  rw [RwSys.resume] at ran
  cases phase : s.phase s.current with
  | outside => rw [phase] at ran; cases ran
  | unsched lk =>
    rw [phase] at ran
    have idle : s.queues.waiting s.current = none := by
      rw [awake.inv.waits, phase]
      rfl
    apply rwRetry_woken awake.inv.wait runs idle awake.released nonNull _ ran
    intro _ stalled
    obtain ⟨t, pending⟩ := awake.woken stalled
    exact ⟨t, pending, pending.other (by simp [phase])⟩
  | waiting lk =>
    rw [phase] at ran
    have waits : s.queues.waiting s.current = some lk.head := by
      rw [awake.inv.waits, phase]
      rfl
    obtain ⟨head, code, returned, left, -, back⟩ := awake.inv.wait.waitReturn waits
    dsimp only at ran
    rw [returned, ok_bind] at ran
    have stillRuns : RwSys.Runs { s with queues := { s.queues with
        head := head, waiting := update s.queues.waiting s.queues.current none } } :=
      runs
    apply rwRetry_woken back stillRuns _ (awake.released.waitReturn returned) nonNull _ ran
    · exact update_self ..
    · -- a reader that is back from `wait` leaves the writers as they are
      rintro kind ⟨free, some⟩
      have fewer : ∀ wh, head wh ≠ [] → s.queues.head wh ≠ [] := by
        intro wh some empty
        apply some
        rw [left]
        split
        · by_cases there : wh = lk.head
          · simp [← there, empty]
          · simp [there, empty]
        · exact empty
      obtain ⟨t, pending⟩ := awake.woken ⟨free, some.imp (fewer _) (fewer _)⟩
      refine ⟨t, ⟨pending.waits, pending.dequeued⟩, pending.other ?_⟩
      simp [phase, kind]
  | sched =>
    rw [phase] at ran
    cases ran
    refine ⟨awake.released, fun stalled => ?_⟩
    obtain ⟨t, pending⟩ := awake.woken stalled
    exact ⟨t, pending.setPhase (by simp [phase]) _⟩

theorem step (awake : RwWakeInv s) (nonNull : ∀ t, curlwp t ≠ 0) {event : RwEvent}
    (allowed : s.AdmitsEnters event) (stepped : s.step curlwp event = .ok next) : RwWakeInv next := by
  obtain ⟨allowed, plain⟩ := allowed
  obtain ⟨after, -⟩ := rwStep_keeps awake.inv nonNull allowed stepped
  cases event with
  | enter lk =>
    obtain ⟨middle, result, tried, same, -⟩ := rwEnter_spec awake.inv allowed.2 stepped
    obtain ⟨released, woken⟩ := awake.enter nonNull allowed.2 stepped
    exact ⟨after, (awake.counts.tryenter nonNull tried).same same, released, woken⟩
  | tryenter lk =>
    rw [RwSys.step] at stepped
    obtain ⟨pair, tried, rfl⟩ := map_eq_ok stepped
    obtain ⟨queues, -⟩ := rwTryenter_frame tried
    refine ⟨after, awake.counts.tryenter nonNull tried, ?_, woken_tryenter nonNull awake.woken tried⟩
    rw [queues]
    exact awake.released
  | exit =>
    obtain ⟨counts, released, woken⟩ := awake.exit allowed.2.1 allowed.2.2 stepped
    exact ⟨after, counts, released, woken⟩
  | resume =>
    obtain ⟨released, woken⟩ := awake.resume nonNull allowed.1 stepped
    refine ⟨after, ?_, released, woken⟩
    obtain ⟨-, kept⟩ := resume_spec awake.inv allowed.1 stepped
    rcases kept with ⟨-, same⟩ | ⟨lk, middle, result, start, -, same, tried, same'⟩
    · exact awake.counts.same same
    · exact ((awake.counts.same same).tryenter nonNull tried).same same'
  | sched event =>
    obtain ⟨sys, -, ran, -⟩ := awake.inv.wait.sched allowed.1 allowed.2
    rw [RwSys.step] at stepped
    obtain ⟨queues, moved, stepped⟩ := bind_eq_ok stepped
    have released := awake.released.sched awake.inv.wait allowed.1 allowed.2 moved
    rw [moved] at ran
    cases ran
    cases stepped
    refine ⟨after, awake.counts.same ⟨rfl, rfl, rfl, rfl⟩, released, fun stalled => ?_⟩
    obtain ⟨t, pending⟩ := awake.woken stalled
    exact ⟨t, pending.waits, pending.dequeued⟩
  | downgrade | tryupgrade => cases plain

theorem init (main stack tlsarea : Nat) :
    RwWakeInv (RwSys.init (System.mainOnly main stack tlsarea)) where
  inv := RwInv.init main stack tlsarea
  counts := ⟨rfl, le_rfl⟩
  released := WaitSys.Released.init _
  woken := fun stalled => absurd stalled.2 (by simp [RwSys.init, WaitSys.init])

end RwWakeInv

/-- Wherever a run of enters, tryenters and exits
gets to, threads that wait for a lock without an owner have a writer before them that has been
taken off `wwait` and is ready to try again; and when nobody holds the lock and no thread is ready
to run, nobody waits for it. -/
theorem rw_loses_no_wakeup (curlwp : Tid → Nat) (nonNull : ∀ t, curlwp t ≠ 0)
    (main stack stackSize tlsarea : Nat) (stacked : stack ≠ 0) :
    ∃ boot, System.start main stack stackSize tlsarea = .ok boot ∧
      ∀ events final, Admissible RwSys.AdmitsEnters (RwSys.step curlwp) events (RwSys.init boot) →
        run (RwSys.step curlwp) events (RwSys.init boot) = .ok final → RwAwake final := by
  refine ⟨_, System.start_eq main stackSize tlsarea stacked, ?_⟩
  intro events final allowed ran
  have awake : RwWakeInv final := run_reaches
    (fun _ _ _ awake admitted stepped => awake.step nonNull admitted stepped)
    events _ final (RwWakeInv.init main stack tlsarea) allowed ran
  exact ⟨awake.woken, fun t pending => awake.ready pending, awake.quiet⟩

/-- A reader and a writer wait for the main thread, which is a writer; its exit wakes the writer. -/
def readerBehindWriterRun : List RwEvent :=
  [.sched (.call (.create 2 false 0 0 0x9000 0x20)),
    .sched (.call (.create 3 false 0 0 0xa000 0x30)), .enter .writer, .sched (.call .yield),
    .sched (.turn 100), .enter .reader, .resume, .sched (.call .block),
    .sched (.turn 200), .enter .writer, .resume, .sched (.call .block),
    .sched (.turn 300), .sched .advance, .exit]

theorem rw_loses_no_wakeup_reader :
    ∃ boot final, System.start 1 0x8000 0x1000 0x10 = .ok boot ∧
      run (RwSys.step (· + 1)) readerBehindWriterRun (RwSys.init boot) = .ok final ∧
      RwAwake final ∧ final.o = 0 ∧ final.queues.head .rwait = [2] ∧
      final.queues.sys.sched.queue .runq = [3] := by
  obtain ⟨boot, booted, runs⟩ :=
    rw_loses_no_wakeup (· + 1) Nat.succ_ne_zero 1 0x8000 0x1000 0x10 (by decide)
  have evaluated : ∀ sys ∈ (System.start 1 0x8000 0x1000 0x10).toOption,
      Admissible RwSys.AdmitsEnters (RwSys.step (· + 1)) readerBehindWriterRun (RwSys.init sys) ∧
      ∃ final ∈ (run (RwSys.step (· + 1)) readerBehindWriterRun (RwSys.init sys)).toOption,
        final.o = 0 ∧ final.queues.head .rwait = [2] ∧
          final.queues.sys.sched.queue .runq = [3] := by
    decide +kernel
  obtain ⟨allowed, final, reached, stalled⟩ := evaluated boot (by rw [booted]; rfl)
  have ran := eq_ok_of_mem reached
  exact ⟨boot, final, booted, ran, runs readerBehindWriterRun final allowed ran, stalled⟩

end Rumprun.Rumpuser
