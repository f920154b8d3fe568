import Rumprun.Rumpuser.RwLock

/-! # Who holds the reader/writer lock

`rumpuser_rw_tryenter` gives the lock to a writer without a look at `v`, and
`rumpuser_rw_downgrade` leaves the owner in place. As long as no writer comes in
over a reader and nobody downgrades, the two words of the lock say who holds it. -/

namespace Rumprun.Rumpuser
open Core Scheduler StepRuns Function RwSys List
variable {curlwp : Tid → Nat} {s next : RwSys} {lk : RwKind} {result : Int} {event : RwEvent}

structure RwExclusion (curlwp : Tid → Nat) (s : RwSys) : Prop where
  exclusive : ∀ t ∈ s.writers, s.writers = [t] ∧ s.readers = []
  owner : s.o = 0 ↔ s.writers = []
  count : s.v = s.readers.length
  /-- Readers, also those that were writers before, let another reader in. -/
  shared : s.readers ≠ [] → s.queues.head .wwait = [] → s.v < 2 ^ 31 - 1 →
    ∃ next, s.rwTryenter curlwp .reader = .ok (next, 0)
  released : s.writers = [] → s.readers = [] → s.v = 0 ∧ s.o = 0

def writeOverReadRun : List RwEvent :=
  [.sched (.call (.create 2 false 0 0 0x9000 0x20)), .tryenter .reader, .sched (.call .yield),
    .sched (.turn 100), .tryenter .writer]

theorem writer_enters_over_reader :
    ∃ boot ∈ (System.start 1 0x8000 0x1000 0x10).toOption,
      Admissible RwSys.Admits (RwSys.step (· + 1)) writeOverReadRun (RwSys.init boot) ∧
      ∃ final ∈ (run (RwSys.step (· + 1)) writeOverReadRun (RwSys.init boot)).toOption,
        final.readers = [1] ∧ final.writers = [2] := by
  decide +kernel

/-! ## The words of the lock -/

/-- The holds that `v` and `o` stand for. -/
structure RwHolds (v : Int) (o : Nat) (readers writers : List Tid) : Prop where
  exclusive : ∀ t ∈ writers, writers = [t] ∧ readers = []
  owner : o = 0 ↔ writers = []
  count : v = readers.length

def RwSys.Holds (s : RwSys) : Prop := RwHolds s.v s.o s.readers s.writers

theorem RwSys.Holds.exclusion {curlwp : Tid → Nat} {s : RwSys} (holds : s.Holds) :
    RwExclusion curlwp s where
  exclusive := holds.exclusive
  owner := holds.owner
  count := holds.count
  shared := by
    intro some free room
    have unowned : s.o = 0 := by
      rw [holds.owner]
      cases writers : s.writers with
      | nil => rfl
      | cons t rest =>
        have alone := (holds.exclusive t (by rw [writers]; exact mem_cons_self)).2
        exact absurd alone some
    rw [rwTryenter, if_pos ⟨unowned, free⟩, increment_eq (by omega), ok_bind]
    exact ⟨_, rfl⟩
  released := by
    intro noWriter noReader
    refine ⟨?_, holds.owner.mpr noWriter⟩
    rw [holds.count, noReader]
    rfl

theorem rwTryenter_cases (ran : s.rwTryenter curlwp lk = .ok (next, result)) :
    (result ≠ 0 ∧ next = s ∧ (lk = .writer → s.o ≠ 0)) ∨
      result = 0 ∧ s.o = 0 ∧ lk = .writer ∧
        next = { s with o := curlwp s.current, writers := s.current :: s.writers } ∨
      result = 0 ∧ s.o = 0 ∧ lk = .reader ∧
        next = { s with v := s.v + 1, readers := s.current :: s.readers } := by
  cases lk with
  | writer =>
    rw [rwTryenter] at ran
    split at ran
    · next free =>
        cases ran
        exact .inr (.inl ⟨rfl, free, rfl, rfl⟩)
    · next taken =>
        cases ran
        exact .inl ⟨by decide, rfl, fun _ => taken⟩
  | reader =>
    rw [rwTryenter] at ran
    split at ran
    · next free =>
        obtain ⟨v, counted, ran⟩ := bind_eq_ok ran
        obtain rfl := of_increment counted
        cases ran
        exact .inr (.inr ⟨rfl, free.1, rfl, rfl⟩)
    · cases ran
      exact .inl ⟨by decide, rfl, nofun⟩

namespace RwHolds
variable {v : Int} {o : Nat} {readers writers : List Tid} {t : Tid}

theorem init : RwHolds 0 0 [] [] := ⟨fun _ mem => absurd mem not_mem_nil, iff_of_true rfl rfl, rfl⟩

theorem noWriter (holds : RwHolds v o readers writers) (some : readers ≠ []) : writers = [] := by
  cases writers with
  | nil => rfl
  | cons w rest => exact absurd (holds.exclusive w mem_cons_self).2 some

theorem writer (holds : RwHolds v 0 readers writers) {lwp : Nat} (nonNull : lwp ≠ 0)
    (unread : v ≤ 0) : RwHolds v lwp readers (t :: writers) := by
  have noWriter : writers = [] := holds.owner.mp rfl
  have noReader : readers = [] := by
    rw [holds.count] at unread
    exact length_eq_zero_iff.mp (by omega)
  subst noWriter noReader
  refine ⟨?_, iff_of_false nonNull nofun, holds.count⟩
  intro u mem
  rw [mem_singleton.mp mem]
  exact ⟨rfl, rfl⟩

theorem reader (holds : RwHolds v 0 readers writers) : RwHolds (v + 1) 0 (t :: readers) writers := by
  have noWriter : writers = [] := holds.owner.mp rfl
  subst noWriter
  refine ⟨fun _ mem => absurd mem not_mem_nil, iff_of_true rfl rfl, ?_⟩
  rw [holds.count, length_cons]
  rfl

theorem exitWriter (holds : RwHolds v o readers writers) (mem : t ∈ writers) :
    o ≠ 0 ∧ RwHolds v 0 readers (writers.erase t) := by
  obtain ⟨alone, noReader⟩ := holds.exclusive t mem
  subst noReader
  refine ⟨?_, ?_⟩
  · intro free
    rw [holds.owner.mp free] at mem
    exact not_mem_nil mem
  · rw [alone, erase_cons_head]
    exact ⟨fun _ mem => absurd mem not_mem_nil, iff_of_true rfl rfl, holds.count⟩

theorem exitReader (holds : RwHolds v o readers writers) (mem : t ∈ readers) :
    o = 0 ∧ RwHolds (v - 1) o (readers.erase t) writers := by
  have noWriter := holds.noWriter (ne_nil_of_mem mem)
  have free := holds.owner.mpr noWriter
  have some := length_pos_of_mem mem
  subst noWriter
  refine ⟨free, fun _ mem => absurd mem not_mem_nil, iff_of_true free rfl, ?_⟩
  rw [holds.count, length_erase_of_mem mem]
  omega

end RwHolds

/-- What kind of hold the event asks for. -/
def RwSys.asks (s : RwSys) : RwEvent → Option RwKind
  | .enter lk => some lk
  | .tryenter lk => some lk
  | .resume =>
    match s.phase s.current with
    | .unsched lk => some lk
    | .waiting lk => some lk
    | _ => none
  | _ => none

/-- No writer is let in over a reader, and nobody downgrades. -/
def RwSys.KeepsExclusion (s : RwSys) (event : RwEvent) : Prop :=
  event ≠ .downgrade ∧ (s.asks event = some .writer → s.o = 0 → s.v ≤ 0)

theorem RwSys.Holds.tryenter (holds : s.Holds) (nonNull : ∀ t, curlwp t ≠ 0)
    (unread : lk = .writer → s.o = 0 → s.v ≤ 0) (ran : s.rwTryenter curlwp lk = .ok (next, result)) :
    next.Holds := by
  rcases rwTryenter_cases ran with ⟨-, is, -⟩ | ⟨-, free, kind, is⟩ | ⟨-, free, kind, is⟩
  · rw [is]
    exact holds
  · rw [is]
    rw [RwSys.Holds, free] at holds
    exact holds.writer (nonNull s.current) (unread kind free)
  · rw [is, RwSys.Holds]
    rw [RwSys.Holds, free] at holds
    dsimp only
    rw [free]
    exact holds.reader

/-! ## The steps -/

def RwPhase.head : RwPhase → Option RwHead
  | .waiting lk => some lk.head
  | _ => none

structure RwInv (s : RwSys) : Prop where
  wait : WaitInv s.queues
  waits : ∀ t, s.queues.waiting t = (s.phase t).head

/-- The lock's words and the holds are the same in both states. -/
structure SameHolds (s next : RwSys) : Prop where
  v : next.v = s.v
  o : next.o = s.o
  readers : next.readers = s.readers
  writers : next.writers = s.writers

theorem SameHolds.holds {s next : RwSys} (same : SameHolds s next) (holds : s.Holds) : next.Holds := by
  rw [RwSys.Holds, same.v, same.o, same.readers, same.writers]
  exact holds

theorem rwTryenter_frame (ran : s.rwTryenter curlwp lk = .ok (next, result)) :
    next.queues = s.queues ∧ next.phase = s.phase := by
  rcases rwTryenter_cases ran with ⟨-, is, -⟩ | ⟨-, -, -, is⟩ | ⟨-, -, -, is⟩
  · rw [is]
    exact ⟨rfl, rfl⟩
  · rw [is]
    exact ⟨rfl, rfl⟩
  · rw [is]
    exact ⟨rfl, rfl⟩

theorem RwInv.setPhase {s : RwSys} (inv : RwInv s) {phase : RwPhase} (idle : phase.head = none)
    (was : s.queues.waiting s.current = none) : RwInv (s.setPhase phase) := by
  refine ⟨inv.wait, ?_⟩
  intro t
  dsimp only [RwSys.setPhase]
  by_cases here : t = s.current
  · rw [here, update_self, idle]
    exact was
  · rw [update_of_ne here]
    exact inv.waits t

theorem rwRetry_spec (wait : WaitInv s.queues) (place : s.Runs)
    (idle : s.queues.waiting s.current = none)
    (others : ∀ t, t ≠ s.current → s.queues.waiting t = (s.phase t).head)
    (ran : s.rwRetry curlwp lk = .ok next) :
    ∃ middle result, s.rwTryenter curlwp lk = .ok (middle, result) ∧ SameHolds middle next ∧
      RwInv next := by
  rw [rwRetry] at ran
  obtain ⟨⟨middle, result⟩, tried, ran⟩ := bind_eq_ok ran
  obtain ⟨queues, phase⟩ := rwTryenter_frame tried
  have current : middle.current = s.current := by
    rw [current, queues]
    rfl
  refine ⟨middle, result, tried, ?_⟩
  dsimp only at ran
  split at ran
  · obtain ⟨sched, started, -, after⟩ := wait.waitStart lk.head inftime 0 place idle
    rw [queues, started] at ran
    cases ran
    refine ⟨⟨rfl, rfl, rfl, rfl⟩, after, ?_⟩
    intro t
    dsimp only
    rw [current, phase]
    by_cases here : t = s.current
    · subst here
      rw [update_self]
      exact update_self ..
    · rw [update_of_ne here, WaitSys.asleepOn]
      exact (update_of_ne here ..).trans (others t here)
  · cases ran
    refine ⟨⟨rfl, rfl, rfl, rfl⟩, ?_, ?_⟩
    · dsimp only [RwSys.setPhase]
      rw [queues]
      exact wait
    · intro t
      dsimp only [RwSys.setPhase]
      rw [current, queues, phase]
      by_cases here : t = s.current
      · subst here
        rw [update_self]
        exact idle
      · rw [update_of_ne here]
        exact others t here

theorem rwWakeup_spec {s next : RwSys} (inv : RwInv s) (ran : s.rwWakeup = .ok next) :
    RwInv next ∧ SameHolds s next := by
  have woken : ∀ {queues : WaitSys RwHead}, WaitInv queues → WaitInv.Woke s.queues queues →
      RwInv { s with queues := queues } := by
    intro queues after woke
    refine ⟨after, ?_⟩
    intro t
    dsimp only
    rw [woke.waiting]
    exact inv.waits t
  rw [rwWakeup] at ran
  split at ran
  · split at ran
    · obtain ⟨queues, ran', after, woke⟩ := inv.wait.wakeupOne .wwait
      rw [ran'] at ran
      cases ran
      exact ⟨woken after woke, rfl, rfl, rfl, rfl⟩
    · cases ran
      exact ⟨inv, rfl, rfl, rfl, rfl⟩
  · split at ran
    · obtain ⟨queues, ran', after, woke⟩ := inv.wait.wakeupAll .rwait
      rw [ran'] at ran
      cases ran
      exact ⟨woken after woke, rfl, rfl, rfl, rfl⟩
    · cases ran
      exact ⟨inv, rfl, rfl, rfl, rfl⟩

theorem RwSys.release_frame (s : RwSys) :
    s.release.queues = s.queues ∧ s.release.phase = s.phase ∧ s.release.v = s.v ∧
      s.release.o = s.o := by
  rw [release]
  split
  · exact ⟨rfl, rfl, rfl, rfl⟩
  · exact ⟨rfl, rfl, rfl, rfl⟩

theorem rwExit_spec {s next : RwSys} (inv : RwInv s) (ran : s.rwExit = .ok next)
    (mine : s.current ∈ s.writers ∨ s.current ∈ s.readers) : RwInv next ∧ (s.Holds → next.Holds) := by
  obtain ⟨queues, phase, v, o⟩ := s.release_frame
  have same : ∀ {v' : Int} {o' : Nat}, RwInv { s.release with v := v', o := o' } := by
    intro v' o'
    refine ⟨?_, ?_⟩
    · dsimp only
      rw [queues]
      exact inv.wait
    · dsimp only
      rw [queues, phase]
      exact inv.waits
  rw [rwExit] at ran
  by_cases isWriter : s.current ∈ s.writers
  · split at ran
    · obtain ⟨after, holdsSame⟩ := rwWakeup_spec same ran
      refine ⟨after, fun holds => holdsSame.holds ?_⟩
      have gone := (holds.exitWriter isWriter).2
      rw [RwSys.Holds, release, if_pos isWriter]
      exact gone
    · next free =>
        obtain ⟨after, -⟩ := rwWakeup_spec same ran
        exact ⟨after, fun holds => absurd (holds.exitWriter isWriter).1 free⟩
  · have isReader := mine.resolve_left isWriter
    split at ran
    · next owned =>
        obtain ⟨after, -⟩ := rwWakeup_spec same ran
        exact ⟨after, fun holds => absurd (holds.exitReader isReader).1 owned⟩
    · obtain ⟨after, holdsSame⟩ := rwWakeup_spec same ran
      refine ⟨after, fun holds => holdsSame.holds ?_⟩
      have gone := (holds.exitReader isReader).2
      rw [RwSys.Holds, release, if_neg isWriter]
      exact gone

theorem rwEnter_spec (inv : RwInv s) (outside : s.phase s.current = .outside)
    (ran : s.rwEnter curlwp lk = .ok next) :
    ∃ middle result, s.rwTryenter curlwp lk = .ok (middle, result) ∧ SameHolds middle next ∧
      RwInv next := by
  have idle : s.queues.waiting s.current = none := by
    rw [inv.waits, outside]
    rfl
  rw [rwEnter] at ran
  obtain ⟨⟨middle, result⟩, tried, ran⟩ := bind_eq_ok ran
  obtain ⟨queues, phase⟩ := rwTryenter_frame tried
  have middleInv : RwInv middle := by
    refine ⟨?_, ?_⟩
    · rw [queues]
      exact inv.wait
    · rw [queues, phase]
      exact inv.waits
  refine ⟨middle, result, tried, ?_⟩
  cases ran
  split
  · refine ⟨⟨rfl, rfl, rfl, rfl⟩, middleInv.setPhase rfl ?_⟩
    rw [current, queues]
    exact idle
  · exact ⟨⟨rfl, rfl, rfl, rfl⟩, middleInv⟩

theorem resume_spec (inv : RwInv s) (place : s.Runs) (ran : s.resume curlwp = .ok next) :
    RwInv next ∧ (s.asks .resume = none ∧ SameHolds s next ∨
      ∃ lk middle result start, s.asks .resume = some lk ∧ SameHolds s start ∧
        start.rwTryenter curlwp lk = .ok (middle, result) ∧ SameHolds middle next) := by
  rw [resume] at ran
  cases phase : s.phase s.current with
  | outside => rw [phase] at ran; cases ran
  | unsched lk =>
    rw [phase] at ran
    have idle : s.queues.waiting s.current = none := by
      rw [inv.waits, phase]
      rfl
    obtain ⟨middle, result, tried, same, after⟩ :=
      rwRetry_spec inv.wait place idle (fun t _ => inv.waits t) ran
    refine ⟨after, .inr ⟨lk, middle, result, s, ?_, ⟨rfl, rfl, rfl, rfl⟩, tried, same⟩⟩
    rw [asks, phase]
  | waiting lk =>
    rw [phase] at ran
    have waits : s.queues.waiting s.current = some lk.head := by
      rw [inv.waits, phase]
      rfl
    obtain ⟨head, code, returned, -, -, back⟩ := inv.wait.waitReturn waits
    dsimp only at ran
    rw [returned, ok_bind] at ran
    have runs : RwSys.Runs { s with queues := { s.queues with
        head := head, waiting := update s.queues.waiting s.queues.current none } } :=
      place
    obtain ⟨middle, result, tried, same, after⟩ := rwRetry_spec back runs
      (update_self ..)
      (fun t other => (update_of_ne other ..).trans (inv.waits t)) ran
    refine ⟨after, .inr ⟨lk, middle, result, _, ?_, ?_, tried, same⟩⟩
    · rw [asks, phase]
    · exact ⟨rfl, rfl, rfl, rfl⟩
  | sched =>
    rw [phase] at ran
    cases ran
    refine ⟨inv.setPhase rfl ?_, .inl ⟨?_, rfl, rfl, rfl, rfl⟩⟩
    · rw [inv.waits, phase]
      rfl
    · rw [asks, phase]

theorem rwStep_keeps (inv : RwInv s) (nonNull : ∀ t, curlwp t ≠ 0) (allowed : s.Admits event)
    (stepped : s.step curlwp event = .ok next) :
    RwInv next ∧ (s.KeepsExclusion event → s.Holds → next.Holds) := by
  cases event with
  | enter lk =>
    obtain ⟨middle, result, tried, same, after⟩ := rwEnter_spec inv allowed.2 stepped
    refine ⟨after, fun keeps holds => same.holds (holds.tryenter nonNull ?_ tried)⟩
    intro kind
    exact keeps.2 (congrArg some kind)
  | tryenter lk =>
    rw [step] at stepped
    obtain ⟨pair, tried, rfl⟩ := map_eq_ok stepped
    obtain ⟨queues, phase⟩ := rwTryenter_frame tried
    refine ⟨⟨?_, ?_⟩, fun keeps holds => holds.tryenter nonNull ?_ tried⟩
    · rw [queues]
      exact inv.wait
    · rw [queues, phase]
      exact inv.waits
    · intro kind
      exact keeps.2 (congrArg some kind)
  | exit =>
    obtain ⟨after, holds⟩ := rwExit_spec inv stepped allowed.2.2
    exact ⟨after, fun _ => holds⟩
  | downgrade =>
    rw [step, rwDowngrade] at stepped
    obtain ⟨_, asserted, stepped⟩ := bind_eq_ok stepped
    cases stepped
    exact ⟨⟨inv.wait, inv.waits⟩, fun keeps => absurd rfl keeps.1⟩
  | tryupgrade =>
    cases stepped
    rw [rwTryupgrade]
    split
    · next downgraded =>
        refine ⟨⟨inv.wait, inv.waits⟩, ?_⟩
        intro _ holds
        have count := holds.count
        omega
    · exact ⟨inv, fun _ holds => holds⟩
  | resume =>
    obtain ⟨after, kept⟩ := resume_spec inv allowed.1 stepped
    refine ⟨after, ?_⟩
    intro keeps holds
    rcases kept with ⟨-, same⟩ | ⟨lk, middle, result, start, asks, same, tried, same'⟩
    · exact same.holds holds
    · refine same'.holds ((same.holds holds).tryenter nonNull ?_ tried)
      intro kind
      rw [same.o, same.v]
      exact keeps.2 (asks.trans (congrArg some kind))
  | sched event =>
    obtain ⟨sys, -, ran, after⟩ := inv.wait.sched allowed.1 allowed.2
    rw [step, ran] at stepped
    cases stepped
    exact ⟨⟨after, inv.waits⟩, fun _ holds => holds⟩

/-! ## The runs -/

theorem RwInv.init (main stack tlsarea : Nat) : RwInv (init (System.mainOnly main stack tlsarea)) :=
  ⟨WaitInv.init (System.mainOnly_inv main stack tlsarea), fun _ => rfl⟩

/-- The callers keep to the interface, and to the condition. -/
def RwSys.AdmitsExclusion (s : RwSys) (event : RwEvent) : Prop :=
  s.Admits event ∧ s.KeepsExclusion event

theorem RwExclusion.holds {curlwp : Tid → Nat} {s : RwSys} (exclusion : RwExclusion curlwp s) :
    s.Holds :=
  ⟨exclusion.exclusive, exclusion.owner, exclusion.count⟩

theorem rwStep_breaks (inv : RwInv s) (allowed : s.Admits event)
    (against : ¬ s.KeepsExclusion event) (stepped : s.step curlwp event = .ok next)
    (holds : s.Holds) : ¬ next.Holds := by
  -- a writer that is let in over a reader
  have granted : ∀ {start middle : RwSys} {lk : RwKind} {result : Int},
      start.rwTryenter curlwp lk = .ok (middle, result) → SameHolds s start →
      SameHolds middle next → (lk = .writer ∧ s.o = 0 ∧ 0 < s.v) → ¬ next.Holds := by
    intro start middle lk result tried same same' writer broken
    obtain ⟨kind, free, some⟩ := writer
    rcases rwTryenter_cases tried with ⟨-, -, taken⟩ | ⟨-, -, -, is⟩ | ⟨-, -, isReader, -⟩
    · exact taken kind (same.o.trans free)
    · have mem : start.current ∈ next.writers := by
        rw [same'.writers, is]
        exact mem_cons_self
      have noReader := (broken.exclusive _ mem).2
      rw [same'.readers, is] at noReader
      have count := holds.count
      rw [← same.readers, noReader] at count
      rw [count] at some
      exact absurd some (by decide)
    · rw [kind] at isReader
      cases isReader
  have enters : event ≠ .downgrade →
      s.asks event = some .writer ∧ s.o = 0 ∧ 0 < s.v := by
    intro other
    by_contra not
    refine against ⟨other, fun asks free => ?_⟩
    by_contra some
    exact not ⟨asks, free, by omega⟩
  cases event with
  | enter lk =>
    obtain ⟨asks, rest⟩ := enters (by simp)
    obtain ⟨middle, result, tried, same, -⟩ := rwEnter_spec inv allowed.2 stepped
    exact granted tried ⟨rfl, rfl, rfl, rfl⟩ same ⟨Option.some.inj asks, rest⟩
  | tryenter lk =>
    obtain ⟨asks, rest⟩ := enters (by simp)
    rw [step] at stepped
    obtain ⟨pair, tried, rfl⟩ := map_eq_ok stepped
    exact granted tried ⟨rfl, rfl, rfl, rfl⟩ ⟨rfl, rfl, rfl, rfl⟩ ⟨Option.some.inj asks, rest⟩
  | downgrade =>
    rw [step, rwDowngrade] at stepped
    obtain ⟨_, asserted, stepped⟩ := bind_eq_ok stepped
    cases stepped
    intro broken
    have count := broken.count
    dsimp only at count
    omega
  | resume =>
    obtain ⟨asks, rest⟩ := enters (by simp)
    obtain ⟨-, kept⟩ := resume_spec inv allowed.1 stepped
    rcases kept with ⟨none, -⟩ | ⟨lk, middle, result, start, asks', same, tried, same'⟩
    · cases none.symm.trans asks
    · exact granted tried same same' ⟨Option.some.inj (asks'.symm.trans asks), rest⟩
  | exit | tryupgrade | sched => cases (enters (by simp)).1

/-- In a run in which no writer is let in while `v` counts a reader, and
nobody downgrades, the lock does what it is for in every state; a step of the other kind breaks
it at once. -/
theorem rw_exclusion (curlwp : Tid → Nat) (nonNull : ∀ t, curlwp t ≠ 0)
    (main stack stackSize tlsarea : Nat) (stacked : stack ≠ 0) :
    ∃ boot, System.start main stack stackSize tlsarea = .ok boot ∧
      (∀ events final, Admissible RwSys.AdmitsExclusion (RwSys.step curlwp) events (RwSys.init boot) →
        run (RwSys.step curlwp) events (RwSys.init boot) = .ok final → RwExclusion curlwp final) ∧
      ∀ events s, Admissible RwSys.Admits (RwSys.step curlwp) events (RwSys.init boot) →
        run (RwSys.step curlwp) events (RwSys.init boot) = .ok s → RwExclusion curlwp s →
        ∀ event next, s.Admits event → ¬ s.KeepsExclusion event →
          s.step curlwp event = .ok next → ¬ RwExclusion curlwp next := by
  have start := RwInv.init main stack tlsarea
  refine ⟨_, System.start_eq main stackSize tlsarea stacked, ?_, ?_⟩
  · intro events final allowed ran
    have preserved : ∀ (s : RwSys) (event : RwEvent) (next : RwSys), RwInv s ∧ s.Holds →
        s.AdmitsExclusion event → s.step curlwp event = .ok next → RwInv next ∧ next.Holds := by
      intro s event next holds admitted stepped
      obtain ⟨inv, kept⟩ := rwStep_keeps holds.1 nonNull admitted.1 stepped
      exact ⟨inv, kept admitted.2 holds.2⟩
    exact (run_reaches preserved events _ final ⟨start, RwHolds.init⟩ allowed ran).2.exclusion
  · intro events s allowed ran exclusion event next admitted against stepped broken
    have inv : RwInv s := run_reaches
      (fun _ _ _ inv admitted stepped => (rwStep_keeps inv nonNull admitted stepped).1)
      events _ s start allowed ran
    exact rwStep_breaks inv admitted against stepped exclusion.holds broken.holds

instance RwSys.decidableKeepsExclusion (s : RwSys) (event : RwEvent) :
    Decidable (s.KeepsExclusion event) :=
  inferInstanceAs (Decidable (_ ∧ (_ → _ → _)))

instance RwSys.decidableAdmitsExclusion (s : RwSys) (event : RwEvent) :
    Decidable (s.AdmitsExclusion event) :=
  inferInstanceAs (Decidable (_ ∧ _))

/-- A writer waits for another one and gets the lock after it. -/
def twoWritersRun : List RwEvent :=
  [.sched (.call (.create 2 false 0 0 0x9000 0x20)), .enter .writer, .sched (.call .yield),
    .sched (.turn 100), .enter .writer, .resume, .sched (.call .block), .sched (.turn 200),
    .sched .advance, .exit, .sched (.call .yield), .sched (.turn 300), .sched .advance, .resume,
    .resume]

theorem rw_exclusion_two_writers :
    ∃ boot final, System.start 1 0x8000 0x1000 0x10 = .ok boot ∧
      run (RwSys.step (· + 1)) twoWritersRun (RwSys.init boot) = .ok final ∧
      RwExclusion (· + 1) final ∧ final.writers = [2] := by
  obtain ⟨boot, booted, runs, -⟩ :=
    rw_exclusion (· + 1) Nat.succ_ne_zero 1 0x8000 0x1000 0x10 (by decide)
  have evaluated : ∀ sys ∈ (System.start 1 0x8000 0x1000 0x10).toOption,
      Admissible RwSys.AdmitsExclusion (step (· + 1)) twoWritersRun (init sys) ∧
      ∃ final ∈ (run (step (· + 1)) twoWritersRun (init sys)).toOption,
        final.writers = [2] := by
    decide +kernel
  obtain ⟨allowed, final, reached, writers⟩ := evaluated boot (by rw [booted]; rfl)
  have ran := eq_ok_of_mem reached
  exact ⟨boot, final, booted, ran, runs twoWritersRun final allowed ran, writers⟩

end Rumprun.Rumpuser
