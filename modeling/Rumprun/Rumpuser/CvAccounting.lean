import Rumprun.Rumpuser.CvTickets
import Mathlib.Data.Finset.Card

/-! # The account of signals and waits

The pieces of the mutex and of the condition variable keep the log of signals in
step with the queue, and `nwaiters` with the places of the threads. -/

namespace Rumprun.Rumpuser
open Core Scheduler StepRuns Function MtxSys WaitSys

/-- The number is that of the threads in one of the waits. -/
def CountsWaits (phase : Tid → MtxPhase) (nwaiters : Int) : Prop :=
  ∃ inside : Finset Tid, (∀ t, t ∈ inside ↔ (phase t).inCv = true) ∧ nwaiters = inside.card

/-- The account of signals and waits. -/
structure CvAccounted (c : CvSys) : Prop where
  /-- The first of the queue is the one that was queued first. -/
  order : (c.mtx.queues.head .cv).Pairwise fun t u => c.log.ticket t < c.log.ticket u
  /-- No wait is chosen twice or returns twice. -/
  chosenOnce : c.log.chosen.Nodup
  answeredOnce : (c.log.answers.map CvAnswer.ticket).Nodup
  /-- `wait` returned 0 to those that were chosen, and to nobody else. -/
  answered : ∀ entry ∈ c.log.answers, entry.result = 0 ↔ entry.ticket ∈ c.log.chosen
  /-- A chosen wait has returned 0, or its thread is off the queue and ready to run. -/
  outstanding : ∀ ticket ∈ c.log.chosen,
    { ticket := ticket, result := 0 } ∈ c.log.answers ∨
      ∃ t call, c.log.ticket t = ticket ∧ c.mtx.phase t = .cvWaiting call ∧
        c.mtx.queues.onlist t = false ∧ c.mtx.queues.sys.Ready t
  nwaiters : CountsWaits c.mtx.phase c.mtx.nwaiters

/-! ## The count of the waits -/

namespace CountsWaits
variable {phase : Tid → MtxPhase} {nwaiters : Int} {t : Tid} {place : MtxPhase}
variable (counts : CountsWaits phase nwaiters)
include counts

theorem stay (same : place.inCv = (phase t).inCv) : CountsWaits (update phase t place) nwaiters := by
  obtain ⟨inside, mem, card⟩ := counts
  refine ⟨inside, ?_, card⟩
  intro u
  rw [mem, update_apply]
  split
  · next here => rw [here, same]
  · exact Iff.rfl

theorem enter (was : (phase t).inCv = false) (is : place.inCv = true) :
    CountsWaits (update phase t place) (nwaiters + 1) := by
  obtain ⟨inside, mem, card⟩ := counts
  have fresh : t ∉ inside := by
    rw [mem, was]
    exact Bool.false_ne_true
  refine ⟨insert t inside, ?_, ?_⟩
  · intro u
    rw [Finset.mem_insert, mem, update_apply]
    split
    · next here => simp [here, is]
    · next apart => simp [apart]
  · rw [Finset.card_insert_of_notMem fresh, card]
    rfl

theorem leave (was : (phase t).inCv = true) (is : place.inCv = false) :
    CountsWaits (update phase t place) (nwaiters - 1) := by
  obtain ⟨inside, mem, card⟩ := counts
  have there : t ∈ inside := by
    rw [mem]
    exact was
  refine ⟨inside.erase t, ?_, ?_⟩
  · intro u
    rw [Finset.mem_erase, mem, update_apply]
    split
    · next here => simp [here, is]
    · next apart => simp [apart]
  · have some := Finset.card_pos.mpr ⟨t, there⟩
    rw [Finset.card_erase_of_mem there, card]
    omega

end CountsWaits

/-! ## The steps -/

structure CvInv (s : MtxSys) (log : CvLog) : Prop where
  wait : WaitInv s.queues
  released : s.queues.Released
  waits : ∀ t, s.queues.waiting t = (s.phase t).head
  log : CvLogInv s.queues log
  counts : CountsWaits s.phase s.nwaiters

/-- The same while the running thread is in the code of the lock, its place not settled. -/
structure CvCore (s : MtxSys) (log : CvLog) : Prop where
  wait : WaitInv s.queues
  released : s.queues.Released
  idle : s.queues.waiting s.current = none
  waits : ∀ t, t ≠ s.current → s.queues.waiting t = (s.phase t).head
  log : CvLogInv s.queues log

namespace MtxSys
variable {s next : MtxSys} {curlwp : Tid → Nat}

/-- Nothing but the words of the mutex and its owners has changed. -/
structure SamePlaces (s next : MtxSys) : Prop where
  queues : next.queues = s.queues
  phase : next.phase = s.phase
  nwaiters : next.nwaiters = s.nwaiters

theorem SamePlaces.current (same : SamePlaces s next) : next.current = s.current := by
  rw [MtxSys.current, same.queues]
  rfl

theorem mutexTryenter_places {result : Int} (ran : s.mutexTryenter curlwp = .ok (next, result)) :
    SamePlaces s next := by
  rw [mutexTryenter] at ran
  split at ran
  · cases ran
  · split at ran
    · cases ran
      exact ⟨rfl, rfl, rfl⟩
    · cases ran
      exact ⟨rfl, rfl, rfl⟩

theorem mutexEnterNowrap_places (ran : s.mutexEnterNowrap curlwp = .ok next) : SamePlaces s next := by
  rw [mutexEnterNowrap] at ran
  obtain ⟨⟨entered, result⟩, tried, ran⟩ := bind_eq_ok ran
  dsimp only at ran
  split at ran
  · cases ran
  · cases ran
    exact mutexTryenter_places tried

end MtxSys

theorem CvInv.core {s : MtxSys} {log : CvLog} (inv : CvInv s log)
    (idle : (s.phase s.current).head = none) : CvCore s log :=
  ⟨inv.wait, inv.released, (inv.waits _).trans idle, fun t _ => inv.waits t, inv.log⟩

namespace CvCore
variable {s next : MtxSys} {log : CvLog} {curlwp : Tid → Nat}
variable (core : CvCore s log)
include core

theorem same (same : MtxSys.SamePlaces s next) : CvCore next log := by
  obtain ⟨wait, released, idle, waits, log⟩ := core
  rw [← same.queues] at wait released log
  refine ⟨wait, released, ?_, ?_, log⟩
  · rw [same.current, same.queues]
    exact idle
  · rw [same.current, same.queues, same.phase]
    exact waits

theorem settle {place : MtxPhase} (outside : place.head = none) (queues : next.queues = s.queues)
    (phase : next.phase = update s.phase s.current place)
    (counts : CountsWaits next.phase next.nwaiters) : CvInv next log := by
  obtain ⟨wait, released, idle, waits, log⟩ := core
  rw [← queues] at wait released log
  refine ⟨wait, released, ?_, log, counts⟩
  intro t
  rw [queues, phase]
  by_cases here : t = s.current
  · rw [here, update_self, idle, outside]
  · rw [update_of_ne here]
    exact waits t here

theorem keep (outside : (s.phase s.current).head = none) (counts : CountsWaits s.phase s.nwaiters) :
    CvInv s log :=
  core.settle outside rfl (update_eq_self ..).symm counts

theorem mutexExit (ran : s.mutexExit = .ok next) :
    CvCore next log ∧ next.phase = s.phase ∧ next.nwaiters = s.nwaiters ∧
      next.current = s.current ∧ (s.Runs → next.Runs) := by
  rw [MtxSys.mutexExit] at ran
  obtain ⟨-, -, ran⟩ := bind_eq_ok ran
  obtain ⟨queues, wakes, ran⟩ := bind_eq_ok ran
  cases ran
  have released := core.released.wakeupOne core.wait core.idle wakes
  obtain ⟨waiting, head, onlist⟩ := wakeupOne_frame wakes
  obtain ⟨after, woke⟩ := of_ok (core.wait.wakeupOne .mtx) wakes
  have current : queues.current = s.queues.current := woke.current
  have sameCv : SameCv s.queues queues := by
    refine ⟨by simp [head], fun t => by rw [waiting], ?_⟩
    intro t waits
    rw [onlist, if_neg]
    intro first
    have mem := List.mem_of_mem_head? (Option.mem_def.mpr first)
    rw [core.wait.mem_iff, waits] at mem
    cases mem.1
  refine ⟨⟨after, released, ?_, ?_, core.log.same sameCv⟩, rfl, rfl, current, ?_⟩
  · dsimp only [MtxSys.current]
    rw [current, waiting]
    exact core.idle
  · intro t apart
    dsimp only [MtxSys.current] at apart
    rw [current] at apart
    dsimp only
    rw [waiting]
    exact core.waits t apart
  · intro runs
    dsimp only [MtxSys.Runs, MtxSys.current] at runs ⊢
    rw [current, woke.pc]
    exact runs

theorem sleepOn (runs : s.Runs) {wh : MtxHead} {wakeup monotonic : Int} {place : MtxPhase}
    (head : place.head = some wh) (counts : CountsWaits (update s.phase s.current place) s.nwaiters)
    (ran : s.sleepOn wh wakeup monotonic place = .ok next) :
    CvInv next (if wh = .cv then log.start s.current else log) := by
  obtain ⟨sched, started, -, after⟩ := core.wait.waitStart wh wakeup monotonic runs core.idle
  rw [MtxSys.sleepOn, started] at ran
  cases ran
  have released := core.released.waitStart core.wait runs started
  refine ⟨after, released, ?_, ?_, counts⟩
  · intro t
    dsimp only [asleepOn]
    by_cases here : t = s.current
    · rw [here, update_self, head]
      exact update_self ..
    · rw [update_of_ne here]
      exact (update_of_ne here ..).trans (core.waits t here)
  · cases wh with
    | cv =>
      refine core.log.start core.wait core.idle ?_ rfl rfl
      simp [asleepOn]
    | mtx =>
      rw [if_neg (by simp)]
      -- the current thread was not in a wait of the condition variable, and is not now
      have apart : ∀ {t}, s.queues.waiting t = some .cv → t ≠ s.queues.current := by
        intro t waits here
        rw [here, show s.queues.waiting s.queues.current = none from core.idle] at waits
        cases waits
      refine core.log.same ⟨?_, ?_, ?_⟩
      · simp [asleepOn]
      · intro t
        by_cases here : t = s.queues.current
        · simp [asleepOn, here, show s.queues.waiting s.queues.current = none from core.idle]
        · simp [asleepOn, here]
      · intro t waits
        exact update_of_ne (apart waits) ..

end CvCore
namespace CvInv
variable {s next : MtxSys} {log : CvLog} {curlwp : Tid → Nat} {queues : WaitSys MtxHead}

theorem waitReturn (inv : CvInv s log) {wh : MtxHead} {result : Nat}
    (waits : s.queues.waiting s.current = some wh)
    (returned : s.queues.waitReturn = .ok (queues, result)) :
    CvCore { s with queues := queues }
        (if wh = .cv then log.answer s.current result else log) ∧
      queues.current = s.current ∧ queues.sys = s.queues.sys := by
  have released := inv.released.waitReturn returned
  obtain ⟨head, result', returned', left, code, back⟩ := inv.wait.waitReturn waits
  rw [returned] at returned'
  cases Except.ok.inj returned'
  refine ⟨⟨back, released, update_self .., ?_, ?_⟩, rfl, rfl⟩
  · intro t apart
    exact (update_of_ne apart ..).trans (inv.waits t)
  · cases wh with
    | cv =>
      refine inv.log.answer waits code ?_ rfl rfl
      dsimp only
      rw [left]
      split
      · simp [List.erase_sublist]
      · exact List.Sublist.refl _
    | mtx =>
      rw [if_neg nofun]
      refine inv.log.same ⟨?_, ?_, fun _ _ => rfl⟩
      · dsimp only
        rw [left]
        split
        · simp
        · rfl
      · intro t
        by_cases here : t = s.queues.current
        · simp [here, show s.queues.waiting s.queues.current = some .mtx from waits]
        · simp [here]

theorem woken (inv : CvInv s log) {log' : CvLog} (after : WaitInv queues)
    (woke : WaitInv.Woke s.queues queues) (released : queues.Released)
    (noted : CvLogInv queues log') : CvInv { s with queues := queues } log' := by
  refine ⟨after, released, ?_, noted, inv.counts⟩
  intro t
  dsimp only
  rw [woke.waiting]
  exact inv.waits t

end CvInv
namespace CvCore
variable {s next : MtxSys} {log : CvLog} {curlwp : Tid → Nat}
variable (core : CvCore s log)
include core

theorem mutexEnter (outside : s.phase s.current = .outside)
    (counts : CountsWaits s.phase s.nwaiters) (ran : s.mutexEnter curlwp = .ok next) :
    CvInv next log := by
  rw [MtxSys.mutexEnter] at ran
  obtain ⟨⟨tried, result⟩, entered, ran⟩ := bind_eq_ok ran
  have same := mutexTryenter_places entered
  have outside' : tried.phase tried.current = .outside := by rw [same.phase, same.current, outside]
  rw [← same.phase, ← same.nwaiters] at counts
  cases ran
  split
  · refine (core.same same).settle rfl rfl rfl (counts.stay ?_)
    rw [outside']
    rfl
  · refine (core.same same).keep ?_ counts
    rw [outside']
    rfl

theorem mutexRetry (runs : s.Runs) (outside : (s.phase s.current).inCv = false)
    (counts : CountsWaits s.phase s.nwaiters) (ran : s.mutexRetry curlwp = .ok next) :
    CvInv next log := by
  rw [MtxSys.mutexRetry] at ran
  obtain ⟨⟨tried, result⟩, entered, ran⟩ := bind_eq_ok ran
  have same := mutexTryenter_places entered
  have outside' : (tried.phase tried.current).inCv = false := by
    rw [same.phase, same.current, outside]
  have runs' : tried.Runs := by
    rw [MtxSys.Runs, same.current, same.queues]
    exact runs
  rw [← same.phase, ← same.nwaiters] at counts
  dsimp only at ran
  split at ran
  · refine (core.same same).sleepOn runs' rfl (counts.stay ?_) ran
    exact outside'.symm
  · cases ran
    exact (core.same same).settle rfl rfl rfl (counts.stay outside'.symm)

theorem cvSleep (runs : s.Runs) {call : CvCall} {monotonic : Int}
    (counts : CountsWaits (update s.phase s.current (.cvWaiting call)) s.nwaiters)
    (ran : s.cvSleep call monotonic = .ok next) : CvInv next (log.start s.current) := by
  rw [MtxSys.cvSleep] at ran
  obtain ⟨gone, exited, ran⟩ := bind_eq_ok ran
  obtain ⟨core', phase, nwaiters, current, stillRuns⟩ := core.mutexExit exited
  rw [← phase, ← nwaiters, ← current] at counts
  rw [← current]
  exact core'.sleepOn (stillRuns runs) rfl counts ran

theorem cvReturn (counts : CountsWaits s.phase s.nwaiters)
    (inside : (s.phase s.current).inCv = true) (call : CvCall) (result : Nat) :
    CvInv (s.cvReturn call result) log :=
  core.settle rfl rfl rfl (counts.leave inside rfl)

theorem cvResched (counts : CountsWaits s.phase s.nwaiters)
    (inside : (s.phase s.current).inCv = true) {call : CvCall} {result : Nat}
    (ran : s.cvResched curlwp call result = .ok next) : CvInv next log := by
  by_cases nowrap : call = .waitNowrap
  · subst nowrap
    rw [MtxSys.cvResched] at ran
    obtain ⟨entered, entering, ran⟩ := bind_eq_ok ran
    have same := mutexEnterNowrap_places entering
    cases ran
    refine (core.same same).cvReturn ?_ ?_ _ _
    · rw [same.phase, same.nwaiters]
      exact counts
    · rw [same.phase, same.current]
      exact inside
  · rw [cvResched_wrapped curlwp result nowrap] at ran
    split at ran
    · cases ran
      exact core.settle rfl rfl rfl (counts.stay inside.symm)
    · obtain ⟨entered, entering, ran⟩ := bind_eq_ok ran
      have same := mutexEnterNowrap_places entering
      cases ran
      refine (core.same same).settle rfl rfl rfl ?_
      rw [setPhase, same.phase, same.current]
      dsimp only
      rw [same.nwaiters]
      exact counts.stay inside.symm

end CvCore
namespace CvInv
variable {s next : MtxSys} {log : CvLog} {curlwp : Tid → Nat}

theorem resume (inv : CvInv s log) (runs : s.Runs) (going : s.phase s.current ≠ .outside)
    {monotonic : Int} (ran : s.resume curlwp monotonic = .ok next) :
    CvInv next (log.note s (.resume monotonic)) := by
  rw [MtxSys.resume] at ran
  rw [CvLog.note]
  cases phase : s.phase s.current with
  | outside => exact absurd phase going
  | enterUnsched =>
    rw [phase] at ran
    exact (inv.core (by rw [phase]; rfl)).mutexRetry runs (by rw [phase]; rfl) inv.counts ran
  | enterWaiting =>
    rw [phase] at ran
    have waits : s.queues.waiting s.current = some .mtx := by
      rw [inv.waits, phase]
      rfl
    obtain ⟨⟨queues, result⟩, returned, ran⟩ := bind_eq_ok ran
    obtain ⟨core, current, sys⟩ := inv.waitReturn waits returned
    rw [if_neg (by decide)] at core
    refine core.mutexRetry ?_ ?_ inv.counts ran
    · rw [MtxSys.Runs, MtxSys.current, current, sys]
      exact runs
    · rw [MtxSys.current, current, phase]
      rfl
  | enterSched =>
    rw [phase] at ran
    cases ran
    refine (inv.core (by rw [phase]; rfl)).settle rfl rfl rfl (inv.counts.stay ?_)
    rw [phase]
    rfl
  | cvUnsched call =>
    rw [phase] at ran
    refine (inv.core (by rw [phase]; rfl)).cvSleep runs (inv.counts.stay ?_) ran
    rw [phase]
    rfl
  | cvWaiting call =>
    rw [phase] at ran
    have waits : s.queues.waiting s.current = some .cv := by
      rw [inv.waits, phase]
      rfl
    obtain ⟨⟨queues, result⟩, returned, ran⟩ := bind_eq_ok ran
    obtain ⟨core, current, -⟩ := inv.waitReturn waits returned
    rw [returned]
    refine core.cvResched inv.counts ?_ ran
    rw [MtxSys.current, current, phase]
    rfl
  | cvSched call result =>
    rw [phase] at ran
    obtain ⟨entered, entering, ran⟩ := bind_eq_ok ran
    have same := mutexEnterNowrap_places entering
    cases ran
    refine ((inv.core (by rw [phase]; rfl)).same same).cvReturn ?_ ?_ _ _
    · rw [same.phase, same.nwaiters]
      exact inv.counts
    · rw [same.phase, same.current, phase]
      rfl
  | cvRelocked call result =>
    rw [phase] at ran
    cases ran
    exact (inv.core (by rw [phase]; rfl)).cvReturn inv.counts (by rw [phase]; rfl) call result

theorem cvWait (inv : CvInv s log) (runs : s.Runs) (outside : s.phase s.current = .outside)
    {call : CvCall} (ran : s.cvWait call = .ok next) : CvInv next (log.note s (.cvWait call)) := by
  have core := inv.core (by rw [outside]; rfl)
  have counted : CvCore { s with nwaiters := s.nwaiters + 1 } log :=
    ⟨core.wait, core.released, core.idle, core.waits, core.log⟩
  have counts : ∀ place : MtxPhase, place.inCv = true →
      CountsWaits (update s.phase s.current place) (s.nwaiters + 1) :=
    fun place is => inv.counts.enter (by rw [outside]; rfl) is
  obtain ⟨nwaiters, increments, ran⟩ := bind_eq_ok ran
  obtain rfl := of_increment increments
  cases call with
  | waitNowrap => exact counted.cvSleep runs (counts _ rfl) ran
  | wait | timedwait =>
    cases ran
    exact counted.settle rfl rfl rfl (counts _ rfl)

theorem step {c next : CvSys} (inv : CvInv c.mtx c.log) {event : MtxEvent}
    (allowed : c.Admits event) (stepped : c.step curlwp event = .ok next) :
    CvInv next.mtx next.log := by
  rw [CvSys.step] at stepped
  obtain ⟨mtx, ran, stepped⟩ := bind_eq_ok stepped
  cases stepped
  have core : c.mtx.phase c.mtx.current = .outside → CvCore c.mtx c.log := by
    intro outside
    exact inv.core (by rw [outside]; rfl)
  cases event with
  | enter => exact (core allowed.2).mutexEnter allowed.2 inv.counts ran
  | enterNowrap =>
    have same := mutexEnterNowrap_places ran
    apply ((core allowed.2).same same).keep
    · rw [same.phase, same.current, allowed.2]
      rfl
    · rw [same.phase, same.nwaiters]
      exact inv.counts
  | tryenter =>
    rw [MtxSys.step] at ran
    obtain ⟨pair, tried, rfl⟩ := map_eq_ok ran
    have same := mutexTryenter_places tried
    apply ((core allowed.2).same same).keep
    · rw [same.phase, same.current, allowed.2]
      rfl
    · rw [same.phase, same.nwaiters]
      exact inv.counts
  | exit =>
    obtain ⟨core', phase, nwaiters, current, -⟩ := (core allowed.2).mutexExit ran
    apply core'.keep
    · rw [phase, current, allowed.2]
      rfl
    · rw [phase, nwaiters]
      exact inv.counts
  | cvWait call => exact inv.cvWait allowed.1 allowed.2 ran
  | cvSignal =>
    rw [MtxSys.step] at ran
    obtain ⟨queues, wakes, ran⟩ := bind_eq_ok ran
    obtain ⟨after, woke⟩ := of_ok (inv.wait.wakeupOne .cv) wakes
    cases ran
    exact inv.woken after woke (inv.released.wakeupOne inv.wait (core allowed.2).idle wakes)
      (inv.log.signal inv.wait wakes)
  | cvBroadcast =>
    rw [MtxSys.step] at ran
    obtain ⟨queues, wakes, ran⟩ := bind_eq_ok ran
    obtain ⟨after, woke⟩ := of_ok (inv.wait.wakeupAll .cv) wakes
    cases ran
    exact inv.woken after woke (inv.released.wakeupAll inv.wait (core allowed.2).idle wakes)
      (CvLogInv.wakeupLoop _ inv.log inv.wait wakes)
  | resume monotonic => exact inv.resume allowed.1 allowed.2 ran
  | sched event =>
    rw [MtxSys.step] at ran
    obtain ⟨queues, moved, ran⟩ := bind_eq_ok ran
    have released := inv.released.sched inv.wait allowed.1 allowed.2 moved
    obtain ⟨sys, -, moved', after⟩ := inv.wait.sched allowed.1 allowed.2
    rw [moved] at moved'
    cases Except.ok.inj moved'
    cases ran
    exact ⟨after, released, inv.waits, inv.log.same ⟨rfl, fun _ => Iff.rfl, fun _ _ => rfl⟩, inv.counts⟩

theorem accounted {c : CvSys} (inv : CvInv c.mtx c.log) : CvAccounted c where
  order := inv.log.order
  chosenOnce := inv.log.chosenOnce
  answeredOnce := inv.log.answeredOnce
  answered := inv.log.answered
  outstanding := by
    intro ticket mem
    rcases inv.log.outstanding ticket mem with ⟨entry, old, is⟩ | ⟨t, waits, is⟩
    · left
      have zero := (inv.log.answered entry old).mpr (by rw [is]; exact mem)
      rw [← is, ← zero]
      exact old
    · right
      have off := (inv.log.pending t waits).mp (by rw [is]; exact mem)
      have phase := waits
      rw [inv.waits] at phase
      obtain ⟨call, phase⟩ := MtxPhase.head_eq_cv phase
      exact ⟨t, call, is, phase, off, (inv.released t .cv waits off).ready inv.wait.sys.core⟩
  nwaiters := inv.counts

theorem init (kmutex spin : Bool) (main stack tlsarea : Nat) :
    CvInv (MtxSys.init kmutex spin (System.mainOnly main stack tlsarea)) CvLog.empty where
  wait := WaitInv.init (System.mainOnly_inv main stack tlsarea)
  released := WaitSys.Released.init _
  waits := fun _ => rfl
  log := CvLogInv.empty _
  counts := ⟨∅, by simp [MtxSys.init, MtxPhase.inCv], rfl⟩

end CvInv

/-- Wherever a run gets to, in any interleaving and with any timeouts and
wakes from elsewhere: `wait` has returned 0 to exactly those waits that a signal, as the one queued
longest, or a broadcast has chosen, each of them once; a chosen wait that has not returned yet is
ready to run; and `nwaiters` is the number of threads in the waits. -/
theorem cv_signals_accounted (curlwp : Tid → Nat) (kmutex spin : Bool)
    (main stack stackSize tlsarea : Nat) (stacked : stack ≠ 0) :
    ∃ boot, System.start main stack stackSize tlsarea = .ok boot ∧
      ∀ events final, Admissible CvSys.Admits (CvSys.step curlwp) events (CvSys.init kmutex spin boot) →
        run (CvSys.step curlwp) events (CvSys.init kmutex spin boot) = .ok final →
        CvAccounted final := by
  refine ⟨_, System.start_eq main stackSize tlsarea stacked, ?_⟩
  intro events final allowed ran
  have start := CvInv.init kmutex spin main stack tlsarea
  have reached : CvInv final.mtx final.log := run_reaches
    (fun _ _ _ inv admitted stepped => CvInv.step inv admitted stepped)
    events (CvSys.init kmutex spin _) final start allowed ran
  exact reached.accounted

/-- The main thread's timeout has run out and it is on the run queue, behind the thread that
signals. -/
def lateSignalRun : List MtxEvent :=
  [.sched (.call (.create 2 false 0 0 0x9000 0x20)), .enter, .cvWait (.timedwait 0 100), .resume 0,
    .sched (.call .block), .sched (.turn 50), .sched (.call .yield), .sched (.turn 200),
    .sched .advance, .cvSignal, .sched (.call .yield), .sched (.turn 300), .sched .advance,
    .resume 300, .resume 300]

theorem cv_signals_accounted_late :
    ∃ boot final, System.start 1 0x8000 0x1000 0x10 = .ok boot ∧
      run (CvSys.step (· + 1)) lateSignalRun (CvSys.init false false boot) = .ok final ∧
      CvAccounted final ∧ final.log.chosen = [0] ∧
      final.log.answers = [{ ticket := 0, result := 0 }] := by
  obtain ⟨boot, booted, runs⟩ :=
    cv_signals_accounted (· + 1) false false 1 0x8000 0x1000 0x10 (by decide)
  have evaluated : ∀ sys ∈ (System.start 1 0x8000 0x1000 0x10).toOption,
      Admissible CvSys.Admits (CvSys.step (· + 1)) lateSignalRun (CvSys.init false false sys) ∧
      ∃ final ∈ (run (CvSys.step (· + 1)) lateSignalRun (CvSys.init false false sys)).toOption,
        final.log.chosen = [0] ∧ final.log.answers = [{ ticket := 0, result := 0 }] := by
    decide +kernel
  obtain ⟨allowed, final, reached, chosen⟩ := evaluated boot (by rw [booted]; rfl)
  have ran := eq_ok_of_mem reached
  exact ⟨boot, final, booted, ran, runs lateSignalRun final allowed ran, chosen⟩

end Rumprun.Rumpuser
