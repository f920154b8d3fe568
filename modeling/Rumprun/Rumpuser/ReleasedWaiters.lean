import Rumprun.Rumpuser.WaitQueue

/-! # Waiters that have been taken off their queue

`wakeup_one` takes a waiter off its queue and wakes the thread. From then on the
thread is on the run queue or runs, until it goes on after its `bmk_sched_block`. -/

namespace Rumprun.Rumpuser
open Core Scheduler Function
variable {W : Type}

/-- Threads in `wait` that are off their queue have been called. -/
def WaitSys.Released (s : WaitSys W) : Prop :=
  ∀ t wh, s.waiting t = some wh → s.onlist t = false → Called s.sys t

theorem WaitSys.waitReturn_frame [DecidableEq W] {s next : WaitSys W} {result : Nat}
    (ran : s.waitReturn = .ok (next, result)) :
    next.sys = s.sys ∧ next.onlist = s.onlist ∧ next.waiting = update s.waiting s.current none := by
  rw [waitReturn] at ran
  cases waits : s.waiting s.current with
  | none => rw [waits] at ran; cases ran
  | some wh =>
    rw [waits] at ran
    dsimp only at ran
    split at ran
    · obtain ⟨rest, -, ran⟩ := bind_eq_ok ran
      cases ran
      exact ⟨rfl, rfl, rfl⟩
    · cases ran
      exact ⟨rfl, rfl, rfl⟩

/-! ## What the wakes change -/

namespace WaitSys
variable [DecidableEq W] {s next : WaitSys W} {wh : W}

theorem wakeupOne_frame (ran : s.wakeupOne wh = .ok next) :
    next.waiting = s.waiting ∧ next.head = update s.head wh (s.head wh).tail ∧
      ∀ t, next.onlist t = if (s.head wh).head? = some t then false else s.onlist t := by
  rw [wakeupOne] at ran
  cases first : s.head wh with
  | nil =>
    rw [first] at ran
    cases ran
    refine ⟨rfl, ?_, by simp⟩
    rw [List.tail_nil, ← first, update_eq_self]
  | cons who rest =>
    rw [first] at ran
    obtain ⟨sys, -, ran⟩ := bind_eq_ok ran
    cases ran
    refine ⟨rfl, rfl, ?_⟩
    intro t
    simp [update_apply, eq_comm]

theorem wakeupLoop_frame (wh : W) (fuel : Nat) :
    ∀ {s next : WaitSys W}, wakeupLoop wh fuel s = .ok next →
      next.waiting = s.waiting ∧ next.head = update s.head wh [] ∧
        ∀ t, next.onlist t = if t ∈ s.head wh then false else s.onlist t := by
  have done : ∀ {s next : WaitSys W}, s.head wh = [] → (.ok s : Except Stop (WaitSys W)) = .ok next →
      next.waiting = s.waiting ∧ next.head = update s.head wh [] ∧
        ∀ t, next.onlist t = if t ∈ s.head wh then false else s.onlist t := by
    intro s next empty ran
    cases ran
    refine ⟨rfl, ?_, by simp [empty]⟩
    rw [← empty, update_eq_self]
  induction fuel with
  | zero =>
    intro s next ran
    cases first : s.head wh with
    | nil =>
      rw [wakeupLoop, first] at ran
      simpa only [first] using done first ran
    | cons who rest => rw [wakeupLoop, first] at ran; cases ran
  | succ fuel ih =>
    intro s next ran
    cases first : s.head wh with
    | nil =>
      rw [wakeupLoop, first] at ran
      simpa only [first] using done first ran
    | cons who rest =>
      rw [wakeupLoop, first] at ran
      obtain ⟨one, oneRan, ran⟩ := bind_eq_ok ran
      obtain ⟨waiting, head, onlist⟩ := wakeupOne_frame oneRan
      obtain ⟨waiting', head', onlist'⟩ := ih ran
      rw [first, List.tail_cons] at head
      refine ⟨waiting'.trans waiting, ?_, ?_⟩
      · rw [head', head, update_idem]
      · intro t
        rw [onlist', head, update_self, onlist, first]
        by_cases here : who = t
        · simp [here]
        · simp [here, Ne.symm here]

theorem wakeupAll_frame (ran : s.wakeupAll wh = .ok next) :
    next.waiting = s.waiting ∧ next.head = update s.head wh [] ∧
      ∀ t, next.onlist t = if t ∈ s.head wh then false else s.onlist t :=
  wakeupLoop_frame wh _ ran

end WaitSys

/-! ## The operations -/

namespace WaitSys.Released
variable {s next : WaitSys W}

theorem init (sys : System) : (WaitSys.init sys : WaitSys W).Released := by
  intro t wh waits
  cases waits

theorem sched (released : s.Released) (inv : WaitInv s) {event : Event}
    (allowed : s.sys.Admits event) (goesOn : s.GoesOn event) (ran : s.sched event = .ok next) :
    next.Released := by
  obtain ⟨sys, stepped, ran', -⟩ := inv.sched allowed goesOn
  rw [ran] at ran'
  cases Except.ok.inj ran'
  intro t wh waits off
  dsimp only at waits
  apply inv.sys.called_step allowed stepped (released t wh waits off)
  intro here op is
  subst is
  apply goesOn
  simp [WaitSys.current, ← here, waits]

variable [DecidableEq W]

theorem waitStart (released : s.Released) (inv : WaitInv s) {wh : W} {wakeup monotonic : Int}
    (place : s.sys.pc s.current = .active .caller)
    (ran : s.waitStart wh wakeup monotonic = .ok next) : next.Released := by
  obtain ⟨sched, prepares, moves, -, -⟩ := inv.sys.prepare_caller place
    (if wakeup ≠ inftime then toTime (wakeup + monotonic) else wakeup)
  rw [WaitSys.waitStart, prepares] at ran
  cases ran
  intro t w waits off
  dsimp only at waits off ⊢
  by_cases here : t = s.current
  · simp [here] at off
  · rw [update_of_ne here] at waits off
    exact inv.sys.called_moves (moves ⟨False, False⟩) here (released t w waits off)

theorem waitReturn (released : s.Released) {result : Nat} (ran : s.waitReturn = .ok (next, result)) :
    next.Released := by
  obtain ⟨sys, onlist, waiting⟩ := waitReturn_frame ran
  intro t wh waits off
  rw [waiting, update_apply] at waits
  split at waits
  · cases waits
  · rw [sys]
    rw [onlist] at off
    exact released t wh waits off

theorem wakeupOne (released : s.Released) (inv : WaitInv s) (idle : s.waiting s.current = none)
    {wh : W} (ran : s.wakeupOne wh = .ok next) : next.Released := by
  cases first : s.head wh with
  | nil =>
    rw [WaitSys.wakeupOne, first] at ran
    cases ran
    exact released
  | cons who rest =>
    obtain ⟨ran', woke, -⟩ := inv.wakeupOne_cons first
    rw [ran] at ran'
    cases Except.ok.inj ran'
    have waits := ((inv.mem_iff wh who).mp (by simp [first])).1
    have other : ∀ {t w}, s.waiting t = some w → t ≠ s.current := by
      intro t w is here
      simp [here, idle] at is
    intro t w is off
    by_cases here : t = who
    · subst here
      exact inv.sys.core.called_wake (inv.inside t w is) (other is)
    · dsimp only at off
      rw [update_of_ne here] at off
      have move : Move ⟨False, False⟩ s.sys { s.sys with sched := s.sys.sched.woken who } :=
        .wake who (inv.notDead waits)
      exact inv.sys.called_moves (.inl move) (other is) (released t w is off)

theorem wakeupLoop (wh : W) (fuel : Nat) :
    ∀ {s next : WaitSys W}, s.Released → WaitInv s → s.waiting s.current = none →
      WaitSys.wakeupLoop wh fuel s = .ok next → next.Released := by
  induction fuel with
  | zero =>
    intro s next released inv idle ran
    cases first : s.head wh with
    | nil =>
      rw [WaitSys.wakeupLoop, first] at ran
      cases ran
      exact released
    | cons who rest => rw [WaitSys.wakeupLoop, first] at ran; cases ran
  | succ fuel ih =>
    intro s next released inv idle ran
    cases first : s.head wh with
    | nil =>
      rw [WaitSys.wakeupLoop, first] at ran
      cases ran
      exact released
    | cons who rest =>
      obtain ⟨one, oneRan, after, woke⟩ := inv.wakeupOne wh
      rw [WaitSys.wakeupLoop, first] at ran
      dsimp only at ran
      rw [oneRan, ok_bind] at ran
      apply ih (released.wakeupOne inv idle oneRan) after _ ran
      rw [woke.waiting, WaitSys.current, woke.current]
      exact idle

theorem wakeupAll (released : s.Released) (inv : WaitInv s) (idle : s.waiting s.current = none)
    {wh : W} (ran : s.wakeupAll wh = .ok next) : next.Released :=
  wakeupLoop wh _ released inv idle ran

end WaitSys.Released
end Rumprun.Rumpuser
