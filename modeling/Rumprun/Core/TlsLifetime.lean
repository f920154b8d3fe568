import Rumprun.Core.JoinHandshake

/-! # How long a thread's TLS block lives

`bmk_current` is a variable in the TLS block of the running thread. `bmk_sched_exit`
frees the block before it enters `bmk_sched_exit_withtls`, which reads `bmk_current`. -/

namespace Rumprun.Core.Scheduler
open StepRuns Function Sched

/-- The block that `bmk_sched_create` allocated for the running thread is still its own. -/
def System.TlsAllocated (sys : System) : Prop :=
  sys.ownTls sys.sched.current = true →
    sys.heap (sys.sched.thread sys.sched.current).tp = some (.tls sys.sched.current)

/-- The same for every thread that is there. -/
def System.TlsOwned (sys : System) : Prop :=
  ∀ t, sys.sched.live t = true → sys.ownTls t = true → sys.heap (sys.sched.thread t).tp = some (.tls t)

def tlsPromises : Promises := ⟨False, True⟩

theorem System.TlsOwned.frame {sys next : System} (owned : sys.TlsOwned)
    (move : Move tlsPromises sys next) (ownTls : next.ownTls = sys.ownTls)
    (live : ∀ u, next.sched.live u = true → sys.sched.live u = true)
    (heap : ∀ a u, sys.heap a = some (.tls u) → next.heap a = some (.tls u)) : next.TlsOwned := by
  intro t isLive own
  rw [ownTls] at own
  rw [(move.identity (live t isLive)).2.1]
  exact heap _ t (owned t (live t isLive) own)

theorem Move.tls_owned {sys next : System} (move : Move tlsPromises sys next) (core : CoreInv sys)
    (owned : sys.TlsOwned) : next.TlsOwned := by
  have frame := fun ownTls live heap => owned.frame move ownTls live heap
  have wokenLive : ∀ {s : Sched} {t : Tid}, ∀ u, (s.woken t).live u = true → s.live u = true := by
    intro s t u is
    rwa [s.woken_live t] at is
  have reapedLive : ∀ u, sys.sched.reaped.live u = true → sys.sched.live u = true := fun u =>
    (JoinInv.reaped_live core u).1
  -- a block of a thread is neither free nor another caller's
  have changed : ∀ {block : Nat} {owner : Option Owner},
      (∀ u, sys.heap block ≠ some (.tls u)) → ∀ a u, sys.heap a = some (.tls u) →
        update sys.heap block owner a = some (.tls u) := by
    intro block owner other a u is
    rw [update_of_ne]
    · exact is
    · intro same
      rw [same] at is
      exact other u is
  cases move with
  | create t extstack joinable ownTls stackbase tp heap fresh _ tls =>
    intro u isLive own
    by_cases here : u = t
    · subst here
      dsimp only at own
      rw [update_self] at own
      rcases tls with ⟨none, -⟩ | ⟨-, -, is⟩
      · rw [none] at own
        exact absurd own Bool.false_ne_true
      · rw [is]
        simp only [created, setQueue, store, update_self]
        exact update_self ..
    · simp only [created, setQueue, store] at isLive ⊢
      dsimp only at own
      rw [update_of_ne here] at isLive own ⊢
      have was := owned u isLive own
      rcases tls with ⟨-, is⟩ | ⟨-, free, is⟩
      · rw [is]
        exact was
      · rw [is]
        exact changed (fun v => by rw [free]; simp) _ u was
  | prepare | block | yield | join | joinSeen | joinUnseen | register | unlink | exitWait | die
  | noSignal | dispatch => exact frame rfl (fun u is => is) (fun a u is => is)
  | wake | joinDone | signal | timeout => exact frame rfl wokenLive (fun a u is => is)
  | exit heap _ tls =>
    apply frame rfl (fun u is => is)
    rcases tls with is | ⟨is, kept⟩
    · rw [is]
      exact fun a u at_ => at_
    · rw [is]
      exact changed (kept trivial)
  | blockReturn | yieldReturn => exact frame rfl reapedLive (fun a u is => is)
  | memalloc block free =>
    exact frame rfl (fun u is => is) (changed (fun v => by rw [free]; simp))
  | memfree block owner =>
    exact frame rfl (fun u is => is) (changed (fun v => by rw [owner]; simp))

/-- What the callers keep to, with no TLS block of a `bmk_sched_create` given back by
`bmk_sched_exit`. -/
def System.AdmitsKeepingTls (sys : System) (event : Event) : Prop :=
  sys.Admits event ∧ sys.KeepsTls event

/-- A thread that joins another one, which leaves through `bmk_sched_exit`: while it waits in its
exit, the joiner is given the memory of its TLS block, and then it goes on. -/
def tlsReuseRun : List Event :=
  [.call (.create 2 true 0 0 0x9000 0x20), .call .yield, .turn 100, .call .exit, .advance,
    .advance, .advance, .advance, .turn 200, .advance, .memalloc 0x20, .call (.join 2), .advance,
    .advance, .call .yield, .turn 300]

theorem tls_reissued_before_last_switch :
    ∃ boot ∈ (System.start 1 0x8000 0x1000 0x10).toOption,
      Admissible System.Admits System.step tlsReuseRun boot ∧
      ∃ final ∈ (run System.step tlsReuseRun boot).toOption,
        final.sched.current = 2 ∧ final.ownTls 2 = true ∧ final.pc 2 = .resumed .exit ∧
          final.heap (final.sched.thread 2).tp = some .caller := by
  decide +kernel

/-- In a run in which no TLS block of a `bmk_sched_create` is given back by
`bmk_sched_exit`, the running thread's block is allocated in every state; a thread that calls
`bmk_sched_exit` itself goes on without one. -/
theorem tls_allocated_while_running (main stack stackSize tlsarea : Nat) (stacked : stack ≠ 0) :
    ∃ boot, System.start main stack stackSize tlsarea = .ok boot ∧
      (∀ events, Admissible System.AdmitsKeepingTls System.step events boot →
        ∃ final, run System.step events boot = .ok final ∧ final.TlsAllocated) ∧
      ∀ sys next : System, sys.ownTls sys.sched.current = true →
        sys.step (.call .exit) = .ok next → ¬ next.TlsAllocated := by
  refine ⟨_, System.start_eq main stackSize tlsarea stacked, ?_, ?_⟩
  · intro events allowed
    have preserved : ∀ (state : System) (event : Event),
        SysInv state ∧ state.TlsOwned → state.AdmitsKeepingTls event →
          ∃ next, state.step event = .ok next ∧ SysInv next ∧ next.TlsOwned := by
      intro state event holds admitted
      have kept : tlsPromises.Kept state event := ⟨False.elim, fun _ => admitted.2⟩
      obtain ⟨next, stepped, moves⟩ := holds.1.step event admitted.1 kept
      have keeps : ∀ {a b : System}, SysInv a ∧ a.TlsOwned → Move tlsPromises a b →
          SysInv b ∧ b.TlsOwned := fun both move =>
        ⟨both.1.move move, move.tls_owned both.1.core both.2⟩
      exact ⟨next, stepped, moves.keep keeps holds⟩
    have start : (System.mainOnly main stack tlsarea).TlsOwned := by
      intro t live own
      simp only [System.mainOnly, update_apply] at own
      split at own
      · next here =>
          subst here
          simp only [System.mainOnly, store, update_self]
          exact update_self ..
      · exact absurd own Bool.false_ne_true
    obtain ⟨final, ran, inv, owned⟩ := run_invariant preserved events _
      ⟨System.mainOnly_inv main stack tlsarea, start⟩ allowed
    exact ⟨final, ran, owned _ inv.core.current_live⟩
  · intro sys next own stepped allocated
    simp only [System.step, System.call, deref] at stepped
    split at stepped
    · rw [ok_bind] at stepped
      cases stepped
      have block := allocated own
      simp only [System.goto, update_self] at block
      cases block
    · cases stepped

theorem tls_allocated_while_running_join :
    ∃ boot final, System.start 1 0x8000 0x1000 0x10 = .ok boot ∧
      run System.step joinRun boot = .ok final ∧ final.TlsAllocated := by
  obtain ⟨boot, booted, runs, -⟩ := tls_allocated_while_running 1 0x8000 0x1000 0x10 (by decide)
  have allowed : ∀ sys ∈ (System.start 1 0x8000 0x1000 0x10).toOption,
      Admissible System.Admits System.step joinRun sys := by
    decide +kernel
  have keeps : ∀ event ∈ joinRun, ∀ sys : System, sys.Admits event →
      sys.AdmitsKeepingTls event := by
    intro event mem sys admitted
    refine ⟨admitted, ?_⟩
    intro is
    rw [is] at mem
    exact absurd mem (by decide)
  have keeping := (allowed boot (by rw [booted]; rfl)).imp keeps
  obtain ⟨final, ran, allocated⟩ := runs joinRun keeping
  exact ⟨boot, final, booted, ran, allocated⟩

end Rumprun.Core.Scheduler
