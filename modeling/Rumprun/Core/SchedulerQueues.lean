import Rumprun.Core.Scheduler

/-! # The queues of the scheduler

`QueueInv` ties the three queues to the flag words: a thread is on a queue exactly
if its `THR_QMASK` bits say so, and the timeout queue is in deadline order. Each
function of `sched.c` has a lemma with the state it returns in closed form. -/

namespace Rumprun.Core.Scheduler
open Sched List
open Function (update update_self update_of_ne update_idem)
namespace Sched
variable {s : Sched} {t : Tid}

@[simp] theorem store_thread (s : Sched) (t : Tid) (th : Thread) :
    (s.store t th).thread = update s.thread t th := rfl

@[simp] theorem store_current (s : Sched) (t : Tid) (th : Thread) :
    (s.store t th).current = s.current := rfl

@[simp] theorem store_live (s : Sched) (t : Tid) (th : Thread) : (s.store t th).live = s.live := rfl

@[simp] theorem store_queue (s : Sched) (t : Tid) (th : Thread) : (s.store t th).queue = s.queue := rfl

@[simp] theorem setQueue_thread (s : Sched) (q : Queue) (l : List Tid) :
    (s.setQueue q l).thread = s.thread := rfl

@[simp] theorem setQueue_live (s : Sched) (q : Queue) (l : List Tid) :
    (s.setQueue q l).live = s.live := rfl

@[simp] theorem setQueue_queue (s : Sched) (q : Queue) (l : List Tid) :
    (s.setQueue q l).queue = update s.queue q l := rfl

theorem deref_eq (live : s.live t = true) : s.deref t = .ok (s.thread t) := by
  rw [deref, if_pos live]

end Sched

theorem tailqRemove_eq {α : Type} [DecidableEq α] {queue : List α} {element : α}
    (mem : element ∈ queue) : tailqRemove queue element = .ok (queue.erase element) := by
  rw [tailqRemove, if_pos mem]

structure QueueInv (s : Sched) : Prop where
  mem_iff : ∀ q t, t ∈ s.queue q ↔ s.live t = true ∧ q ∈ (s.thread t).flags.qmask
  nodup : ∀ q, (s.queue q).Nodup
  sorted : (s.queue .timeq).Pairwise fun t u => (s.thread t).wakeupTime ≤ (s.thread u).wakeupTime
  finite : ∀ t ∈ s.queue .timeq, (s.thread t).wakeupTime ≠ inftime

namespace QueueInv
variable {s : Sched} {t : Tid} {q : Queue} {th : Thread}
variable (inv : QueueInv s)
include inv

theorem not_mem_of_empty (off : (s.thread t).flags.qmask = ∅) (q : Queue) : t ∉ s.queue q := by
  intro mem
  have named := ((inv.mem_iff q t).mp mem).2
  rw [off] at named
  exact absurd named (Finset.notMem_empty q)

theorem touch (mask : th.flags.qmask = (s.thread t).flags.qmask)
    (time : .timeq ∈ (s.thread t).flags.qmask → th.wakeupTime = (s.thread t).wakeupTime) :
    QueueInv (s.store t th) := by
  have sameTime : ∀ u ∈ s.queue .timeq,
      (update s.thread t th u).wakeupTime = (s.thread u).wakeupTime := by
    intro u mem
    by_cases same : u = t
    · subst same
      rw [update_self]
      exact time ((inv.mem_iff _ _).mp mem).2
    · rw [update_of_ne same]
  constructor
  · intro p u
    rw [store_queue, inv.mem_iff, store_live, store_thread]
    by_cases same : u = t
    · subst same
      rw [update_self, mask]
    · rw [update_of_ne same]
  · exact inv.nodup
  · apply inv.sorted.imp_of_mem
    intro a b memA memB le
    rw [store_thread, sameTime a memA, sameTime b memB]
    exact le
  · intro u mem
    rw [store_thread, sameTime u mem]
    exact inv.finite u mem

theorem dequeue (only : (s.thread t).flags.qmask = {q}) (off : th.flags.qmask = ∅) :
    QueueInv ((s.setQueue q ((s.queue q).erase t)).store t th) := by
  have other : ∀ {p u}, u ∈ update s.queue q ((s.queue q).erase t) p →
      u ≠ t ∧ u ∈ s.queue p := by
    intro p u mem
    by_cases same : p = q
    · subst same
      rw [update_self] at mem
      exact ((inv.nodup p).mem_erase_iff).mp mem
    · rw [update_of_ne same] at mem
      refine ⟨?_, mem⟩
      intro is
      subst is
      have named := ((inv.mem_iff p u).mp mem).2
      rw [only] at named
      exact same (Finset.mem_singleton.mp named)
  constructor
  · intro p u
    simp only [store_queue, setQueue_queue, store_live, setQueue_live, store_thread, setQueue_thread]
    by_cases same : u = t
    · subst same
      rw [update_self, off]
      constructor
      · intro mem
        exact absurd rfl (other mem).1
      · intro h
        exact absurd h.2 (Finset.notMem_empty p)
    · rw [update_of_ne same, ← inv.mem_iff]
      by_cases here : p = q
      · subst here
        rw [update_self, (inv.nodup p).mem_erase_iff]
        exact and_iff_right same
      · rw [update_of_ne here]
  · intro p
    simp only [store_queue, setQueue_queue]
    by_cases here : p = q
    · subst here
      rw [update_self]
      exact (inv.nodup p).erase t
    · rw [update_of_ne here]
      exact inv.nodup p
  · have sub : (update s.queue q ((s.queue q).erase t) .timeq).Sublist
        (s.queue .timeq) := by
      by_cases here : Queue.timeq = q
      · subst here
        rw [update_self]
        exact erase_sublist
      · rw [update_of_ne here]
    apply (inv.sorted.sublist sub).imp_of_mem
    intro a b memA memB le
    simp only [store_thread, setQueue_thread]
    rw [update_of_ne (other memA).1, update_of_ne (other memB).1]
    exact le
  · intro u mem
    simp only [store_thread, setQueue_thread]
    rw [update_of_ne (other mem).1]
    exact inv.finite u (other mem).2

theorem enqueue {l : List Tid} (live : s.live t = true) (off : (s.thread t).flags.qmask = ∅)
    (on : th.flags.qmask = {q}) (perm : l.Perm (t :: s.queue q))
    (timed : q = .timeq → th.wakeupTime ≠ inftime ∧ l.Pairwise fun a b =>
      (update s.thread t th a).wakeupTime ≤
        (update s.thread t th b).wakeupTime) : QueueInv ((s.setQueue q l).store t th) := by
  have absent := inv.not_mem_of_empty off
  constructor
  · intro p u
    simp only [store_queue, setQueue_queue, store_live, setQueue_live, store_thread, setQueue_thread]
    by_cases here : p = q
    · subst here
      rw [update_self, perm.mem_iff, mem_cons, inv.mem_iff]
      by_cases same : u = t
      · subst same
        rw [update_self, on]
        simp only [true_or, live, Finset.mem_singleton, and_self]
      · rw [update_of_ne same]
        simp only [same, false_or]
    · rw [update_of_ne here, inv.mem_iff]
      by_cases same : u = t
      · subst same
        rw [update_self, off, on]
        simp only [Finset.notMem_empty, Finset.mem_singleton, here]
      · rw [update_of_ne same]
  · intro p
    simp only [store_queue, setQueue_queue]
    by_cases here : p = q
    · subst here
      rw [update_self, perm.nodup_iff, nodup_cons]
      exact ⟨absent p, inv.nodup p⟩
    · rw [update_of_ne here]
      exact inv.nodup p
  · simp only [store_queue, setQueue_queue, store_thread, setQueue_thread]
    by_cases here : Queue.timeq = q
    · subst here
      rw [update_self]
      exact (timed rfl).2
    · rw [update_of_ne here]
      apply inv.sorted.imp_of_mem
      intro a b memA memB le
      have neA : a ≠ t := fun is => absent .timeq (is ▸ memA)
      have neB : b ≠ t := fun is => absent .timeq (is ▸ memB)
      rw [update_of_ne neA, update_of_ne neB]
      exact le
  · intro u
    simp only [store_queue, setQueue_queue, store_thread, setQueue_thread]
    intro mem
    by_cases same : u = t
    · subst same
      by_cases here : Queue.timeq = q
      · subst here
        rw [update_self]
        exact (timed rfl).1
      · rw [update_of_ne here] at mem
        exact absurd mem (absent .timeq)
    · rw [update_of_ne same]
      by_cases here : Queue.timeq = q
      · subst here
        rw [update_self, perm.mem_iff, mem_cons] at mem
        exact inv.finite u (mem.resolve_left same)
      · rw [update_of_ne here] at mem
        exact inv.finite u mem

theorem enqueue_tail (live : s.live t = true) (off : (s.thread t).flags.qmask = ∅)
    (on : th.flags.qmask = {q}) (untimed : q ≠ .timeq) :
    QueueInv ((s.setQueue q (s.queue q ++ [t])).store t th) :=
  inv.enqueue live off on (perm_append_singleton t (s.queue q))
    (fun timed => absurd timed untimed)

end QueueInv

/-! ## Waking -/

namespace Sched

def woken (s : Sched) (t : Tid) : Sched :=
  let thread := s.thread t
  let flags := thread.flags
  if .timeq ∈ flags.qmask ∨ .blockq ∈ flags.qmask then
    { s with
      thread := update s.thread t
        { thread with wakeupTime := inftime, flags := { flags with qmask := {.runq} } }
      queue := fun q =>
        match q with
        | .runq => s.queue .runq ++ [t]
        | q => (s.queue q).erase t }
  else s.store t { thread with wakeupTime := inftime }

variable {s : Sched} {t : Tid}

theorem woken_frame (s : Sched) (t : Tid) :
    (s.woken t).live = s.live ∧ (s.woken t).current = s.current ∧
      (s.woken t).threadq = s.threadq ∧ (s.woken t).zombieq = s.zombieq ∧
      (s.woken t).joinwq = s.joinwq := by
  simp only [woken]
  split
  · exact ⟨rfl, rfl, rfl, rfl, rfl⟩
  · exact ⟨rfl, rfl, rfl, rfl, rfl⟩

@[simp] theorem woken_live (s : Sched) (t : Tid) : (s.woken t).live = s.live := (s.woken_frame t).1

@[simp] theorem woken_current (s : Sched) (t : Tid) : (s.woken t).current = s.current :=
  (s.woken_frame t).2.1

@[simp] theorem woken_threadq (s : Sched) (t : Tid) : (s.woken t).threadq = s.threadq :=
  (s.woken_frame t).2.2.1

@[simp] theorem woken_zombieq (s : Sched) (t : Tid) : (s.woken t).zombieq = s.zombieq :=
  (s.woken_frame t).2.2.2.1

@[simp] theorem woken_joinwq (s : Sched) (t : Tid) : (s.woken t).joinwq = s.joinwq :=
  (s.woken_frame t).2.2.2.2

/-- The queues that `THR_QMASK` names after a wake. -/
def wokenMask (mask : Finset Queue) : Finset Queue :=
  if .timeq ∈ mask ∨ .blockq ∈ mask then {.runq} else mask

theorem woken_thread (s : Sched) (t : Tid) :
    (s.woken t).thread = update s.thread t
      { s.thread t with
        wakeupTime := inftime
        flags := { (s.thread t).flags with qmask := wokenMask (s.thread t).flags.qmask } } := by
  simp only [woken, wokenMask]
  split
  · rfl
  · rfl

theorem moveToRunq_eq {tq : Queue} (live : s.live t = true) (mem : t ∈ s.queue tq)
    (blocked : tq ≠ .runq) :
    s.moveToRunq t tq = .ok
      (((s.setQueue tq ((s.queue tq).erase t)).setQueue .runq (s.queue .runq ++ [t])).store t
        { s.thread t with flags := { (s.thread t).flags with qmask := {.runq} } }) := by
  rw [moveToRunq, deref_eq live, ok_bind, tailqRemove_eq mem, ok_bind]
  simp only [store_queue, setQueue_queue, update_of_ne (Ne.symm blocked)]
  rfl

end Sched
namespace QueueInv
variable {s : Sched} {t : Tid} {q : Queue}

theorem erase_eq (inv : QueueInv s) (only : (s.thread t).flags.qmask = {q}) {p : Queue}
    (other : p ≠ q) : (s.queue p).erase t = s.queue p := by
  apply erase_of_not_mem
  intro mem
  have named := ((inv.mem_iff p t).mp mem).2
  rw [only] at named
  exact other (Finset.mem_singleton.mp named)

theorem requeue (inv : QueueInv s) {th : Thread} (live : s.live t = true)
    (only : (s.thread t).flags.qmask = {q}) (blocked : q ≠ .runq) (on : th.flags.qmask = {.runq}) :
    QueueInv (((s.setQueue q ((s.queue q).erase t)).setQueue .runq
      (s.queue .runq ++ [t])).store t th) := by
  -- between the two moves the thread is on no queue
  have left : QueueInv ((s.setQueue q ((s.queue q).erase t)).store t
      { th with flags := { th.flags with qmask := ∅ } }) := inv.dequeue only rfl
  have entered := left.enqueue_tail live (by simp only [store_thread, update_self])
    on (by decide)
  have runq : (s.setQueue q ((s.queue q).erase t)).queue .runq = s.queue .runq := by
    rw [setQueue_queue, update_of_ne (Ne.symm blocked)]
  rw [store_queue, runq] at entered
  have same : ∀ first : Thread, (((s.setQueue q ((s.queue q).erase t)).store t first).setQueue
      .runq (s.queue .runq ++ [t])).store t th =
      ((s.setQueue q ((s.queue q).erase t)).setQueue .runq (s.queue .runq ++ [t])).store t th := by
    intro first
    simp only [store, setQueue, update_idem]
  rwa [same] at entered

theorem woken_eq (inv : QueueInv s) (only : (s.thread t).flags.qmask = {q}) (blocked : q ≠ .runq) :
    s.woken t = ((s.setQueue q ((s.queue q).erase t)).setQueue .runq (s.queue .runq ++ [t])).store t
      { s.thread t with
        wakeupTime := inftime, flags := { (s.thread t).flags with qmask := {.runq} } } := by
  have named : .timeq ∈ (s.thread t).flags.qmask ∨ .blockq ∈ (s.thread t).flags.qmask := by
    rw [only]
    cases q with
    | runq => exact absurd rfl blocked
    | timeq => exact .inl (Finset.mem_singleton_self _)
    | blockq => exact .inr (Finset.mem_singleton_self _)
  rw [woken, if_pos named]
  simp only [store, setQueue, mk.injEq, true_and, and_true]
  funext p
  by_cases here : p = q
  · subst here
    rw [update_of_ne blocked, update_self]
    cases p with
    | runq => exact absurd rfl blocked
    | timeq | blockq => rfl
  · cases p with
    | runq => rw [update_self]
    | timeq | blockq =>
      rw [update_of_ne (by decide), update_of_ne here]
      exact inv.erase_eq only here

theorem woken_of_unblocked (free : (s.thread t).flags.qmask = {.runq} ∨ (s.thread t).flags.qmask = ∅) :
    s.woken t = s.store t { s.thread t with wakeupTime := inftime } := by
  rw [woken, if_neg]
  rcases free with only | off
  · rw [only]
    decide
  · rw [off]
    decide

/-- What a wake may be aimed at: a thread on one queue, or a running one on none. -/
def Wakeable (flags : Flags) : Prop :=
  (∃ q, flags.qmask = {q}) ∨ (flags.qmask = ∅ ∧ flags.running = true)

theorem bmkSchedWake_eq (inv : QueueInv s) (live : s.live t = true)
    (sound : Wakeable (s.thread t).flags) : s.bmkSchedWake t = .ok (s.woken t) := by
  rw [bmkSchedWake, deref_eq live, ok_bind, setRunnable, deref_eq (by exact live), ok_bind]
  simp only [store_thread, update_self]
  rcases sound with ⟨q, only⟩ | ⟨off, running⟩
  · cases q with
    | runq =>
      rw [if_pos (by rw [only]; decide), woken_of_unblocked (.inl only)]
      rfl
    | timeq =>
      have mem : t ∈ s.queue .timeq := (inv.mem_iff _ _).mpr ⟨live, by rw [only]; decide⟩
      rw [if_neg (by rw [only]; decide), if_pos only,
        moveToRunq_eq (by exact live) (by exact mem) (by decide),
        inv.woken_eq only (by decide)]
      simp only [store, setQueue, update_self, update_idem]
    | blockq =>
      have mem : t ∈ s.queue .blockq := (inv.mem_iff _ _).mpr ⟨live, by rw [only]; decide⟩
      rw [if_neg (by rw [only]; decide), if_neg (by rw [only]; decide), if_pos only,
        moveToRunq_eq (by exact live) (by exact mem) (by decide),
        inv.woken_eq only (by decide)]
      simp only [store, setQueue, update_self, update_idem]
  · rw [if_neg (by rw [off]; decide), if_neg (by rw [off]; decide), if_neg (by rw [off]; decide),
      if_pos ⟨off, running⟩, woken_of_unblocked (.inr off)]
    rfl

theorem woken (inv : QueueInv s) (live : s.live t = true) (sound : Wakeable (s.thread t).flags) :
    QueueInv (s.woken t) := by
  have unblocked : ∀ mask : Finset Queue, (s.thread t).flags.qmask = mask →
      (mask = {.runq} ∨ mask = ∅) → QueueInv (s.woken t) := by
    intro mask is free
    rw [woken_of_unblocked (is ▸ free)]
    apply inv.touch (by rfl)
    intro timed
    rw [is] at timed
    rcases free with only | off
    · rw [only] at timed
      exact absurd timed (by decide)
    · rw [off] at timed
      exact absurd timed (by decide)
  rcases sound with ⟨q, only⟩ | ⟨off, -⟩
  · by_cases ready : q = .runq
    · exact unblocked {q} only (.inl (by rw [ready]))
    · rw [inv.woken_eq only ready]
      exact inv.requeue live only ready rfl
  · exact unblocked ∅ off (.inr rfl)

end QueueInv

/-! ## Blocking -/

theorem insertBefore_some (time : Tid → Int) {t : Tid} :
    ∀ {l l' : List Tid}, insertBefore (fun iter => time t < time iter) t l = some l' →
      (l.Pairwise fun a b => time a ≤ time b) →
      l'.Perm (t :: l) ∧ l'.Pairwise fun a b => time a ≤ time b := by
  intro l
  induction l with
  | nil =>
    intro l' found
    simp only [insertBefore, reduceCtorEq] at found
  | cons iter rest ih =>
    intro l' found sorted
    obtain ⟨first, sortedRest⟩ := pairwise_cons.mp sorted
    rw [insertBefore] at found
    by_cases later : time t < time iter
    · rw [if_pos (decide_eq_true later)] at found
      cases Option.some.inj found
      refine ⟨List.Perm.refl _, pairwise_cons.mpr ⟨?_, sorted⟩⟩
      intro b mem
      rcases mem_cons.mp mem with same | inRest
      · rw [same]
        exact le_of_lt later
      · exact (le_of_lt later).trans (first b inRest)
    · rw [if_neg (by simpa using later)] at found
      obtain ⟨tail, tailFound, same⟩ := Option.map_eq_some_iff.mp found
      obtain ⟨perm, sortedTail⟩ := ih tailFound sortedRest
      subst same
      refine ⟨(perm.cons iter).trans (List.Perm.swap t iter rest), pairwise_cons.mpr ⟨?_, sortedTail⟩⟩
      intro b mem
      rcases mem_cons.mp (perm.mem_iff.mp mem) with same | inRest
      · rw [same]
        exact not_lt.mp later
      · exact first b inRest

theorem insertBefore_none (time : Tid → Int) {t : Tid} :
    ∀ {l : List Tid}, insertBefore (fun iter => time t < time iter) t l = none →
      ∀ a ∈ l, time a ≤ time t := by
  intro l
  induction l with
  | nil =>
    intro _ a mem
    exact absurd mem not_mem_nil
  | cons iter rest ih =>
    intro found a mem
    rw [insertBefore] at found
    by_cases later : time t < time iter
    · rw [if_pos (decide_eq_true later)] at found
      exact absurd found (by simp)
    · rw [if_neg (by simpa using later)] at found
      rcases mem_cons.mp mem with same | inRest
      · rw [same]
        exact not_lt.mp later
      · exact ih (Option.map_eq_none_iff.mp found) a inRest

namespace Sched

/-- Where `clear_runnable` puts a thread with this deadline. -/
def waitQueue (deadline : Int) : Queue := if deadline ≠ inftime then .timeq else .blockq

theorem waitQueue_ne_runq (deadline : Int) : waitQueue deadline ≠ .runq := by
  unfold waitQueue
  split
  · decide
  · decide

/-- The current thread with a deadline, `THR_BLOCKPREP`, and the given queue bits. -/
def prepared (s : Sched) (deadline : Int) (mask : Finset Queue) : Thread :=
  { s.thread s.current with
    wakeupTime := deadline
    flags := { (s.thread s.current).flags with blockprep := true, qmask := mask } }

end Sched
namespace QueueInv
variable {s : Sched} {t : Tid}

theorem timeqSortedInsert_spec
    (sorted : (s.queue .timeq).Pairwise fun a b => (s.thread a).wakeupTime ≤ (s.thread b).wakeupTime)
    (finite : (s.thread t).wakeupTime ≠ inftime) :
    ∃ l, s.timeqSortedInsert t = .ok (s.setQueue .timeq l) ∧ l.Perm (t :: s.queue .timeq) ∧
      l.Pairwise fun a b => (s.thread a).wakeupTime ≤ (s.thread b).wakeupTime := by
  rw [timeqSortedInsert, bmkAssert_bind _ (by simpa using finite)]
  cases last : (s.queue .timeq).getLast? with
  | none =>
    rw [getLast?_eq_none_iff] at last
    exact ⟨[t], rfl, by rw [last], pairwise_singleton _ _⟩
  | some final =>
    dsimp only
    cases found : insertBefore
        (fun iter => (s.thread t).wakeupTime < (s.thread iter).wakeupTime) t
        (s.queue .timeq) with
    | some l =>
      obtain ⟨perm, sortedL⟩ := insertBefore_some (fun a => (s.thread a).wakeupTime) found sorted
      exact ⟨l, rfl, perm, sortedL⟩
    | none =>
      have le := insertBefore_none (fun a => (s.thread a).wakeupTime) found
      dsimp only
      rw [bmkAssert_bind _ (decide_eq_true (le final (mem_of_getLast? last)))]
      refine ⟨_, rfl, perm_append_singleton t _, ?_⟩
      rw [pairwise_append]
      refine ⟨sorted, pairwise_singleton _ _, ?_⟩
      intro a memA b memB
      rw [mem_singleton.mp memB]
      exact le a memA

theorem bmkSchedBlockprepareTimeout_spec (inv : QueueInv s) (live : s.live s.current = true)
    (off : (s.thread s.current).flags.qmask = ∅) (running : (s.thread s.current).flags.running = true)
    (unprepared : (s.thread s.current).flags.blockprep = false) (deadline : Int) :
    ∃ q l, q = waitQueue deadline ∧ s.bmkSchedBlockprepareTimeout deadline =
        .ok ((s.setQueue q l).store s.current (s.prepared deadline {q})) ∧
      QueueInv ((s.setQueue q l).store s.current (s.prepared deadline {q})) := by
  have start : s.bmkSchedBlockprepareTimeout deadline =
      (s.store s.current (s.prepared deadline ∅)).clearRunnable := by
    rw [bmkSchedBlockprepareTimeout]
    dsimp only
    rw [deref_eq live, ok_bind, bmkAssert_bind _ (by rw [unprepared]; rfl), prepared, ← off]
  have quiet : QueueInv (s.store s.current (s.prepared deadline ∅)) := by
    apply inv.touch off.symm
    intro on
    rw [off] at on
    exact absurd on (by decide)
  rw [start, clearRunnable]
  dsimp only
  rw [deref_eq (by exact live), ok_bind]
  simp only [store_thread, store_current, update_self]
  have stamped : (s.prepared deadline ∅).wakeupTime = deadline := rfl
  rw [bmkAssert_bind _ (by exact running), bmkAssert_bind _ (by rw [prepared]; rfl), stamped]
  by_cases timed : deadline ≠ inftime
  · rw [if_pos timed]
    -- the insertion reads the deadline just stored
    have stored : ((s.store s.current (s.prepared deadline ∅)).thread s.current).wakeupTime ≠
        inftime := by
      rw [store_thread, update_self]
      exact timed
    obtain ⟨l, inserted, perm, sorted⟩ := timeqSortedInsert_spec quiet.sorted stored
    refine ⟨.timeq, l, (if_pos timed).symm, ?_, ?_⟩
    · rw [inserted]
      simp only [ok_bind, prepared, insert_empty_eq, store, setQueue, update_idem]
      rfl
    · apply inv.enqueue live off rfl perm
      intro _
      refine ⟨timed, sorted.imp_of_mem ?_⟩
      intro a b _ _ le
      have time : ∀ u, (update s.thread s.current
          (s.prepared deadline {.timeq}) u).wakeupTime =
          ((s.store s.current (s.prepared deadline ∅)).thread u).wakeupTime := by
        intro u
        by_cases same : u = s.current
        · rw [same, store_thread, update_self, update_self]
          rfl
        · rw [store_thread, update_of_ne same, update_of_ne same]
      rw [time a, time b]
      exact le
  · rw [if_neg timed]
    refine ⟨.blockq, s.queue .blockq ++ [s.current], (if_neg timed).symm, ?_,
      inv.enqueue_tail live off rfl (by decide)⟩
    simp only [prepared, insert_empty_eq, store, setQueue, update_idem]
    rfl

end QueueInv

/-! ## Switching -/

namespace Sched

def switched (s : Sched) (next : Tid) : Sched :=
  { s with
    thread := fun u =>
      if u = next then
        { s.thread u with flags := { (s.thread u).flags with qmask := ∅, running := true } }
      else if u = s.current then
        { s.thread u with flags := { (s.thread u).flags with running := false } }
      else s.thread u
    queue := update s.queue .runq ((s.queue .runq).erase next)
    current := next }

def yielded (s : Sched) : Sched :=
  (s.setQueue .runq (s.queue .runq ++ [s.current])).store s.current
    { s.thread s.current with
      flags := { (s.thread s.current).flags with running := false, qmask := {.runq} } }

def reaped (s : Sched) : Sched :=
  { s with zombieq := [], live := fun u => if u ∈ s.zombieq then false else s.live u }

def freedBy (s : Sched) (zombies : List Tid) : List Freed :=
  zombies.flatMap fun t =>
    (if (s.thread t).flags.extstack = true then [] else [.stack t (s.thread t).stackbase]) ++
      [.thread t]

end Sched
namespace QueueInv
variable {s : Sched} {t : Tid}

theorem scheduleCommit_spec (inv : QueueInv s) {next : Tid} (livePrev : s.live s.current = true)
    (liveNext : s.live next = true) (only : (s.thread next).flags.qmask = {.runq}) :
    s.scheduleCommit next = .ok (s.switched next) ∧ QueueInv (s.switched next) := by
  have mem : next ∈ s.queue .runq := (inv.mem_iff _ _).mpr ⟨liveNext, by rw [only]; decide⟩
  have stopped : QueueInv (s.store s.current { s.thread s.current with
      flags := { (s.thread s.current).flags with running := false } }) :=
    inv.touch rfl (fun _ => rfl)
  have same : ∀ th : Thread, th = { s.thread next with
        flags := { (s.thread next).flags with qmask := ∅, running := true } } →
      ({ (((s.store s.current { s.thread s.current with
        flags := { (s.thread s.current).flags with running := false } }).setQueue .runq
        ((s.queue .runq).erase next)).store next th) with current := next } : Sched) =
      s.switched next := by
    intro th is
    simp only [store, setQueue, switched, mk.injEq, and_true]
    funext u
    by_cases here : u = next
    · subst here
      rw [update_self, if_pos rfl, is]
    · rw [update_of_ne here, if_neg here]
      by_cases prev : u = s.current
      · rw [prev, update_self, if_pos rfl]
      · rw [update_of_ne prev, if_neg prev]
  -- clearing `THR_RUNNING` first changes nothing else, whichever thread is next
  have onlyStill : ((s.store s.current { s.thread s.current with
      flags := { (s.thread s.current).flags with running := false } }).thread next).flags.qmask =
      {.runq} := by
    rw [store_thread]
    by_cases here : next = s.current
    · rw [here, update_self, ← here]
      exact only
    · rw [update_of_ne here]
      exact only
  have nextThread : ∀ flags : Flags, flags = ((s.store s.current { s.thread s.current with
      flags := { (s.thread s.current).flags with running := false } }).thread next).flags →
      ({ (s.store s.current { s.thread s.current with
        flags := { (s.thread s.current).flags with running := false } }).thread next with
        flags := { flags with qmask := flags.qmask.erase .runq, running := true } } : Thread) =
      { s.thread next with
        flags := { (s.thread next).flags with qmask := ∅, running := true } } := by
    intro flags is
    subst is
    rw [onlyStill]
    have gone : ({Queue.runq} : Finset Queue).erase .runq = ∅ := by decide
    rw [gone, store_thread]
    by_cases here : next = s.current
    · rw [here, update_self]
    · rw [update_of_ne here]
  constructor
  · rw [scheduleCommit]
    dsimp only
    rw [deref_eq livePrev, ok_bind, tailqRemove_eq (by exact mem), ok_bind,
      deref_eq (by exact liveNext), ok_bind, nextThread _ rfl]
    by_cases here : s.current = next
    · rw [if_neg (not_not.mpr here), ← same _ rfl]
      simp only [store, setQueue, here]
      rfl
    · rw [if_pos here, schedSwitch, deref_eq (by exact liveNext), ok_bind]
      simp only [store_thread, update_self]
      rw [bmkAssert_bind _ rfl, bmkAssert_bind _ (by rfl), ← same _ rfl]
      rfl
  · have left : QueueInv (((s.store s.current { s.thread s.current with
        flags := { (s.thread s.current).flags with running := false } }).setQueue .runq
        ((s.queue .runq).erase next)).store next { s.thread next with
        flags := { (s.thread next).flags with qmask := ∅, running := true } }) :=
      stopped.dequeue onlyStill rfl
    rw [← same _ rfl]
    exact ⟨left.mem_iff, left.nodup, left.sorted, left.finite⟩

theorem bmkSchedYield_spec (inv : QueueInv s) (live : s.live s.current = true)
    (off : (s.thread s.current).flags.qmask = ∅) (running : (s.thread s.current).flags.running = true) :
    s.bmkSchedYield = .ok s.yielded ∧ QueueInv s.yielded := by
  constructor
  · rw [bmkSchedYield]
    dsimp only
    rw [deref_eq live, ok_bind, bmkAssert_bind _ running, off, insert_empty_eq]
    rfl
  · exact inv.enqueue_tail live off rfl (by decide)

theorem reaped (inv : QueueInv s) (off : ∀ t ∈ s.zombieq, (s.thread t).flags.qmask = ∅) :
    QueueInv s.reaped := by
  refine ⟨?_, inv.nodup, inv.sorted, inv.finite⟩
  intro q u
  simp only [Sched.reaped]
  rw [inv.mem_iff]
  by_cases zombie : u ∈ s.zombieq
  · simp only [off u zombie, Finset.notMem_empty, and_false]
  · rw [if_neg zombie]

theorem allocate (inv : QueueInv s) (fresh : s.live t = false) {th : Thread}
    (off : th.flags.qmask = ∅) : QueueInv { s.store t th with live := update s.live t true } := by
  have other : ∀ {q u}, u ∈ s.queue q → u ≠ t := by
    intro q u mem is
    have live := ((inv.mem_iff q u).mp mem).1
    rw [is, fresh] at live
    cases live
  refine ⟨?_, inv.nodup, ?_, ?_⟩
  · intro q u
    simp only [store]
    by_cases same : u = t
    · subst same
      rw [update_self, update_self, off]
      constructor
      · intro mem
        exact absurd rfl (other mem)
      · intro h
        exact absurd h.2 (Finset.notMem_empty q)
    · rw [update_of_ne same, update_of_ne same]
      exact inv.mem_iff q u
  · apply inv.sorted.imp_of_mem
    intro a b memA memB le
    simp only [store]
    rw [update_of_ne (other memA), update_of_ne (other memB)]
    exact le
  · intro u mem
    simp only [store]
    rw [update_of_ne (other mem)]
    exact inv.finite u mem

end QueueInv

theorem reapLoop_eq {zombies : List Tid} : ∀ {s : Sched}, zombies.Nodup →
    (∀ t ∈ zombies, s.live t = true) →
    reapLoop zombies s = .ok ({ s with
      zombieq := if zombies = [] then s.zombieq else []
      live := fun u => if u ∈ zombies then false else s.live u }, s.freedBy zombies) := by
  induction zombies with
  | nil =>
    intro s _ _
    simp only [reapLoop, freedBy, if_true, not_mem_nil, if_false, flatMap_nil]
  | cons t rest ih =>
    intro s nodup live
    obtain ⟨notIn, nodupRest⟩ := nodup_cons.mp nodup
    have liveRest : ∀ u ∈ rest, update s.live t false u = true := by
      intro u mem
      have other : u ≠ t := fun is => notIn (is ▸ mem)
      rw [update_of_ne other]
      exact live u (mem_cons_of_mem t mem)
    rw [reapLoop, deref_eq (live t mem_cons_self), ok_bind]
    dsimp only
    rw [ih nodupRest liveRest, ok_bind]
    dsimp only
    have lives : (fun u => if u ∈ rest then false else update s.live t false u) =
        fun u => if u ∈ t :: rest then false else s.live u := by
      funext u
      by_cases same : u = t
      · subst same
        rw [if_neg notIn, update_self, if_pos mem_cons_self]
      · rw [update_of_ne same]
        simp only [mem_cons, same, false_or]
    have emptied : (if rest = [] then rest else []) = ([] : List Tid) := by
      cases rest with
      | nil | cons => rfl
    rw [lives, emptied]
    simp only [freedBy, flatMap_cons, reduceCtorEq, if_false, append_assoc, singleton_append]
    rfl

theorem reaper_eq {s : Sched} (nodup : s.zombieq.Nodup) (live : ∀ t ∈ s.zombieq, s.live t = true) :
    s.reaper = .ok (s.reaped, s.freedBy s.zombieq) := by
  have emptied : (if s.zombieq = [] then s.zombieq else []) = [] := by
    cases s.zombieq with
    | nil | cons => rfl
  rw [reaper, reapLoop_eq nodup live, emptied]
  rfl

end Rumprun.Core.Scheduler
