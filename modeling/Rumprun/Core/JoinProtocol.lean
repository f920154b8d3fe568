import Rumprun.Core.SchedulerMoves

/-! # Joining and exiting

The protocol between `bmk_sched_exit_withtls` and `bmk_sched_join` keeps
`JoinInv`. Most moves leave the waiters and the two flags alone (`frame`); the
ones that do not are those of the protocol itself. -/

namespace Rumprun.Core.Scheduler
open Function Pc Sched
namespace CoreInv
variable {sys : System}

theorem notDead_of_mustjoin (core : CoreInv sys) {j : Tid} (live : sys.sched.live j = true)
    (due : (sys.sched.thread j).flags.mustjoin = true) : sys.NotDead j := by
  refine ⟨live, ?_⟩
  cases dead : (sys.sched.thread j).flags.dead with
  | false => rfl
  | true =>
    have agrees := core.agrees j
    rw [agrees.gone_of_dead dead] at agrees
    have clear := (agrees live).2.2.2
    rw [due] at clear
    exact absurd clear.symm Bool.false_ne_true

end CoreInv

theorem System.goto_pc (sys : System) (sched : Sched) (pc : Pc) (t : Tid) :
    (sys.goto sched pc).pc t = if t = sys.sched.current then pc else sys.pc t :=
  update_apply sys.pc sys.sched.current pc t

theorem update_view {α β : Type} (f : α → β) {at_ : Tid → α} {n : Tid} {new : α}
    (same : f new = f (at_ n)) (t : Tid) : f (update at_ n new t) = f (at_ t) := by
  rw [update_apply]
  split
  · next here => rw [here, same]
  · rfl

theorem System.goto_view {α : Type} (f : Pc → α) {sys : System} {sched : Sched} {before : Pc} (pc : Pc)
    (place : sys.pc sys.sched.current = before) (same : f pc = f before) (t : Tid) :
    f ((sys.goto sched pc).pc t) = f (sys.pc t) :=
  update_view f (same.trans (congrArg f place.symm)) t

/-- What is said of a place that the running thread leaves is said of another thread. -/
theorem goto_keeps (P : Pc → Prop) {sys : System} {before pc : Pc} {t : Tid}
    (place : sys.pc sys.sched.current = before) (leaves : ¬ P before) (was : P (sys.pc t)) :
    P (update sys.pc sys.sched.current pc t) := by
  rw [update_of_ne]
  · exact was
  · rintro rfl
    exact leaves (place ▸ was)

namespace JoinInv
variable {sys next : System}

theorem frame (core : CoreInv sys) (joins : JoinInv sys) (joinwq : next.sched.joinwq = sys.sched.joinwq)
    (joinable : next.joinable = sys.joinable) (unjoined : next.unjoined = sys.unjoined)
    (liveBack : ∀ u, next.sched.live u = true → sys.sched.live u = true)
    (liveKept : ∀ u, sys.NotDead u → next.sched.live u = true)
    (flags : ∀ u, (next.sched.thread u).flags.mustjoin = (sys.sched.thread u).flags.mustjoin ∧
      (next.sched.thread u).flags.joined = (sys.sched.thread u).flags.joined)
    (registered : ∀ u, (next.pc u).registered = (sys.pc u).registered)
    (joining : ∀ u, (next.pc u).joining = (sys.pc u).joining)
    (exiting : ∀ u, (sys.pc u).exiting = true → (next.pc u).exiting = true)
    (waking : ∀ t j, next.pc t = .active (.joinWake j) →
      sys.pc t = .active (.joinWake j) ∧ next.NotDead j)
    (unseen : ∀ t j, (next.pc t).committed = some j →
      (sys.pc t).committed = some j ∨ (sys.sched.thread j).flags.joined = false)
    (handshake : ∀ t j, next.pc t = .blocking (.join j) →
      (sys.sched.thread j).flags.joined = true → (sys.pc t).committed = some j ∨
        (next.sched.thread t).flags.qmask = {.runq} ∨ next.pc j = .active .exitSignal) :
    JoinInv next := by
  constructor
  · intro t j
    rw [joinwq, registered t]
    exact joins.waiters t j
  · rw [joinwq]
    exact joins.waiters_nodup
  · intro t j is
    rw [joining t] at is
    obtain ⟨live, due, taken⟩ := joins.joining t j is
    rw [unjoined, (flags j).1]
    exact ⟨liveKept j (core.notDead_of_mustjoin live due), due, taken⟩
  · intro t u j isT isU
    rw [joining t] at isT
    rw [joining u] at isU
    exact joins.unique t u j isT isU
  · intro j is
    rw [unjoined] at is
    obtain ⟨live, due⟩ := joins.unjoined j is
    rw [(flags j).1]
    exact ⟨liveKept j (core.notDead_of_mustjoin live due), due⟩
  · intro t j is
    obtain ⟨was, alive⟩ := waking t j is
    obtain ⟨-, exits, clear⟩ := joins.waking t j was
    rw [(flags j).1]
    exact ⟨alive, exiting j exits, clear⟩
  · intro j live joined
    rw [(flags j).2] at joined
    exact exiting j (joins.exiting j (liveBack j live) joined)
  · intro j live made clear
    rw [(flags j).2]
    rw [joinable] at made
    rw [(flags j).1] at clear
    exact joins.cleared j (liveBack j live) made clear
  · intro t j is
    rw [(flags j).2]
    rcases unseen t j is with was | clear
    · exact joins.unseen t j was
    · exact clear
  · intro t j is joined
    rw [(flags j).2] at joined
    rcases handshake t j is joined with was | result
    · rw [joins.unseen t j was] at joined
      exact absurd joined Bool.false_ne_true
    · exact result

theorem goto (core : CoreInv sys) (joins : JoinInv sys) {sched : Sched} {before pc : Pc}
    (place : sys.pc sys.sched.current = before) (joinwq : sched.joinwq = sys.sched.joinwq)
    (liveBack : ∀ u, sched.live u = true → sys.sched.live u = true)
    (liveKept : ∀ u, sys.NotDead u → sched.live u = true)
    (flags : ∀ u, (sched.thread u).flags.mustjoin = (sys.sched.thread u).flags.mustjoin ∧
      (sched.thread u).flags.joined = (sys.sched.thread u).flags.joined)
    (masks : ∀ u, u ≠ sys.sched.current →
      (sched.thread u).flags.qmask = (sys.sched.thread u).flags.qmask)
    (registered : pc.registered = before.registered) (joining : pc.joining = before.joining)
    (exiting : before.exiting = true → pc.exiting = true) (waking : ∀ j, pc ≠ .active (.joinWake j))
    (unseen : ∀ j, pc.committed = some j → (sys.sched.thread j).flags.joined = false)
    (handshake : ∀ j, pc = .blocking (.join j) → before.committed = some j)
    (signal : before ≠ .active .exitSignal) : JoinInv (sys.goto sched pc) := by
  refine joins.frame core joinwq rfl rfl liveBack liveKept flags
    (System.goto_view Pc.registered pc place registered)
    (System.goto_view Pc.joining pc place joining) ?_ ?_ ?_ ?_
  · intro u was
    rw [System.goto_pc]
    split
    · next here => rw [here, place] at was; exact exiting was
    · exact was
  · intro t j is
    rw [System.goto_pc] at is
    split at is
    · exact absurd is (waking j)
    · next other => exact absurd (core.current_of_active is) other
  · intro t j is
    rw [System.goto_pc] at is
    split at is
    · exact .inr (unseen j is)
    · exact .inl is
  · intro t j is joined
    rw [System.goto_pc] at is
    split at is
    · next here => rw [here, place]; exact .inl (handshake j is)
    · next other =>
        right
        rcases joins.handshake t j is joined with ready | signals
        · left
          simp only [System.goto, masks t other]
          exact ready
        · exact .inr (goto_keeps (· = .active .exitSignal) place signal signals)

theorem ghost (joins : JoinInv sys) (ownTls : Tid → Bool) (heap : Nat → Option Owner)
    (log : List LogEntry) : JoinInv { sys with ownTls := ownTls, heap := heap, log := log } :=
  ⟨joins.waiters, joins.waiters_nodup, joins.joining, joins.unique, joins.unjoined, joins.waking,
    joins.exiting, joins.cleared, joins.unseen, joins.handshake⟩

theorem wake (core : CoreInv sys) (joins : JoinInv sys) {sched : Sched}
    (joinwq : sched.joinwq = sys.sched.joinwq) (live : sched.live = sys.sched.live)
    (flags : ∀ u, (sched.thread u).flags.mustjoin = (sys.sched.thread u).flags.mustjoin ∧
      (sched.thread u).flags.joined = (sys.sched.thread u).flags.joined ∧
      (sched.thread u).flags.dead = (sys.sched.thread u).flags.dead)
    (masks : ∀ u, (sys.sched.thread u).flags.qmask = {.runq} →
      (sched.thread u).flags.qmask = {.runq}) : JoinInv { sys with sched := sched } := by
  refine joins.frame core joinwq rfl rfl ?_ ?_ (fun u => ⟨(flags u).1, (flags u).2.1⟩)
    (fun u => rfl) (fun u => rfl) (fun u was => was) ?_ (fun t j is => .inl is) ?_
  · intro u is
    rw [live] at is
    exact is
  · intro u alive
    rw [live]
    exact alive.1
  · intro t j is
    obtain ⟨⟨isLive, alive⟩, -⟩ := joins.waking t j is
    refine ⟨is, ?_, ?_⟩
    · rw [live]
      exact isLive
    · rw [(flags j).2.2]
      exact alive
  · intro t j is joined
    right
    rcases joins.handshake t j is joined with ready | signals
    · exact .inl (masks t ready)
    · exact .inr signals

end JoinInv

theorem woken_flags (s : Sched) (t u : Tid) :
    ((s.woken t).thread u).flags.mustjoin = (s.thread u).flags.mustjoin ∧
      ((s.woken t).thread u).flags.joined = (s.thread u).flags.joined ∧
      ((s.woken t).thread u).flags.dead = (s.thread u).flags.dead ∧
      ((s.thread u).flags.qmask = {.runq} → ((s.woken t).thread u).flags.qmask = {.runq}) := by
  rw [woken_thread]
  by_cases here : u = t
  · subst here
    rw [update_self]
    refine ⟨rfl, rfl, rfl, ?_⟩
    intro ready
    rw [ready, wokenMask_singleton]
  · rw [update_of_ne here]
    exact ⟨rfl, rfl, rfl, fun ready => ready⟩

theorem withFlags_thread (s : Sched) (t u : Tid) (flags : Flags) :
    ((s.withFlags t flags).thread u).flags = if u = t then flags else (s.thread u).flags := by
  rw [withFlags, Sched.store_thread]
  by_cases here : u = t
  · rw [if_pos here, here, update_self]
  · rw [if_neg here, update_of_ne here]

theorem withFlags_view {α : Type} (f : Flags → α) {s : Sched} {t : Tid} {flags : Flags}
    (same : f flags = f (s.thread t).flags) (u : Tid) :
    f ((s.withFlags t flags).thread u).flags = f (s.thread u).flags := by
  rw [withFlags_thread]
  split
  · next here => rw [here, same]
  · rfl

namespace JoinInv
variable {sys : System} (core : CoreInv sys) (joins : JoinInv sys) {t j : Tid} {sched : Sched}
  {pc : Pc} {before : Activity}
include core joins

theorem prepare (site : Site) (q : Queue)
    (l : List Tid) (deadline : Int) (place : sys.pc sys.sched.current = beforePrepare site) :
    JoinInv (sys.goto ((sys.sched.setQueue q l).store sys.sched.current
      (sys.sched.prepared deadline {q})) (.prepared site)) := by
  refine joins.goto core place rfl (fun u is => is) (fun u alive => alive.1) ?_ ?_ ?_ ?_ ?_ nofun ?_
    nofun ?_
  · intro u
    exact ⟨update_view (fun th : Thread => th.flags.mustjoin) (by rfl) u,
      update_view (fun th : Thread => th.flags.joined) (by rfl) u⟩
  · intro u other
    rw [Sched.store_thread, update_of_ne other]
    rfl
  · cases site <;> rfl
  · cases site <;> rfl
  · cases site with
    | caller | join | exit => exact fun is => is
  · intro j is
    -- a joiner that is about to sleep has seen the flag clear
    apply joins.unseen sys.sched.current j
    rw [place]
    cases site with
    | caller | join | exit => exact is
  · cases site <;> exact nofun

theorem block (site : Site) (place : sys.pc sys.sched.current = .prepared site) :
    JoinInv (sys.goto sys.sched (.blocking site)) := by
  refine joins.goto core place rfl (fun u is => is) (fun u alive => alive.1) (fun u => ⟨rfl, rfl⟩)
    (fun u _ => rfl) ?_ ?_ ?_ nofun ?_ ?_ nofun
  · cases site <;> rfl
  · cases site <;> rfl
  · cases site with
    | caller | join | exit => exact fun is => is
  · intro j is
    cases site <;> cases is
  · intro j is
    cases is
    rfl

theorem wakeUp (t : Tid) : JoinInv { sys with sched := sys.sched.woken t } :=
  joins.wake core (sys.sched.woken_joinwq t) (sys.sched.woken_live t)
    (fun u => ⟨(woken_flags _ t u).1, (woken_flags _ t u).2.1, (woken_flags _ t u).2.2.1⟩)
    (fun u => (woken_flags _ t u).2.2.2)

theorem timeout (t : Tid) : JoinInv { sys with sched := (sys.sched.withFlags t
      ({ (sys.sched.thread t).flags with timedout := true } : Flags)).woken t } := by
  refine joins.wake core (woken_joinwq _ t) (woken_live _ t) ?_ ?_
  · intro u
    obtain ⟨mustjoin, joined, dead, -⟩ := woken_flags (sys.sched.withFlags t
      { (sys.sched.thread t).flags with timedout := true }) t u
    exact ⟨mustjoin.trans (withFlags_view Flags.mustjoin (by rfl) u),
      joined.trans (withFlags_view Flags.joined (by rfl) u),
      dead.trans (withFlags_view Flags.dead (by rfl) u)⟩
  · intro u ready
    apply (woken_flags _ t u).2.2.2
    exact (withFlags_view Flags.qmask (by rfl) u).trans ready

omit joins in
theorem committed_current (is : (sys.pc t).committed = some j) : t = sys.sched.current := by
  cases at_ : sys.pc t with
  | active _ => exact core.current_of_active at_
  | prepared _ => exact core.current_of_prepared at_
  | virgin | blocking | resumed | yielding | yielded | gone => rw [at_] at is; cases is

omit joins in
theorem gone_of_not_live (fresh : sys.sched.live t = false) : sys.pc t = .gone := by
  have agrees := core.agrees t
  rw [fresh] at agrees
  cases at_ : sys.pc t with
  | gone => rfl
  | virgin | active | prepared | resumed
  | yielded => rw [at_] at agrees; exact absurd agrees.2.1 Bool.false_ne_true
  | blocking | yielding => rw [at_] at agrees; exact absurd agrees.1 Bool.false_ne_true

theorem create (fresh : sys.sched.live t = false) (extstack joinable : Bool) (stackbase tp : Nat) :
    JoinInv { sys with
      sched := sys.sched.created t (newThread extstack joinable stackbase tp)
      pc := update sys.pc t .virgin
      joinable := update sys.joinable t joinable
      unjoined := update sys.unjoined t joinable } := by
  have gone := gone_of_not_live core fresh
  have old : ∀ {u}, sys.sched.live u = true → u ≠ t := by
    intro u live is
    rw [is, fresh] at live
    cases live
  have registered : ∀ u, (update sys.pc t .virgin u).registered = (sys.pc u).registered :=
    update_view Pc.registered (by rw [gone]; rfl)
  have joining : ∀ u, (update sys.pc t .virgin u).joining = (sys.pc u).joining :=
    update_view Pc.joining (by rw [gone]; rfl)
  have elsewhere : ∀ {u pc}, update sys.pc t .virgin u = pc → pc ≠ .virgin →
      sys.pc u = pc := by
    intro u pc is other
    rw [update_apply] at is
    split at is
    · exact absurd is.symm other
    · exact is
  simp only [created, setQueue, store]
  constructor
  · intro u j
    rw [registered u]
    exact joins.waiters u j
  · exact joins.waiters_nodup
  · intro u j is
    dsimp only at is ⊢
    rw [joining u] at is
    obtain ⟨live, due, taken⟩ := joins.joining u j is
    rw [update_of_ne (old live), update_of_ne (old live), update_of_ne (old live)]
    exact ⟨live, due, taken⟩
  · intro u v j isU isV
    rw [joining u] at isU
    rw [joining v] at isV
    exact joins.unique u v j isU isV
  · intro j is
    dsimp only at is ⊢
    by_cases here : j = t
    · subst here
      rw [update_self] at is
      rw [update_self, update_self]
      exact ⟨rfl, is⟩
    · rw [update_of_ne here] at is
      rw [update_of_ne here, update_of_ne here]
      exact joins.unjoined j is
  · intro u j is
    obtain ⟨alive, exits, clear⟩ := joins.waking u j (elsewhere is (by simp))
    have other := old alive.1
    simp only [System.NotDead, update_of_ne other]
    exact ⟨alive, exits, clear⟩
  · intro j live joined
    dsimp only at live joined ⊢
    by_cases here : j = t
    · subst here
      rw [update_self] at joined
      exact absurd joined Bool.false_ne_true
    · rw [update_of_ne here] at live joined ⊢
      exact joins.exiting j live joined
  · intro j live made clear
    dsimp only at live made clear ⊢
    by_cases here : j = t
    · subst here
      rw [update_self] at made clear
      exact absurd (clear.symm.trans made) Bool.false_ne_true
    · rw [update_of_ne here] at live made clear ⊢
      exact joins.cleared j live made clear
  · intro u j is
    dsimp only at is ⊢
    by_cases here : j = t
    · subst here
      rw [update_self]
      rfl
    · rw [update_of_ne here]
      apply joins.unseen u j
      rw [update_apply] at is
      split at is
      · cases is
      · exact is
  · intro u j is joined
    dsimp only at is joined ⊢
    have was := elsewhere is (by simp)
    have liveU : sys.sched.live u = true := by
      have agrees := core.agrees u
      rw [was] at agrees
      exact agrees.1
    have liveJ := (joins.joining u j (by rw [was]; rfl)).1
    rw [update_of_ne (old liveJ)] at joined
    rw [update_of_ne (old liveU), update_of_ne (old liveJ)]
    exact joins.handshake u j was joined

omit joins in
theorem active_goto {activity : Activity} (is : (sys.goto sched pc).pc t = .active activity) :
    t = sys.sched.current := by
  rw [System.goto_pc] at is
  split at is
  · next here => exact here
  · exact core.current_of_active is

theorem join (place : sys.pc sys.sched.current = .active .caller) (unjoined : sys.unjoined j = true)
    : JoinInv { sys.goto sys.sched (.active (.joinTest j)) with
      unjoined := update sys.unjoined j false } := by
  obtain ⟨liveJ, dueJ⟩ := joins.unjoined j unjoined
  -- nobody else is in a join of the same thread
  have first : ∀ t, (sys.pc t).joining ≠ some j := by
    intro t is
    have taken := (joins.joining t j is).2.2
    rw [unjoined] at taken
    exact Bool.false_ne_true taken.symm
  constructor
  · intro t k
    rw [System.goto_pc]
    split
    · next here =>
        rw [here, show (System.goto sys sys.sched (.active (.joinTest j))).sched = sys.sched from rfl,
          joins.waiters, place]
        rfl
    · exact joins.waiters t k
  · exact joins.waiters_nodup
  · intro t k is
    dsimp only at is ⊢
    rw [System.goto_pc] at is
    split at is
    · cases is
      rw [update_self]
      exact ⟨liveJ, dueJ, rfl⟩
    · obtain ⟨live, due, taken⟩ := joins.joining t k is
      refine ⟨live, due, ?_⟩
      rw [update_apply]
      split
      · rfl
      · exact taken
  · intro t u k isT isU
    rw [System.goto_pc] at isT isU
    split at isT
    · next hereT =>
        cases isT
        split at isU
        · next hereU => rw [hereT, hereU]
        · exact absurd isU (first u)
    · split at isU
      · cases isU
        exact absurd isT (first t)
      · exact joins.unique t u k isT isU
  · intro k is
    dsimp only at is
    rw [update_apply] at is
    split at is
    · exact absurd is Bool.false_ne_true
    · exact joins.unjoined k is
  · intro t k is
    dsimp only at is
    have here := active_goto core is
    rw [here, System.goto_pc, if_pos rfl] at is
    cases is
  · intro k live joined
    exact goto_keeps (Pc.exiting · = true) place Bool.false_ne_true (joins.exiting k live joined)
  · exact joins.cleared
  · intro t k is
    rw [System.goto_pc] at is
    split at is
    · cases is
    · exact joins.unseen t k is
  · intro t k is joined
    rw [System.goto_pc] at is
    split at is
    · cases is
    · rcases joins.handshake t k is joined with ready | signals
      · exact .inl ready
      · exact .inr (goto_keeps (· = .active .exitSignal) place (by simp) signals)

theorem joinSeen (place : sys.pc sys.sched.current = .active (.joinTest j))
    (seen : (sys.sched.thread j).flags.joined = true) : JoinInv (sys.goto
      (sys.sched.withFlags j { (sys.sched.thread j).flags with mustjoin := false })
      (.active (.joinWake j))) := by
  obtain ⟨liveJ, dueJ, takenJ⟩ := joins.joining sys.sched.current j (by rw [place]; rfl)
  have exits := joins.exiting j liveJ seen
  have otherJ : j ≠ sys.sched.current := by
    intro is
    rw [is, place] at exits
    exact absurd exits Bool.false_ne_true
  -- only `THR_MUSTJOIN` of the joinee changes
  have flags : ∀ u, ((sys.sched.withFlags j
      { (sys.sched.thread j).flags with mustjoin := false }).thread u).flags =
      { (sys.sched.thread u).flags with
        mustjoin := if u = j then false else (sys.sched.thread u).flags.mustjoin } := by
    intro u
    rw [withFlags_thread]
    by_cases here : u = j
    · rw [if_pos here, if_pos here, here]
    · rw [if_neg here, if_neg here]
  constructor
  · intro t k
    rw [System.goto_pc]
    split
    · next here =>
        rw [here]
        apply (joins.waiters _ k).trans
        rw [place]
        rfl
    · exact joins.waiters t k
  · exact joins.waiters_nodup
  · intro t k is
    rw [System.goto_pc] at is
    split at is
    · cases is
    · next other =>
        obtain ⟨live, due, taken⟩ := joins.joining t k is
        have different : k ≠ j := by
          intro same
          rw [same] at is
          exact other (joins.unique t _ j is (by rw [place]; rfl))
        refine ⟨live, ?_, taken⟩
        simp only [System.goto, flags, if_neg different]
        exact due
  · intro t u k isT isU
    rw [System.goto_pc] at isT isU
    split at isT
    · cases isT
    · split at isU
      · cases isU
      · exact joins.unique t u k isT isU
  · intro k is
    obtain ⟨live, due⟩ := joins.unjoined k is
    have different : k ≠ j := by
      intro same
      rw [same] at is
      exact Bool.false_ne_true (takenJ.symm.trans is)
    refine ⟨live, ?_⟩
    simp only [System.goto, flags, if_neg different]
    exact due
  · intro t k is
    have here := active_goto core is
    rw [here, System.goto_pc, if_pos rfl] at is
    cases is
    have alive := core.notDead_of_mustjoin liveJ dueJ
    refine ⟨⟨liveJ, ?_⟩, ?_, ?_⟩
    · simp only [System.goto, flags]
      exact alive.2
    · rw [System.goto_pc, if_neg otherJ]
      exact exits
    · simp only [System.goto, flags, if_true]
  · intro k live joined
    simp only [System.goto, flags] at joined
    exact goto_keeps (Pc.exiting · = true) place Bool.false_ne_true (joins.exiting k live joined)
  · intro k live made clear
    simp only [System.goto, flags] at clear ⊢
    by_cases same : k = j
    · rw [same]
      exact seen
    · rw [if_neg same] at clear
      exact joins.cleared k live made clear
  · intro t k is
    rw [System.goto_pc] at is
    simp only [System.goto, flags]
    split at is
    · cases is
    · exact joins.unseen t k is
  · intro t k is joined
    rw [System.goto_pc] at is
    simp only [System.goto, flags] at joined ⊢
    split at is
    · cases is
    · rcases joins.handshake t k is joined with ready | signals
      · exact .inl ready
      · exact .inr (goto_keeps (· = .active .exitSignal) place (by simp) signals)

theorem requeue {after : Activity} {joinwq : List JoinWaiter}
    (place : sys.pc sys.sched.current = .active before) (was : (active before).joining = some j)
    (is : (active after).joining = some j)
    (committed : ∀ k, (active after).committed = some k → (active before).committed = some k)
    (walking : (active after).exiting = false ∧ ∀ k, after ≠ .joinWake k)
    (waiters : ∀ t k, { thread := t, wanted := k } ∈ joinwq ↔
      if t = sys.sched.current then (active after).registered = some k
      else { thread := t, wanted := k } ∈ sys.sched.joinwq) (nodup : joinwq.Nodup) :
    JoinInv (sys.goto { sys.sched with joinwq := joinwq } (.active after)) := by
  have notExiting : (active before).exiting = false := by
    cases before <;> first | rfl | cases was
  have same : (active after).joining = (active before).joining := is.trans was.symm
  constructor
  · intro t k
    rw [System.goto_pc]
    apply (waiters t k).trans
    split
    · rfl
    · exact joins.waiters t k
  · exact nodup
  · intro t k at_
    rw [System.goto_view Pc.joining _ place same] at at_
    exact joins.joining t k at_
  · intro t u k atT atU
    rw [System.goto_view Pc.joining _ place same] at atT atU
    exact joins.unique t u k atT atU
  · exact joins.unjoined
  · intro t k at_
    have here := active_goto core at_
    rw [here, System.goto_pc, if_pos rfl] at at_
    exact absurd (active.inj at_) (walking.2 k)
  · intro k live joined
    exact goto_keeps (Pc.exiting · = true) place (by simp [notExiting]) (joins.exiting k live joined)
  · exact joins.cleared
  · intro t k at_
    rw [System.goto_pc] at at_
    split at at_
    · next here =>
        apply joins.unseen sys.sched.current k
        rw [place]
        exact committed k at_
    · exact joins.unseen t k at_
  · intro t k at_ joined
    rw [System.goto_pc] at at_
    split at at_
    · cases at_
    · rcases joins.handshake t k at_ joined with ready | signals
      · exact .inl ready
      · refine .inr (goto_keeps (· = .active .exitSignal) place ?_ signals)
        intro same
        rw [same] at notExiting
        cases notExiting

theorem register (place : sys.pc sys.sched.current = .active (.joinRegister j)) :
    JoinInv (sys.goto (sys.sched.joinRegister j) (.active (.joinPrepare j))) := by
  have absent : ∀ k, { thread := sys.sched.current, wanted := k } ∉ sys.sched.joinwq := by
    intro k mem
    have registered := (joins.waiters _ k).mp mem
    rw [place] at registered
    cases registered
  refine joins.requeue core place rfl rfl (fun k is => is) ⟨rfl, nofun⟩ ?_ ?_
  · intro t k
    rw [List.mem_append, List.mem_singleton, JoinWaiter.mk.injEq]
    split
    · next here =>
        rw [here]
        constructor
        · intro mem
          rcases mem with old | ⟨-, same⟩
          · exact absurd old (absent k)
          · rw [same]
            rfl
        · intro same
          exact .inr ⟨rfl, (Option.some.inj same).symm⟩
    · next other => simp only [other, false_and, or_false]
  · rw [List.nodup_append]
    refine ⟨joins.waiters_nodup, List.nodup_singleton _, ?_⟩
    intro a memA b memB same
    rw [same, List.mem_singleton.mp memB] at memA
    exact absent j memA

theorem unlink (place : sys.pc sys.sched.current = .active (.joinUnlink j)) :
    JoinInv (sys.goto (sys.sched.unlinked j) (.active (.joinTest j))) := by
  refine joins.requeue core place rfl rfl nofun
    ⟨rfl, nofun⟩ ?_ (joins.waiters_nodup.erase _)
  intro t k
  rw [joins.waiters_nodup.mem_erase_iff, Ne, JoinWaiter.mk.injEq]
  split
  · next here =>
      rw [here]
      constructor
      · intro h
        have registered := (joins.waiters _ k).mp h.2
        rw [place] at registered
        exact absurd ⟨rfl, (Option.some.inj registered).symm⟩ h.1
      · intro is
        cases is
  · next other => simp only [other, false_and, not_false_eq_true, true_and]

theorem exitWait (place : sys.pc sys.sched.current = .active .exitTest) :
    JoinInv (sys.goto (sys.sched.withFlags sys.sched.current
      { (sys.sched.thread sys.sched.current).flags with joined := true })
      (.active .exitSignal)) := by
  have flags : ∀ u, ((sys.sched.withFlags sys.sched.current
      { (sys.sched.thread sys.sched.current).flags with joined := true }).thread u).flags =
      { (sys.sched.thread u).flags with joined :=
        if u = sys.sched.current then true else (sys.sched.thread u).flags.joined } := by
    intro u
    rw [withFlags_thread]
    by_cases here : u = sys.sched.current
    · rw [if_pos here, if_pos here, here]
    · rw [if_neg here, if_neg here]
  constructor
  · intro t k
    rw [System.goto_view Pc.registered (.active .exitSignal) place rfl]
    exact joins.waiters t k
  · exact joins.waiters_nodup
  · intro t k is
    rw [System.goto_view Pc.joining (.active .exitSignal) place rfl] at is
    simp only [System.goto, flags]
    exact joins.joining t k is
  · intro t u k isT isU
    rw [System.goto_view Pc.joining (.active .exitSignal) place rfl] at isT isU
    exact joins.unique t u k isT isU
  · intro k is
    simp only [System.goto, flags]
    exact joins.unjoined k is
  · intro t k is
    have here := active_goto core is
    rw [here, System.goto_pc, if_pos rfl] at is
    cases is
  · intro k live joined
    rw [System.goto_view Pc.exiting (.active .exitSignal) place rfl]
    simp only [System.goto, flags] at joined
    by_cases here : k = sys.sched.current
    · rw [here, place]
      rfl
    · rw [if_neg here] at joined
      exact joins.exiting k live joined
  · intro k live made clear
    simp only [System.goto, flags] at clear ⊢
    split
    · rfl
    · exact joins.cleared k live made clear
  · intro t k is
    rw [System.goto_view committed (.active .exitSignal) place rfl] at is
    -- the joiner would have to be running
    have here := committed_current core is
    rw [here, place] at is
    cases is
  · intro t k is joined
    rw [System.goto_pc] at is
    split at is
    · cases is
    · by_cases here : k = sys.sched.current
      · right
        rw [here, System.goto_pc, if_pos rfl]
      · simp only [System.goto, flags, if_neg here] at joined ⊢
        rw [update_of_ne here]
        exact joins.handshake t k is joined

section
variable (place : sys.pc sys.sched.current = .active .exitSignal)
include place

theorem signalled (joinwq : sched.joinwq = sys.sched.joinwq) (live : sched.live = sys.sched.live)
    (flags : ∀ u, (sched.thread u).flags.mustjoin = (sys.sched.thread u).flags.mustjoin ∧
      (sched.thread u).flags.joined = (sys.sched.thread u).flags.joined)
    (masks : ∀ u, (sys.sched.thread u).flags.qmask = {.runq} → (sched.thread u).flags.qmask = {.runq})
    (found : ∀ t, sys.pc t = .blocking (.join sys.sched.current) →
      (sched.thread t).flags.qmask = {.runq}) : JoinInv (sys.goto sched (.active .exitPrepare)) := by
  refine joins.frame core joinwq rfl rfl ?_ ?_ flags (System.goto_view Pc.registered _ place rfl)
    (System.goto_view Pc.joining _ place rfl) ?_ ?_ ?_ ?_
  · intro u is
    simp only [System.goto, live] at is
    exact is
  · intro u alive
    simp only [System.goto, live]
    exact alive.1
  · intro u was
    rw [System.goto_view Pc.exiting (.active .exitPrepare) place rfl]
    exact was
  · intro t j is
    have here := active_goto core is
    rw [here, System.goto_pc, if_pos rfl] at is
    cases is
  · intro t j is
    rw [System.goto_view committed (.active .exitPrepare) place rfl] at is
    exact .inl is
  · intro t j is joined
    rw [System.goto_pc] at is
    split at is
    · cases is
    · right
      rcases joins.handshake t j is joined with ready | signals
      · exact .inl (masks t ready)
      · left
        rw [core.current_of_active signals] at is
        exact found t is

theorem signal (waiter : { thread := t, wanted := sys.sched.current } ∈ sys.sched.joinwq) :
    JoinInv (sys.goto (sys.sched.woken t) (.active .exitPrepare)) := by
  have joiningOf : ∀ {pc : Pc} {k}, pc.registered = some k → pc.joining = some k := by
    intro pc k is
    cases pc with
    | active activity => cases activity <;> first | exact is | cases is
    | prepared site | blocking site | resumed site => cases site <;> exact is
    | virgin | yielding | yielded | gone => cases is
  apply joins.signalled core place (sys.sched.woken_joinwq t) (sys.sched.woken_live t)
    (fun u => ⟨(woken_flags _ t u).1, (woken_flags _ t u).2.1⟩)
    (fun u => (woken_flags _ t u).2.2.2)
  intro u sleeps
  -- the entry found first is the only one
  have same : u = t := by
    apply joins.unique u t sys.sched.current
    · rw [sleeps]
      rfl
    · exact joiningOf ((joins.waiters t _).mp waiter)
  subst same
  have agrees := core.agrees u
  rw [sleeps] at agrees
  obtain ⟨q, mask⟩ := agrees.2.1
  rw [woken_thread, update_self]
  rw [mask, wokenMask_singleton]

theorem noSignal (none : ∀ t, { thread := t, wanted := sys.sched.current } ∉ sys.sched.joinwq) :
    JoinInv (sys.goto sys.sched (.active .exitPrepare)) := by
  apply joins.signalled core place rfl rfl (fun u => ⟨rfl, rfl⟩) (fun u ready => ready)
  intro t sleeps
  apply absurd ((joins.waiters t sys.sched.current).mpr _) (none t)
  rw [sleeps]
  rfl

end

theorem walk (after : Activity) (place : sys.pc sys.sched.current = .active before)
    (registered : (active after).registered = (active before).registered)
    (joining : (active after).joining = (active before).joining)
    (exiting : (active before).exiting = true → (active after).exiting = true)
    (waking : ∀ j, after ≠ .joinWake j) (unseen : ∀ j, (active after).committed = some j →
      (sys.sched.thread j).flags.joined = false) (signal : before ≠ .exitSignal) :
    JoinInv (sys.goto sys.sched (.active after)) := by
  refine joins.goto core place rfl (fun u is => is) (fun u alive => alive.1) (fun u => ⟨rfl, rfl⟩)
    (fun u _ => rfl) registered joining exiting ?_ unseen nofun ?_
  · intro j is
    exact waking j (active.inj is)
  · intro is
    exact signal (active.inj is)

theorem yield (place : sys.pc sys.sched.current = .active .caller) :
    JoinInv (sys.goto sys.sched.yielded .yielding) := by
  refine joins.goto core place rfl (fun u is => is) (fun u alive => alive.1) ?_ ?_ rfl rfl
    (fun is => is) nofun nofun nofun nofun
  · intro u
    exact ⟨update_view (fun th : Thread => th.flags.mustjoin) (by rfl) u,
      update_view (fun th : Thread => th.flags.joined) (by rfl) u⟩
  · intro u other
    rw [Sched.yielded, Sched.store_thread, update_of_ne other]
    rfl

theorem die (place : sys.pc sys.sched.current = .active .exitTest) :
    JoinInv (sys.goto sys.sched.died .gone) := by
  have flags : ∀ {α : Type} (f : Flags → α), f { (sys.sched.thread sys.sched.current).flags with
      running := false, dead := true } = f (sys.sched.thread sys.sched.current).flags → ∀ u,
      f (sys.sched.died.thread u).flags = f (sys.sched.thread u).flags :=
    fun f same => withFlags_view f same
  exact joins.goto core place rfl (fun u is => is) (fun u alive => alive.1)
    (fun u => ⟨flags Flags.mustjoin rfl u, flags Flags.joined rfl u⟩)
    (fun u _ => flags Flags.qmask rfl u) rfl rfl (fun _ => rfl) nofun nofun nofun nofun

omit joins in
theorem reaped_live (u : Tid) : (sys.sched.reaped.live u = true → sys.sched.live u = true) ∧
      (sys.NotDead u → sys.sched.reaped.live u = true) := by
  simp only [reaped]
  constructor
  · intro is
    split at is
    · exact absurd is Bool.false_ne_true
    · exact is
  · intro alive
    rw [if_neg]
    · exact alive.1
    · intro zombie
      have dead := ((core.zombieq_iff u).mp zombie).2
      rw [alive.2] at dead
      cases dead

theorem blockReturn {site : Site} (place : sys.pc sys.sched.current = .resumed site) :
    JoinInv (sys.goto (sys.sched.reaped.withFlags sys.sched.current
      { (sys.sched.thread sys.sched.current).flags with timedout := false, blockprep := false })
      (System.returnTo site)) := by
  refine joins.goto core place rfl (fun u => (reaped_live core u).1) (fun u => (reaped_live core u).2)
    (fun u => ⟨withFlags_view Flags.mustjoin (by rfl) u, withFlags_view Flags.joined (by rfl) u⟩)
    (fun u _ => withFlags_view Flags.qmask (by rfl) u) ?_ ?_ ?_ ?_ ?_ ?_ nofun
  · cases site <;> rfl
  · cases site <;> rfl
  · cases site with
    | caller | join | exit => exact fun is => is
  · intro j is
    cases site <;> cases is
  · intro j is
    cases site <;> cases is
  · intro j is
    cases site <;> cases is

theorem yieldReturn (place : sys.pc sys.sched.current = .yielded) :
    JoinInv (sys.goto sys.sched.reaped (.active .caller)) := by
  exact joins.goto core place rfl (fun u => (reaped_live core u).1)
    (fun u => (reaped_live core u).2) (fun u => ⟨rfl, rfl⟩) (fun u _ => rfl) rfl rfl (fun is => is)
    nofun nofun nofun nofun

omit core joins in
theorem switched_flags (s : Sched) (next u : Tid) :
    ((s.switched next).thread u).flags.mustjoin = (s.thread u).flags.mustjoin ∧
      ((s.switched next).thread u).flags.joined = (s.thread u).flags.joined ∧
      (u ≠ next → ((s.switched next).thread u).flags.qmask = (s.thread u).flags.qmask) := by
  simp only [switched]
  split
  · next here => exact ⟨rfl, rfl, fun other => absurd here other⟩
  · split
    · exact ⟨rfl, rfl, fun _ => rfl⟩
    · exact ⟨rfl, rfl, fun _ => rfl⟩

theorem dispatch {n : Tid} (place : System.inSchedule (sys.pc sys.sched.current) = true)
    (resumes : System.resume (sys.pc n) = .ok pc) :
    JoinInv { sys with sched := sys.sched.switched n, pc := update sys.pc n pc } := by
  have busy : ∀ {t activity}, sys.pc t ≠ .active activity := by
    intro t activity is
    rw [← core.current_of_active is, is] at place
    exact absurd place Bool.false_ne_true
  have resumed : pc.registered = (sys.pc n).registered ∧ pc.joining = (sys.pc n).joining ∧
      pc.exiting = (sys.pc n).exiting ∧ pc.committed = none ∧
      (∀ j, pc ≠ .active (.joinWake j)) ∧ ∀ site, pc ≠ .blocking site := by
    cases at_ : sys.pc n with
    | virgin | yielding =>
      rw [at_] at resumes
      cases resumes
      exact ⟨rfl, rfl, rfl, rfl, nofun, nofun⟩
    | blocking site =>
      rw [at_] at resumes
      cases resumes
      cases site <;>
        exact ⟨rfl, rfl, rfl, rfl, nofun, nofun⟩
    | active | prepared | resumed | yielded | gone => rw [at_] at resumes; cases resumes
  obtain ⟨registered, joining, exiting, uncommitted, notWaking, notBlocking⟩ := resumed
  refine joins.frame core rfl rfl rfl (fun u is => is) (fun u alive => alive.1)
    (fun u => ⟨(switched_flags _ n u).1, (switched_flags _ n u).2.1⟩)
    (update_view Pc.registered registered) (update_view Pc.joining joining) ?_ ?_ ?_ ?_
  · intro u was
    rw [update_view Pc.exiting exiting]
    exact was
  · intro t j is
    dsimp only at is
    rw [update_apply] at is
    split at is
    · exact absurd is (notWaking j)
    · exact absurd is busy
  · intro t j is
    dsimp only at is
    rw [update_apply] at is
    split at is
    · rw [uncommitted] at is
      cases is
    · exact .inl is
  · intro t j is joined
    dsimp only at is ⊢
    rw [update_apply] at is
    split at is
    · exact absurd is (notBlocking _)
    · next other =>
        right
        rcases joins.handshake t j is joined with ready | signals
        · left
          rw [(switched_flags _ n t).2.2 other]
          exact ready
        · exact absurd signals busy

theorem joinDone (place : sys.pc sys.sched.current = .active (.joinWake j)) :
    JoinInv (sys.goto (sys.sched.woken j) (.active .caller)) := by
  have current := sys.sched.woken_current j
  have there : sys.pc (sys.sched.woken j).current = .active (.joinWake j) := by
    rw [current]
    exact place
  have walked := (joins.wakeUp core j).walk (core.wake (joins.waking _ j place).1) .caller there
    rfl rfl (fun is => is) nofun nofun nofun
  simpa only [System.goto, current] using walked

end JoinInv

theorem Move.join_inv {promises : Promises} {sys next : System} (move : Move promises sys next)
    (core : CoreInv sys) (joins : JoinInv sys) : JoinInv next := by
  cases move with
  | create t extstack joinable ownTls stackbase tp heap fresh _ _ =>
    exact (joins.create core fresh extstack joinable stackbase tp).ghost _ _ _
  | prepare site q l deadline place _ => exact joins.prepare core site q l deadline place
  | block site place => exact joins.block core site place
  | wake t _ => exact joins.wakeUp core t
  | yield place => exact joins.yield core place
  | join j place unjoined => exact joins.join core place unjoined
  | exit heap place _ =>
    have started := joins.walk core .exitTest place rfl rfl
      (fun is => absurd is Bool.false_ne_true) nofun nofun nofun
    exact started.ghost _ _ _
  | joinSeen j place seen => exact joins.joinSeen core place seen
  | joinUnseen j place unseen =>
    refine joins.walk core (.joinRegister j) place rfl rfl (fun is => is) nofun ?_ nofun
    intro k is
    cases is
    exact unseen
  | register j place => exact joins.register core place
  | unlink j place => exact joins.unlink core place
  | joinDone j place => exact (joins.joinDone core place).ghost _ _ _
  | exitWait place _ => exact joins.exitWait core place
  | die place _ => exact (joins.die core place).ghost _ _ _
  | signal t place waiter => exact joins.signal core place waiter
  | noSignal place none => exact joins.noSignal core place none
  | blockReturn site place => exact (joins.blockReturn core place).ghost _ _ _
  | yieldReturn place => exact (joins.yieldReturn core place).ghost _ _ _
  | timeout t _ _ => exact joins.timeout core t
  | dispatch n pc place _ resumes => exact joins.dispatch core place resumes
  | memalloc block _ | memfree block _ => exact joins.ghost _ _ _

end Rumprun.Core.Scheduler
