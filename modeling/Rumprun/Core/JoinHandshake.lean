import Rumprun.Core.SchedulerRuns

/-! # Who frees an exited thread

The log of a run pairs every exit with what the reaper frees for it: no lost wake, no
early return, and each struct and each stack of the scheduler's own is freed once, from
another stack. -/

namespace Rumprun.Core.Scheduler
open StepRuns Function LogEntry Sched List
variable {sys next : System}

/-! ## What a struct keeps for life -/

/-- Stack, TLS block, and whether the stack came from the caller. -/
def SameIdentity (first second : Thread) : Prop :=
  first.stackbase = second.stackbase ∧ first.tp = second.tp ∧
    first.flags.extstack = second.flags.extstack

theorem withFlags_identity (s : Sched) (t u : Tid) {flags : Flags}
    (same : flags.extstack = (s.thread t).flags.extstack) :
    SameIdentity ((s.withFlags t flags).thread u) (s.thread u) := by
  rw [withFlags, store_thread, update_apply]
  split
  · next here => rw [here]; exact ⟨rfl, rfl, same⟩
  · exact ⟨rfl, rfl, rfl⟩

theorem woken_identity (s : Sched) (t u : Tid) : SameIdentity ((s.woken t).thread u) (s.thread u) := by
  rw [woken_thread, update_apply]
  split
  · next here => rw [here]; exact ⟨rfl, rfl, rfl⟩
  · exact ⟨rfl, rfl, rfl⟩

theorem SameIdentity.trans {a b c : Thread} (first : SameIdentity a b) (second : SameIdentity b c) :
    SameIdentity a c :=
  ⟨first.1.trans second.1, first.2.1.trans second.2.1, first.2.2.trans second.2.2⟩

theorem Move.identity {promises : Promises} (move : Move promises sys next) {u : Tid}
    (live : sys.sched.live u = true) : SameIdentity (next.sched.thread u) (sys.sched.thread u) := by
  cases move with
  | create t extstack joinable ownTls stackbase tp heap fresh _ _ =>
    have other : u ≠ t := by
      intro is
      rw [is, fresh] at live
      cases live
    simp only [Sched.created, Sched.setQueue, Sched.store]
    rw [update_of_ne other]
    exact ⟨rfl, rfl, rfl⟩
  | prepare site q l deadline _ _ =>
    simp only [System.goto, store_thread, setQueue_thread]
    rw [update_apply]
    split
    · next here => rw [here]; exact ⟨rfl, rfl, rfl⟩
    · exact ⟨rfl, rfl, rfl⟩
  | wake t _ | signal t _ _ => exact woken_identity _ t u
  | yield _ =>
    simp only [System.goto, yielded, store_thread, setQueue_thread]
    rw [update_apply]
    split
    · next here => rw [here]; exact ⟨rfl, rfl, rfl⟩
    · exact ⟨rfl, rfl, rfl⟩
  | joinSeen j _ _ => exact withFlags_identity _ j u rfl
  | joinDone j _ => exact woken_identity _ j u
  | exitWait _ _ => exact withFlags_identity _ _ u rfl
  | die _ _ => exact withFlags_identity sys.sched sys.sched.current u rfl
  | blockReturn site _ => exact withFlags_identity sys.sched.reaped sys.sched.current u rfl
  | timeout t _ _ => exact (woken_identity _ t u).trans (withFlags_identity _ t u rfl)
  | dispatch n pc _ _ _ =>
    simp only [switched]
    split
    · exact ⟨rfl, rfl, rfl⟩
    · split
      · exact ⟨rfl, rfl, rfl⟩
      · exact ⟨rfl, rfl, rfl⟩
  | block | join | exit | joinUnseen | register | unlink | noSignal | yieldReturn | memalloc
  | memfree => exact ⟨rfl, rfl, rfl⟩

/-! ## The log -/

namespace LogEntry

def isExit (t : Tid) : LogEntry → Bool
  | .exited u _ => u = t
  | _ => false

/-- The exit of a thread on a stack of the scheduler's own. -/
def isOwnStackExit (t : Tid) : LogEntry → Bool
  | .exited u extstack => u = t && !extstack
  | _ => false

def isStructFree (t : Tid) : LogEntry → Bool
  | .freed (.thread u) _ _ _ => u = t
  | _ => false

def isStackFree (t : Tid) : LogEntry → Bool
  | .freed (.stack u _) _ _ _ => u = t
  | _ => false

/-- The victim had exited and been released, and the reaper ran on another stack. -/
def Sound : LogEntry → Prop
  | .freed what victim reaper stack =>
    victim.flags.dead = true ∧ victim.flags.mustjoin = false ∧ reaper ≠ what.victim ∧
      victim.stackbase ≠ stack ∧
      ∀ t base, what = .stack t base → victim.flags.extstack = false ∧ base = victim.stackbase
  | _ => True

end LogEntry

/-- Structs, and stacks of the scheduler's own, that wait for the reaper. -/
def Sched.owedStructs (s : Sched) (t : Tid) : Nat := if t ∈ s.zombieq then 1 else 0

def Sched.owedStacks (s : Sched) (t : Tid) : Nat :=
  if t ∈ s.zombieq ∧ (s.thread t).flags.extstack = false then 1 else 0

structure LogInv (sys : System) : Prop where
  apart : ∀ t u, sys.sched.live t = true → sys.sched.live u = true →
    (sys.sched.thread t).stackbase = (sys.sched.thread u).stackbase → t = u
  sound : ∀ entry ∈ sys.log, entry.Sound
  structs : ∀ t, sys.log.countP (LogEntry.isExit t) =
    sys.log.countP (LogEntry.isStructFree t) + sys.sched.owedStructs t
  ownStacks : ∀ t, sys.log.countP (LogEntry.isOwnStackExit t) =
    sys.log.countP (LogEntry.isStackFree t) + sys.sched.owedStacks t

theorem countP_freed {p : LogEntry → Bool}
    (other : ∀ what victim reaper stack, p (.freed what victim reaper stack) = false)
    (victim : Freed → Thread) (reaper stack : Nat) (l : List Freed) :
    (l.map fun what => freed what (victim what) reaper stack).countP p = 0 := by
  rw [countP_map, countP_eq_zero]
  intro what _
  exact Bool.eq_false_iff.mp (other what _ _ _)

theorem countP_freedBy (s : Sched) (victim : Freed → Thread) (reaper stack : Nat) (t : Tid) :
    ∀ zombies : List Tid, zombies.Nodup →
      ((s.freedBy zombies).map fun what => freed what (victim what) reaper stack).countP
        (isStructFree t) = (if t ∈ zombies then 1 else 0) ∧
      ((s.freedBy zombies).map fun what => freed what (victim what) reaper stack).countP
        (isStackFree t) = if t ∈ zombies ∧ (s.thread t).flags.extstack = false then 1 else 0 := by
  intro zombies
  induction zombies with
  | nil =>
    intro _
    exact ⟨rfl, rfl⟩
  | cons z rest ih =>
    intro nodup
    obtain ⟨notIn, nodupRest⟩ := nodup_cons.mp nodup
    obtain ⟨structs, stackFrees⟩ := ih nodupRest
    have unfolded : s.freedBy (z :: rest) =
        (if (s.thread z).flags.extstack = true then [] else [.stack z (s.thread z).stackbase]) ++
          .thread z :: s.freedBy rest := by
      simp only [freedBy, flatMap_cons, append_assoc, singleton_append]
    rw [unfolded]
    by_cases here : z = t
    · subst here
      rw [if_neg notIn] at structs
      rw [if_neg (fun h => notIn h.1)] at stackFrees
      cases external : (s.thread z).flags.extstack with
      | true =>
        simp only [if_true, nil_append, map_cons, countP_cons,
          isStructFree, isStackFree, decide_true, mem_cons_self,
          structs, stackFrees, Bool.true_eq_false, Bool.false_eq_true, and_false, if_false,
          and_self]
      | false =>
        simp only [Bool.false_eq_true, if_false, cons_append, nil_append,
          map_cons, countP_cons, isStructFree, isStackFree,
          decide_true, if_true, mem_cons_self, structs, stackFrees, and_self]
    · have other : t ≠ z := Ne.symm here
      cases external : (s.thread z).flags.extstack with
      | true =>
        simp only [if_true, nil_append, map_cons, countP_cons,
          isStructFree, isStackFree, decide_eq_false here, mem_cons,
          other, false_or, structs, stackFrees, Bool.false_eq_true, if_false, add_zero,
          and_self]
      | false =>
        simp only [Bool.false_eq_true, if_false, cons_append, nil_append,
          map_cons, countP_cons, isStructFree, isStackFree,
          decide_eq_false here, mem_cons, other, false_or, structs, stackFrees,
          add_zero, and_self]

theorem mem_freedBy {s : Sched} {zombies : List Tid} {what : Freed} (mem : what ∈ s.freedBy zombies) :
    what.victim ∈ zombies ∧ ∀ t base, what = .stack t base →
      (s.thread what.victim).flags.extstack = false ∧ base = (s.thread what.victim).stackbase := by
  obtain ⟨z, inZombies, released⟩ := mem_flatMap.mp mem
  rcases mem_append.mp released with stackMem | threadMem
  · cases external : (s.thread z).flags.extstack with
    | true =>
      rw [if_pos external] at stackMem
      exact absurd stackMem not_mem_nil
    | false =>
      rw [if_neg (by rw [external]; exact Bool.false_ne_true)] at stackMem
      rw [mem_singleton.mp stackMem]
      refine ⟨inZombies, ?_⟩
      intro t base same
      cases same
      exact ⟨external, rfl⟩
  · rw [mem_singleton.mp threadMem]
    exact ⟨inZombies, nofun⟩

namespace LogInv
variable {sys next : System}

theorem frame (inv : LogInv sys) (log : next.log = sys.log)
    (zombieq : next.sched.zombieq = sys.sched.zombieq)
    (live : ∀ u, next.sched.live u = true → sys.sched.live u = true)
    (zombies : ∀ u ∈ sys.sched.zombieq, sys.sched.live u = true)
    (identity : ∀ u, sys.sched.live u = true →
      SameIdentity (next.sched.thread u) (sys.sched.thread u)) : LogInv next := by
  refine ⟨?_, by rw [log]; exact inv.sound, ?_, ?_⟩
  · intro t u liveT liveU same
    rw [(identity t (live t liveT)).1, (identity u (live u liveU)).1] at same
    exact inv.apart t u (live t liveT) (live u liveU) same
  · intro t
    rw [log, inv.structs t, owedStructs, owedStructs, zombieq]
  · intro t
    rw [log, inv.ownStacks t, owedStacks, owedStacks, zombieq]
    by_cases zombie : t ∈ sys.sched.zombieq
    · rw [(identity t (zombies t zombie)).2.2]
    · simp only [zombie, false_and]

theorem note (inv : LogInv sys) {entry : LogEntry} (sound : entry.Sound)
    (quiet : ∀ t, entry.isExit t = false ∧ entry.isOwnStackExit t = false ∧
      entry.isStructFree t = false ∧ entry.isStackFree t = false) :
    LogInv { sys with log := entry :: sys.log } := by
  refine ⟨inv.apart, ?_, ?_, ?_⟩
  · intro e mem
    rcases mem_cons.mp mem with same | old
    · rw [same]
      exact sound
    · exact inv.sound e old
  · intro t
    dsimp only
    rw [countP_cons, countP_cons, (quiet t).1, (quiet t).2.2.1]
    exact inv.structs t
  · intro t
    dsimp only
    rw [countP_cons, countP_cons, (quiet t).2.1, (quiet t).2.2.2]
    exact inv.ownStacks t

theorem die (inv : LogInv sys) (core : CoreInv sys)
    (place : sys.pc sys.sched.current = .active .exitTest) :
    LogInv { sys.goto sys.sched.died .gone with
      log := .exited sys.sched.current
        (sys.sched.thread sys.sched.current).flags.extstack :: sys.log } := by
  have alive := (core.agrees_current place).2.2.2.2.2.2
  have unlisted : sys.sched.current ∉ sys.sched.zombieq := by
    intro mem
    have dead := ((core.zombieq_iff _).mp mem).2
    rw [alive] at dead
    cases dead
  have identity : ∀ u, SameIdentity (sys.sched.died.thread u) (sys.sched.thread u) := fun u =>
    withFlags_identity sys.sched sys.sched.current u rfl
  refine ⟨?_, ?_, ?_, ?_⟩
  · intro t u liveT liveU same
    simp only [System.goto] at same
    rw [(identity t).1, (identity u).1] at same
    exact inv.apart t u liveT liveU same
  · intro e mem
    rcases mem_cons.mp mem with same | old
    · rw [same]
      trivial
    · exact inv.sound e old
  · intro t
    have owed : sys.sched.died.owedStructs t =
        sys.sched.owedStructs t + if sys.sched.current = t then 1 else 0 := by
      simp only [owedStructs, died, mem_cons]
      by_cases here : sys.sched.current = t
      · rw [if_pos here, if_pos (.inl here.symm), if_neg (here ▸ unlisted)]
      · have other : t ≠ sys.sched.current := Ne.symm here
        simp only [here, other, false_or, if_false, add_zero]
    have counted := inv.structs t
    dsimp only [System.goto]
    rw [owed, countP_cons, countP_cons]
    simp only [isExit, isStructFree, Bool.false_eq_true, if_false, decide_eq_true_eq]
    omega
  · intro t
    have owed : sys.sched.died.owedStacks t = sys.sched.owedStacks t +
        if sys.sched.current = t ∧ (sys.sched.thread sys.sched.current).flags.extstack = false
          then 1 else 0 := by
      rw [owedStacks, owedStacks, (identity t).2.2]
      simp only [died, mem_cons]
      by_cases here : sys.sched.current = t
      · subst here
        simp only [unlisted, or_false, true_and, false_and, if_false, zero_add]
      · have other : t ≠ sys.sched.current := Ne.symm here
        simp only [here, other, false_or, false_and, if_false, add_zero]
    have counted := inv.ownStacks t
    dsimp only [System.goto]
    rw [owed, countP_cons, countP_cons]
    simp only [isOwnStackExit, isStackFree, Bool.false_eq_true, if_false,
      Bool.and_eq_true, decide_eq_true_eq, Bool.not_eq_true']
    omega

theorem reap (inv : LogInv sys) (core : CoreInv sys) (alive : sys.NotDead sys.sched.current) :
    LogInv { sys with sched := sys.sched.reaped, log := sys.reapLog } := by
  have zombie : ∀ t ∈ sys.sched.zombieq, sys.sched.live t = true ∧
      (sys.sched.thread t).flags.dead = true ∧ (sys.sched.thread t).flags.mustjoin = false ∧
      t ≠ sys.sched.current := by
    intro t mem
    obtain ⟨live, dead⟩ := (core.zombieq_iff t).mp mem
    have agrees := core.agrees t
    rw [agrees.gone_of_dead dead] at agrees
    refine ⟨live, dead, (agrees live).2.2.2, ?_⟩
    intro is
    rw [is, alive.2] at dead
    cases dead
  have counts (t : Tid) := countP_freedBy sys.sched (fun what => sys.sched.thread what.victim)
    sys.sched.current (sys.sched.thread sys.sched.current).stackbase t sys.sched.zombieq
    core.zombieq_nodup
  refine ⟨?_, ?_, ?_, ?_⟩
  · intro t u liveT liveU same
    exact inv.apart t u ((JoinInv.reaped_live core t).1 liveT)
      ((JoinInv.reaped_live core u).1 liveU) same
  · intro e mem
    rcases mem_append.mp mem with new | old
    · obtain ⟨what, released, same⟩ := mem_map.mp (mem_reverse.mp new)
      obtain ⟨inZombies, stackOf⟩ := mem_freedBy released
      obtain ⟨live, dead, clear, other⟩ := zombie _ inZombies
      rw [← same]
      refine ⟨dead, clear, Ne.symm other, ?_, stackOf⟩
      intro shared
      exact other (inv.apart _ _ live alive.1 shared)
    · exact inv.sound e old
  · intro t
    have noExit := countP_freed (p := isExit t) (fun _ _ _ _ => rfl)
    have counted := inv.structs t
    simp only [System.reapLog, owedStructs, reaped, countP_append,
      countP_reverse, noExit, (counts t).1, not_mem_nil, if_false] at counted ⊢
    omega
  · intro t
    have noExit := countP_freed (p := isOwnStackExit t) (fun _ _ _ _ => rfl)
    have counted := inv.ownStacks t
    simp only [System.reapLog, owedStacks, reaped, countP_append,
      countP_reverse, noExit, (counts t).2, not_mem_nil, false_and, if_false] at counted ⊢
    omega

end LogInv

/-- Stacks are not shared; the rest of the promises is not needed. -/
def stackPromises : Promises := ⟨True, False⟩

theorem Move.log_inv (move : Move stackPromises sys next) (core : CoreInv sys) (inv : LogInv sys) :
    LogInv next := by
  have zombies : ∀ u ∈ sys.sched.zombieq, sys.sched.live u = true := fun u mem =>
    ((core.zombieq_iff u).mp mem).1
  have identity : ∀ u, sys.sched.live u = true →
      SameIdentity (next.sched.thread u) (sys.sched.thread u) := fun u live => move.identity live
  have wokenLive : ∀ {s : Sched} {t : Tid}, ∀ u, (s.woken t).live u = true → s.live u = true := by
    intro s t u is
    rwa [s.woken_live t] at is
  cases move with
  | create t extstack joinable ownTls stackbase tp heap fresh stack _ =>
    have other : ∀ {u}, sys.sched.live u = true → u ≠ t := by
      intro u live is
      rw [is, fresh] at live
      cases live
    have created : LogInv { sys with
        sched := sys.sched.created t (newThread extstack joinable stackbase tp) } := by
      have thread : ∀ u, (sys.sched.created t
          (newThread extstack joinable stackbase tp)).thread u =
          if u = t then newThread extstack joinable stackbase tp else sys.sched.thread u :=
        update_apply sys.sched.thread t _
      have live : ∀ u, (sys.sched.created t
          (newThread extstack joinable stackbase tp)).live u =
          if u = t then true else sys.sched.live u := update_apply sys.sched.live t true
      refine ⟨?_, inv.sound, inv.structs, ?_⟩
      · intro u v liveU liveV same
        dsimp only at liveU liveV same
        rw [live] at liveU liveV
        rw [thread, thread] at same
        by_cases hereU : u = t
        · by_cases hereV : v = t
          · rw [hereU, hereV]
          · rw [if_neg hereV] at liveV same
            rw [if_pos hereU] at same
            exact absurd same.symm (stack trivial v liveV)
        · rw [if_neg hereU] at liveU same
          by_cases hereV : v = t
          · rw [if_pos hereV] at same
            exact absurd same (stack trivial u liveU)
          · rw [if_neg hereV] at liveV same
            exact inv.apart u v liveU liveV same
      · intro u
        apply (inv.ownStacks u).trans
        simp only [owedStacks]
        by_cases zombie : u ∈ sys.sched.zombieq
        · rw [thread, if_neg (other (zombies u zombie))]
          rfl
        · have still : u ∉ (sys.sched.created t
              (newThread extstack joinable stackbase tp)).zombieq := zombie
          simp only [zombie, still, false_and]
    have quiet : (LogEntry.created t).Sound := trivial
    have noted := created.note quiet (fun _ => ⟨rfl, rfl, rfl, rfl⟩)
    exact ⟨noted.apart, noted.sound, noted.structs, noted.ownStacks⟩
  | prepare | block | yield | join | exit | joinSeen | joinUnseen | register | unlink | exitWait
  | noSignal | dispatch | memalloc
  | memfree => exact inv.frame rfl rfl (fun u is => is) zombies identity
  | wake t _
  | signal t _ _ => exact inv.frame rfl (sys.sched.woken_zombieq t) wokenLive zombies identity
  | joinDone j _ =>
    have walked : LogInv (sys.goto (sys.sched.woken j) (.active .caller)) :=
      inv.frame rfl (sys.sched.woken_zombieq j) wokenLive zombies identity
    exact walked.note trivial (fun _ => ⟨rfl, rfl, rfl, rfl⟩)
  | die place _ => exact inv.die core place
  | blockReturn site place =>
    have alive := (core.agrees_current place).2.2.2.2.2
    have reaped := inv.reap core ⟨core.current_live, alive⟩
    refine reaped.frame rfl rfl (fun u is => is) nofun ?_
    intro u _
    exact withFlags_identity sys.sched.reaped sys.sched.current u rfl
  | yieldReturn place =>
    have alive := (core.agrees_current place).2.2.2.2.2.2
    have reaped := inv.reap core ⟨core.current_live, alive⟩
    exact ⟨reaped.apart, reaped.sound, reaped.structs, reaped.ownStacks⟩
  | timeout t _ _ => exact inv.frame rfl (woken_zombieq _ t) wokenLive zombies identity

/-! ## Runs with spurious wakes -/

namespace System

/-- What the callers keep to when wakes may come for any thread at any time. -/
def Disciplined (sys : System) : Event → Prop
  | .call (.wake _) =>
    sys.pc sys.sched.current = .active .caller ∨ sys.pc sys.sched.current = .prepared .caller
  | .interrupt _ => True
  | event => sys.Admits event

/-- And creates bring a stack of their own. -/
def AdmitsSpurious (sys : System) (event : Event) : Prop := sys.Disciplined event ∧ sys.OwnStack event

instance decidableFreshStack (sys : System) (stack : Nat) : Decidable (sys.FreshStack stack) :=
  inferInstanceAs (Decidable (∀ u ∈ _, _))

instance decidableDisciplined (sys : System) : ∀ event, Decidable (sys.Disciplined event) := by
  intro event
  induction event using Event.casesOn with
  | call op => induction op using Op.casesOn <;> dsimp only [Disciplined] <;> infer_instance
  | _ => dsimp only [Disciplined]; infer_instance

instance decidableOwnStack (sys : System) : ∀ event, Decidable (sys.OwnStack event) := by
  intro event
  unfold OwnStack
  split <;> infer_instance

instance decidableAdmitsSpurious (sys : System) (event : Event) :
    Decidable (sys.AdmitsSpurious event) :=
  inferInstanceAs (Decidable (_ ∧ _))

end System

theorem CoreInv.notDead_of_wake (core : CoreInv sys) {t : Tid} {sched : Sched}
    (woke : sys.sched.bmkSchedWake t = .ok sched) : sys.NotDead t := by
  cases live : sys.sched.live t with
  | false =>
    rw [bmkSchedWake, deref, if_neg (by rw [live]; exact Bool.false_ne_true)] at woke
    cases woke
  | true =>
    cases dead : (sys.sched.thread t).flags.dead with
    | false => exact ⟨live, dead⟩
    | true =>
      have agrees := core.agrees t
      rw [agrees.gone_of_dead dead] at agrees
      obtain ⟨off, stopped, -⟩ := agrees live
      rw [bmkSchedWake, deref_eq live, ok_bind, setRunnable, deref_eq (by exact live), ok_bind] at woke
      simp only [store_thread, update_self, off, stopped] at woke
      cases woke

theorem SysInv.admits_of_step (inv : SysInv sys) {event : Event}
    (disciplined : sys.Disciplined event) (stepped : sys.step event = .ok next) : sys.Admits event := by
  have wakes : ∀ {t : Tid} {f : Sched → System},
      (sys.sched.bmkSchedWake t >>= fun sched => (.ok (f sched) : Except Stop System)) = .ok next →
        sys.NotDead t := by
    intro t f ran
    cases woke : sys.sched.bmkSchedWake t with
    | error stop => rw [woke] at ran; cases ran
    | ok sched => exact inv.core.notDead_of_wake woke
  cases event with
  | interrupt t => exact wakes stepped
  | call op =>
    cases op with
    | wake t => exact ⟨disciplined, wakes stepped⟩
    | create | createWithtls | blockprepareTimeout | block | yield | join | exitWithtls
    | exit => exact disciplined
  | advance | turn | memalloc | memfree => exact disciplined

/-- Blocked, with no wake pending. -/
def System.Asleep (sys : System) (t : Tid) : Prop :=
  (∃ site, sys.pc t = .blocking site) ∧ .runq ∉ (sys.sched.thread t).flags.qmask

structure Handshake (sys : System) : Prop where
  noLostWake : ∀ t j, { thread := t, wanted := j } ∈ sys.sched.joinwq →
    (sys.sched.thread j).flags.joined = true → ¬ (sys.Asleep t ∧ sys.Asleep j)
  /-- Where `bmk_sched_join` is past its loop, the joinee is in its exit; and only there has a
  joinable thread lost `THR_MUSTJOIN`. -/
  returns : ∀ t j, sys.pc t = .active (.joinWake j) → (sys.pc j).exiting = true
  cleared : ∀ j, sys.sched.live j = true → sys.joinable j = true →
    (sys.sched.thread j).flags.mustjoin = false →
    (sys.sched.thread j).flags.joined = true ∧ (sys.pc j).exiting = true
  freed : ∀ entry ∈ sys.log, entry.Sound
  /-- Each exit is paid for once: by the log, or by the reaper's next turn. -/
  structs : ∀ t, sys.log.countP (LogEntry.isExit t) =
    sys.log.countP (LogEntry.isStructFree t) + sys.sched.owedStructs t
  ownStacks : ∀ t, sys.log.countP (LogEntry.isOwnStackExit t) =
    sys.log.countP (LogEntry.isStackFree t) + sys.sched.owedStacks t
  reaps : (∃ site, sys.pc sys.sched.current = .resumed site) ∨ sys.pc sys.sched.current = .yielded →
    ∃ next, sys.step .advance = .ok next ∧ next.sched.zombieq = []

theorem SysInv.handshake (inv : SysInv sys) (log : LogInv sys) : Handshake sys where
  noLostWake := by
    intro t j waiter joined asleep
    obtain ⟨⟨⟨site, sleepsT⟩, unwokenT⟩, ⟨siteJ, sleepsJ⟩, -⟩ := asleep
    have registered := (inv.joins.waiters t j).mp waiter
    rw [sleepsT] at registered
    cases site with
    | caller | exit => cases registered
    | join k =>
      cases registered
      rcases inv.joins.handshake t j sleepsT joined with ready | signals
      · rw [ready] at unwokenT
        exact unwokenT (Finset.mem_singleton_self _)
      · rw [sleepsJ] at signals
        cases signals
  returns := fun t j place => (inv.joins.waking t j place).2.1
  cleared := by
    intro j live made clear
    have joined := inv.joins.cleared j live made clear
    exact ⟨joined, inv.joins.exiting j live joined⟩
  freed := log.sound
  structs := log.structs
  ownStacks := log.ownStacks
  reaps := by
    intro place
    rw [System.step, System.advance]
    rcases place with ⟨site, resumed⟩ | yielded
    · obtain ⟨-, -, -, -, -, alive⟩ := inv.core.agrees_current resumed
      have kept := (JoinInv.reaped_live inv.core sys.sched.current).2
        ⟨inv.core.current_live, alive⟩
      rw [resumed]
      dsimp only
      rw [inv.reap_eq, ok_bind, bmkSchedBlockReturn, deref_eq (by exact kept), ok_bind]
      exact ⟨_, rfl, rfl⟩
    · rw [yielded]
      dsimp only
      rw [inv.reap_eq, ok_bind]
      exact ⟨_, rfl, rfl⟩

/-- What joins and exits keep to in every state of any run, whatever is woken in between. -/
theorem join_exit_handshake (main stack stackSize tlsarea : Nat) (stacked : stack ≠ 0) :
    ∃ boot, System.start main stack stackSize tlsarea = .ok boot ∧
      ∀ events final, Admissible System.AdmitsSpurious System.step events boot →
        run System.step events boot = .ok final → Handshake final := by
  refine ⟨_, System.start_eq main stackSize tlsarea stacked, ?_⟩
  intro events final allowed ran
  have preserved : ∀ (state : System) (event : Event) (next : System),
      SysInv state ∧ LogInv state → state.AdmitsSpurious event → state.step event = .ok next →
        SysInv next ∧ LogInv next := by
    intro state event next holds admitted stepped
    have kept : stackPromises.Kept state event := ⟨fun _ => admitted.2, False.elim⟩
    have moves := of_ok (holds.1.step event
      (holds.1.admits_of_step admitted.1 stepped) kept) stepped
    have keeps : ∀ {a b : System}, SysInv a ∧ LogInv a → Move stackPromises a b →
        SysInv b ∧ LogInv b := fun both move =>
      ⟨both.1.move move, move.log_inv both.1.core both.2⟩
    exact moves.keep keeps holds
  have start : SysInv (System.mainOnly main stack tlsarea) ∧
      LogInv (System.mainOnly main stack tlsarea) := by
    refine ⟨System.mainOnly_inv main stack tlsarea, ?_, ?_, fun _ => rfl, fun _ => rfl⟩
    · intro t u liveT liveU _
      have isMain : ∀ {v}, (System.mainOnly main stack tlsarea).sched.live v = true →
          v = main := by
        intro v is
        simp only [System.mainOnly, update_apply] at is
        split at is
        · next here => exact here
        · exact absurd is Bool.false_ne_true
      rw [isMain liveT, isMain liveU]
    · intro entry mem
      rw [mem_singleton.mp mem]
      trivial
  obtain ⟨inv, log⟩ := run_reaches preserved events _ final start allowed ran
  exact inv.handshake log

theorem join_exit_handshake_join :
    ∃ boot final, System.start 1 0x8000 0x1000 0x10 = .ok boot ∧
      run System.step joinRun boot = .ok final ∧ Handshake final ∧
      final.log.countP (LogEntry.isStructFree 2) = 1 ∧
      final.log.countP (LogEntry.isStackFree 2) = 1 := by
  obtain ⟨boot, booted, runs⟩ := join_exit_handshake 1 0x8000 0x1000 0x10 (by decide)
  have evaluated : ∀ sys ∈ (System.start 1 0x8000 0x1000 0x10).toOption,
      Admissible System.AdmitsSpurious System.step joinRun sys ∧
      ∃ final ∈ (run System.step joinRun sys).toOption,
        final.log.countP (isStructFree 2) = 1 ∧
          final.log.countP (isStackFree 2) = 1 := by
    decide +kernel
  obtain ⟨allowed, final, reached, structs, ownStacks⟩ := evaluated boot (by rw [booted]; rfl)
  have ran : run System.step joinRun boot = .ok final := eq_ok_of_mem reached
  exact ⟨boot, final, booted, ran, runs joinRun final allowed ran, structs, ownStacks⟩

end Rumprun.Core.Scheduler
