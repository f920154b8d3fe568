import Rumprun.Base.Lwp

/-! # Parking and unparking

`_lwp_park` tests `rl_no_parking_hare`, the permit that an early `_lwp_unpark`
would leave, but nothing sets it: an unpark only wakes. So an unpark reaches a
thread that sleeps in its `_lwp_park`, and no other. -/

namespace Rumprun.Base.Lwp
open Core Scheduler StepRuns Function Lwps
variable {p next middle : Lwps} {t : Tid} {lid : Int} {result : Option Int} {args : ParkArgs}

/-- What an unpark is for: a thread that was unparked does not sleep in its next park, and is
not left asleep in the one it is in. -/
structure ParkPermit (p : Lwps) : Prop where
  permit : p.issued p.current = true → p.sys.pc p.current = .active .caller →
    ∀ args next result, p.lwpPark args = .ok (next, result) → result = some 0
  noLostUnpark : ∀ t, p.issued t = true → p.parked t = true → ¬ p.sys.Asleep t

/-- The main lwp unparks the other one while that waits for its turn after a
`bmk_sched_yield`; then the other one parks. -/
def earlyUnparkRun : List LwpEvent :=
  [.makelwp (.ok 1) 0 2 0x20 0x9000 0x1000 0, .sched (.call .yield), .sched (.turn 100),
    .sched (.call .yield), .sched (.turn 200), .sched .advance, .unpark 2, .sched (.call .yield),
    .sched (.turn 300), .sched .advance,
    .park { abstime := false, ts := none, unpark := 0, epochoffset := 0, monotonic := 0 },
    .sched (.call .block)]

theorem early_unpark_is_lost :
    ∃ boot ∈ (System.start 1 0x8000 0x1000 0x10).toOption,
      Admissible Lwps.Admits Lwps.step earlyUnparkRun (Lwps.rumprunLwpInit boot) ∧
      ∃ final ∈ (run Lwps.step earlyUnparkRun (Lwps.rumprunLwpInit boot)).toOption,
        final.issued 2 = true ∧ final.parked 2 = true ∧ final.sys.pc 2 = .blocking .caller ∧
          (final.sys.sched.thread 2).flags.qmask = {.blockq} := by
  decide +kernel

/-! ## What every run keeps -/

structure LwpInv (p : Lwps) : Prop where
  sys : SysInv p.sys
  noHare : ∀ rl, (p.rl rl).noParkingHare = 0
  parked : ∀ t, p.parked t = true → Lwps.inPark (p.sys.pc t) = true

/-- What runs keep in which only parked threads are unparked. -/
def Answered (p : Lwps) : Prop := ∀ t, p.issued t = true → p.parked t = true ∧ Summoned p.sys t .caller

def noPromises : Promises := ⟨False, False⟩

theorem noPromises_kept (sys : System) (event : Event) : noPromises.Kept sys event :=
  ⟨False.elim, False.elim⟩

theorem parked_not_active (inv : LwpInv p) {activity : Activity}
    (place : p.sys.pc t = .active activity) : p.parked t = false := by
  cases parked : p.parked t with
  | false => rfl
  | true =>
    have inside := inv.parked t parked
    rw [place] at inside
    exact absurd inside Bool.false_ne_true

theorem inPark_cases {pc : Pc} (inside : inPark pc = true) :
    pc = .prepared .caller ∨ pc = .blocking .caller ∨ pc = .resumed .caller := by
  unfold inPark at inside
  split at inside
  · exact .inl rfl
  · exact .inr (.inl rfl)
  · exact .inr (.inr rfl)
  · exact absurd inside Bool.false_ne_true

namespace LwpInv
variable {p : Lwps}

theorem settle (inv : LwpInv p) {sys : System} (moves : Moves noPromises p.sys sys) :
    LwpInv (p.settle sys) where
  sys := inv.sys.moves moves
  noHare := inv.noHare
  parked := fun _ parked => (Bool.and_eq_true_iff.mp parked).2

theorem settle_answered (inv : LwpInv p) {sys : System} (moves : Moves noPromises p.sys sys)
    (answered : Answered p) : Answered (p.settle sys) := by
  intro t issued
  obtain ⟨before, stays⟩ := Bool.and_eq_true_iff.mp issued
  obtain ⟨parked, summoned⟩ := answered t before
  have inside : inPark (sys.pc t) = true := by
    cases inside : inPark (sys.pc t) with
    | true => rfl
    | false =>
      rw [parked, inside] at stays
      exact absurd stays Bool.false_ne_true
  refine ⟨Bool.and_eq_true_iff.mpr ⟨parked, inside⟩, ?_⟩
  rcases inv.sys.summoned moves summoned with still | returned
  · exact still
  · rw [returned] at inside
    exact absurd inside Bool.false_ne_true

end LwpInv

/-- The state after an `_lwp_unpark` that found the thread. -/
def Lwps.unparked (p : Lwps) (t : Tid) : Lwps :=
  { p.settle { p.sys with sched := p.sys.sched.woken t } with
    issued := update
      (p.settle { p.sys with sched := p.sys.sched.woken t }).issued t true }

theorem lwpUnpark_spec {result : Int} (inv : LwpInv p) (ran : p.lwpUnpark lid = .ok (next, result)) :
    next = p ∨ ∃ rl, p.lwpid2rl lid = some rl ∧ p.sys.NotDead (p.rl rl).thread ∧
      next = p.unparked (p.rl rl).thread := by
  rw [lwpUnpark] at ran
  cases found : p.lwpid2rl lid with
  | none =>
    rw [found] at ran
    cases ran
    exact .inl rfl
  | some rl =>
    rw [found] at ran
    refine .inr ⟨rl, rfl, ?_⟩
    dsimp only at ran
    rw [System.call] at ran
    cases woke : p.sys.sched.bmkSchedWake (p.rl rl).thread with
    | error stop => rw [woke] at ran; cases ran
    | ok sched =>
      have alive := inv.sys.core.notDead_of_wake woke
      rw [inv.sys.core.wake_eq alive] at ran
      cases ran
      exact ⟨alive, rfl⟩

theorem LwpInv.unparked (inv : LwpInv p) (alive : p.sys.NotDead t) : LwpInv (p.unparked t) := by
  have settled := inv.settle (.inl (Move.wake t alive))
  exact ⟨settled.sys, settled.noHare, settled.parked⟩

theorem LwpInv.unparked_answered (inv : LwpInv p) (alive : p.sys.NotDead t)
    (place : p.sys.pc p.current = .active .caller) (parked : p.parked t = true)
    (answered : Answered p) : Answered (p.unparked t) := by
  intro u issued
  by_cases here : u = t
  · subst here
    have inside := inv.parked u parked
    refine ⟨Bool.and_eq_true_iff.mpr ⟨parked, inside⟩, ?_⟩
    rcases inPark_cases inside with prepares | sleeps | returns
    · -- the running thread is not in its sleep
      rw [inv.sys.core.current_of_prepared prepares] at prepares
      exact absurd (place.symm.trans prepares) nofun
    · have agrees := inv.sys.core.agrees u
      rw [sleeps] at agrees
      obtain ⟨-, ⟨q, mask⟩, -⟩ := agrees
      refine .inl ⟨sleeps, ?_⟩
      dsimp only [Lwps.unparked, Lwps.settle]
      rw [Sched.woken_thread, update_self]
      dsimp only
      rw [mask, wokenMask_singleton]
    · exact .inr returns
  · dsimp only [Lwps.unparked] at issued
    rw [update_of_ne here] at issued
    exact inv.settle_answered (.inl (Move.wake t alive)) answered u issued

/-! ## The steps -/

/-- The thread that an unpark of `lid` finds is parked. -/
def Lwps.FindsParked (p : Lwps) (lid : Int) : Prop :=
  ∀ rl ∈ p.lwpid2rl lid, p.parked (p.rl rl).thread = true

def Lwps.UnparksParked (p : Lwps) : LwpEvent → Prop
  | .unpark lid => p.FindsParked lid
  | .unparkAll targets => ∀ lids ∈ targets, ∀ lid ∈ lids, p.FindsParked lid
  | .park args => args.unpark ≠ 0 → p.FindsParked args.unpark
  | _ => True

/-- The next state keeps the invariant; and, if `parked` holds, so it does `Answered`. -/
def Keeps (p next : Lwps) (parked : Prop) : Prop := LwpInv next ∧ (parked → Answered p → Answered next)

theorem lwpUnpark_keeps {result : Int} (inv : LwpInv p)
    (place : p.sys.pc p.current = .active .caller) (ran : p.lwpUnpark lid = .ok (next, result)) :
    Keeps p next (p.FindsParked lid) ∧ next.sys.pc next.current = .active .caller ∧
      ∀ other, p.FindsParked other → next.FindsParked other := by
  rcases lwpUnpark_spec inv ran with same | ⟨rl, found, alive, is⟩
  · subst same
    exact ⟨⟨inv, fun _ answered => answered⟩, place, fun _ parked => parked⟩
  · subst is
    refine ⟨⟨inv.unparked alive, ?_⟩, ?_, ?_⟩
    · intro parked answered
      exact inv.unparked_answered alive place (parked rl found) answered
    · dsimp only [Lwps.unparked, Lwps.settle, Lwps.current]
      rw [Sched.woken_current]
      exact place
    · intro other parked target at_
      have was := parked target at_
      exact Bool.and_eq_true_iff.mpr ⟨was, inv.parked _ was⟩

theorem unparkLoop_keeps (targets : List Int) :
    ∀ {p next : Lwps} {rv result : Int}, LwpInv p → p.sys.pc p.current = .active .caller →
      unparkLoop targets rv p = .ok (next, result) →
      Keeps p next (∀ lid ∈ targets, p.FindsParked lid) := by
  induction targets with
  | nil =>
    intro p next rv result inv place ran
    cases ran
    exact ⟨inv, fun _ answered => answered⟩
  | cons target targets ih =>
    intro p next rv result inv place ran
    rw [unparkLoop] at ran
    obtain ⟨middle, first, ran⟩ := bind_eq_ok ran
    obtain ⟨kept, still, others⟩ := lwpUnpark_keeps inv place first
    obtain ⟨after, answers⟩ := ih kept.1 still ran
    refine ⟨after, ?_⟩
    intro parked answered
    refine answers ?_ (kept.2 (parked target List.mem_cons_self) answered)
    intro lid mem
    exact others lid (parked lid (List.mem_cons_of_mem target mem))

/-- The state after the thread has prepared its sleep in `_lwp_park`. -/
def Lwps.parking (p : Lwps) (sys : System) : Lwps :=
  { p.settle sys with
    parked := update (p.settle sys).parked (p.settle sys).current true }

theorem parkSelf_spec (inv : LwpInv p) (place : p.sys.pc p.current = .active .caller)
    (ran : p.parkSelf args = .ok (next, result)) :
    result = none ∧ ∃ sched, next = p.parking (p.sys.goto sched (.prepared .caller)) ∧
      Moves noPromises p.sys (p.sys.goto sched (.prepared .caller)) ∧
      sched.current = p.current ∧ .runq ∉ (sched.thread p.current).flags.qmask := by
  obtain ⟨sched, prepares, moves, same, unwoken⟩ := inv.sys.prepare_caller place (parkDeadline args)
  rw [parkSelf] at ran
  cases mine : p.me p.current with
  | none => rw [mine] at ran; cases ran
  | some me =>
    rw [mine] at ran
    dsimp only at ran
    rw [if_neg (not_not.mpr (inv.noHare me)), prepares] at ran
    cases ran
    exact ⟨rfl, sched, rfl, moves noPromises, same, unwoken⟩

theorem LwpInv.parking (inv : LwpInv p) {sched : Sched}
    (moves : Moves noPromises p.sys (p.sys.goto sched (.prepared .caller)))
    (same : sched.current = p.current) :
    Keeps p (p.parking (p.sys.goto sched (.prepared .caller))) True := by
  have settled := inv.settle moves
  refine ⟨⟨settled.sys, settled.noHare, ?_⟩, ?_⟩
  · intro t parked
    by_cases here : t = p.current
    · dsimp only [Lwps.parking, Lwps.settle]
      rw [System.goto_pc, if_pos (by exact here)]
      rfl
    · dsimp only [Lwps.parking, Lwps.settle, Lwps.current, System.goto] at parked
      rw [same, update_of_ne here] at parked
      exact settled.parked t parked
  · intro _ answered t issued
    obtain ⟨parked, summoned⟩ := inv.settle_answered moves answered t issued
    refine ⟨?_, summoned⟩
    dsimp only [Lwps.parking]
    rw [update_apply]
    split
    · rfl
    · exact parked

theorem lwpPark_keeps (inv : LwpInv p) (place : p.sys.pc p.current = .active .caller)
    (ran : p.lwpPark args = .ok (next, result)) :
    Keeps p next (args.unpark ≠ 0 → p.FindsParked args.unpark) := by
  rw [lwpPark] at ran
  by_cases handoff : args.unpark ≠ 0
  · rw [if_pos handoff] at ran
    obtain ⟨middle, first, ran⟩ := bind_eq_ok ran
    obtain ⟨kept, still, -⟩ := lwpUnpark_keeps inv place first
    obtain ⟨-, sched, is, moves, same, -⟩ := parkSelf_spec kept.1 still ran
    subst is
    obtain ⟨after, answers⟩ := kept.1.parking moves same
    exact ⟨after, fun parked answered => answers trivial (kept.2 (parked handoff) answered)⟩
  · rw [if_neg handoff] at ran
    obtain ⟨-, sched, is, moves, same, -⟩ := parkSelf_spec inv place ran
    subst is
    obtain ⟨after, answers⟩ := inv.parking moves same
    exact ⟨after, fun _ answered => answers trivial answered⟩

theorem step_keeps {event : LwpEvent} (inv : LwpInv p) (allowed : p.Admits event)
    (stepped : p.step event = .ok next) : Keeps p next (p.UnparksParked event) := by
  have returned : ∀ {α : Type} {ran : Except Stop (Lwps × α)}, ran.map Prod.fst = .ok next →
      ∃ result, ran = .ok (next, result) := by
    intro α ran is
    cases ran with
    | error stop => cases is
    | ok pair => cases is; exact ⟨pair.2, rfl⟩
  cases event with
  | makelwp calloc newlwp t tcb stackBase stackSize pages =>
    obtain ⟨result, ran⟩ := returned stepped
    unfold rumprunMakelwp at ran
    cases calloc with
    | error errno => cases ran; exact ⟨inv, fun _ answered => answered⟩
    | ok rl =>
      dsimp only at ran
      split at ran
      · cases ran
        exact ⟨inv, fun _ answered => answered⟩
      · obtain ⟨sys, created, moves⟩ := inv.sys.call
          (.createWithtls t false stackBase stackSize pages tcb)
          ⟨.inl allowed.1, allowed.2⟩ (noPromises_kept _ _)
        rw [created] at ran
        cases ran
        have settled := inv.settle moves
        refine ⟨⟨settled.sys, ?_, settled.parked⟩, fun _ => inv.settle_answered moves⟩
        intro other
        dsimp only
        rw [update_apply]
        split
        · rfl
        · exact inv.noHare other
  | unpark lid =>
    obtain ⟨result, ran⟩ := returned stepped
    exact (lwpUnpark_keeps inv allowed ran).1
  | unparkAll targets =>
    obtain ⟨result, ran⟩ := returned stepped
    cases targets with
    | none => cases ran; exact ⟨inv, fun _ answered => answered⟩
    | some lids =>
      obtain ⟨after, answers⟩ := unparkLoop_keeps lids inv allowed ran
      exact ⟨after, fun parked => answers (parked lids rfl)⟩
  | park args =>
    obtain ⟨result, ran⟩ := returned stepped
    exact lwpPark_keeps inv allowed ran
  | exit =>
    obtain ⟨sys, exits, moves⟩ := inv.sys.call .exitWithtls allowed (noPromises_kept _ _)
    rw [step, lwpExit] at stepped
    cases mine : p.me p.current with
    | none => rw [mine] at stepped; cases stepped
    | some me =>
      rw [mine] at stepped
      dsimp only at stepped
      obtain ⟨allLwp, unlisted, stepped⟩ := bind_eq_ok stepped
      rw [exits] at stepped
      cases stepped
      have settled := inv.settle moves
      exact ⟨⟨settled.sys, settled.noHare, settled.parked⟩,
        fun _ => inv.settle_answered moves⟩
  | sched event =>
    rw [step] at stepped
    obtain ⟨sys, ran, stepped⟩ := bind_eq_ok stepped
    cases stepped
    have moves := of_ok (inv.sys.step event
      (inv.sys.admits_of_step allowed.1 ran) (noPromises_kept _ _)) ran
    exact ⟨inv.settle moves, fun _ => inv.settle_answered moves⟩

/-! ## The runs -/

theorem LwpInv.init (main stack tlsarea : Nat) :
    LwpInv (rumprunLwpInit (System.mainOnly main stack tlsarea)) := by
  refine ⟨System.mainOnly_inv main stack tlsarea, ?_, ?_⟩
  · intro rl
    dsimp only [rumprunLwpInit]
    rw [update_apply]
    split
    · rfl
    · rfl
  · intro t parked
    exact absurd parked Bool.false_ne_true

theorem Answered.parkPermit (answered : Answered p) : ParkPermit p where
  permit := by
    intro issued place
    rcases (answered _ issued).2 with ⟨sleeps, -⟩ | returns
    · exact absurd (place.symm.trans sleeps) nofun
    · exact absurd (place.symm.trans returns) nofun
  noLostUnpark := by
    intro t issued _ asleep
    obtain ⟨⟨site, sleeps⟩, unwoken⟩ := asleep
    rcases (answered t issued).2 with ⟨-, ready⟩ | returns
    · rw [ready] at unwoken
      exact unwoken (Finset.mem_singleton_self _)
    · exact absurd (sleeps.symm.trans returns) nofun

theorem Lwps.unparked_issued {u : Tid} (inv : LwpInv p) (issued : p.issued u = true) :
    (p.unparked t).issued u = true := by
  dsimp only [Lwps.unparked]
  rw [update_apply]
  split
  · rfl
  · cases parked : p.parked u with
    | false => simp only [Lwps.settle, issued, parked, Bool.false_and, Bool.not_false, Bool.and_self]
    | true =>
      have inside := inv.parked u parked
      simp only [Lwps.settle, issued, parked, inside, Bool.not_true, Bool.and_false,
        Bool.not_false, Bool.and_self]

theorem parkSelf_sleeps (inv : LwpInv p) (place : p.sys.pc p.current = .active .caller)
    (issued : p.issued p.current = true) (ran : p.parkSelf args = .ok (middle, result))
    (blocked : middle.step (.sched (.call .block)) = .ok next) : result = none ∧ ¬ ParkPermit next := by
  obtain ⟨isNone, sched, is, moves, same, unwoken⟩ := parkSelf_spec inv place ran
  refine ⟨isNone, ?_⟩
  subst is
  have prepares : (p.parking (p.sys.goto sched (.prepared .caller))).sys.pc sched.current =
      .prepared .caller := by
    rw [same]
    exact update_self ..
  obtain ⟨blocks, -⟩ := ((inv.parking moves same).1.sys.block .caller prepares :
    _ ∧ Moves noPromises _ _)
  rw [step, System.step, System.call, blocks] at blocked
  cases blocked
  intro permit
  have outside := parked_not_active inv place
  have sleeps := permit.noLostUnpark p.current
  simp only [Lwps.settle, Lwps.parking, System.goto, Lwps.current, same, update_self,
    System.Asleep] at sleeps
  rw [Lwps.current] at issued outside unwoken
  rw [issued, outside] at sleeps
  exact sleeps rfl rfl ⟨⟨.caller, rfl⟩, unwoken⟩

theorem lwpPark_sleeps (inv : LwpInv p) (place : p.sys.pc p.current = .active .caller)
    (issued : p.issued p.current = true) (ran : p.lwpPark args = .ok (middle, result))
    (blocked : middle.step (.sched (.call .block)) = .ok next) : result = none ∧ ¬ ParkPermit next := by
  rw [lwpPark] at ran
  by_cases handoff : args.unpark ≠ 0
  · rw [if_pos handoff] at ran
    obtain ⟨⟨after, rv⟩, first, ran⟩ := bind_eq_ok ran
    obtain ⟨kept, still, -⟩ := lwpUnpark_keeps inv place first
    refine parkSelf_sleeps kept.1 still ?_ ran blocked
    rcases lwpUnpark_spec inv first with same | ⟨rl, -, -, is⟩
    · rw [same]
      exact issued
    · have current : after.current = p.current := by
        rw [is]
        exact Sched.woken_current ..
      rw [current, is]
      exact unparked_issued inv issued
  · rw [if_neg handoff] at ran
    exact parkSelf_sleeps inv place issued ran blocked

/-- The callers keep to the interface, and unpark only threads that are parked. -/
def Lwps.AdmitsParked (p : Lwps) (event : LwpEvent) : Prop := p.Admits event ∧ p.UnparksParked event

/-- In a run in which only parked threads are unparked, no unpark is lost;
a thread that was unparked when it was not parked sleeps in its next park, and stays there. -/
theorem unpark_reaches_parked (main stack stackSize tlsarea : Nat) (stacked : stack ≠ 0) :
    ∃ boot, System.start main stack stackSize tlsarea = .ok boot ∧
      (∀ events final, Admissible Lwps.AdmitsParked Lwps.step events (Lwps.rumprunLwpInit boot) →
        run Lwps.step events (Lwps.rumprunLwpInit boot) = .ok final → ParkPermit final) ∧
      ∀ events p, Admissible Lwps.Admits Lwps.step events (Lwps.rumprunLwpInit boot) →
        run Lwps.step events (Lwps.rumprunLwpInit boot) = .ok p →
        p.sys.pc p.current = .active .caller → p.issued p.current = true →
        ∀ args middle result next, p.lwpPark args = .ok (middle, result) →
          middle.step (.sched (.call .block)) = .ok next → result = none ∧ ¬ ParkPermit next := by
  have start := LwpInv.init main stack tlsarea
  refine ⟨_, System.start_eq main stackSize tlsarea stacked, ?_, ?_⟩
  · intro events final allowed ran
    have preserved : ∀ (p : Lwps) (event : LwpEvent) (next : Lwps), LwpInv p ∧ Answered p →
        p.AdmitsParked event → p.step event = .ok next → LwpInv next ∧ Answered next := by
      intro p event next holds admitted stepped
      obtain ⟨inv, answers⟩ := step_keeps holds.1 admitted.1 stepped
      exact ⟨inv, answers admitted.2 holds.2⟩
    have none : Answered (rumprunLwpInit (System.mainOnly main stack tlsarea)) := by
      intro t issued
      exact absurd issued Bool.false_ne_true
    exact (run_reaches preserved events _ final ⟨start, none⟩ allowed ran).2.parkPermit
  · intro events p allowed ran place issued args middle result next parks blocked
    have inv : LwpInv p := run_reaches
      (fun _ _ _ inv admitted stepped => (step_keeps inv admitted stepped).1) events _ p start allowed ran
    exact lwpPark_sleeps inv place issued parks blocked

instance Lwps.decidableFindsParked (p : Lwps) (lid : Int) : Decidable (p.FindsParked lid) :=
  inferInstanceAs (Decidable (∀ rl ∈ p.lwpid2rl lid, p.parked (p.rl rl).thread = true))

instance Lwps.decidableUnparksParked (p : Lwps) : ∀ event, Decidable (p.UnparksParked event) := by
  intro event
  induction event using LwpEvent.casesOn <;> dsimp only [UnparksParked] <;> infer_instance

instance Lwps.decidableAdmitsParked (p : Lwps) (event : LwpEvent) : Decidable (p.AdmitsParked event) :=
  inferInstanceAs (Decidable (_ ∧ _))

/-- The other lwp parks; the main lwp unparks it and gives way. -/
def parkRun : List LwpEvent :=
  [.makelwp (.ok 1) 0 2 0x20 0x9000 0x1000 0, .sched (.call .yield), .sched (.turn 100),
    .park { abstime := false, ts := none, unpark := 0, epochoffset := 0, monotonic := 0 },
    .sched (.call .block), .sched (.turn 200), .sched .advance, .unpark 2, .sched (.call .yield),
    .sched (.turn 300)]

theorem unpark_reaches_parked_other :
    ∃ boot final, System.start 1 0x8000 0x1000 0x10 = .ok boot ∧
      run Lwps.step parkRun (Lwps.rumprunLwpInit boot) = .ok final ∧ ParkPermit final ∧
      final.issued 2 = true ∧ final.current = 2 := by
  obtain ⟨boot, booted, runs, -⟩ := unpark_reaches_parked 1 0x8000 0x1000 0x10 (by decide)
  have evaluated : ∀ sys ∈ (System.start 1 0x8000 0x1000 0x10).toOption,
      Admissible Lwps.AdmitsParked step parkRun (rumprunLwpInit sys) ∧
      ∃ final ∈ (run step parkRun (rumprunLwpInit sys)).toOption,
        final.issued 2 = true ∧ final.current = 2 := by
    decide +kernel
  obtain ⟨allowed, final, reached, issued, current⟩ := evaluated boot (by rw [booted]; rfl)
  have ran : run step parkRun (rumprunLwpInit boot) = .ok final := eq_ok_of_mem reached
  exact ⟨boot, final, booted, ran, runs parkRun final allowed ran, issued, current⟩

end Rumprun.Base.Lwp
