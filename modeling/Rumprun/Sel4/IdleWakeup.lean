import Rumprun.Sel4.SplBalance

/-! # Waking the idle main side

`bmk_platform_cpu_block` sets `env.should_wakeup`, gives the semaphore back and
waits on the timer's notification; `rump_irq_handle` signals it when it finds the
flag set. Until the semaphore is back no interrupt can put a thread on `runq`, and from
then on it finds the flag set before it does. -/

namespace Rumprun.Sel4
open Core StackPrograms StepRuns Function Machine

/-- The way from the empty queue to the wait. -/
inductive IdlePoint where
  | out
  | empty
  | entered
  | armed
  | released
  deriving DecidableEq, Repr

def idleEffect : Instr → IdlePoint → IdlePoint → Prop
  | .runqEmpty, _, after => after = .empty
  | .cpuBlock, before, after => before = .empty ∧ after = .entered
  | .setWakeup true, before, after => before = .entered ∧ after = .armed
  | .splx, before, after => after = if before = .armed then .released else .out
  | .wait, before, after => before = .released ∧ after = .out
  | _, _, after => after = .out

/-- The program waits only at the end of that way, from wherever it starts. -/
def Roams (code : Code Instr) : Prop := Triple idleEffect (fun _ => True) code (fun _ => True)

namespace Roams
open Code Instr

theorem prim {instr : Instr} (free : ∀ p, ∃ p', idleEffect instr p p') : Roams (prim instr) := by
  apply Triple.prim
  intro p _
  obtain ⟨p', leads⟩ := free p
  exact ⟨p', leads, trivial⟩

theorem nil : Roams (all []) := Triple.all_nil

theorem cons {code : Code Instr} {rest : List (Code Instr)} (one : Roams code)
    (two : Roams (all rest)) : Roams (all (code :: rest)) := Triple.all_cons one two

theorem skip : Roams skip := Triple.skip

theorem either {left right : Code Instr} (one : Roams left) (two : Roams right) :
    Roams (either left right) := Triple.either one two

theorem loop {body : Code Instr} (kept : Roams body) : Roams (loop body) := Triple.loop kept

theorem high : Roams (.prim splhigh) := prim fun _ => ⟨_, rfl⟩

theorem low : Roams (.prim splx) := prim fun _ => ⟨_, rfl⟩

theorem change : Roams (.prim queues) := prim fun _ => ⟨_, rfl⟩

theorem user : Roams (.prim caller) := prim fun _ => ⟨_, rfl⟩

theorem critical : Roams (all [.prim splhigh, .prim queues, .prim splx]) :=
  cons high (cons change (cons low nil))

theorem bmkSchedWake : Roams bmkSchedWake := either skip critical

theorem bmkPlatformCpuBlock : Triple idleEffect (· = .empty) bmkPlatformCpuBlock (fun _ => True) := by
  have enter : Triple idleEffect (· = .empty) (.prim cpuBlock) (· = .entered) := by
    apply Triple.prim
    rintro _ rfl
    exact ⟨_, ⟨rfl, rfl⟩, rfl⟩
  have arm : Triple idleEffect (· = .entered) (.prim (setWakeup true)) (· = .armed) := by
    apply Triple.prim
    rintro _ rfl
    exact ⟨_, ⟨rfl, rfl⟩, rfl⟩
  have release : Triple idleEffect (· = .armed) (.prim splx) (· = .released) := by
    apply Triple.prim
    rintro _ rfl
    exact ⟨_, rfl, rfl⟩
  have sleep : Triple idleEffect (· = .released) (.prim wait) (fun _ => True) := by
    apply Triple.prim
    rintro _ rfl
    exact ⟨_, ⟨rfl, rfl⟩, trivial⟩
  have disarm : Roams (.prim (setWakeup false)) := prim fun _ => ⟨_, rfl⟩
  have away : ∀ {code : Code Instr}, Roams code →
      Triple idleEffect (· = .entered) code (fun _ => True) :=
    fun roams p _ => roams p trivial
  apply Triple.all_cons enter
  refine Triple.all_cons (Triple.either (away skip) (Triple.either ?_ ?_)) nil
  · exact away (cons low (cons high nil))
  · apply Triple.all_cons arm
    apply Triple.all_cons release
    apply Triple.all_cons sleep
    exact cons disarm (cons high nil)

theorem schedule : Roams schedule := by
  have found : Triple idleEffect (fun _ => True) (.prim runqEmpty) (· = .empty) := by
    apply Triple.prim
    intro p _
    exact ⟨_, rfl, rfl⟩
  have turn : Roams (all [.loop Sel4.bmkSchedWake, .prim runqEmpty, Sel4.bmkPlatformCpuBlock]) := by
    apply cons (loop bmkSchedWake)
    apply Triple.all_cons found
    exact Triple.all_cons bmkPlatformCpuBlock nil
  apply cons high
  apply cons (loop turn)
  apply cons (loop bmkSchedWake)
  apply cons change
  apply cons low
  exact cons (either skip (prim fun _ => ⟨_, rfl⟩)) nil

theorem bmkSchedYield : Roams bmkSchedYield := cons high (cons change (cons low (cons schedule nil)))

theorem bmkSchedJoin : Roams bmkSchedJoin := by
  have turn : Roams (all [.prim splx, bmkSchedBlockprepare, bmkSchedBlock, .prim splhigh]) :=
    cons low (cons critical (cons schedule (cons high nil)))
  exact cons high (cons (loop turn) (cons low (cons bmkSchedWake nil)))

theorem bmkSchedExit : Roams bmkSchedExit := by
  have turn : Roams (all [.prim splx, .either .skip Sel4.bmkSchedWake, bmkSchedBlockprepare,
      bmkSchedBlock, .prim splhigh]) :=
    cons low (cons (either skip bmkSchedWake) (cons critical (cons schedule (cons high nil))))
  apply cons high
  apply cons (loop turn)
  apply cons low
  apply cons schedule
  exact cons (prim fun _ => ⟨_, rfl⟩) nil

theorem operation : Roams operation :=
  either critical (either critical (either schedule
    (either bmkSchedWake (either bmkSchedYield bmkSchedJoin))))

theorem calls : Roams calls := by
  have turn : Roams (all [.prim caller, Sel4.operation]) := cons user (cons operation nil)
  exact cons (loop turn) (cons user nil)

theorem threadBody : Roams threadBody := cons calls (cons bmkSchedExit nil)

theorem doisr : Roams doisr := by
  have sleep : Roams (all [bmkSchedBlockprepare, .prim splx, bmkSchedBlock, .prim splhigh]) :=
    cons critical (cons low (cons schedule (cons high nil)))
  have pass : ∀ {rest : List (Code Instr)}, Roams (all rest) →
      Roams (all (.prim splx :: Sel4.calls :: .prim splhigh :: rest)) :=
    fun two => cons low (cons calls (cons high two))
  have turn := pass (pass (cons (either skip sleep) nil))
  exact cons calls (cons high (cons (loop turn) nil))

end Roams

/-! ## What the points say -/

/-- After the look at `env.should_wakeup`, and before or in the change of `runq`. -/
def IrqPc.checked : IrqPc → Bool
  | .maskSet => true
  | pc => pc.inIsr

theorem IrqPc.holds_of_checked {pc : IrqPc} (past : pc.checked = true) : pc.holds = true := by
  cases pc <;> simp_all [checked, inIsr, holds]

namespace Machine

/-- Who puts a thread on `runq` signals first. -/
structure Alarmed (m : Machine) : Prop where
  asked : m.env.shouldWakeup = true
  woken : m.woken = true → m.env.timerNtfn = true
  checked : ∀ i, (m.irq i).checked = true → m.env.timerNtfn = true

/-- What holds at a point, with the running thread at a place in an spl function or in none. -/
def Stands (m : Machine) : Option SplPc → IdlePoint → Prop
  | _, .out => True
  | none, .empty => 0 < m.env.spldepth → m.woken = false
  | none, .entered => 0 < m.env.spldepth ∧ m.woken = false
  | none, .armed => 0 < m.env.spldepth ∧ m.woken = false ∧ m.env.shouldWakeup = true
  | none, .released => m.Alarmed
  -- on the way out of `bmk_platform_splx`
  | some pc, .released =>
    (0 < m.env.spldepth ∨ pc = .lowPost) ∧ m.woken = false ∧ m.env.shouldWakeup = true
  | some _, _ => False

end Machine
namespace IrqMove
variable {i : Irq} {env env' : Env} {woken woken' : Bool} {place pc : IrqPc}
variable (move : IrqMove i env woken place env' woken' pc)
include move

theorem shouldWakeup : env'.shouldWakeup = env.shouldWakeup := by
  cases move <;> rfl

theorem woken_eq (outside : place.holds = false) : woken' = woken := by
  cases move with
  | queues => cases outside
  | _ => rfl

theorem alarm (asked : env.shouldWakeup = true) :
    env'.timerNtfn = true ∨ env'.timerNtfn = env.timerNtfn ∧
      (pc.checked = true → place.checked = true) ∧
      (woken' = true → woken = true ∨ place.checked = true) := by
  cases move with
  | unasked busy => rw [asked] at busy; cases busy
  | signal => exact .inl rfl
  | queues => exact .inr ⟨rfl, fun _ => rfl, fun _ => .inr rfl⟩
  | _ => exact .inr ⟨rfl, by decide, .inl⟩

end IrqMove

structure IdleInv (m : Machine) : Prop where
  sem : SemInv m
  here : ∃ p, Safe idleEffect (m.main.stack m.main.current) p ∧ m.Stands m.main.spl p
  others : ∀ t, t ≠ m.main.current → Safe idleEffect (m.main.stack t) .out

namespace IdleInv
variable {m next : Machine} {i : Irq} {env : Env} {woken : Bool} {pc : IrqPc} {p : IdlePoint}
  {spl : Option SplPc} {to_ : Tid}

theorem unchecked (sem : SemInv m) (mine : m.env.splSemaphore = some .main) (i : Irq) :
    (m.irq i).checked ≠ true := by
  intro checked
  have theirs := (sem.irqs i).mpr (IrqPc.holds_of_checked checked)
  rw [mine] at theirs
  cases theirs

theorem unwoken (sem : SemInv m) (mine : m.env.splSemaphore = some .main)
    (move : IrqMove i m.env m.woken (m.irq i) env woken pc) : woken = m.woken := by
  apply move.woken_eq
  rw [← Bool.not_eq_true]
  intro holds
  have theirs := (sem.irqs i).mpr holds
  rw [mine] at theirs
  cases theirs

theorem alarmed_irqMoved (alarmed : m.Alarmed) (move : IrqMove i m.env m.woken (m.irq i) env woken pc) :
    (m.irqMoved i env woken pc).Alarmed := by
  have asked := move.shouldWakeup.trans alarmed.asked
  rcases move.alarm alarmed.asked with set | ⟨same, checked, changed⟩
  · exact ⟨asked, fun _ => set, fun _ _ => set⟩
  · refine ⟨asked, ?_, ?_⟩
    · intro is
      rcases changed is with was | past
      · exact same.trans (alarmed.woken was)
      · exact same.trans (alarmed.checked i past)
    · intro j past
      by_cases here : j = i
      · subst here
        have lands : pc.checked = true := by simpa [irqMoved] using past
        exact same.trans (alarmed.checked j (checked lands))
      · have was : (m.irq j).checked = true := by simpa [irqMoved, here] using past
        exact same.trans (alarmed.checked j was)

theorem stands_irqMoved (sem : SemInv m) (move : IrqMove i m.env m.woken (m.irq i) env woken pc)
    (stands : m.Stands m.main.spl p) : (m.irqMoved i env woken pc).Stands m.main.spl p := by
  have depth : (m.irqMoved i env woken pc).env.spldepth = m.env.spldepth := move.spldepth
  have asked : (m.irqMoved i env woken pc).env.shouldWakeup = m.env.shouldWakeup := move.shouldWakeup
  have quiet : m.env.splSemaphore = some .main → (m.irqMoved i env woken pc).woken = m.woken :=
    fun mine => unwoken sem mine move
  cases spl : m.main.spl with
  | none =>
    rw [spl] at stands
    cases p with
    | out => trivial
    | empty =>
      intro deep
      rw [depth] at deep
      rw [quiet (sem.deep deep)]
      exact stands deep
    | entered =>
      obtain ⟨deep, still⟩ := stands
      rw [Machine.Stands, depth, quiet (sem.deep deep)]
      exact ⟨deep, still⟩
    | armed =>
      obtain ⟨deep, still⟩ := stands
      rw [Machine.Stands, depth, quiet (sem.deep deep), asked]
      exact ⟨deep, still⟩
    | released => exact alarmed_irqMoved stands move
  | some pc =>
    rw [spl] at stands
    cases p with
    | out => trivial
    | released =>
      obtain ⟨owned, still⟩ := stands
      have mine : m.env.splSemaphore = some .main := by
        rcases owned with deep | rfl
        · exact sem.deep deep
        · exact (sem.place _ spl).1
      rw [Machine.Stands, depth, quiet mine, asked]
      exact ⟨owned, still⟩
    | empty | entered | armed => cases stands

/-- A statement of an spl function. On the way to the wait the semaphore is the main side's until
the last one. -/
theorem stands_splStep (sem : SemInv m) {pc : SplPc} (at_ : m.main.spl = some pc)
    (stands : m.Stands (some pc) p) (ran : m.env.splStep .main pc = .ok (env, spl)) :
    { m with env := env, main := { m.main with spl := spl } }.Stands spl p := by
  cases p with
  | out => cases spl <;> trivial
  | empty | entered | armed => cases stands
  | released =>
    obtain ⟨owned, still, asked⟩ := stands
    have deep : pc ≠ .lowPost → 0 < m.env.spldepth := fun apart => owned.resolve_right apart
    have back : m.env.splSemaphore = some .main → ∀ env' : Env, env'.shouldWakeup = m.env.shouldWakeup →
        { m with env := env', main := { m.main with spl := none } }.Alarmed := by
      intro mine env' same
      refine ⟨same.trans asked, ?_, ?_⟩
      · intro woken
        rw [still] at woken
        cases woken
      · intro i past
        exact absurd past (unchecked sem mine i)
    cases pc with
    | highMask | lowMask =>
      cases ran
      split
      · exact back (sem.deep (deep (by simp))) _ rfl
      · exact ⟨.inl (deep (by simp)), still, asked⟩
    | highDepth | highWait => cases ran; exact ⟨.inl (deep (by simp)), still, asked⟩
    | highCount => cases ran; exact back (sem.deep (deep (by simp))) _ rfl
    | lowDepth =>
      rw [Env.splStep] at ran
      split at ran
      · cases ran
      · cases ran
        exact ⟨.inl (deep (by simp)), still, asked⟩
    | lowCount =>
      cases ran
      dsimp only
      split
      · exact ⟨.inr rfl, still, asked⟩
      · exact back (sem.deep (deep (by simp))) _ rfl
    | lowPost => cases ran; exact back (sem.place _ at_).1 _ rfl

theorem stands_setStack {rest : List (Code Instr)} (stands : m.Stands spl p) :
    (m.setStack rest).Stands spl p := by
  cases spl with
  | none =>
    cases p with
    | released => exact ⟨stands.asked, stands.woken, stands.checked⟩
    | _ => exact stands
  | some pc => cases p <;> exact stands

theorem stands_exec {instr : Instr} {p' : IdlePoint} (idle : m.main.spl = none)
    (stands : m.Stands none p) (leads : idleEffect instr p p') (ran : m.exec to_ instr = .ok next) :
    next.Stands next.main.spl p' := by
  have outside : p' = .out → next.Stands next.main.spl p' := by
    rintro rfl
    cases next.main.spl <;> trivial
  cases instr with
  | runqEmpty =>
    cases ran
    subst leads
    dsimp only
    rw [idle]
    exact fun _ => rfl
  | cpuBlock =>
    obtain ⟨rfl, rfl⟩ := leads
    rw [exec] at ran
    obtain ⟨_, asserted, ran⟩ := bind_eq_ok ran
    have deep : 0 < m.env.spldepth := by simpa using bmkAssert_eq_ok asserted
    cases ran
    rw [idle]
    exact ⟨deep, stands deep⟩
  | setWakeup value =>
    cases value with
    | true =>
      obtain ⟨rfl, rfl⟩ := leads
      obtain ⟨deep, still⟩ := stands
      cases ran
      dsimp only
      rw [idle]
      exact ⟨deep, still, rfl⟩
    | false => exact outside leads
  | splx =>
    by_cases armed : p = .armed
    · subst armed
      obtain ⟨deep, still, asked⟩ := stands
      cases ran
      subst leads
      exact ⟨.inl deep, still, asked⟩
    · exact outside (by rw [show p' = _ from leads, if_neg armed])
  | wait => exact outside leads.2
  | splhigh | queues | switch | caller => exact outside leads
  | dead => cases ran

theorem mainStep (inv : IdleInv m) {choice : Bool} (enabled : m.Enabled (.main choice to_))
    (ran : m.mainStep choice to_ = .ok next) : IdleInv next := by
  have sem := inv.sem.mainStep enabled ran
  obtain ⟨p, safe, stands⟩ := inv.here
  rcases mainStep_cases ran with ⟨pc, env, spl, at_, stepped, is⟩ | ⟨rest, at_, steps, is⟩ |
    ⟨instr, rest, at_, steps, stepped⟩
  · subst is
    rw [at_] at stands
    exact ⟨sem, ⟨p, safe, stands_splStep inv.sem at_ stands stepped⟩, inv.others⟩
  · subst is
    refine ⟨sem, ⟨p, ?_, stands_setStack stands⟩, ?_⟩
    · rw [setStack_self]
      exact safe.next_none steps
    · intro t apart
      rw [m.setStack_of_ne rest apart]
      exact inv.others t apart
  · rw [at_] at stands
    obtain ⟨p', leads, safe'⟩ := safe.next_some steps
    obtain ⟨stack, current⟩ := SplInv.exec_stack stepped
    have stands' := stands_exec (m := m.setStack rest) at_ (stands_setStack stands) leads stepped
    have mine : next.main.stack m.main.current = rest := by
      rw [stack]
      exact m.setStack_self rest
    have theirs : ∀ t, t ≠ m.main.current → Safe idleEffect (next.main.stack t) .out := by
      intro t apart
      rw [stack, m.setStack_of_ne rest apart]
      exact inv.others t apart
    rcases current with same | ⟨rfl, -⟩
    · refine ⟨sem, ⟨p', ?_, stands'⟩, ?_⟩
      · rw [same, show (m.setStack rest).main.current = m.main.current from rfl, mine]
        exact safe'
      · intro t apart
        rw [same] at apart
        exact theirs t apart
    · -- whoever is switched to is not on the way to a wait
      have out : p' = .out := leads
      subst out
      have all : ∀ t, Safe idleEffect (next.main.stack t) .out := by
        intro t
        by_cases here : t = m.main.current
        · rw [here, mine]
          exact safe'
        · exact theirs t here
      exact ⟨sem, ⟨.out, all _, stands'⟩, fun t _ => all t⟩

theorem step (inv : IdleInv m) {event : MachineEvent} (enabled : m.Enabled event)
    (ran : m.step event = .ok next) : IdleInv next := by
  cases event with
  | main choice to_ => exact inv.mainStep enabled ran
  | irq i choice =>
    obtain ⟨env, woken, pc, move, is⟩ := inv.sem.irqStep_cases enabled ran
    obtain ⟨p, safe, stands⟩ := inv.here
    rw [is]
    exact ⟨inv.sem.irqMoved move, ⟨p, safe, stands_irqMoved inv.sem move stands⟩, inv.others⟩
  | timer =>
    have sem := inv.sem.step enabled ran
    obtain ⟨p, safe, stands⟩ := inv.here
    cases ran
    refine ⟨sem, ⟨p, safe, ?_⟩, inv.others⟩
    cases spl : m.main.spl with
    | none =>
      rw [spl] at stands
      cases p with
      | released => exact ⟨stands.asked, fun _ => rfl, fun _ _ => rfl⟩
      | _ => exact stands
    | some pc =>
      rw [spl] at stands
      cases p <;> exact stands

theorem boot (main isr : Tid) : IdleInv (Machine.boot main isr) := by
  have everywhere : ∀ t, Safe idleEffect ((Machine.boot main isr).main.stack t) .out := by
    intro t
    by_cases here : t = isr
    · have is : (Machine.boot main isr).main.stack t = [doisr] := by simp [Machine.boot, here]
      rw [is]
      exact Triple.safe Roams.doisr trivial
    · have is : (Machine.boot main isr).main.stack t = [threadBody] := by simp [Machine.boot, here]
      rw [is]
      exact Triple.safe Roams.threadBody trivial
  exact ⟨SemInv.boot main isr, ⟨.out, everywhere _, trivial⟩, fun t _ => everywhere t⟩

theorem awake (inv : IdleInv m) (at_ : m.At .wait) (clear : m.env.timerNtfn = false) :
    m.woken = false := by
  obtain ⟨idle, rest, top⟩ := at_
  obtain ⟨p, safe, stands⟩ := inv.here
  rw [top] at safe
  obtain ⟨p', ⟨rfl, -⟩, -⟩ := safe
  rw [idle] at stands
  rw [← Bool.not_eq_true]
  intro woken
  rw [stands.woken woken] at clear
  cases clear

end IdleInv

/-- However it is interleaved with the interrupt
threads: when it is blocked on `timer_ntfn`, with the notification clear, no interrupt has put a
thread on `runq` since `runq` was found empty. -/
theorem idle_never_oversleeps (main isr : Tid) :
    ∀ events final, Admissible Machine.Enabled Machine.step events (Machine.boot main isr) →
      run Machine.step events (Machine.boot main isr) = .ok final →
      final.At .wait → final.env.timerNtfn = false → final.woken = false := by
  intro events final allowed ran
  have reached : IdleInv final := run_reaches
    (fun _ _ _ inv enabled stepped => inv.step enabled stepped)
    events _ final (IdleInv.boot main isr) allowed ran
  exact reached.awake

def sleepRun : List MachineEvent :=
  idleRun ++ [true, true, false, false, true, true, true, true, true, true, true, true, true].map
    (.main · 2) ++ List.replicate 4 (.irq .stdio true)

theorem idle_never_oversleeps_signal :
    ∃ final, run Machine.step sleepRun (Machine.boot 1 9) = .ok final ∧
      final.At .wait ∧ final.irq .stdio = .wakeSignal ∧ final.woken = false := by
  have evaluated : Admissible Machine.Enabled step sleepRun (Machine.boot 1 9) ∧
      ∃ final ∈ (run step sleepRun (Machine.boot 1 9)).toOption,
        final.At .wait ∧ final.irq .stdio = .wakeSignal ∧ final.env.timerNtfn = false := by
    decide +kernel
  obtain ⟨allowed, final, reached, waits, signals, clear⟩ := evaluated
  have ran := eq_ok_of_mem reached
  exact ⟨final, ran, waits, signals, idle_never_oversleeps 1 9 sleepRun final allowed ran waits clear⟩

end Rumprun.Sel4
