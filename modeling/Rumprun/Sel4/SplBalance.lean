import Rumprun.Sel4.SplSemaphore

/-! # The depth of the interrupt mask

`env.spldepth` is one counter for all rump threads. Each operation, as a program,
takes the depth back to where it was, and switches only at depth 0; so a thread that is
not running goes on at depth 0, whoever runs in between. -/

namespace Rumprun.Sel4
open Core StackPrograms StepRuns Function Machine
variable {i : Irq} {env env' : Env} {woken woken' : Bool} {place pc : IrqPc}

/-- Where an instruction may stand, and the depth after it. -/
def depthEffect : Instr → Nat → Nat → Prop
  | .splhigh, before, after => after = before + 1
  | .splx, before, after => before = after + 1
  | .queues, before, after => 0 < before ∧ after = before
  | .runqEmpty, before, after => before = 1 ∧ after = 1
  | .cpuBlock, before, after => before = 1 ∧ after = 1
  | .setWakeup _, before, after => after = before
  | .wait, before, after => before = 0 ∧ after = 0
  | .switch, before, after => before = 0 ∧ after = 0
  | .caller, before, after => before = 0 ∧ after = 0
  | .dead, before, after => before = 0 ∧ after = 0

/-- The program leads from one depth to another. -/
def Depth (before : Nat) (code : Code Instr) (after : Nat) : Prop :=
  Triple depthEffect (· = before) code (· = after)

namespace Depth
open Code Instr
variable {instr : Instr} {before after d : Nat} {rest : List (Code Instr)}

theorem prim (leads : depthEffect instr before after) : Depth before (prim instr) after := by
  apply Triple.prim
  rintro d rfl
  exact ⟨after, leads, rfl⟩

theorem nil : Depth d (all []) d := Triple.all_nil

theorem cons {code : Code Instr} {mid : Nat} (one : Depth before code mid)
    (two : Depth mid (all rest) after) : Depth before (all (code :: rest)) after := Triple.all_cons one two

theorem skip : Depth d skip d := Triple.skip

theorem either {left right : Code Instr} (one : Depth before left after)
    (two : Depth before right after) : Depth before (either left right) after :=
  Triple.either one two

theorem loop {body : Code Instr} (kept : Depth d body d) : Depth d (loop body) d := Triple.loop kept

theorem high (two : Depth (d + 1) (all rest) after) : Depth d (all (.prim splhigh :: rest)) after :=
  cons (prim rfl) two

theorem low (two : Depth d (all rest) after) : Depth (d + 1) (all (.prim splx :: rest)) after :=
  cons (prim rfl) two

theorem change : Depth (d + 1) (.prim queues) (d + 1) := prim ⟨Nat.succ_pos d, rfl⟩

theorem set (value : Bool) : Depth d (.prim (setWakeup value)) d := prim rfl

theorem stand (leads : depthEffect instr d d) : Depth d (.prim instr) d := prim leads

theorem critical (d : Nat) : Depth d (all [.prim splhigh, .prim queues, .prim splx]) d := by
  apply high
  apply cons change
  apply low
  exact nil

theorem bmkSchedWake (d : Nat) : Depth d bmkSchedWake d := either skip (critical d)

theorem bmkSchedCreate (d : Nat) : Depth d bmkSchedCreate d := critical d

theorem bmkSchedBlockprepare (d : Nat) : Depth d bmkSchedBlockprepare d := critical d

theorem bmkPlatformCpuBlock : Depth 1 bmkPlatformCpuBlock 1 := by
  refine cons (stand ⟨rfl, rfl⟩) (cons (either skip (either ?_ ?_)) nil)
  · apply low
    apply high
    exact nil
  · apply cons (set true)
    apply low
    refine cons (stand ⟨rfl, rfl⟩) (cons (set false) ?_)
    apply high
    exact nil

theorem schedule : Depth 0 schedule 0 := by
  have turn : Depth 1 (all [.loop Sel4.bmkSchedWake, .prim runqEmpty, Sel4.bmkPlatformCpuBlock]) 1 := by
    apply cons (loop (bmkSchedWake 1))
    exact cons (stand ⟨rfl, rfl⟩) (cons bmkPlatformCpuBlock nil)
  apply high
  apply cons (loop turn)
  apply cons (loop (bmkSchedWake 1))
  apply cons change
  apply low
  exact cons (either skip (stand ⟨rfl, rfl⟩)) nil

theorem bmkSchedYield : Depth 0 bmkSchedYield 0 := by
  apply high
  apply cons change
  apply low
  exact cons schedule nil

theorem bmkSchedJoin : Depth 0 bmkSchedJoin 0 := by
  have turn : Depth 1 (all [.prim splx, Sel4.bmkSchedBlockprepare, bmkSchedBlock, .prim splhigh]) 1 := by
    apply low
    apply cons (bmkSchedBlockprepare 0)
    apply cons schedule
    apply high
    exact nil
  apply high
  apply cons (loop turn)
  apply low
  exact cons (bmkSchedWake 0) nil

theorem bmkSchedExit : Depth 0 bmkSchedExit 0 := by
  have turn : Depth 1 (all [.prim splx, .either .skip Sel4.bmkSchedWake, Sel4.bmkSchedBlockprepare,
      bmkSchedBlock, .prim splhigh]) 1 := by
    apply low
    apply cons (either skip (bmkSchedWake 0))
    apply cons (bmkSchedBlockprepare 0)
    apply cons schedule
    apply high
    exact nil
  apply high
  apply cons (loop turn)
  apply low
  apply cons schedule
  exact cons (stand ⟨rfl, rfl⟩) nil

theorem operation : Depth 0 operation 0 :=
  either (bmkSchedCreate 0) (either (bmkSchedBlockprepare 0) (either schedule
    (either (bmkSchedWake 0) (either bmkSchedYield bmkSchedJoin))))

theorem calls : Depth 0 calls 0 := by
  have turn : Depth 0 (all [.prim caller, Sel4.operation]) 0 :=
    cons (stand ⟨rfl, rfl⟩) (cons operation nil)
  apply cons (loop turn)
  exact cons (stand ⟨rfl, rfl⟩) nil

theorem threadBody : Depth 0 threadBody 0 := cons calls (cons bmkSchedExit nil)

theorem doisr : Depth 0 doisr 1 := by
  have sleep : Depth 1 (all [Sel4.bmkSchedBlockprepare, .prim splx, bmkSchedBlock, .prim splhigh]) 1 := by
    apply cons (bmkSchedBlockprepare 1)
    apply low
    apply cons schedule
    apply high
    exact nil
  have turn : Depth 1 (all [.prim splx, Sel4.calls, .prim splhigh, .prim splx, Sel4.calls,
      .prim splhigh, .either .skip (all [Sel4.bmkSchedBlockprepare, .prim splx, bmkSchedBlock,
        .prim splhigh])]) 1 := by
    apply low
    apply cons calls
    apply high
    apply low
    apply cons calls
    apply high
    exact cons (either skip sleep) nil
  apply cons calls
  apply high
  exact cons (loop turn) nil

end Depth

/-! ## The invariant -/

/-- From where `env.mask_the_mask` is set to where it is cleared, unless it is found cleared in
between. -/
def IrqPc.marks : IrqPc → Bool
  | .isrRecord => true
  | .isrWake => true
  | .isrHigh .highMask => true
  | .isrQueues => true
  | .isrLow .lowMask => true
  | .semPost => true
  | .maskClear => true
  | _ => false

/-- The depth that the rest of the running thread's program starts from. -/
def Settles (depth : Nat) : Option SplPc → Nat → Prop
  | none, after => depth = after
  | some .highMask, after => after = depth + 1
  | some .highDepth, after => after = depth + 1
  | some .highWait, after => after = depth + 1
  | some .highCount, after => after = depth + 1
  | some .lowMask, after => depth = after + 1
  | some .lowDepth, after => depth = after + 1
  | some .lowCount, after => depth = after + 1
  | some .lowPost, after => depth = after

structure SplInv (m : Machine) : Prop where
  sem : SemInv m
  marked : m.env.maskTheMask = true → ∃ i, (m.irq i).marks = true
  balanced : ∃ d, Safe depthEffect (m.main.stack m.main.current) d ∧ Settles m.env.spldepth m.main.spl d
  others : ∀ t, t ≠ m.main.current → Safe depthEffect (m.main.stack t) 0

theorem IrqMove.marks (move : IrqMove i env woken place env' woken' pc)
    (set : env'.maskTheMask = true) :
    pc.marks = true ∨ env.maskTheMask = true ∧ place.marks = false := by
  cases move with
  | start | clear => cases set
  | unmasked clear | expose clear => rw [clear] at set; cases set
  | notified | take | depth | asked | unasked | signal | stuck => exact .inr ⟨set, rfl⟩
  | _ => exact .inl rfl

theorem IrqMove.spldepth (move : IrqMove i env woken place env' woken' pc) :
    env'.spldepth = env.spldepth := by
  cases move <;> rfl

namespace SplInv
variable {m next : Machine} {env : Env} {to_ : Tid} {instr : Instr}

theorem unmasked (inv : SplInv m) (quiet : ∀ i, ¬ m.Runnable i) : m.env.maskTheMask = false := by
  rw [← Bool.not_eq_true]
  intro set
  obtain ⟨i, marks⟩ := inv.marked set
  apply quiet i
  rw [Machine.Runnable]
  cases place : m.irq i with
  | isrHigh pc =>
    rw [place] at marks
    cases pc with
    | highMask => simp [IrqPc.waitsSem]
    | _ => cases marks
  | _ => rw [place] at marks; simp_all [IrqPc.marks, IrqPc.waitsSem]

theorem irqMoved (inv : SplInv m) {i : Irq} {woken : Bool} {pc : IrqPc}
    (move : IrqMove i m.env m.woken (m.irq i) env woken pc) : SplInv (m.irqMoved i env woken pc) := by
  refine ⟨inv.sem.irqMoved move, ?_, ?_, inv.others⟩
  · intro set
    rcases move.marks set with here | ⟨was, elsewhere⟩
    · exact ⟨i, by simpa [Machine.irqMoved] using here⟩
    · obtain ⟨j, marks⟩ := inv.marked was
      have apart : j ≠ i := by
        rintro rfl
        rw [elsewhere] at marks
        cases marks
      exact ⟨j, by simpa [Machine.irqMoved, apart] using marks⟩
  · dsimp only [Machine.irqMoved]
    rw [move.spldepth]
    exact inv.balanced

theorem settles {env' : Env} {pc : SplPc} {spl : Option SplPc} {d : Nat}
    (unmasked : env.maskTheMask = false) (settles : Settles env.spldepth (some pc) d)
    (ran : env.splStep .main pc = .ok (env', spl)) :
    Settles env'.spldepth spl d ∧ env'.maskTheMask = env.maskTheMask := by
  cases pc with
  | highMask | lowMask =>
    cases ran
    rw [unmasked]
    exact ⟨settles, rfl⟩
  | highDepth =>
    cases ran
    split
    · exact ⟨settles, rfl⟩
    · exact ⟨settles, rfl⟩
  | highWait | lowPost => cases ran; exact ⟨settles, rfl⟩
  | highCount => cases ran; exact ⟨settles.symm, rfl⟩
  | lowDepth =>
    rw [Env.splStep] at ran
    split at ran
    · cases ran
    · cases ran
      exact ⟨settles, rfl⟩
  | lowCount =>
    cases ran
    have depth : env.spldepth - 1 = d := by
      rw [show env.spldepth = d + 1 from settles]
      rfl
    refine ⟨?_, rfl⟩
    dsimp only
    split
    · exact depth
    · exact depth

theorem exec_depth {before after : Nat} (leads : depthEffect instr before after)
    (depth : m.env.spldepth = before) (idle : m.main.spl = none) (ran : m.exec to_ instr = .ok next) :
    Settles next.env.spldepth next.main.spl after := by
  obtain ⟨-, -, same, -, spl⟩ := exec_frame ran
  rw [spl, same, depth]
  cases instr with
  | splhigh | splx => exact leads
  | queues => dsimp only; rw [idle]; exact leads.2.symm
  | setWakeup value => dsimp only; rw [idle]; exact leads.symm
  | _ => dsimp only; rw [idle]; exact leads.1.trans leads.2.symm

theorem exec_stack (ran : m.exec to_ instr = .ok next) :
    next.main.stack = m.main.stack ∧
      (next.main.current = m.main.current ∨ instr = .switch ∧ next.main.current = to_) := by
  cases instr with
  | cpuBlock =>
    rw [exec] at ran
    obtain ⟨-, -, ran⟩ := bind_eq_ok ran
    cases ran
    exact ⟨rfl, .inl rfl⟩
  | dead => cases ran
  | switch => cases ran; exact ⟨rfl, .inr ⟨rfl, rfl⟩⟩
  | _ => cases ran; exact ⟨rfl, .inl rfl⟩

theorem mainStep (inv : SplInv m) {choice : Bool} (enabled : m.Enabled (.main choice to_))
    (quiet : ∀ i, ¬ m.Runnable i) (ran : m.mainStep choice to_ = .ok next) : SplInv next := by
  have sem := inv.sem.mainStep enabled ran
  have unmasked := inv.unmasked quiet
  obtain ⟨d, safe, settled⟩ := inv.balanced
  rcases mainStep_cases ran with ⟨pc, env, spl, at_, stepped, is⟩ | ⟨rest, at_, steps, is⟩ |
    ⟨instr, rest, at_, steps, stepped⟩
  · subst is
    rw [at_] at settled
    obtain ⟨settled, mask⟩ := settles unmasked settled stepped
    refine ⟨sem, ?_, ⟨d, safe, settled⟩, inv.others⟩
    dsimp only
    rw [mask]
    exact inv.marked
  · subst is
    refine ⟨sem, inv.marked, ⟨d, ?_, settled⟩, ?_⟩
    · rw [setStack_self]
      exact safe.next_none steps
    · intro t apart
      rw [m.setStack_of_ne rest apart]
      exact inv.others t apart
  · rw [at_] at settled
    obtain ⟨d', leads, safe'⟩ := safe.next_some steps
    obtain ⟨irq, -, -, mask, -⟩ := exec_frame stepped
    obtain ⟨stack, current⟩ := exec_stack stepped
    have settled' := exec_depth (m := m.setStack rest) leads settled at_ stepped
    have mine : next.main.stack m.main.current = rest := by
      rw [stack]
      exact m.setStack_self rest
    have theirs : ∀ t, t ≠ m.main.current → Safe depthEffect (next.main.stack t) 0 := by
      intro t apart
      rw [stack, m.setStack_of_ne rest apart]
      exact inv.others t apart
    refine ⟨sem, ?_, ?_, ?_⟩
    · rw [irq, mask]
      exact inv.marked
    · refine ⟨d', ?_, settled'⟩
      rcases current with same | ⟨switches, there⟩
      · rw [same, show (m.setStack rest).main.current = m.main.current from rfl, mine]
        exact safe'
      · subst switches
        rw [leads.2] at safe' ⊢
        by_cases here : next.main.current = m.main.current
        · rw [here, mine]
          exact safe'
        · exact theirs _ here
    · intro t apart
      rcases current with same | ⟨switches, there⟩
      · rw [same] at apart
        exact theirs t apart
      · subst switches
        rw [leads.2] at safe'
        by_cases here : t = m.main.current
        · rw [here, mine]
          exact safe'
        · exact theirs t here

theorem step (inv : SplInv m) {event : MachineEvent} (allowed : m.Admits event)
    (ran : m.step event = .ok next) : SplInv next := by
  obtain ⟨enabled, scheduled⟩ := allowed
  cases event with
  | main choice to_ => exact inv.mainStep enabled scheduled ran
  | irq i choice =>
    obtain ⟨env, woken, pc, move, is⟩ := inv.sem.irqStep_cases enabled ran
    rw [is]
    exact inv.irqMoved move
  | timer =>
    have sem := inv.sem.step enabled ran
    cases ran
    exact ⟨sem, inv.marked, inv.balanced, inv.others⟩

theorem boot (main isr : Tid) : SplInv (Machine.boot main isr) := by
  have everywhere : ∀ t, Safe depthEffect ((Machine.boot main isr).main.stack t) 0 := by
    intro t
    by_cases here : t = isr
    · have is : (Machine.boot main isr).main.stack t = [doisr] := by simp [Machine.boot, here]
      rw [is]
      exact Triple.safe Depth.doisr rfl
    · have is : (Machine.boot main isr).main.stack t = [threadBody] := by simp [Machine.boot, here]
      rw [is]
      exact Triple.safe Depth.threadBody rfl
  refine ⟨SemInv.boot main isr, ?_, ⟨0, everywhere _, rfl⟩, fun t _ => everywhere t⟩
  intro marked
  cases marked

end SplInv

/-! ## The runs -/

/-- The depth where it matters, and the main side's next statement does not run out of it. -/
structure SplBalanced (m : Machine) : Prop where
  switch : m.At .switch → m.env.spldepth = 0
  cpuBlock : m.At .cpuBlock → m.env.spldepth = 1
  caller : m.At .caller → m.env.spldepth = 0
  /-- Between the wait and the count, and between the count and the post, the two differ. -/
  semaphore : m.main.spl ≠ some .highCount → m.main.spl ≠ some .lowPost →
    (m.env.splSemaphore = some .main ↔ 0 < m.env.spldepth)
  halt : ∀ choice to_, m.mainStep choice to_ ≠ .error (.halt "out of interrupt depth!")

namespace SplInv
variable {m : Machine}

theorem at_depth (inv : SplInv m) {instr : Instr} (at_ : m.At instr) :
    ∃ d, depthEffect instr m.env.spldepth d := by
  obtain ⟨idle, rest, top⟩ := at_
  obtain ⟨d, safe, settled⟩ := inv.balanced
  rw [idle] at settled
  rw [top] at safe
  obtain ⟨d', leads, -⟩ := safe
  rw [← show m.env.spldepth = d from settled] at leads
  exact ⟨d', leads⟩

theorem mainStep_no_halt (inv : SplInv m) (choice : Bool) (to_ : Tid) :
    m.mainStep choice to_ ≠ .error (.halt "out of interrupt depth!") := by
  obtain ⟨d, safe, settled⟩ := inv.balanced
  rw [Machine.mainStep]
  cases spl : m.main.spl with
  | some pc =>
    rw [spl] at settled
    dsimp only
    cases pc with
    | lowDepth =>
      rw [Env.splStep, if_neg (by rw [show m.env.spldepth = d + 1 from settled]; simp)]
      intro stops
      cases stops
    | _ => intro stops; cases stops
  | none =>
    dsimp only
    cases StackPrograms.next choice (m.main.stack m.main.current) with
    | none => intro stops; cases stops
    | some pair =>
      obtain ⟨instr, rest⟩ := pair
      cases instr with
      | none => intro stops; cases stops
      | some instr =>
        cases instr with
        | cpuBlock =>
          dsimp only [exec, bmkAssert]
          split
          · intro stops
            cases stops
          · simp
        | dead => simp [exec]
        | _ => intro stops; cases stops

theorem balance (inv : SplInv m) : SplBalanced m where
  switch := by
    intro at_
    obtain ⟨d, leads⟩ := inv.at_depth at_
    exact leads.1
  cpuBlock := by
    intro at_
    obtain ⟨d, leads⟩ := inv.at_depth at_
    exact leads.1
  caller := by
    intro at_
    obtain ⟨d, leads⟩ := inv.at_depth at_
    exact leads.1
  semaphore := by
    intro counted posted
    constructor
    · intro mine
      simpa [counted, posted] using inv.sem.taken mine
    · exact inv.sem.deep
  halt := inv.mainStep_no_halt

end SplInv

/-- Wherever a run of the operations gets to, with interrupts
that come as they like: the depth is 0 where threads are switched and where an operation has
returned, it is 1 where `bmk_platform_cpu_block` is entered, the semaphore is the main side's
exactly while the depth is above 0, and no `bmk_platform_splx` of an operation runs out of depth. -/
theorem spl_balanced (main isr : Tid) :
    ∀ events final, Admissible Machine.Admits Machine.step events (Machine.boot main isr) →
      run Machine.step events (Machine.boot main isr) = .ok final → SplBalanced final := by
  intro events final allowed ran
  have reached : SplInv final := run_reaches
    (fun _ _ _ inv admitted stepped => inv.step admitted stepped)
    events _ final (SplInv.boot main isr) allowed ran
  exact reached.balance

def idleRun : List MachineEvent :=
  .irq .pci false ::
    [true, true, true, true, true, true, false, false, true, true, true, true, true, true, true, true,
      true, true, false, true, true, true, true].map (.main · 2)

theorem spl_balanced_idle :
    ∃ final, run Machine.step idleRun (Machine.boot 1 9) = .ok final ∧ SplBalanced final ∧
      final.At .cpuBlock ∧ final.env.splSemaphore = some .main := by
  have evaluated : Admissible Machine.Admits step idleRun (Machine.boot 1 9) ∧
      ∃ final ∈ (run step idleRun (Machine.boot 1 9)).toOption,
        final.At .cpuBlock ∧ final.env.splSemaphore = some .main := by
    decide +kernel
  obtain ⟨allowed, final, reached, there⟩ := evaluated
  have ran := eq_ok_of_mem reached
  exact ⟨final, ran, spl_balanced 1 9 idleRun final allowed ran, there⟩

end Rumprun.Sel4
