import Rumprun.Core.Platform
import Rumprun.Lib.StepRuns

/-! # Programs and their main threads

`rumprun()` starts the main thread of a program and hangs a `struct rumprunner` on
the list `rumprunners`. The thread ends through `releaseme`, which counts it in
`rumprun_done`; the launching thread reaps it in `rumprun_wait`.

A step is what one thread does between two blocking pthread calls. No thread keeps
`w_mtx` over such a call, so the mutex has no state here. -/

namespace Rumprun.Base
open Core Function

abbrev RunnerAddr := Nat

abbrev Pthread := Nat

def execBackground : Nat := 0x01

def execPipe : Nat := 0x02

def rumprunnerDone : Nat := 0x10

def rumprunnerDaemon : Nat := 0x20

structure Rumprunner where
  rrMainthread : Pthread
  rrFlags : Nat
  deriving DecidableEq, Repr

def Rumprunner.isDone (r : Rumprunner) : Bool := r.rrFlags &&& rumprunnerDone ≠ 0

/-- Where the main thread of a program is. Outside of the functions of this file it runs the
program, or what `pthread_exit` does after the cleanup handlers. -/
inductive Place where
  | outside
  | releasing
  | daemonizing (rr : RunnerAddr)
  | ended
  deriving DecidableEq, Repr

structure MainThread where
  arg : RunnerAddr
  place : Place
  /-- `releaseme` is off the stack of cleanup handlers: it has run. -/
  released : Bool
  deriving DecidableEq, Repr

/-- Where the launching thread is. The two sleeps are in `pthread_cond_wait`. -/
inductive Launcher where
  | outside
  | launching (rr : RunnerAddr)
  | launchSleeps (rr : RunnerAddr) (woken : Bool)
  | finding
  | findSleeps (woken : Bool)
  | joining (rr : RunnerAddr) (thread : Pthread) (foreground : Bool)
  deriving DecidableEq, Repr

/-- `pthread_cond_broadcast(&w_cv)`. -/
def Launcher.broadcast : Launcher → Launcher
  | .launchSleeps rr _ => .launchSleeps rr true
  | .findSleeps _ => .findSleeps true
  | other => other

structure Programs where
  rumprunners : List RunnerAddr
  runner : RunnerAddr → Option Rumprunner
  rumprunDone : Int
  main : Pthread → Option MainThread
  launcher : Launcher
  /-- The programs are numbered as they start; the rest says what happened to them. -/
  started : Nat
  program : RunnerAddr → Nat
  finished : List Nat
  daemonized : List Nat
  reaped : List Nat
  /-- The programs whose foreground `rumprun()` has returned. -/
  returned : List Nat

inductive ProgramEvent where
  | rumprun (flags : Nat) (rr : RunnerAddr) (thread : Option Pthread)
  | getFinished
  | launcher
  | terminate (thread : Pthread)
  | releaseme (thread : Pthread)
  | ends (thread : Pthread)
  | daemon (thread : Pthread)
  | daemonize (thread : Pthread)
  deriving DecidableEq, Repr

def libcAssert (condition : Bool) (text : String) : Except Stop Unit :=
  if condition then .ok () else .error (.halt ("assertion \"" ++ text ++ "\" failed"))

theorem libcAssert_true (text : String) : libcAssert true text = .ok () := rfl

namespace Programs
variable (p : Programs)

def boot : Programs where
  rumprunners := []
  runner := fun _ => none
  rumprunDone := 0
  main := fun _ => none
  launcher := .outside
  started := 0
  program := fun _ => 0
  finished := []
  daemonized := []
  reaped := []
  returned := []

def deref (rr : RunnerAddr) : Except Stop Rumprunner :=
  match p.runner rr with
  | some r => .ok r
  | none => .error (.undefined "rumprunner")

def thread (t : Pthread) : Except Stop MainThread :=
  match p.main t with
  | some m => .ok m
  | none => .error (.undefined "pthread")

/-- A `LIST_FOREACH` with a `break`: the first runner that passes the test. -/
def listForeach (test : Rumprunner → Bool) : List RunnerAddr → Except Stop (Option RunnerAddr)
  | [] => .ok none
  | rr :: rest => do
    let r ← p.deref rr
    if test r then .ok (some rr) else listForeach test rest

/-- The runner that `rumprun()` makes, with the thread that runs `mainbouncer`. -/
def insert (flags : Nat) (rr : RunnerAddr) (t : Pthread) : Programs :=
  { p with
    rumprunners := rr :: p.rumprunners
    runner := update p.runner rr (some { rrMainthread := t, rrFlags := flags })
    main := update p.main t (some { arg := rr, place := .outside, released := false })
    program := update p.program rr p.started
    started := p.started + 1 }

def rumprun (flags : Nat) (rr : RunnerAddr) : Option Pthread → Programs
  -- `pthread_create` failed, and `rr` is freed again
  | none => p
  | some t =>
    if flags &&& (execBackground ||| execPipe) ≠ 0 then p.insert flags rr t
    else { p.insert flags rr t with launcher := .launching rr }

/-- `rumprun_wait` as far as its `pthread_join`. -/
def rumprunWait (rr : RunnerAddr) (foreground : Bool) : Except Stop Programs := do
  let r ← p.deref rr
  .ok { p with launcher := .joining rr r.rrMainthread foreground }

/-- `rumprun()` with `w_mtx`: the loop, and what follows it. -/
def launch (rr : RunnerAddr) : Except Stop Programs := do
  let r ← p.deref rr
  if r.rrFlags &&& (rumprunnerDone ||| rumprunnerDaemon) = 0 then
    .ok { p with launcher := .launchSleeps rr false }
  else if r.rrFlags &&& rumprunnerDone ≠ 0 then p.rumprunWait rr true
  else .ok { p with launcher := .outside, returned := p.program rr :: p.returned }

/-- `LIST_REMOVE` and `free`, after the thread was joined. -/
def remove (rr : RunnerAddr) (t : Pthread) (foreground : Bool) : Programs :=
  { p with
    rumprunners := p.rumprunners.erase rr
    runner := update p.runner rr none
    main := update p.main t none
    launcher := .outside
    reaped := p.program rr :: p.reaped
    returned := if foreground then p.program rr :: p.returned else p.returned }

def joined (rr : RunnerAddr) (t : Pthread) (foreground : Bool) : Except Stop Programs := do
  if rr ∈ p.rumprunners then
    libcAssert (0 < p.rumprunDone) "rumprun_done > 0"
    .ok { p.remove rr t foreground with rumprunDone := p.rumprunDone - 1 }
  else .error (.undefined "LIST_REMOVE")

/-- `rumprun_get_finished` as far as its `pthread_mutex_lock`. -/
def getFinished : Programs :=
  if p.rumprunners.isEmpty then p else { p with launcher := .finding }

/-- The rest of it, and the `rumprun_wait` that the main loop calls with its result. -/
def find : Except Stop Programs := do
  if p.rumprunDone = 0 then .ok { p with launcher := .findSleeps false }
  else
    match ← p.listForeach Rumprunner.isDone p.rumprunners with
    | none => .error (.halt "assertion \"rr\" failed")
    | some rr => p.rumprunWait rr false

def launcherGoes : Except Stop Programs :=
  match p.launcher with
  | .outside => .ok p
  | .launching rr => p.launch rr
  | .launchSleeps rr _ => p.launch rr
  | .finding => p.find
  | .findSleeps _ => p.find
  | .joining rr t foreground => p.joined rr t foreground

def setMain (t : Pthread) (m : MainThread) : Programs :=
  { p with main := update p.main t (some m) }

/-- `rr->rr_flags |= bit`, and the broadcast. -/
def raise (rr : RunnerAddr) (r : Rumprunner) (bit : Nat) : Programs :=
  { p with
    runner := update p.runner rr (some { r with rrFlags := r.rrFlags ||| bit })
    launcher := p.launcher.broadcast }

/-- The program returns, or calls `exit` or `pthread_exit`: the cleanup handler is popped and
locks `w_mtx`. -/
def terminate (t : Pthread) : Except Stop Programs := do
  let m ← p.thread t
  .ok (p.setMain t { m with place := .releasing })

def releaseme (t : Pthread) : Except Stop Programs := do
  let m ← p.thread t
  let r ← p.deref m.arg
  .ok { (p.raise m.arg r rumprunnerDone).setMain t { m with place := .outside, released := true } with
    rumprunDone := p.rumprunDone + 1
    finished := p.program m.arg :: p.finished }

def ends (t : Pthread) : Except Stop Programs := do
  let m ← p.thread t
  .ok (p.setMain t { m with place := .ended })

/-- `rumprun_daemon` as far as its `pthread_mutex_lock`. -/
def daemon (t : Pthread) : Except Stop Programs := do
  let m ← p.thread t
  match ← p.listForeach (fun r => r.rrMainthread == t) p.rumprunners with
  | none => .error (.halt "assertion \"rr\" failed")
  | some rr => .ok (p.setMain t { m with place := .daemonizing rr })

def daemonize (t : Pthread) : Except Stop Programs := do
  let m ← p.thread t
  match m.place with
  | .daemonizing rr => do
    let r ← p.deref rr
    .ok { (p.raise rr r rumprunnerDaemon).setMain t { m with place := .outside } with
      daemonized := p.program m.arg :: p.daemonized }
  | _ => .error (.undefined "place")

def step : ProgramEvent → Except Stop Programs
  | .rumprun flags rr thread => .ok (p.rumprun flags rr thread)
  | .getFinished => .ok p.getFinished
  | .launcher => p.launcherGoes
  | .terminate t => p.terminate t
  | .releaseme t => p.releaseme t
  | .ends t => p.ends t
  | .daemon t => p.daemon t
  | .daemonize t => p.daemonize t

/-- Whether the launching thread can go on. `pthread_cond_wait` may return without a broadcast;
`pthread_join` waits for the end of the thread. -/
def LauncherReady : Launcher → Prop
  | .outside => False
  | .joining _ t _ => ∃ m ∈ p.main t, m.place = .ended
  | _ => True

instance : ∀ launcher, Decidable (p.LauncherReady launcher) := by
  intro event
  unfold LauncherReady
  split <;> infer_instance

def isDaemonizing : Place → Bool
  | .daemonizing _ => true
  | _ => false

/-- What the allocator, libpthread and the cooperative schedule allow: memory and thread ids that
are in use are not given out again, and a thread goes on from where it is. The flags given to
`rumprun()` are a run mode. -/
def Admits : ProgramEvent → Prop
  | .rumprun flags rr thread =>
    p.launcher = .outside ∧ flags &&& (rumprunnerDone ||| rumprunnerDaemon) = 0 ∧
      p.runner rr = none ∧ ∀ t ∈ thread, p.main t = none
  | .getFinished => p.launcher = .outside
  | .launcher => p.LauncherReady p.launcher
  | .terminate t => ∃ m ∈ p.main t, m.place = .outside ∧ m.released = false
  | .releaseme t => ∃ m ∈ p.main t, m.place = .releasing
  | .ends t => ∃ m ∈ p.main t, m.place = .outside ∧ m.released = true
  | .daemon t => ∃ m ∈ p.main t, m.place = .outside
  | .daemonize t => ∃ m ∈ p.main t, isDaemonizing m.place = true

instance : ∀ event, Decidable (p.Admits event) := by
  intro event
  unfold Admits
  split <;> infer_instance

/-! ## What the functions return -/

section
variable {p} {rr : RunnerAddr} {r : Rumprunner}

theorem deref_eq (at_ : p.runner rr = some r) : p.deref rr = .ok r := by
  simp [deref, at_]

theorem thread_eq {t : Pthread} {m : MainThread} (at_ : p.main t = some m) : p.thread t = .ok m := by
  simp [thread, at_]

theorem listForeach_eq (test : Rumprunner → Bool) :
    ∀ {list : List RunnerAddr}, (∀ rr ∈ list, (p.runner rr).isSome = true) →
      p.listForeach test list = .ok (list.find? fun rr => (p.runner rr).any test) := by
  intro list
  induction list with
  | nil => intro _; rfl
  | cons rr rest ih =>
    intro live
    obtain ⟨r, at_⟩ := Option.isSome_iff_exists.mp (live rr List.mem_cons_self)
    rw [listForeach, deref_eq at_, ok_bind, List.find?_cons]
    simp only [at_, Option.any_some]
    cases test r with
    | true => rfl
    | false => exact ih fun other mem => live other (List.mem_cons_of_mem rr mem)

theorem rumprunWait_eq (at_ : p.runner rr = some r) (foreground : Bool) :
    p.rumprunWait rr foreground = .ok { p with launcher := .joining rr r.rrMainthread foreground } := by
  rw [rumprunWait, deref_eq at_]
  rfl

end
end Programs
end Rumprun.Base
