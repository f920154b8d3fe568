import Rumprun.Core.Platform
import Mathlib.Data.Finset.Basic

/-! # The thread scheduler, `lib/libbmk_core/sched.c`

A thread is named by the address of its `struct bmk_thread`; using an address without
an allocated struct is `Stop.undefined`, as is `TAILQ_REMOVE` of an element that is not
on the queue. Functions that can switch threads are cut where they call `schedule()`,
and `schedule()` itself into one turn of its loop, the switch, and the reaper.
Everything is entered at spl0. -/

namespace Rumprun.Core.Scheduler
open Function

abbrev Tid := Nat

/-- The heads `runq`, `timeq` and `blockq`, and the bits of `THR_QMASK`. -/
inductive Queue where
  | runq
  | timeq
  | blockq
  deriving DecidableEq, Repr

structure Flags where
  qmask : Finset Queue
  running : Bool
  timedout : Bool
  mustjoin : Bool
  joined : Bool
  extstack : Bool
  dead : Bool
  blockprep : Bool
  deriving DecidableEq

def Flags.zero : Flags :=
  { qmask := ∅, running := false, timedout := false, mustjoin := false, joined := false,
    extstack := false, dead := false, blockprep := false }

/-- A value as a `bmk_time_t`, which has 64 bits. -/
def toTime (x : Int) : Int := x.bmod (2 ^ 64)

def inftime : Int := -1

def blocktimeMax : Int := 1000 * 1000 * 1000

def etimedout : Nat := 60

structure Thread where
  wakeupTime : Int
  flags : Flags
  stackbase : Nat
  /-- `bt_tcb.btcb_tp`, where the thread's TLS block is. -/
  tp : Nat
  deriving DecidableEq

structure JoinWaiter where
  thread : Tid
  wanted : Tid
  deriving DecidableEq, Repr

structure Sched where
  thread : Tid → Thread
  live : Tid → Bool
  queue : Queue → List Tid
  threadq : List Tid
  zombieq : List Tid
  joinwq : List JoinWaiter
  current : Tid

/-- What the reaper hands back: the stack of a thread, or its struct. -/
inductive Freed where
  | stack (thread : Tid) (base : Nat)
  | thread (thread : Tid)
  deriving DecidableEq, Repr

/-- What one turn of the loop of `schedule` decides. -/
inductive Turn where
  | run (next : Tid)
  | block (waketime : Int)
  deriving DecidableEq, Repr

def tailqRemove {α : Type} [DecidableEq α] (queue : List α) (element : α) : Except Stop (List α) :=
  if element ∈ queue then .ok (queue.erase element)
  else .error (.undefined "TAILQ_REMOVE of an element that is not on the queue")

namespace Sched

def deref (s : Sched) (t : Tid) : Except Stop Thread :=
  if s.live t = true then .ok (s.thread t)
  else .error (.undefined "access to a thread that is not allocated")

def store (s : Sched) (t : Tid) (thread : Thread) : Sched :=
  { s with thread := update s.thread t thread }

def setQueue (s : Sched) (q : Queue) (threads : List Tid) : Sched :=
  { s with queue := update s.queue q threads }

/-! ## Waking -/

/-- The tail of `set_runnable`: the thread leaves `tq` for the run queue. -/
def moveToRunq (s : Sched) (t : Tid) (tq : Queue) : Except Stop Sched := do
  let thread ← s.deref t
  let rest ← tailqRemove (s.queue tq) t
  let s := (s.setQueue tq rest).store t
    { thread with flags := { thread.flags with qmask := {.runq} } }
  return s.setQueue .runq (s.queue .runq ++ [t])

def setRunnable (s : Sched) (t : Tid) : Except Stop Sched := do
  let thread ← s.deref t
  let tflags := thread.flags
  if .runq ∈ tflags.qmask then return s
  else if tflags.qmask = {.timeq} then s.moveToRunq t .timeq
  else if tflags.qmask = {.blockq} then s.moveToRunq t .blockq
  else if tflags.qmask = ∅ ∧ tflags.running = true then return s
  else .error (.halt "invalid thread queue")

def bmkSchedWake (s : Sched) (t : Tid) : Except Stop Sched := do
  let thread ← s.deref t
  (s.store t { thread with wakeupTime := inftime }).setRunnable t

/-! ## Blocking -/

/-- `TAILQ_INSERT_BEFORE` the first element that is later, or nothing if there is none. -/
def insertBefore (later : Tid → Bool) (t : Tid) : List Tid → Option (List Tid)
  | [] => none
  | iter :: rest =>
    if later iter = true then some (t :: iter :: rest)
    else (insertBefore later t rest).map (iter :: ·)

def timeqSortedInsert (s : Sched) (t : Tid) : Except Stop Sched := do
  let time := (s.thread t).wakeupTime
  bmkAssert (time ≠ inftime) "thread->bt_wakeup_time != BMK_SCHED_BLOCK_INFTIME"
  match (s.queue .timeq).getLast? with
  | none => return s.setQueue .timeq [t]
  | some last =>
    match insertBefore (fun iter => time < (s.thread iter).wakeupTime) t (s.queue .timeq) with
    | some timeq => return s.setQueue .timeq timeq
    | none => do
      bmkAssert ((s.thread last).wakeupTime ≤ time)
        "TAILQ_LAST(&timeq, threadqueue)->bt_wakeup_time <= thread->bt_wakeup_time"
      return s.setQueue .timeq (s.queue .timeq ++ [t])

def clearRunnable (s : Sched) : Except Stop Sched := do
  let t := s.current
  let thread ← s.deref t
  bmkAssert thread.flags.running "thread->bt_flags & THR_RUNNING"
  bmkAssert (.runq ∉ thread.flags.qmask) "(thread->bt_flags & THR_RUNQ) == 0"
  let newfl := fun q => { thread.flags with qmask := insert q thread.flags.qmask }
  if thread.wakeupTime ≠ inftime then do
    let s ← s.timeqSortedInsert t
    return s.store t { thread with flags := newfl .timeq }
  else
    return (s.setQueue .blockq (s.queue .blockq ++ [t])).store t
      { thread with flags := newfl .blockq }

def bmkSchedBlockprepareTimeout (s : Sched) (deadline : Int) : Except Stop Sched := do
  let t := s.current
  let thread ← s.deref t
  bmkAssert (!thread.flags.blockprep) "(thread->bt_flags & THR_BLOCKPREP) == 0"
  let s := s.store t
    { thread with wakeupTime := deadline, flags := { thread.flags with blockprep := true } }
  s.clearRunnable

def bmkSchedBlockprepare (s : Sched) : Except Stop Sched := s.bmkSchedBlockprepareTimeout inftime

/-- `bmk_sched_block` up to its call of `schedule`. -/
def bmkSchedBlock (s : Sched) : Except Stop Sched := do
  let thread ← s.deref s.current
  bmkAssert (!thread.flags.timedout) "(thread->bt_flags & THR_TIMEDOUT) == 0"
  bmkAssert thread.flags.blockprep "thread->bt_flags & THR_BLOCKPREP"
  return s

/-- `bmk_sched_block` after `schedule` has returned, with its return value. -/
def bmkSchedBlockReturn (s : Sched) : Except Stop (Sched × Nat) := do
  let thread ← s.deref s.current
  let tflags := thread.flags
  let s := s.store s.current
    { thread with flags := { tflags with timedout := false, blockprep := false } }
  return (s, if tflags.timedout = true then etimedout else 0)

/-! ## `schedule()` -/

/-- The loop over the timeout queue; each turn takes one thread off that queue, so its length
is fuel enough. -/
def expireTimeouts (curtime : Int) : Nat → Int → Sched → Except Stop (Sched × Int)
  | fuel, waketime, s =>
    match s.queue .timeq with
    | [] => .ok (s, waketime)
    | t :: _ => do
      let thread ← s.deref t
      if thread.wakeupTime ≤ curtime then
        match fuel with
        | 0 => .error (.undefined "the timeout loop does not end")
        | fuel + 1 => do
          let s ← (s.store t
            { thread with flags := { thread.flags with timedout := true } }).bmkSchedWake t
          expireTimeouts curtime fuel waketime s
      else .ok (s, if thread.wakeupTime < waketime then thread.wakeupTime else waketime)

/-- One turn of the `for (;;)` loop, up to `bmk_platform_cpu_block` or the `break`. -/
def scheduleTurn (s : Sched) (curtime : Int) : Except Stop (Sched × Turn) := do
  let waketime := curtime + blocktimeMax
  let (s, waketime) ← s.expireTimeouts curtime (s.queue .timeq).length waketime
  match s.queue .runq with
  | next :: _ => do
    let thread ← s.deref next
    bmkAssert (.runq ∈ thread.flags.qmask) "next->bt_flags & THR_RUNQ"
    bmkAssert (!thread.flags.dead) "(next->bt_flags & THR_DEAD) == 0"
    return (s, .run next)
  | [] => return (s, .block waketime)

def schedSwitch (s : Sched) (next : Tid) : Except Stop Sched := do
  let thread ← s.deref next
  bmkAssert thread.flags.running "next->bt_flags & THR_RUNNING"
  bmkAssert (thread.flags.qmask = ∅) "(next->bt_flags & THR_QMASK) == 0"
  return { s with current := next }

/-- `schedule` from where it is committed to `next`, up to the switch. -/
def scheduleCommit (s : Sched) (next : Tid) : Except Stop Sched := do
  let prev := s.current
  let prevThread ← s.deref prev
  let s := s.store prev { prevThread with flags := { prevThread.flags with running := false } }
  let runq ← tailqRemove (s.queue .runq) next
  let nextThread ← s.deref next
  let s := (s.setQueue .runq runq).store next { nextThread with
    flags := { nextThread.flags with
      qmask := nextThread.flags.qmask.erase .runq, running := true } }
  if prev ≠ next then s.schedSwitch next else return s

def reapLoop : List Tid → Sched → Except Stop (Sched × List Freed)
  | [], s => .ok (s, [])
  | t :: rest, s => do
    let thread ← s.deref t
    let stackfree := if thread.flags.extstack = true then [] else [.stack t thread.stackbase]
    let s := { s with zombieq := rest, live := update s.live t false }
    let (s, freed) ← reapLoop rest s
    return (s, stackfree ++ .thread t :: freed)

/-- `schedule` after the switch. -/
def reaper (s : Sched) : Except Stop (Sched × List Freed) := reapLoop s.zombieq s

/-- `bmk_sched_yield` up to its call of `schedule`. -/
def bmkSchedYield (s : Sched) : Except Stop Sched := do
  let t := s.current
  let thread ← s.deref t
  bmkAssert thread.flags.running "thread->bt_flags & THR_RUNNING"
  let s := s.store t { thread with
    flags := { thread.flags with running := false, qmask := insert .runq thread.flags.qmask } }
  return s.setQueue .runq (s.queue .runq ++ [t])

/-! ## Creating, joining, exiting -/

/-- `bmk_sched_create_withtls`: `t` is the struct `bmk_xmalloc_bmk` returned, `pages` what
`stackalloc` gets from `bmk_pgalloc` if it is called. -/
def bmkSchedCreateWithtls (s : Sched) (t : Tid) (joinable : Bool) (stackBase stackSize pages : Nat)
    (tlsarea : Nat) : Except Stop Sched := do
  if stackBase = 0 then bmkAssert (stackSize = 0) "stack_size == 0"
  let thread : Thread :=
    { wakeupTime := inftime
      flags := { Flags.zero with
        extstack := stackBase ≠ 0, mustjoin := joinable, qmask := {.runq} }
      stackbase := if stackBase = 0 then pages else stackBase
      tp := tlsarea }
  let s := { s.store t thread with
    live := update s.live t true, threadq := s.threadq ++ [t] }
  return s.setQueue .runq (s.queue .runq ++ [t])

/-- `bmk_sched_join` up to its loop. -/
def bmkSchedJoin (s : Sched) (joinable : Tid) : Except Stop Sched := do
  let thread ← s.deref joinable
  bmkAssert thread.flags.mustjoin "joinable->bt_flags & THR_MUSTJOIN"
  return s

/-- The test of the loop of `bmk_sched_join`; when the joinee has been seen, `THR_MUSTJOIN` is
cleared in the same critical section. -/
def joinTest (s : Sched) (joinable : Tid) : Except Stop (Sched × Bool) := do
  let thread ← s.deref joinable
  if thread.flags.joined = true then
    return (s.store joinable { thread with flags := { thread.flags with mustjoin := false } }, true)
  else return (s, false)

def joinRegister (s : Sched) (joinable : Tid) : Sched :=
  { s with joinwq := s.joinwq ++ [{ thread := s.current, wanted := joinable }] }

def joinUnlink (s : Sched) (joinable : Tid) : Except Stop Sched := do
  let joinwq ← tailqRemove s.joinwq { thread := s.current, wanted := joinable }
  return { s with joinwq := joinwq }

/-- The test of the loop of `bmk_sched_exit_withtls`: `true` if the thread has to wait for its
joiner, having set `THR_JOINED`. -/
def exitTest (s : Sched) : Except Stop (Sched × Bool) := do
  let thread ← s.deref s.current
  if thread.flags.mustjoin = true then
    return (s.store s.current { thread with flags := { thread.flags with joined := true } }, true)
  else return (s, false)

/-- Wake the joiner that is already there, if there is one. -/
def exitSignal (s : Sched) : Except Stop Sched :=
  match s.joinwq.find? fun jw => jw.wanted = s.current with
  | some jw => s.bmkSchedWake jw.thread
  | none => .ok s

/-- `bmk_sched_exit_withtls` after its loop, up to the call of `schedule`. -/
def exitDie (s : Sched) : Except Stop Sched := do
  let t := s.current
  let thread ← s.deref t
  bmkAssert (thread.flags.qmask = ∅) "(thread->bt_flags & THR_QMASK) == 0"
  let threadq ← tailqRemove s.threadq t
  let s := s.store t { thread with flags := { thread.flags with dead := true, running := false } }
  return { s with threadq := threadq, zombieq := t :: s.zombieq }

end Sched

def Sched.boot : Sched :=
  { thread := fun _ => { wakeupTime := 0, flags := Flags.zero, stackbase := 0, tp := 0 }
    live := fun _ => false
    queue := fun _ => []
    threadq := []
    zombieq := []
    joinwq := []
    current := 0 }

/-- `bmk_sched_startmain`: the main thread at `main`, its stack and its TLS block are fresh
memory. The init thread lives on the boot stack and is on no queue. -/
def Sched.bmkSchedStartmain (s : Sched) (main stack stackSize tlsarea : Nat) : Except Stop Sched := do
  let s ← s.bmkSchedCreateWithtls main false stack stackSize 0 tlsarea
  let runq ← tailqRemove (s.queue .runq) main
  let thread ← s.deref main
  let s := (s.setQueue .runq runq).store main { thread with
    flags := { thread.flags with qmask := thread.flags.qmask.erase .runq, running := true } }
  s.schedSwitch main

end Rumprun.Core.Scheduler
