import Rumprun.Rumpuser.Mutex

/-! # Standard input on seL4, `platform/sel4/librumpsel4_stdio`

`sel4_stdio_open` and `sel4_stdio_read` for any number of threads, over the mutex
and the condition variable that the driver makes when standard input is opened.
The mutex is entered there and never left: a reader that finds no bytes gives it up
in `rumpuser_cv_wait`, whoever entered it, and comes back with it.

The circular buffer is shared with another seL4 process, which only adds to it. What is put
during a call of `rumpcomp_sel4_stdio_gets` counts as put before it, or after it. The calls
`circ_buf_*` come from a header of the environment; what is assumed of them is `CircBuf.Fifo`. -/

namespace Rumprun.Sel4
open Core Rumpuser Function

def rrStdin : Nat := 0

def rrNumio : Nat := 3

def pageSize : Nat := 2 ^ 12

/-- The calls of `utils/circular_buffer.h`. -/
structure CircBuf (Buf : Type) where
  init : Buf → Buf
  isEmpty : Buf → Bool
  isFull : Buf → Bool
  put : Buf → UInt8 → Buf
  get : Buf → UInt8 × Buf

/-- The buffer is a queue of at most `capacity` bytes; `contents` are the bytes, the oldest first. -/
structure CircBuf.Fifo {Buf : Type} (circ : CircBuf Buf) (contents : Buf → List UInt8)
    (capacity : Nat) : Prop where
  init : ∀ b, contents (circ.init b) = []
  isEmpty : ∀ b, circ.isEmpty b = true ↔ contents b = []
  isFull : ∀ b, circ.isFull b = true ↔ capacity ≤ (contents b).length
  put : ∀ b byte, circ.isFull b = false → contents (circ.put b byte) = contents b ++ [byte]
  get : ∀ b byte rest, contents b = byte :: rest →
    (circ.get b).1 = byte ∧ contents (circ.get b).2 = rest

/-- A queue of that kind. -/
def CircBuf.ofList (capacity : Nat) : CircBuf (List UInt8) :=
  { init := fun _ => []
    isEmpty := List.isEmpty
    isFull := fun b => decide (capacity ≤ b.length)
    put := fun b byte => b ++ [byte]
    get := fun b => (b.headD 0, b.tail) }

theorem CircBuf.ofList_fifo (capacity : Nat) : (CircBuf.ofList capacity).Fifo id capacity where
  init _ := rfl
  isEmpty _ := List.isEmpty_iff
  isFull _ := decide_eq_true_iff
  put _ _ _ := rfl
  get b byte rest is := by
    cases is
    exact ⟨rfl, rfl⟩

/-- A return from `sel4_stdio_read`: the bytes, and how many had left the buffer before. -/
structure StdioReturn where
  thread : Scheduler.Tid
  first : Nat
  bytes : List UInt8
  deriving DecidableEq, Repr

structure StdioSys (Buf : Type) where
  sync : MtxSys
  buffer : Buf
  openOnce : Nat → Bool
  /-- Whether `env.custom_simple.get_char_handler` is set. -/
  handler : Bool
  /-- The `len` of the `sel4_stdio_read` that the thread is in. -/
  reading : Scheduler.Tid → Option Nat
  /-- What the other side has put, and how much of it has left the buffer. -/
  received : List UInt8
  taken : Nat
  returns : List StdioReturn

section Calls
variable {Buf : Type} (circ : CircBuf Buf)

/-- What `rumpcomp_sel4_stdio_gets` stores, and what it leaves in the buffer. -/
def rumpcompSel4StdioGets : Nat → Buf → List UInt8 × Buf
  | 0, buffer => ([], buffer)
  | len + 1, buffer =>
    if circ.isEmpty buffer = true then ([], buffer)
    else
      let (byte, rest) := circ.get buffer
      let (stored, left) := rumpcompSel4StdioGets len rest
      (byte :: stored, left)

/-- The reader of a buffer takes up to `n` bytes. -/
def CircBuf.taken : Nat → Buf → Buf
  | 0, buffer => buffer
  | n + 1, buffer =>
    if circ.isEmpty buffer = true then buffer else CircBuf.taken n (circ.get buffer).2

/-- `rumpcomp_sel4_stdio_puts`: the buffer, and the bytes that are put, whose number it returns.
`takes` is what the reader takes before each test. -/
def rumpcompSel4StdioPuts : Buf → List UInt8 → List Nat → Buf × List UInt8
  | buffer, [], _ => (buffer, [])
  | buffer, byte :: buf, takes =>
    let buffer := circ.taken (takes.headD 0) buffer
    if circ.isFull buffer = true then (buffer, [])
    else
      let (buffer, put) := rumpcompSel4StdioPuts (circ.put buffer byte) buf takes.tail
      (buffer, byte :: put)

namespace CircBuf.Fifo
variable {circ} {contents : Buf → List UInt8} {capacity : Nat} (fifo : circ.Fifo contents capacity)
include fifo

theorem not_isEmpty {buffer : Buf} {byte : UInt8} {rest : List UInt8}
    (is : contents buffer = byte :: rest) : ¬ circ.isEmpty buffer = true := by
  rw [fifo.isEmpty, is]
  nofun

theorem gets (len : Nat) (buffer : Buf) :
    (rumpcompSel4StdioGets circ len buffer).1 = (contents buffer).take len ∧
      contents (rumpcompSel4StdioGets circ len buffer).2 = (contents buffer).drop len := by
  induction len generalizing buffer with
  | zero => exact ⟨rfl, rfl⟩
  | succ len ih =>
    rw [rumpcompSel4StdioGets]
    cases is : contents buffer with
    | nil =>
      rw [if_pos ((fifo.isEmpty buffer).mpr is)]
      exact ⟨rfl, is⟩
    | cons byte rest =>
      rw [if_neg (fifo.not_isEmpty is)]
      obtain ⟨first, left⟩ := fifo.get buffer byte rest is
      obtain ⟨stored, remains⟩ := ih (circ.get buffer).2
      rw [left] at stored remains
      exact ⟨by rw [← first, List.take_succ_cons, ← stored], remains⟩

theorem taken (n : Nat) (buffer : Buf) : contents (circ.taken n buffer) = (contents buffer).drop n := by
  induction n generalizing buffer with
  | zero => rfl
  | succ n ih =>
    rw [CircBuf.taken]
    cases is : contents buffer with
    | nil =>
      rw [if_pos ((fifo.isEmpty buffer).mpr is)]
      exact is
    | cons byte rest =>
      rw [if_neg (fifo.not_isEmpty is), ih, (fifo.get buffer byte rest is).2, List.drop_succ_cons]

theorem puts_untaken (bytes : List UInt8) (buffer : Buf) :
    contents (rumpcompSel4StdioPuts circ buffer bytes []).1 =
      contents buffer ++ (rumpcompSel4StdioPuts circ buffer bytes []).2 := by
  induction bytes generalizing buffer with
  | nil => exact (List.append_nil _).symm
  | cons byte bytes ih =>
    rw [rumpcompSel4StdioPuts]
    change contents (if circ.isFull buffer = true then _ else _ : Buf × List UInt8).1 = _ ++
      (if circ.isFull buffer = true then _ else _ : Buf × List UInt8).2
    split
    · exact (List.append_nil _).symm
    · next room =>
      refine (ih (circ.put buffer byte)).trans ?_
      rw [fifo.put buffer byte (by simpa using room), List.append_assoc]
      rfl

end CircBuf.Fifo
end Calls

namespace StdioSys
variable {Buf : Type} (circ : CircBuf Buf) (curlwp : Scheduler.Tid → Nat)

def current (s : StdioSys Buf) : Scheduler.Tid := s.sync.current

/-- `sel4_stdio_open`; `inited` is whether `circ_buf_init` succeeds. -/
def sel4StdioOpen (s : StdioSys Buf) (minor : Nat) (inited : Bool) : Except Stop (StdioSys Buf) :=
  if rrNumio ≤ minor then .error (.halt "sel4_stdio: invalid minor device number")
  else if s.openOnce minor = true then
    .error (.halt "sel4_stdio only supports each file being opened once and never closed")
  else
    let s := { s with openOnce := update s.openOnce minor true }
    if inited = false then .ok s
    else if minor = rrStdin then do
      -- `RUMPUSER_MTX_SPIN` is the only flag
      let sync ← (MtxSys.init false true s.sync.queues.sys).mutexEnter curlwp
      return { s with
        sync := sync
        buffer := circ.init s.buffer
        taken := s.received.length
        handler := true }
    else .ok s

/-- `sel4_stdio_read` after its loop. -/
def readReturn (s : StdioSys Buf) (stored : List UInt8) (left : Buf) : StdioSys Buf :=
  { s with
    buffer := left
    reading := update s.reading s.current none
    taken := s.taken + stored.length
    returns := { thread := s.current, first := s.taken, bytes := stored } :: s.returns }

/-- One turn of the loop of `sel4_stdio_read`; `n` is 0 at its start. -/
def readTurn (s : StdioSys Buf) (len : Nat) : Except Stop (StdioSys Buf) :=
  if 0 < len then
    let (stored, left) := rumpcompSel4StdioGets circ len s.buffer
    if stored.length = 0 then do
      let sync ← s.sync.cvWait .wait
      return { s with
        sync := sync
        buffer := left
        reading := update s.reading s.current (some len) }
    else .ok (s.readReturn stored left)
  else .ok (s.readReturn [] s.buffer)

/-- `sel4_stdio_read` up to the first wait. -/
def sel4StdioRead (s : StdioSys Buf) (minor uioResid : Nat) : Except Stop (StdioSys Buf) :=
  if minor ≠ rrStdin then .ok s else s.readTurn circ (min pageSize uioResid)

/-- `stdio_handler` of `entry.c`, and `get_char_handler`. -/
def stdioHandler (s : StdioSys Buf) : Except Stop (StdioSys Buf) :=
  if s.handler = true then do
    return { s with sync := ← s.sync.step curlwp .cvSignal }
  else .ok s

/-- A reader goes on in `rumpuser_cv_wait`, and back from there in its loop. -/
def resume (s : StdioSys Buf) (monotonic : Int) : Except Stop (StdioSys Buf) :=
  match s.reading s.current with
  | none => .error (.undefined "the thread does not read")
  | some len => do
    let s := { s with sync := ← s.sync.resume curlwp monotonic }
    if s.sync.phase s.current = .outside then s.readTurn circ len else return s

end StdioSys

inductive StdioEvent where
  | openDevice (minor : Nat) (inited : Bool)
  | read (minor uioResid : Nat)
  | handler
  | resume (monotonic : Int)
  /-- The other side adds to the buffer of standard input until it is full. -/
  | put (bytes : List UInt8)
  | sched (event : Scheduler.Event)
  deriving DecidableEq, Repr

namespace StdioSys
variable {Buf : Type}

def step (circ : CircBuf Buf) (curlwp : Scheduler.Tid → Nat) (s : StdioSys Buf) :
    StdioEvent → Except Stop (StdioSys Buf)
  | .openDevice minor inited => s.sel4StdioOpen circ curlwp minor inited
  | .read minor uioResid => s.sel4StdioRead circ minor uioResid
  | .handler => s.stdioHandler curlwp
  | .resume monotonic => s.resume circ curlwp monotonic
  | .put bytes =>
    let (buffer, put) := rumpcompSel4StdioPuts circ s.buffer bytes []
    .ok { s with buffer := buffer, received := s.received ++ put }
  | .sched event => do return { s with sync := ← s.sync.step curlwp (.sched event) }

/-- Each device is opened once, and standard input is read after that; the handler runs in a
thread that is not reading; and an `int` can count those who wait. -/
def Admits (s : StdioSys Buf) : StdioEvent → Prop
  | .openDevice minor _ => s.sync.Runs ∧ minor < rrNumio ∧ s.openOnce minor = false
  | .read _ _ => s.sync.Runs ∧ s.handler = true ∧ s.reading s.current = none ∧
      s.sync.nwaiters < 2 ^ 31 - 1
  | .handler => s.sync.Runs ∧ s.reading s.current = none
  | .resume _ => s.sync.Runs ∧ s.reading s.current ≠ none ∧ s.sync.nwaiters < 2 ^ 31 - 1
  | .put _ => True
  | .sched event => s.sync.queues.sys.Admits event ∧ s.sync.queues.GoesOn event

instance decidableAdmits (s : StdioSys Buf) : ∀ event, Decidable (s.Admits event) := by
  intro event
  unfold Admits
  split <;> infer_instance

/-- The buffers are empty at the start. -/
def init (circ : CircBuf Buf) (memory : Buf) (sys : Scheduler.System) : StdioSys Buf :=
  { sync := MtxSys.init false true sys
    buffer := circ.init memory
    openOnce := fun _ => false
    handler := false
    reading := fun _ => none
    received := []
    taken := 0
    returns := [] }

end StdioSys
end Rumprun.Sel4
