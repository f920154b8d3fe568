import Rumprun.Sel4.Stdio

/-! # Standard output on seL4

`sel4_stdio_write` cuts what it is given into pages and hands each to
`rumpcomp_sel4_stdio_puts`, which stops at a full buffer; how far it came is dropped. Each device
has a buffer of its own. `put` and `reported` are records. -/

namespace Rumprun.Sel4
open Core StepRuns Function

/-- A device: its buffer, the bytes put there, and those that its writes took off `uio_resid`. -/
structure StdioLine (Buf : Type) where
  buffer : Buf
  put : List UInt8
  reported : List UInt8
  deriving DecidableEq, Repr

/-- What happens in a turn of the loop of `sel4_stdio_write`: what the other side takes before each
test of the buffer, and whether `uiomove` fails, with its error and the bytes it has moved. -/
structure WriteTurn where
  takes : List Nat
  fails : Option (Int × Nat)
  deriving DecidableEq, Repr

/-- A call of `sel4_stdio_write`: the device, whether there is a page for `buf`, and the data. -/
structure WriteCall where
  minor : Fin rrNumio
  allocated : Bool
  data : List UInt8
  turns : List WriteTurn
  deriving DecidableEq, Repr

abbrev Stdout (Buf : Type) := Fin rrNumio → StdioLine Buf

def rrStdout : Fin rrNumio := ⟨1, by decide⟩

def turnOf (turns : List WriteTurn) : WriteTurn := turns.headD { takes := [], fails := none }

namespace Stdout
variable {Buf : Type} (circ : CircBuf Buf)

/-- The loop of `sel4_stdio_write`; a turn takes at least a byte, so there are at most as many as
there is data. -/
def writeLoop : Nat → StdioLine Buf → List UInt8 → List WriteTurn → StdioLine Buf × Int
  | 0, line, _, _ => (line, 0)
  | fuel + 1, line, data, turns =>
    if data = [] then (line, 0)
    else
      let len := min pageSize data.length
      match (turnOf turns).fails with
      | some (error, moved) => ({ line with reported := line.reported ++ data.take (min moved len) }, error)
      | none =>
        let (buffer, put) := rumpcompSel4StdioPuts circ line.buffer (data.take len) (turnOf turns).takes
        writeLoop fuel
          { buffer := buffer, put := line.put ++ put, reported := line.reported ++ data.take len }
          (data.drop len) turns.tail

def sel4StdioWrite (s : Stdout Buf) (call : WriteCall) : Stdout Buf × Int :=
  if call.minor.val = rrStdin then (s, -1)
  else if call.allocated = false then (s, -1)
  else
    let (line, error) := writeLoop circ call.data.length (s call.minor) call.data call.turns
    (update s call.minor line, error)

def step (s : Stdout Buf) (call : WriteCall) : Except Stop (Stdout Buf) := .ok (sel4StdioWrite circ s call).1

def start (buffer : Fin rrNumio → Buf) : Stdout Buf :=
  fun minor => { buffer := buffer minor, put := [], reported := [] }

/-- What the writes report is what they have put, for each device. -/
def Lossless (s : Stdout Buf) : Prop := ∀ minor, (s minor).put = (s minor).reported

/-! ## The condition -/

/-- The bytes in a buffer after `len` more, with what is taken before each. -/
def levelAfter : Nat → Nat → List Nat → Nat
  | level, 0, _ => level
  | level, len + 1, takes => levelAfter (level - takes.headD 0 + 1) len takes.tail

/-- Each of `len` bytes finds room. -/
def Fits (capacity : Nat) : Nat → Nat → List Nat → Prop
  | _, 0, _ => True
  | level, len + 1, takes =>
    level - takes.headD 0 < capacity ∧ Fits capacity (level - takes.headD 0 + 1) len takes.tail

/-- So does each of the data, page by page, and a `uiomove` that fails has moved nothing. -/
def HasRoom (capacity : Nat) : Nat → Nat → Nat → List WriteTurn → Prop
  | 0, _, _, _ => True
  | fuel + 1, level, len, turns =>
    len = 0 ∨ match (turnOf turns).fails with
      | some (_, moved) => moved = 0
      | none => Fits capacity level (min pageSize len) (turnOf turns).takes ∧
          HasRoom capacity fuel (levelAfter level (min pageSize len) (turnOf turns).takes)
            (len - min pageSize len) turns.tail

/-- The call is refused, or the buffer of its device has room for the data. -/
def Accepts (contents : Buf → List UInt8) (capacity : Nat) (s : Stdout Buf) (call : WriteCall) : Prop :=
  call.minor.val = rrStdin ∨ call.allocated = false ∨
    HasRoom capacity call.data.length (contents (s call.minor).buffer).length call.data.length call.turns

instance decidableFits (capacity : Nat) :
    ∀ len level takes, Decidable (Fits capacity level len takes)
  | 0, _, _ => .isTrue trivial
  | len + 1, _, _ =>
    have := decidableFits capacity len
    inferInstanceAs (Decidable (_ ∧ _))

instance decidableHasRoom (capacity : Nat) :
    ∀ fuel level len turns, Decidable (HasRoom capacity fuel level len turns) := by
  intro fuel
  induction fuel with
  | zero => exact fun _ _ _ => .isTrue trivial
  | succ fuel ih =>
    intro level len turns
    unfold HasRoom
    split <;> infer_instance

instance (contents : Buf → List UInt8) (capacity : Nat) (s : Stdout Buf) (call : WriteCall) :
    Decidable (Accepts contents capacity s call) := inferInstanceAs (Decidable (_ ∨ _ ∨ _))

/-! ## One call of `rumpcomp_sel4_stdio_puts` -/

section
variable {circ} {contents : Buf → List UInt8} {capacity : Nat}

/-- What is put is the start of the data. -/
theorem puts_isPrefix (buf : List UInt8) (buffer : Buf) (takes : List Nat) :
    (rumpcompSel4StdioPuts circ buffer buf takes).2 <+: buf := by
  induction buf generalizing buffer takes with
  | nil => exact List.prefix_rfl
  | cons byte buf ih =>
    rw [rumpcompSel4StdioPuts]
    dsimp only
    split
    · exact List.nil_prefix
    · exact (List.prefix_cons_inj byte).mpr (ih _ _)

variable (fifo : circ.Fifo contents capacity)
include fifo

theorem puts_fits {buf : List UInt8} {buffer : Buf} {takes : List Nat}
    (fits : Fits capacity (contents buffer).length buf.length takes) :
    (rumpcompSel4StdioPuts circ buffer buf takes).2 = buf ∧
      (contents (rumpcompSel4StdioPuts circ buffer buf takes).1).length =
        levelAfter (contents buffer).length buf.length takes := by
  induction buf generalizing buffer takes with
  | nil => exact ⟨rfl, rfl⟩
  | cons byte buf ih =>
    obtain ⟨room, further⟩ := fits
    have level : (contents (circ.taken (takes.headD 0) buffer)).length =
        (contents buffer).length - takes.headD 0 := by rw [fifo.taken, List.length_drop]
    have free : ¬ circ.isFull (circ.taken (takes.headD 0) buffer) = true := by
      rw [fifo.isFull, level]
      exact not_le.mpr room
    have grown : (contents (circ.put (circ.taken (takes.headD 0) buffer) byte)).length =
        (contents buffer).length - takes.headD 0 + 1 := by
      rw [fifo.put _ _ (by simpa using free), List.length_append, level, List.length_singleton]
    rw [rumpcompSel4StdioPuts]
    dsimp only
    rw [if_neg free]
    rw [← grown] at further
    obtain ⟨all, ends⟩ := ih further
    exact ⟨by rw [all], by rw [ends, grown]; rfl⟩

theorem puts_short {buf : List UInt8} {buffer : Buf} {takes : List Nat}
    (full : ¬ Fits capacity (contents buffer).length buf.length takes) :
    (rumpcompSel4StdioPuts circ buffer buf takes).2.length < buf.length := by
  induction buf generalizing buffer takes with
  | nil => exact absurd trivial full
  | cons byte buf ih =>
    have level : (contents (circ.taken (takes.headD 0) buffer)).length =
        (contents buffer).length - takes.headD 0 := by rw [fifo.taken, List.length_drop]
    rw [rumpcompSel4StdioPuts]
    dsimp only
    by_cases stops : circ.isFull (circ.taken (takes.headD 0) buffer) = true
    · rw [if_pos stops]
      exact Nat.succ_pos _
    · rw [if_neg stops]
      have room := stops
      rw [fifo.isFull, level, not_le] at room
      refine Nat.succ_lt_succ (ih fun fits => full ⟨room, ?_⟩)
      rw [fifo.put _ _ (by simpa using stops), List.length_append, level] at fits
      exact fits

end

/-! ## One write -/

section
variable {circ} {contents : Buf → List UInt8} {capacity : Nat}

/-- What a loop has lost stays lost. -/
theorem writeLoop_behind : ∀ (fuel : Nat) (line : StdioLine Buf) (data : List UInt8)
    (turns : List WriteTurn), line.put.length < line.reported.length →
    (writeLoop circ fuel line data turns).1.put.length <
      (writeLoop circ fuel line data turns).1.reported.length := by
  intro fuel
  induction fuel with
  | zero => intro line data turns behind; exact behind
  | succ fuel ih =>
    intro line data turns behind
    rw [writeLoop]
    split
    · exact behind
    dsimp only
    split
    · dsimp only
      rw [List.length_append]
      omega
    · apply ih
      have le : (rumpcompSel4StdioPuts circ line.buffer (data.take (min pageSize data.length))
          (turnOf turns).takes).2.length ≤ _ := (puts_isPrefix _ _ _).length_le
      simp only [List.length_append]
      omega

variable (fifo : circ.Fifo contents capacity)
include fifo

theorem writeLoop_room : ∀ (fuel : Nat) (line : StdioLine Buf) (data : List UInt8)
    (turns : List WriteTurn), line.put = line.reported →
    HasRoom capacity fuel (contents line.buffer).length data.length turns →
    (writeLoop circ fuel line data turns).1.put = (writeLoop circ fuel line data turns).1.reported := by
  intro fuel
  induction fuel with
  | zero => intro line data turns same _; exact same
  | succ fuel ih =>
    intro line data turns same room
    rw [writeLoop]
    by_cases done : data = []
    · rw [if_pos done]
      exact same
    rw [if_neg done]
    have some : data.length ≠ 0 := fun none => done (List.length_eq_zero_iff.mp none)
    have rest := room.resolve_left some
    dsimp only
    split at rest
    · next error moved _ =>
      simp only [rest, Nat.zero_min, List.take_zero, List.append_nil]
      exact same
    · obtain ⟨fits, later⟩ := rest
      have length : (data.take (min pageSize data.length)).length = min pageSize data.length := by
        rw [List.length_take]
        omega
      rw [← length] at fits
      obtain ⟨all, level⟩ := puts_fits fifo fits
      rw [length] at level
      apply ih
      · rw [all, same]
      · rw [level, List.length_drop]
        exact later

theorem writeLoop_full : ∀ (fuel : Nat) (line : StdioLine Buf) (data : List UInt8)
    (turns : List WriteTurn), line.put = line.reported →
    ¬ HasRoom capacity fuel (contents line.buffer).length data.length turns →
    (writeLoop circ fuel line data turns).1.put.length <
      (writeLoop circ fuel line data turns).1.reported.length := by
  intro fuel
  induction fuel with
  | zero => intro line data turns _ full; exact absurd trivial full
  | succ fuel ih =>
    intro line data turns same full
    rw [HasRoom, not_or] at full
    obtain ⟨some, rest⟩ := full
    have page : 0 < pageSize := by decide
    rw [writeLoop, if_neg fun done => some (List.length_eq_zero_iff.mpr done)]
    dsimp only
    split at rest
    · next error moved _ =>
      simp only [same, List.length_append, List.length_take]
      omega
    · have length : (data.take (min pageSize data.length)).length = min pageSize data.length := by
        rw [List.length_take]
        omega
      by_cases fits : Fits capacity (contents line.buffer).length (min pageSize data.length)
          (turnOf turns).takes
      · have later := fun room => rest ⟨fits, room⟩
        rw [← length] at fits
        obtain ⟨all, level⟩ := puts_fits fifo fits
        rw [length] at level
        apply ih
        · rw [all, same]
        · rw [level, List.length_drop]
          exact later
      · apply writeLoop_behind
        rw [← length] at fits
        have short := puts_short fifo fits
        rw [length] at short
        simp only [same, List.length_append, length]
        omega

end

/-! ## The writes -/

section
variable {circ} {contents : Buf → List UInt8} {capacity : Nat} (fifo : circ.Fifo contents capacity)
include fifo

theorem lossless_write {s : Stdout Buf} {call : WriteCall} (lossless : Lossless s)
    (accepts : Accepts contents capacity s call) : Lossless (sel4StdioWrite circ s call).1 := by
  unfold sel4StdioWrite
  split
  · exact lossless
  split
  · exact lossless
  · next stdin allocated =>
    have room := (accepts.resolve_left stdin).resolve_left allocated
    intro minor
    dsimp only
    by_cases here : minor = call.minor
    · rw [here, update_self]
      exact writeLoop_room fifo _ _ _ _ (lossless call.minor) room
    · rw [update_of_ne here]
      exact lossless minor

theorem lossy_write {s : Stdout Buf} {call : WriteCall} (lossless : Lossless s)
    (refuses : ¬ Accepts contents capacity s call) : ¬ Lossless (sel4StdioWrite circ s call).1 := by
  intro after
  rw [Accepts, not_or, not_or] at refuses
  obtain ⟨stdin, allocated, full⟩ := refuses
  have same := after call.minor
  rw [sel4StdioWrite, if_neg stdin, if_neg allocated] at same
  dsimp only at same
  rw [update_self] at same
  have behind := writeLoop_full fifo _ _ _ _ (lossless call.minor) full
  rw [same] at behind
  exact lt_irrefl _ behind

end

/-- Over any writes, what they report is what they put, in order and for each
device, exactly when every one finds room for its data in the buffer of its device, and no
`uiomove` fails midway. -/
theorem stdout_loses_nothing_iff {Buf : Type} (circ : CircBuf Buf) {contents : Buf → List UInt8}
    {capacity : Nat} (fifo : circ.Fifo contents capacity) (buffer : Fin rrNumio → Buf)
    (calls : List WriteCall) :
    Throughout Lossless (step circ) calls (start buffer) ↔
      Admissible (Accepts contents capacity) (step circ) calls (start buffer) := by
  have all : Admissible (fun _ _ => True) (step circ) calls (start buffer) :=
    admissible_of_forall (fun _ _ => trivial) calls _
  have exact : Throughout Lossless (step circ) calls (start buffer) ↔
      Admissible (fun s call => True ∧ Accepts contents capacity s call) (step circ) calls
        (start buffer) := by
    refine throughout_iff Lossless (fun _ lossless => lossless) ?_ ?_ calls _ (fun _ => rfl) all
    · intro s call lossless _ accepts
      exact ⟨_, rfl, lossless_write fifo lossless accepts⟩
    · intro s call next lossless _ refuses stepped
      cases stepped
      exact lossy_write fifo lossless refuses
  simpa only [true_and] using exact

/-- A buffer of two bytes: the reader takes one before each byte, or only the first. -/
theorem stdout_loses_nothing_taken :
    Throughout Lossless (step (CircBuf.ofList 2))
        [⟨rrStdout, true, [0x62, 0x63], [⟨[1, 1], none⟩]⟩] (start fun _ => [0x61]) ∧
      ¬ Throughout Lossless (step (CircBuf.ofList 2))
        [⟨rrStdout, true, [0x62, 0x63, 0x64], [⟨[1, 0, 0], none⟩]⟩] (start fun _ => [0x61]) := by
  rw [stdout_loses_nothing_iff _ (CircBuf.ofList_fifo 2), stdout_loses_nothing_iff _ (CircBuf.ofList_fifo 2)]
  decide

/-- One byte of room, and nobody who takes any: of two bytes that are reported, one is put. -/
theorem stdout_drops_second_byte :
    (sel4StdioWrite (CircBuf.ofList 2) (start fun _ => [0x61]) ⟨rrStdout, true, [0x62, 0x63], []⟩).2 = 0 ∧
      (sel4StdioWrite (CircBuf.ofList 2) (start fun _ => [0x61]) ⟨rrStdout, true, [0x62, 0x63], []⟩).1 rrStdout =
        { buffer := [0x61, 0x62], put := [0x62], reported := [0x62, 0x63] } := by
  decide

end Stdout
end Rumprun.Sel4
