import Rumprun.Xen.ReadStream

/-! # The memory of the messages that readers get

`rumpxenbus_next_event_msg` returns each message with the function that frees it: `xbd_free` for the
message of a watch event, `xenbus_free` for a reply. A read calls that function once all of the
message is copied. `xenbus_dev_close` frees a message that was read in part, and always with
`xbd_free`; the loop of `rumpxenbus_dev_user_shutdown` then frees each message that it takes.

A turn of the loop of a read takes a message, where there is none or the reader has slept, and copies
out of it; each is a step here. -/

namespace Rumprun.Xen
open Core StepRuns XbRead

inductive Dealloc where
  | xbdFree
  | xenbusFree
  deriving DecidableEq, Repr

/-- `*mfree_r` of `process_event`. -/
def EventMsg.mfree (msg : EventMsg) : Dealloc := if msg.watch then .xbdFree else .xenbusFree

/-- A message, and what it is freed with. -/
abbrev Buffer := List UInt8 × Dealloc

structure ReplyBuffers (Thread : Type) where
  dev : XbRead Thread
  rmsgFree : Dealloc
  closed : Bool
  returned : List Buffer
  released : List Buffer

inductive BufferEvent where
  | event (ev : EventMsg)
  | take (mem : Bool)
  | copy (resid : Nat)
  | close
  | discard (mem : Bool)

namespace ReplyBuffers
variable {Thread : Type} {s r : ReplyBuffers Thread} {e : BufferEvent}

def init : ReplyBuffers Thread :=
  { dev := .init, rmsgFree := .xbdFree, closed := false, returned := [], released := [] }

/-- The message in `dd->rmsg`, with the function that was returned with it. -/
def held (dev : XbRead Thread) : List Buffer := dev.rmsg.toList.map fun msg => (msg.bytes, msg.mfree)

def step (s : ReplyBuffers Thread) : BufferEvent → Except Stop (ReplyBuffers Thread)
  | .event ev => .ok { s with dev := { s.dev with replies := s.dev.replies ++ [ev] } }
  | .take mem =>
    match s.dev.replies with
    | [] => .ok s
    | ev :: rest =>
      let dev := s.dev.takeEvent ev rest mem
      .ok { s with dev := dev, rmsgFree := ev.mfree, returned := s.returned ++ held dev }
  | .copy resid =>
    match s.dev.rmsg with
    | none => .ok s
    | some msg => do
      let (dev, _) ← s.dev.copyOut msg resid
      let freed := if dev.rmsg.isNone then [(msg.bytes, s.rmsgFree)] else []
      .ok { s with dev := dev, released := s.released ++ freed }
  | .close =>
    .ok { s with
      dev := { s.dev with rmsg := none }
      closed := true
      released := s.released ++ s.dev.rmsg.toList.map fun msg => (msg.bytes, .xbdFree) }
  | .discard mem =>
    match s.dev.replies with
    | [] => .ok s
    | ev :: rest => do
      bmkAssert (!ev.watch || mem) "discard"
      .ok { s with
        dev := { s.dev with replies := rest }
        returned := s.returned ++ [(ev.bytes, ev.mfree)]
        released := s.released ++ [(ev.bytes, ev.mfree)] }

def Admits (s : ReplyBuffers Thread) : BufferEvent → Prop
  | .event _ => True
  | .discard _ => s.closed = true
  | _ => s.closed = false

/-- No message is taken while another one is being read; none but that of a watch event is being
read when the file is closed; and then there is memory for the messages of watch events. -/
def Right (s : ReplyBuffers Thread) : BufferEvent → Prop
  | .take _ => s.dev.rmsg.isNone = true ∨ s.dev.replies = []
  | .close => s.dev.rmsg.all EventMsg.watch = true
  | .discard mem => s.dev.replies.head?.all (fun ev => !ev.watch || mem) = true
  | _ => True

instance decidableAdmits (s : ReplyBuffers Thread) : ∀ e, Decidable (s.Admits e) := by
  intro event
  unfold Admits
  split <;> infer_instance

instance decidableRight (s : ReplyBuffers Thread) : ∀ e, Decidable (s.Right e) := by
  intro event
  unfold Right
  split <;> infer_instance

/-- Each message was freed once, in the order in which they were taken and with the function that
came with it, but for the one that is being read. -/
def Released (s : ReplyBuffers Thread) : Prop := s.returned = s.released ++ held s.dev

structure Inv (s : ReplyBuffers Thread) : Prop where
  released : s.Released
  cursor : s.closed = false → s.dev.Cursor
  shut : s.closed = true → s.dev.rmsg = none
  free : ∀ msg, s.dev.rmsg = some msg → s.rmsgFree = msg.mfree

theorem held_none {dev : XbRead Thread} (no : dev.rmsg = none) : held dev = [] := by
  rw [held, no]
  rfl

theorem step_take {ev : EventMsg} {rest : List EventMsg} (queue : s.dev.replies = ev :: rest)
    (mem : Bool) :
    s.step (.take mem) = .ok { s with
      dev := s.dev.takeEvent ev rest mem
      rmsgFree := ev.mfree
      returned := s.returned ++ held (s.dev.takeEvent ev rest mem) } := by
  simp only [step, queue]

theorem step_copy {msg : EventMsg} {dev : XbRead Thread} {resid after : Nat}
    (is : s.dev.rmsg = some msg) (copied : s.dev.copyOut msg resid = .ok (dev, after)) :
    s.step (.copy resid) = .ok { s with
      dev := dev
      released := s.released ++ if dev.rmsg.isNone then [(msg.bytes, s.rmsgFree)] else [] } := by
  simp only [step, is, copied, ok_bind]

theorem Inv.take (inv : s.Inv) (opened : s.closed = false) (no : s.dev.rmsg = none) {ev : EventMsg}
    {rest : List EventMsg} (queue : s.dev.replies = ev :: rest) (mem : Bool) :
    ∃ next, s.step (.take mem) = .ok next ∧ next.Inv := by
  have all := inv.released
  rw [Released, held_none no, List.append_nil] at all
  refine ⟨_, step_take queue mem, ?_, ?_, ?_, ?_⟩
  · rw [Released, all]
  · intro _
    exact (takeEvent_conserves (inv.cursor opened) no queue mem).2
  · intro shut
    cases opened.symm.trans shut
  · intro msg is
    simp only [takeEvent] at is
    split at is
    · cases is
    · cases is
      rfl

theorem Inv.copy (inv : s.Inv) (opened : s.closed = false) {msg : EventMsg}
    (is : s.dev.rmsg = some msg) (resid : Nat) :
    ∃ next, s.step (.copy resid) = .ok next ∧ next.Inv := by
  have within := (inv.cursor opened).done_lt is
  have copied := copyOut_eq (le_of_lt within) resid
  have cursor := (copyOut_conserves is copied).2
  have all := inv.released
  rw [Released, held, is] at all
  refine ⟨_, step_copy is copied, ?_, fun _ => cursor, ?_, ?_⟩
  · rw [Released, afterCopy]
    split
    · simpa [held, inv.free msg is] using all
    · simpa [held, is] using all
  · intro shut
    cases opened.symm.trans shut
  · intro other is'
    rw [afterCopy] at is'
    split at is'
    · cases is'
    · exact inv.free other is'

theorem Inv.close (inv : s.Inv) (right : s.Right .close) :
    ∃ next, s.step .close = .ok next ∧ next.Inv := by
  have all := inv.released
  refine ⟨_, rfl, ?_, fun opened => (by cases opened), fun _ => rfl, fun msg is => (by cases is)⟩
  rw [Released, held] at all ⊢
  cases is : s.dev.rmsg with
  | none => simpa [is] using all
  | some msg =>
    have watch : msg.watch = true := by simpa [Right, is] using right
    simpa [is, EventMsg.mfree, watch] using all

theorem Inv.step (inv : s.Inv) (allowed : s.Admits e) (right : s.Right e) :
    ∃ next, s.step e = .ok next ∧ next.Inv := by
  cases e with
  | event ev => exact ⟨_, rfl, inv.released, inv.cursor, inv.shut, inv.free⟩
  | take mem =>
    cases queue : s.dev.replies with
    | nil => exact ⟨s, by simp only [ReplyBuffers.step, queue], inv⟩
    | cons ev rest => exact inv.take allowed (by simpa [Right, queue] using right) queue mem
  | copy resid =>
    cases is : s.dev.rmsg with
    | none => exact ⟨s, by simp only [ReplyBuffers.step, is], inv⟩
    | some msg => exact inv.copy allowed is resid
  | close => exact inv.close right
  | discard mem =>
    cases queue : s.dev.replies with
    | nil => exact ⟨s, by simp only [ReplyBuffers.step, queue], inv⟩
    | cons ev rest =>
      have memory : (!ev.watch || mem) = true := by simpa [Right, queue] using right
      have all := inv.released
      rw [Released, held_none (inv.shut allowed), List.append_nil] at all
      simp only [ReplyBuffers.step, queue, bmkAssert_bind _ memory]
      refine ⟨_, rfl, ?_, inv.cursor, inv.shut, inv.free⟩
      simp [Released, all, held, inv.shut allowed]

theorem Inv.loses (inv : s.Inv) (wrong : ¬ s.Right e) (stepped : s.step e = .ok r) : ¬ r.Released := by
  have all := inv.released
  cases e with
  | event | copy => exact absurd trivial wrong
  | take mem =>
    obtain ⟨being, some_⟩ := not_or.mp wrong
    obtain ⟨ev, rest, queue⟩ := List.exists_cons_of_ne_nil some_
    cases is : s.dev.rmsg with
    | none => simp [is] at being
    | some msg =>
      rw [step_take queue] at stepped
      cases stepped
      rw [Released, held, is] at all
      simp [Released, all]
  | close =>
    cases stepped
    cases is : s.dev.rmsg with
    | none => simp [Right, is] at wrong
    | some msg =>
      have reply : msg.watch = false := by simpa [Right, is] using wrong
      rw [Released, held, is] at all
      simp [Released, all, held, EventMsg.mfree, reply]
  | discard mem =>
    cases queue : s.dev.replies with
    | nil => simp [Right, queue] at wrong
    | cons ev rest =>
      simp only [ReplyBuffers.step, queue] at stepped
      exact absurd (by simpa [Right, queue] using (bmkAssert_bind_ok stepped).1) wrong

/-- In every state of a run each message was freed once and with the function that came with it, or
is being read, if and only if no step takes a message while another one is being read, none but that
of a watch event is being read at the close, and there is memory for each watch event that the close
discards. -/
theorem buffers_released (ops : List BufferEvent)
    (allowed : Admissible Admits step ops (init : ReplyBuffers Thread)) :
    Throughout Released step ops (init : ReplyBuffers Thread) ↔
      Admissible (fun s e => s.Admits e ∧ s.Right e) step ops (init : ReplyBuffers Thread) := by
  apply throughout_iff Inv
  · intro s inv
    exact inv.released
  · intro s e inv allowed right
    exact inv.step allowed right
  · intro s e r inv _ wrong stepped
    exact inv.loses wrong stepped
  · exact ⟨rfl, fun _ => rfl, fun _ => rfl, fun _ is => by cases is⟩
  · exact allowed

theorem buffers_released_in_turn :
    Throughout Released step [.event (XbRead.blankMessage 1), .take true, .copy 20,
      .event (XbRead.blankMessage 2), .close, .discard true] (init : ReplyBuffers Bool) :=
  (buffers_released _ (by decide)).mpr (by decide)

/-- A reply that was read in part goes to the wrong function when the file is closed. -/
theorem buffers_released_not_closed :
    ∃ s, run step [.event (XbRead.blankMessage 1), .take true, .copy 4, .close]
        (init : ReplyBuffers Bool) = .ok s ∧
      s.returned = [((XbRead.blankMessage 1).bytes, .xenbusFree)] ∧
      s.released = [((XbRead.blankMessage 1).bytes, .xbdFree)] :=
  ⟨_, rfl, rfl, rfl⟩

/-! ## Reads are made of these steps -/

variable [DecidableEq Thread] {t : Thread} {mem : Nat → Bool}

theorem reads_by_steps {taken : Nat} {dev dev' : XbRead Thread} {call : ReadCall}
    (reads : XbRead.Reads t mem taken dev call dev') (s : ReplyBuffers Thread) (is : s.dev = dev) :
    ∃ ops r, run step ops s = .ok r ∧ r.dev.rmsg = dev'.rmsg ∧
      r.dev.rmsgDone = dev'.rmsgDone ∧ r.dev.replies = dev'.replies := by
  induction reads generalizing s with
  | enomemLater | enomemNow | full | nothing | blocks =>
    subst is
    exact ⟨[], s, rfl, rfl, rfl, rfl⟩
  | @more _ _ _ _ _ call _ _ _ rmsg copied _ ih =>
    subst is
    obtain ⟨ops, r, ran, same⟩ := ih ⟨_, s.rmsgFree, s.closed, s.returned, _⟩ rfl
    exact ⟨.copy call.resid :: ops, r, (run_cons (step_copy rmsg copied)).trans ran, same⟩
  | @drops taken _ _ _ _ _ _ _ queue _ =>
    subst is
    exact ⟨[.take (mem taken)], _, run_cons (step_take queue _), rfl, rfl, rfl⟩
  | @takes taken _ _ _ _ call _ _ _ _ _ _ queue took copied _ ih =>
    subst is
    obtain ⟨ops, r, ran, same⟩ := ih ⟨_, _, s.closed, _, _⟩ rfl
    exact ⟨.take (mem taken) :: .copy call.resid :: ops, r, (run_cons (step_take queue _)).trans
      ((run_cons (step_copy took copied)).trans ran), same⟩

end ReplyBuffers
end Rumprun.Xen
