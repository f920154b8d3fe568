import Rumprun.Xen.ReadStream

/-! # `xenbus_dev_poll`

A poll looks at the message being read and at the two flags, and not at the queue from which the next
read would take a message. -/

namespace Rumprun.Xen
open Core
namespace XbRead
variable {Thread : Type} {s : XbRead Thread}

def PollReady (s : XbRead Thread) : Prop :=
  s.rmsg.isSome = true ∨ s.queuedEnomem = true ∨ s.wantRestart = true

instance decidablePollReady (s : XbRead Thread) : Decidable s.PollReady := instDecidableOr

/-- What is returned, and whether the caller is recorded in `dd->selinfo`. -/
def devPoll (s : XbRead Thread) (events : Nat) : Nat × Bool :=
  let revents := pollRevents events (decide s.PollReady)
  (revents, decide (revents = 0 ∧ events &&& rbits ≠ 0))

variable [DecidableEq Thread] {t : Thread} {mem : Nat → Bool}

/-- A read that returns, and not because it would have to wait. -/
def ReadGoes (s : XbRead Thread) (t : Thread) (size : Nat) (nonblock : Bool) (mem : Nat → Bool) :
    Prop :=
  ∃ r ret, s.step (.read t size nonblock mem) = .ok r ∧ r.returns = s.returns ++ [ret] ∧
    ret.err ≠ eagain

def PollAgrees (s : XbRead Thread) : Prop :=
  ∀ t size nonblock mem events, 0 < size → s.ReadGoes t size nonblock mem →
    events &&& rbits ≠ 0 → (s.devPoll events).1 &&& rbits = events &&& rbits

/-- With nothing to read and nothing to report a read waits, or says that it would. -/
theorem not_readGoes (idle : ¬ s.PollReady) (queue : s.replies = []) {size : Nat} (some_ : 0 < size)
    (nonblock : Bool) : ¬ s.ReadGoes t size nonblock mem := by
  rintro ⟨r, ret, ran, returned, other⟩
  simp only [PollReady, not_or, Bool.not_eq_true, Option.isSome_eq_false_iff,
    Option.isNone_iff_eq_none] at idle
  obtain ⟨no, memory, restart⟩ := idle
  have size0 : size ≠ 0 := by omega
  cases nonblock with
  | false =>
    simp [step, readLoop, memory, size0, no, queue, errIfBlock, restart, sleep] at ran
    simp [← ran] at returned
  | true =>
    simp [step, readLoop, memory, size0, no, queue, errIfBlock, restart, noMessage, return_, eagain]
      at ran
    rw [← ran] at returned
    cases List.append_cancel_left returned
    exact other rfl

/-- The first byte of the next message can be read. -/
theorem readGoes_one (cursor : s.Cursor) (idle : ¬ s.PollReady) (some_ : s.replies ≠ []) :
    s.ReadGoes t 1 false (fun _ => true) := by
  simp only [PollReady, not_or, Bool.not_eq_true, Option.isSome_eq_false_iff,
    Option.isNone_iff_eq_none] at idle
  obtain ⟨no, memory, restart⟩ := idle
  obtain ⟨ev, rest, queue⟩ := List.exists_cons_of_ne_nil some_
  have header := ev.header
  rw [sockmsgSize] at header
  have done := cursor.done_zero no
  have within : (s.takeEvent ev rest true).rmsgDone + 1 < ev.bytes.length := by
    rw [takeEvent_rmsgDone, done]
    omega
  obtain ⟨m, copied, memory', returns⟩ :
      ∃ m, (s.takeEvent ev rest true).copyOut ev 1 = .ok (m, 0) ∧ m.queuedEnomem = false ∧
        m.returns = s.returns := by
    rw [copyOut_eq (by omega), min_eq_left (by omega), afterCopy, if_neg (by omega)]
    exact ⟨_, rfl, by simp [takeEvent, memory], by simp [takeEvent]⟩
  refine ⟨m.return_ t ⟨1, 0, false⟩ 0, ⟨0, ⟨1, 0, false⟩, m.wantRestart⟩, ?_, ?_, ?_⟩
  · have took : (s.takeEvent ev rest true).rmsg = some ev := by simp [takeEvent]
    simp [step, readLoop, memory, no, queue, afterEvent, took, copied, ok_bind, memory']
  · rw [return_, returns]
  · show (0 : Int) ≠ eagain
    decide

/-- A poll reports that there is something to read whenever there is, if it would report so anyway or
no message waits in the queue; and only then, where `rmsg_done` is a place in the message being read. -/
theorem poll_agrees [Nonempty Thread] (s : XbRead Thread) :
    (s.PollReady ∨ s.replies = [] → s.PollAgrees) ∧
      (s.Cursor → s.PollAgrees → s.PollReady ∨ s.replies = []) := by
  constructor
  · intro ready t size nonblock mem events some_ goes asked
    by_cases is : s.PollReady
    · exact (pollRevents_reports asked).mpr (decide_eq_true is)
    · exact absurd goes (not_readGoes is (ready.resolve_left is) some_ nonblock)
  · intro cursor agrees
    by_contra neither
    obtain ⟨idle, some_⟩ := not_or.mp neither
    obtain ⟨t⟩ := ‹Nonempty Thread›
    have reports := agrees t 1 false (fun _ => true) rbits (by decide)
      (readGoes_one cursor idle some_) (by decide)
    exact idle (of_decide_eq_true ((pollRevents_reports (by decide)).mp reports))

theorem poll_agrees_reading :
    ∃ s, StepRuns.run step [.event (blankMessage 1), .read true 4 false (fun _ => true),
        .event (blankMessage 2)] (init : XbRead Bool) = .ok s ∧ s.replies.length = 1 ∧ s.PollAgrees :=
  ⟨_, rfl, rfl, (poll_agrees _).1 (.inl (by decide))⟩

/-- A reply is queued, which a read of one byte would begin; a poll reports nothing. -/
theorem poll_agrees_not_queued :
    ∃ s, StepRuns.run step [.event (blankMessage 1)] (init : XbRead Bool) = .ok s ∧
      s.ReadGoes true 1 false (fun _ => true) ∧ s.devPoll rbits = (0, true) :=
  ⟨_, rfl, ⟨_, _, rfl, rfl, by decide⟩, by decide⟩

end XbRead
end Rumprun.Xen
