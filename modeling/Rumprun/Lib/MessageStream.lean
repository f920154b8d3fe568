import Mathlib.Data.List.Basic

/-! # A stream of messages cut at any place

Messages are written one after the other as a stream of symbols, and read from its beginning.
`completed` counts the messages that are whole in a first part of the stream, and the symbols of the
next one. -/

namespace MessageStream

universe u v
variable {Message : Type u} {Symbol : Type v} (encode : Message → List Symbol) {msg : Message}
  {rest : List Message} {n : Nat}

def stream (msgs : List Message) : List Symbol := msgs.flatMap encode

/-- The number of whole messages in the first `n` symbols, and how many symbols are left. -/
def completed : List Message → Nat → Nat × Nat
  | [], n => (0, n)
  | msg :: rest, n =>
    if (encode msg).length ≤ n then
      ((completed rest (n - (encode msg).length)).1 + 1, (completed rest (n - (encode msg).length)).2)
    else (0, n)

variable {encode}

@[simp] theorem stream_nil : stream encode [] = [] := rfl

@[simp] theorem stream_cons (msg : Message) (rest : List Message) :
    stream encode (msg :: rest) = encode msg ++ stream encode rest := rfl

theorem completed_of_le (whole : (encode msg).length ≤ n) :
    completed encode (msg :: rest) n =
      ((completed encode rest (n - (encode msg).length)).1 + 1,
        (completed encode rest (n - (encode msg).length)).2) := by
  rw [completed, if_pos whole]

theorem completed_of_lt (part : n < (encode msg).length) :
    completed encode (msg :: rest) n = (0, n) := by
  rw [completed, if_neg (Nat.not_le.mpr part)]

theorem completed_drop (msgs : List Message) (n : Nat) :
    completed encode (msgs.drop (completed encode msgs n).1) (completed encode msgs n).2 =
      (0, (completed encode msgs n).2) := by
  induction msgs generalizing n with
  | nil => rfl
  | cons msg rest ih =>
    by_cases whole : (encode msg).length ≤ n
    · simp only [completed_of_le whole, List.drop_succ_cons]
      exact ih _
    · have part := Nat.lt_of_not_le whole
      simp only [completed_of_lt part, List.drop_zero]

theorem completed_add (msgs : List Message) (n more : Nat) :
    completed encode msgs (n + more) =
      ((completed encode msgs n).1 +
          (completed encode (msgs.drop (completed encode msgs n).1)
            ((completed encode msgs n).2 + more)).1,
        (completed encode (msgs.drop (completed encode msgs n).1)
          ((completed encode msgs n).2 + more)).2) := by
  induction msgs generalizing n with
  | nil => simp [completed]
  | cons msg rest ih =>
    by_cases whole : (encode msg).length ≤ n
    · have both : (encode msg).length ≤ n + more := Nat.le_add_right_of_le whole
      rw [completed_of_le both, completed_of_le whole, List.drop_succ_cons, Nat.sub_add_comm whole, ih]
      simp only [Prod.mk.injEq, and_true]
      omega
    · have part := Nat.lt_of_not_le whole
      simp [completed_of_lt part]

theorem drop_stream (msgs : List Message) (n : Nat) :
    (stream encode msgs).drop n =
      (stream encode (msgs.drop (completed encode msgs n).1)).drop (completed encode msgs n).2 := by
  induction msgs generalizing n with
  | nil => simp
  | cons msg rest ih =>
    by_cases whole : (encode msg).length ≤ n
    · rw [completed_of_le whole, stream_cons, List.drop_append, List.drop_eq_nil_of_le whole,
        List.nil_append, ih, List.drop_succ_cons]
    · have part := Nat.lt_of_not_le whole
      simp [completed_of_lt part]

end MessageStream
