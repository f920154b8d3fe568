import Rumprun.Base.ParseArgs

/-! # Arguments as words

A pure tokenizer for command lines, and that `rumprun_parseargs` does what it does
while it writes the words over the line. What has been written is always behind the
place that is read next, so the rest of the line is still the original. -/

namespace Rumprun.Base
open ParseArgs List

/-- A backslash takes the next byte with it. -/
inductive Item where
  | escaped (c : UInt8)
  | plain (c : UInt8)
  deriving DecidableEq, Repr

/-- A backslash at the end of the line is dropped. -/
def items : Bytes → List Item
  | [] => []
  | [c] => if c = ascii '\\' then [] else [.plain c]
  | c :: d :: rest =>
    if c = ascii '\\' then .escaped d :: items rest else .plain c :: items (d :: rest)

inductive Mode where
  | outside
  | plain
  | inside (quote : UInt8)
  deriving DecidableEq, Repr

structure Words where
  mode : Mode
  word : Bytes
  done : List Bytes
  deriving DecidableEq, Repr

def isBlank (c : UInt8) : Bool := c = ascii ' ' || c = ascii '\n' || c = ascii '\t'

def isQuote (c : UInt8) : Prop := c = ascii '\'' ∨ c = ascii '\"'

instance : DecidablePred isQuote := fun _ => inferInstanceAs (Decidable (_ ∨ _))

namespace Words

def begin (w : Words) : Words := if w.mode = .outside then { w with mode := .plain } else w

def add (w : Words) (c : UInt8) : Words := { w.begin with word := w.word ++ [c] }

/-- The argument ends here, if there is one. -/
def close (w : Words) : Words :=
  if w.mode = .outside then w else { mode := .outside, word := [], done := w.done ++ [w.word] }

def read (w : Words) : Item → Words
  | .escaped c => w.add c
  | .plain c =>
    if isBlank c = true ∧ (w.mode = .outside ∨ w.mode = .plain) then w.close
    else if w.mode = .inside c then { w with mode := .plain }
    else if isQuote c then { w with mode := .inside c }
    else w.add c

def init : Words := { mode := .outside, word := [], done := [] }

end Words

def words (line : Bytes) : List Bytes := ((items line).foldl Words.read .init).close.done

theorem items_plain {c : UInt8} (plain : c ≠ ascii '\\') (rest : Bytes) :
    items (c :: rest) = .plain c :: items rest := by
  cases rest with
  | nil | cons => simp [items, plain]

/-! ## Words in the buffer -/

/-- The buffer has these bytes at `a`. -/
def Holds (data : Bytes) (a : Nat) (word : Bytes) : Prop :=
  ∀ i, i < word.length → data[a + i]? = word[i]?

theorem Holds.set_behind {data word : Bytes} {a o : Nat} (holds : Holds data a word)
    (le : a + word.length ≤ o) (c : UInt8) : Holds (data.set o c) a word := by
  intro i lt
  rw [getElem?_set_ne (by omega)]
  exact holds i lt

theorem Holds.set_end {data word : Bytes} {a : Nat} (holds : Holds data a word)
    (room : a + word.length < data.length) (c : UInt8) :
    Holds (data.set (a + word.length) c) a (word ++ [c]) := by
  intro i lt
  rw [length_append, length_singleton] at lt
  rcases Nat.lt_succ_iff_lt_or_eq.mp lt with before | rfl
  · rw [getElem?_append_left before]
    exact holds.set_behind (Nat.le_refl _) c i before
  · rw [getElem?_set_self room, getElem?_append_right (Nat.le_refl _)]
    simp

theorem Holds.stringAt {data word : Bytes} {a : Nat} (holds : Holds data a (word ++ [0]))
    (clean : 0 ∉ word) : stringAt data a = some word := by
  have start : (data.drop a).take (word ++ [0]).length = word ++ [0] := by
    refine ext_getElem? fun i => ?_
    rw [getElem?_take]
    split
    · next lt => rw [getElem?_drop, holds i lt]
    · next out => rw [getElem?_eq_none (Nat.not_lt.mp out)]
  have split : data.drop a = word ++ 0 :: (data.drop a).drop (word ++ [0]).length := by
    conv_lhs => rw [← take_append_drop (word ++ [0]).length (data.drop a), start]
    simp
  rw [Base.stringAt, split, if_pos (by simp), takeWhile_append_of_pos]
  · simp
  · intro c mem
    have nonzero : c ≠ 0 := fun zero => clean (zero ▸ mem)
    simpa using nonzero

/-- The words that are finished, at their places, and the one that is being written. -/
def Filled (w : Words) (s : ParseArgs) (args : List Nat) : Prop :=
  ∃ finished : List (Nat × Bytes), w.done = finished.map Prod.snd ∧
    (∀ f ∈ finished, Holds s.data f.1 (f.2 ++ [0]) ∧ ∃ o, s.out = some o ∧ f.1 + f.2.length < o) ∧
    if w.mode = .outside then args = finished.map Prod.fst
    else ∃ a, args = finished.map Prod.fst ++ [a] ∧ s.out = some (a + w.word.length) ∧
      Holds s.data a w.word

def Mode.quote : Mode → Int
  | .outside => -1
  | .plain => 0
  | .inside c => c.toNat

/-- The tokenizer and the loop agree. What is written, in a pass that fills an array, is from `a` on
and below `hi`. -/
structure Agree (fills : Bool) (a hi : Nat) (data : Bytes) (w : Words) (s : ParseArgs) : Prop where
  quote : s.quote = w.mode.quote
  quoted : ∀ c, w.mode = .inside c → isQuote c
  idle : w.mode = .outside → w.word = []
  nargs : s.nargs = w.close.done.length
  lower : a ≤ hi
  out : ∀ o, s.out = some o → a ≤ o ∧ o ≤ hi
  length : s.data.length = data.length
  apart : ∀ i, i < a ∨ hi ≤ i → s.data[i]? = data[i]?
  filled : ∀ args, s.outarray = some args → Filled w s args
  array : s.outarray.isSome = fills
  counts : fills = false → s.out = none ∧ s.data = data

namespace Agree
variable {fills : Bool} {a hi : Nat} {line : Bytes} {w : Words} {s : ParseArgs}
variable (agree : Agree fills a hi line w s)
include agree

theorem mono {hi' : Nat} (le : hi ≤ hi') : Agree fills a hi' line w s :=
  { agree with
    lower := Nat.le_trans agree.lower le
    out := fun o is => ⟨(agree.out o is).1, Nat.le_trans (agree.out o is).2 le⟩
    apart := fun i apart => agree.apart i (by omega) }

theorem quote_neg_iff : s.quote < 0 ↔ w.mode = .outside := by
  rw [agree.quote]
  cases w.mode <;> simp [Mode.quote]

theorem counted : s.nargs = w.done.length + if w.mode = .outside then 0 else 1 := by
  rw [agree.nargs, Words.close]
  split <;> simp

/-- `*out++ = c`: inside of an argument its next byte, otherwise behind the last one. -/
theorem put (c : UInt8) (room : hi < s.data.length) :
    ∃ t, s.put c = some t ∧ t.p = s.p ∧ Agree fills a (hi + 1) line
      (if w.mode = .outside then w else { w with word := w.word ++ [c] }) t := by
  generalize is : (if w.mode = .outside then w else { w with word := w.word ++ [c] }) = w'
  have mode : w'.mode = w.mode := by rw [← is]; split <;> rfl
  have done : w'.done = w.done := by rw [← is]; split <;> rfl
  have idle : w'.mode = .outside → w'.word = [] := by
    intro outside
    rw [← is, if_pos (mode ▸ outside)]
    exact agree.idle (mode ▸ outside)
  have nargs : s.nargs = w'.close.done.length := by
    rw [agree.counted, Words.close, mode, ← done]
    split <;> simp
  have lower := Nat.le_trans agree.lower (Nat.le_succ hi)
  have quoted : ∀ c, w'.mode = .inside c → isQuote c := mode ▸ agree.quoted
  unfold ParseArgs.put
  cases out : s.out with
  | none =>
    refine ⟨s, rfl, rfl, mode ▸ agree.quote, quoted, idle, nargs, lower, ?_, agree.length,
      fun i apart => agree.apart i (by omega), ?_, agree.array, agree.counts⟩
    · intro o is
      rw [out] at is
      cases is
    · intro args is'
      obtain ⟨finished, texts, behind, now⟩ := agree.filled args is'
      refine ⟨finished, done.trans texts, behind, ?_⟩
      rw [mode]
      split
      · next outside => rwa [if_pos outside] at now
      · next inside =>
        rw [if_neg inside] at now
        obtain ⟨b, -, wrote, -⟩ := now
        rw [out] at wrote
        cases wrote
  | some o =>
    obtain ⟨ge, le⟩ := agree.out o out
    dsimp only
    rw [if_pos (by omega)]
    refine ⟨_, rfl, rfl, mode ▸ agree.quote, quoted, idle, nargs, lower, ?_, ?_, ?_, ?_, agree.array,
      ?_⟩
    · intro o' is
      cases is
      omega
    · simp [agree.length]
    · intro i apart
      dsimp only
      rw [getElem?_set_ne (by omega)]
      exact agree.apart i (by omega)
    · intro args is'
      obtain ⟨finished, texts, behind, now⟩ := agree.filled args is'
      refine ⟨finished, done.trans texts, ?_, ?_⟩
      · intro f mem
        obtain ⟨text, o', was, before⟩ := behind f mem
        cases out.symm.trans was
        exact ⟨text.set_behind (by simp; omega) c, _, rfl, by omega⟩
      · rw [mode]
        split
        · next outside => rwa [if_pos outside] at now
        · next inside =>
          rw [if_neg inside] at now is
          obtain ⟨b, argsIs, wrote, holds⟩ := now
          cases out.symm.trans wrote
          rw [← is]
          exact ⟨b, argsIs, by simp; omega, holds.set_end (by omega) c⟩
    · intro counting
      rw [(agree.counts counting).1] at out
      cases out

theorem begin (le : hi + 1 ≤ s.p) :
    Agree fills a (s.p - 1) line w.begin (if s.quote < 0 then s.start else s) := by
  have lower := agree.lower
  by_cases outside : w.mode = .outside
  swap
  · rw [if_neg (mt agree.quote_neg_iff.mp outside), Words.begin, if_neg outside]
    exact agree.mono (by omega)
  rw [if_pos (agree.quote_neg_iff.mpr outside), Words.begin, if_pos outside]
  have count := agree.counted
  rw [if_pos outside] at count
  refine ⟨rfl, nofun, nofun, ?_, by omega, ?_, agree.length,
    fun i is => agree.apart i (by omega), ?_, (Option.isSome_map ..).trans agree.array, ?_⟩
  · simp [start, Words.close, count]
  · intro o is
    unfold start at is
    cases array : s.outarray with
    | none =>
      rw [array] at is
      have := agree.out o is
      omega
    | some args =>
      rw [array] at is
      cases is
      omega
  · intro args' is
    unfold start at is ⊢
    cases array : s.outarray with
    | none => rw [array] at is; cases is
    | some args =>
      rw [array] at is
      cases is
      obtain ⟨finished, done, texts, now⟩ := agree.filled args array
      rw [if_pos outside] at now
      refine ⟨finished, done, ?_, ?_⟩
      · intro f mem
        obtain ⟨holds, o, out, behind⟩ := texts f mem
        have := agree.out o out
        exact ⟨holds, s.p - 1, rfl, by omega⟩
      · rw [if_neg nofun]
        refine ⟨s.p - 1, by rw [now], ?_, ?_⟩
        · simp [agree.idle outside]
        · rw [agree.idle outside]
          nofun
  · intro counting
    have none := agree.array
    rw [counting, Option.isSome_eq_false_iff, Option.isNone_iff_eq_none] at none
    unfold start
    rw [none]
    exact agree.counts counting

/-- `*out++ = 0`, and outside of an argument from here on. -/
theorem close (room : hi < s.data.length) :
    ∃ t, s.put 0 = some t ∧ t.p = s.p ∧ Agree fills a (hi + 1) line w.close { t with quote := -1 } := by
  obtain ⟨t, put, p, agree⟩ := agree.put 0 room
  refine ⟨t, put, p, ?_⟩
  unfold Words.close
  split
  · next outside =>
    rw [if_pos outside] at agree
    exact { agree with quote := by rw [outside]; rfl }
  · next inside =>
    rw [if_neg inside] at agree
    refine ⟨rfl, nofun, fun _ => rfl, ?_, agree.lower, agree.out, agree.length, agree.apart, ?_,
      agree.array, agree.counts⟩
    · rw [agree.counted, if_neg inside, Words.close, if_pos rfl]
      simp
    · intro args is
      obtain ⟨finished, done, texts, now⟩ := agree.filled args is
      rw [if_neg inside] at now
      obtain ⟨b, argsIs, outIs, holds⟩ := now
      refine ⟨finished ++ [(b, w.word)], by simp [show w.done = _ from done], ?_, ?_⟩
      · intro f mem
        rcases mem_append.mp mem with old | new
        · exact texts f old
        · cases mem_singleton.mp new
          exact ⟨holds, _, outIs, by simp⟩
      · rw [if_pos rfl, argsIs]
        simp

theorem setMode (inside : w.mode ≠ .outside) {m : Mode} (within : m ≠ .outside)
    (quoted : ∀ c, m = .inside c → isQuote c) :
    Agree fills a hi line { w with mode := m } { s with quote := m.quote } := by
  refine ⟨rfl, quoted, fun is => absurd is within, ?_, agree.lower, agree.out, agree.length,
    agree.apart, ?_, agree.array, agree.counts⟩
  · rw [agree.counted, if_neg inside, Words.close, if_neg within]
    simp
  · intro args is
    obtain ⟨finished, done, texts, now⟩ := agree.filled args is
    rw [if_neg inside] at now
    exact ⟨finished, done, texts, by rw [if_neg within]; exact now⟩

end Agree

/-! ## The loop -/

namespace Item

def ac : Item → UInt8
  | .escaped _ => ascii '\\'
  | .plain c => c

def rc : Item → UInt8
  | .escaped c => c
  | .plain c => c

end Item
open Item

theorem isQuote_ne_backslash {c : UInt8} (quote : isQuote c) : c ≠ ascii '\\' ∧ 0 < c.toNat := by
  rcases quote with rfl | rfl <;> decide

theorem Words.begin_mode (w : Words) : w.begin.mode ≠ .outside := by
  unfold begin
  split
  · nofun
  · next inside => exact inside

theorem Words.begin_inside (w : Words) (c : UInt8) : w.begin.mode = .inside c ↔ w.mode = .inside c := by
  unfold begin
  split
  · next outside => rw [outside]; exact iff_of_false nofun nofun
  · rfl

/-- All words are strings. -/
def Words.Clean (w : Words) : Prop := 0 ∉ w.word ∧ ∀ word ∈ w.done, 0 ∉ word

theorem Words.Clean.close {w : Words} (clean : w.Clean) : w.close.Clean := by
  unfold Words.close
  split
  · exact clean
  · refine ⟨nofun, ?_⟩
    intro word mem
    rcases mem_append.mp mem with old | new
    · exact clean.2 word old
    · cases mem_singleton.mp new
      exact clean.1

theorem Words.Clean.read {w : Words} (clean : w.Clean) {item : Item} (nonzero : item.rc ≠ 0) :
    (w.read item).Clean := by
  have added : ∀ c, c ≠ 0 → (w.add c).Clean := by
    intro c nonzero
    have done : w.begin.done = w.done := by unfold Words.begin; split <;> rfl
    refine ⟨?_, fun word mem => clean.2 word (done ▸ mem)⟩
    intro mem
    rcases mem_append.mp mem with old | new
    · exact clean.1 old
    · exact nonzero (mem_singleton.mp new).symm
  cases item with
  | escaped c => exact added c nonzero
  | plain c =>
    simp only [Words.read]
    split
    · exact clean.close
    split
    · exact clean
    split
    · exact clean
    · exact added c nonzero

namespace Agree
variable {fills : Bool} {a hi : Nat} {line : Bytes} {w : Words} {s : ParseArgs} {rest : Bytes}
  {c : UInt8}

section
variable (agree : Agree fills a hi line w s)
include agree

theorem take (le : hi + 1 ≤ s.p) (room : s.p ≤ s.data.length) (item : Item) :
    ∃ t, s.take item.ac item.rc = some t ∧ t.p = s.p ∧
      Agree fills a s.p line (if w.mode = .inside item.ac then { w with mode := .plain }
        else if isQuote item.ac then { w with mode := .inside item.ac } else w.add item.rc) t := by
  have begun := agree.begin le
  have same : (if s.quote < 0 then s.start else s).p = s.p := by split <;> rfl
  have whole : (if s.quote < 0 then s.start else s).data = s.data := by split <;> rfl
  unfold ParseArgs.take
  generalize (if s.quote < 0 then s.start else s) = u at *
  have inside := w.begin_mode
  have closes : 0 < u.quote ∧ (item.ac.toNat : Int) = u.quote ↔ w.mode = .inside item.ac := by
    rw [begun.quote, ← w.begin_inside]
    cases mode : w.begin.mode with
    | outside => exact absurd mode inside
    | plain => exact iff_of_false (fun is => absurd is.1 (by decide)) nofun
    | inside q =>
      have positive := (isQuote_ne_backslash (begun.quoted q mode)).2
      simp only [Mode.quote, Mode.inside.injEq]
      rw [← UInt8.toNat_inj]
      omega
  have word : w.begin.word = w.word := by unfold Words.begin; split <;> rfl
  have done : w.begin.done = w.done := by unfold Words.begin; split <;> rfl
  have change : ∀ m : Mode, { w.begin with mode := m } = { w with mode := m } := by
    intro m
    dsimp only
    rw [word, done]
  dsimp only
  by_cases ends : w.mode = .inside item.ac
  · have plain := begun.setMode inside (m := .plain) nofun nofun
    rw [if_pos (closes.mpr ends), if_pos ends, ← change]
    exact ⟨_, rfl, same, plain.mono (Nat.sub_le ..)⟩
  rw [if_neg (mt closes.mp ends), if_neg ends]
  by_cases opens : isQuote item.ac
  · have quoted := begun.setMode inside (m := .inside item.ac) nofun
      fun c is => by cases is; exact opens
    rw [if_pos (show _ ∨ _ from opens), if_pos opens, ← change]
    exact ⟨_, rfl, same, quoted.mono (Nat.sub_le ..)⟩
  · rw [if_neg (show ¬(_ ∨ _) from opens), if_neg opens]
    obtain ⟨t, put, p, added⟩ := begun.put item.rc (by rw [whole]; omega)
    refine ⟨t, put, p.trans same, ?_⟩
    rw [if_neg inside, word, Nat.sub_add_cancel (by omega)] at added
    exact added

theorem turnOn (le : hi + 1 ≤ s.p) (room : s.p ≤ s.data.length) (item : Item) (nonzero : item.rc ≠ 0) :
    ∃ t, s.turnOn item.ac item.rc = some (false, t) ∧ t.p = s.p ∧
      Agree fills a s.p line (w.read item) t := by
  have blank : (item.ac = ascii ' ' || item.ac = ascii '\n' || item.ac = ascii '\t') =
      isBlank item.ac := rfl
  have zero : s.quote = 0 ↔ w.mode = .plain := by
    rw [agree.quote]
    cases mode : w.mode with
    | outside => exact iff_of_false (by decide) nofun
    | plain => exact iff_of_true rfl rfl
    | inside q =>
      have positive := (isQuote_ne_backslash (agree.quoted q mode)).2
      exact iff_of_false (by simp only [Mode.quote]; omega) nofun
  unfold ParseArgs.turnOn
  rw [blank]
  dsimp only
  rw [if_neg nonzero]
  by_cases delimits : isBlank item.ac = true ∧ (w.mode = .outside ∨ w.mode = .plain)
  · have item_ : ∃ c, item = .plain c := by
      cases item with
      | escaped c => exact absurd delimits.1 (show isBlank (ascii '\\') ≠ true by decide)
      | plain c => exact ⟨c, rfl⟩
    obtain ⟨c, rfl⟩ := item_
    have read : w.read (.plain c) = w.close := if_pos delimits
    rw [read]
    rcases delimits with ⟨isBlank, outside | plain⟩
    · have negative := agree.quote_neg_iff.mpr outside
      rw [if_neg (by simp; omega), if_pos (by simp [isBlank, negative])]
      rw [Words.close, if_pos outside]
      exact ⟨s, rfl, rfl, agree.mono (by omega)⟩
    · rw [if_pos (by simp [isBlank, zero.mpr plain])]
      obtain ⟨t, put, p, closed⟩ := agree.close (by omega)
      rw [put]
      exact ⟨_, rfl, p, closed.mono le⟩
  · obtain ⟨t, took, p, taken⟩ := agree.take le room item
    rw [if_neg, if_neg, took]
    · refine ⟨t, rfl, p, ?_⟩
      cases item with
      | escaped c =>
        have apart : ¬w.mode = .inside (ascii '\\') := fun is =>
          (isQuote_ne_backslash (agree.quoted _ is)).1 rfl
        have quiet : ¬isQuote (ascii '\\') := by decide
        rw [if_neg (show ¬w.mode = .inside (escaped c).ac from apart),
          if_neg (show ¬isQuote (escaped c).ac from quiet)] at taken
        exact taken
      | plain c =>
        dsimp only [ac] at delimits
        rw [Words.read, if_neg delimits]
        exact taken
    · intro both
      rw [Bool.and_eq_true, decide_eq_true_eq] at both
      exact delimits ⟨both.1, .inl (agree.quote_neg_iff.mp both.2)⟩
    · intro both
      rw [Bool.and_eq_true, decide_eq_true_eq] at both
      exact delimits ⟨both.1, .inr (zero.mp both.2)⟩

theorem goto (p : Nat) : Agree fills a hi line w { s with p := p } :=
  ⟨agree.quote, agree.quoted, agree.idle, agree.nargs, agree.lower, agree.out, agree.length,
    agree.apart, agree.filled, agree.array, agree.counts⟩

theorem read {p i : Nat} {text : Bytes} (le : hi ≤ p) (unread : Holds line p text)
    (lt : i < text.length) : s.data[p + i]? = text[i]? := by
  rw [agree.apart _ (Or.inr (Nat.le_trans le (Nat.le_add_right p i))), unread i lt]

end

section
variable (agree : Agree fills a s.p line w s)
include agree

theorem stop (end_ : rest = [] ∨ rest = [ascii '\\']) (unread : Holds line s.p (rest ++ [0])) :
    ∃ t, s.turn = some (true, t) ∧ s.p + 1 ≤ t.p ∧ Agree fills a (s.p + 1) line w.close t := by
  have first := agree.read (Nat.le_refl _) unread (i := 0) (by simp)
  have room : s.p < s.data.length := by
    by_contra out
    rw [getElem?_eq_none (by omega)] at first
    rcases end_ with rfl | rfl <;> cases first
  have stops : ∀ ac p, s.p + 1 ≤ p → ∃ t, ParseArgs.turnOn ac 0 { s with p := p } = some (true, t) ∧
      s.p + 1 ≤ t.p ∧ Agree fills a (s.p + 1) line w.close t := by
    intro ac p le
    obtain ⟨t, put, at_, closed⟩ := (agree.goto p).close room
    refine ⟨{ t with quote := -1 }, ?_, ?_, closed⟩
    · unfold ParseArgs.turnOn
      dsimp only
      rw [if_pos rfl, put]
      rfl
    · dsimp only at at_ ⊢
      omega
  unfold ParseArgs.turn
  rcases end_ with rfl | rfl
  · rw [Nat.add_zero] at first
    rw [first]
    exact stops 0 (s.p + 1) (Nat.le_refl _)
  · have second := agree.read (Nat.le_refl _) unread (i := 1) (by simp)
    rw [Nat.add_zero] at first
    rw [first, second]
    exact stops (ascii '\\') (s.p + 2) (by omega)

theorem turnOn_next (item : Item) (nonzero : item.rc ≠ 0) (text : Bytes)
    (unread : Holds line s.p (text ++ (rest ++ [0]))) (pos : 1 ≤ text.length) :
    ∃ t, ParseArgs.turnOn item.ac item.rc { s with p := s.p + text.length } = some (false, t) ∧
      t.p = s.p + text.length ∧ Agree fills a t.p line (w.read item) t ∧ Holds line t.p (rest ++ [0]) := by
  have last := agree.read (Nat.le_refl _) unread (i := text.length) (by simp)
  have room : s.p + text.length < s.data.length := by
    by_contra out
    rw [getElem?_eq_none (by omega), getElem?_append_right (Nat.le_refl _), Nat.sub_self] at last
    cases rest <;> cases last
  obtain ⟨t, ran, at_, after⟩ := (agree.goto (s.p + text.length)).turnOn
    (by dsimp only; omega) (by dsimp only; omega) item nonzero
  refine ⟨t, ran, at_, at_ ▸ after, ?_⟩
  intro i lt
  have next := unread (text.length + i) (by simp only [length_append] at lt ⊢; omega)
  rw [getElem?_append_right (by omega), Nat.add_sub_cancel_left, ← Nat.add_assoc] at next
  rw [at_]
  exact next

theorem turn_plain (nonzero : c ≠ 0) (plain : c ≠ ascii '\\')
    (unread : Holds line s.p (c :: rest ++ [0])) :
    ∃ t, s.turn = some (false, t) ∧ t.p = s.p + 1 ∧ Agree fills a t.p line (w.read (.plain c)) t ∧
      Holds line t.p (rest ++ [0]) := by
  have first := agree.read (Nat.le_refl _) unread (i := 0) (by simp)
  rw [Nat.add_zero] at first
  unfold ParseArgs.turn
  rw [first]
  dsimp only [cons_append, getElem?_cons_zero]
  rw [if_neg plain]
  exact agree.turnOn_next (.plain c) nonzero [c] unread (Nat.le_refl _)

theorem turn_escaped (nonzero : c ≠ 0) (unread : Holds line s.p (ascii '\\' :: c :: rest ++ [0])) :
    ∃ t, s.turn = some (false, t) ∧ t.p = s.p + 2 ∧ Agree fills a t.p line (w.read (.escaped c)) t ∧
      Holds line t.p (rest ++ [0]) := by
  have first := agree.read (Nat.le_refl _) unread (i := 0) (by simp)
  have second := agree.read (Nat.le_refl _) unread (i := 1) (by simp)
  rw [Nat.add_zero] at first
  unfold ParseArgs.turn
  rw [first, second]
  exact agree.turnOn_next (.escaped c) nonzero [ascii '\\', c] unread (by simp)

end

/-- The loop runs to the end of the line, and has made the words of its items. -/
structure Looped (fills : Bool) (a z : Nat) (line : Bytes) (w : Words) (left : Nat) (s t : ParseArgs) :
    Prop where
  ran : ParseArgs.loop left s = some t
  agree : Agree fills a z line w.close t
  clean : w.Clean
  behind : ∀ v ∈ ParseArgs.visited left s, ∀ o, v.out = some o → o ≤ v.p

/-- The induction is on the length of what is unread, as an item may have two bytes. -/
theorem loop : ∀ (n : Nat) {rest : Bytes}, rest.length < n → 0 ∉ rest → ∀ {left : Nat} {w : Words}
    {s : ParseArgs}, rest.length < left → w.Clean → Agree fills a s.p line w s →
    Holds line s.p (rest ++ [0]) → ∃ t,
      Looped fills a (s.p + rest.length + 1) line ((items rest).foldl Words.read w) left s t := by
  intro n
  induction n with
  | zero => nofun
  | succ n ih =>
    intro rest short clean left w s enough strings agree unread
    obtain ⟨left, rfl⟩ : ∃ l, left = l + 1 := ⟨left - 1, by omega⟩
    have behind : ∀ o, s.out = some o → o ≤ s.p := fun o is => (agree.out o is).2
    -- a turn that goes on, and the rest of the line
    have goes : ∀ (item : Item) {t : ParseArgs} {k : Nat} {rest' : Bytes}, s.turn = some (false, t) →
        t.p = s.p + k → 1 ≤ k → rest'.length + k = rest.length → 0 ∉ rest' → item.rc ≠ 0 →
        Agree fills a t.p line (w.read item) t → Holds line t.p (rest' ++ [0]) →
        items rest = item :: items rest' → ∃ t, Looped fills a (s.p + rest.length + 1) line
          ((items rest).foldl Words.read w) (left + 1) s t := by
      intro item t k rest' ran at_ pos length clean' nonzero after unread' is
      obtain ⟨last, looped, final, strings, seen⟩ := ih (by omega) clean'
        (show rest'.length < left by omega) (strings.read nonzero) after unread'
      rw [is, foldl_cons]
      refine ⟨last, ?_, ?_, strings, ?_⟩
      · rw [ParseArgs.loop, ran]
        exact looped
      · rw [← length, show s.p + (rest'.length + k) = t.p + rest'.length by omega]
        exact final
      · rw [visited, ran]
        intro v mem
        rcases mem_cons.mp mem with rfl | mem
        · exact behind
        · exact seen v mem
    have stops : rest = [] ∨ rest = [ascii '\\'] → items rest = [] → ∃ t, Looped fills a
        (s.p + rest.length + 1) line ((items rest).foldl Words.read w) (left + 1) s t := by
      intro end_ is
      obtain ⟨t, ran, at_, closed⟩ := agree.stop end_ unread
      rw [is]
      refine ⟨t, by rw [ParseArgs.loop, ran], closed.mono (by omega), strings, ?_⟩
      rw [visited, ran]
      intro v mem
      rcases mem_cons.mp mem with rfl | mem
      · exact behind
      · cases mem_singleton.mp mem
        exact fun o is => Nat.le_trans (closed.out o is).2 at_
    cases rest with
    | nil => exact stops (Or.inl rfl) rfl
    | cons c rest =>
      have nonzero : c ≠ 0 := fun zero => clean (by simp [zero])
      by_cases plain : c ≠ ascii '\\'
      · obtain ⟨t, ran, at_, after, unread'⟩ := agree.turn_plain nonzero plain unread
        exact goes (.plain c) ran at_ (Nat.le_refl _) rfl (fun mem => clean (mem_cons_of_mem _ mem)) nonzero
          after unread' (items_plain plain rest)
      · obtain rfl := not_not.mp plain
        cases rest with
        | nil => exact stops (.inr rfl) rfl
        | cons d rest =>
          have nonzero : d ≠ 0 := fun zero => clean (by simp [zero])
          obtain ⟨t, ran, at_, after, unread'⟩ := agree.turn_escaped nonzero unread
          exact goes (.escaped d) ran at_ (by decide) rfl
            (fun mem => clean (mem_cons_of_mem _ (mem_cons_of_mem _ mem))) nonzero after
            unread' rfl

end Agree

/-! ## The words of a line -/

theorem rumprunParseargs_spec {data line : Bytes} {p : Nat} (unread : Holds data p (line ++ [0]))
    (clean : 0 ∉ line) (outarray : Option (List Nat))
    (fresh : ∀ args, outarray = some args → args = []) :
    ∃ t, Agree.Looped outarray.isSome p (p + line.length + 1) data
      ((items line).foldl Words.read .init) (data.length - p)
      { data := data, p := p, out := none, quote := -1, nargs := 0, outarray := outarray } t := by
  have start : Agree outarray.isSome p p data .init
      { data := data, p := p, out := none, quote := -1, nargs := 0, outarray := outarray } := by
    refine ⟨rfl, nofun, fun _ => rfl, rfl, Nat.le_refl p, nofun, rfl, fun _ _ => rfl, ?_, rfl,
      fun _ => ⟨rfl, rfl⟩⟩
    intro args is
    exact ⟨[], rfl, nofun, fresh args is⟩
  have room : p + line.length < data.length := by
    have last := unread line.length (by simp)
    by_contra out
    rw [getElem?_eq_none (by omega)] at last
    simp at last
  have strings : Words.init.Clean := ⟨nofun, nofun⟩
  exact Agree.loop
    (s := { data := data, p := p, out := none, quote := -1, nargs := 0, outarray := outarray })
    (line.length + 1) (Nat.lt_succ_self _) clean (by omega) strings start unread

theorem Agree.Looped.strings {a z left : Nat} {data line : Bytes} {s t : ParseArgs}
    (looped : Agree.Looped true a z data ((items line).foldl Words.read .init) left s t) :
    ∃ args, t.outarray = some args ∧ args.map (stringAt t.data) = (words line).map some ∧
      args.length = t.nargs := by
  have agree := looped.agree
  obtain ⟨args, array⟩ := Option.isSome_iff_exists.mp agree.array
  obtain ⟨finished, done, texts, now⟩ := agree.filled args array
  have outside : ((items line).foldl Words.read .init).close.mode = .outside := by
    unfold Words.close
    split
    · next is => exact is
    · rfl
  rw [if_pos outside] at now
  subst now
  have strings := looped.clean.close.2
  have count := agree.nargs
  rw [Words.close, if_pos outside, done, length_map] at count
  rw [done] at strings
  refine ⟨_, array, ?_, by rw [count, length_map]⟩
  rw [words, done, map_map, map_map]
  refine map_congr_left fun f mem => ?_
  exact (texts f mem).1.stringAt (strings f.2 (mem_map_of_mem mem))

/-! ## Round trip -/

def encodeArg (arg : Bytes) : Bytes :=
  if arg = [] then [ascii '\"', ascii '\"'] else arg.flatMap fun c => [ascii '\\', c]

/-- A backslash before every byte, and a blank between two arguments. -/
def encode : List Bytes → Bytes
  | [] => []
  | [arg] => encodeArg arg
  | arg :: next :: rest => encodeArg arg ++ ascii ' ' :: encode (next :: rest)

def argItems (arg : Bytes) : List Item :=
  if arg = [] then [.plain (ascii '\"'), .plain (ascii '\"')] else arg.map .escaped

theorem items_encodeArg (arg rest : Bytes) :
    items (encodeArg arg ++ rest) = argItems arg ++ items rest := by
  have escaped : ∀ arg : Bytes, items ((arg.flatMap fun c => [ascii '\\', c]) ++ rest) =
      arg.map .escaped ++ items rest := by
    intro arg
    induction arg with
    | nil => rfl
    | cons c arg ih =>
      rw [flatMap_cons, map_cons, append_assoc]
      exact congrArg (escaped c :: ·) ih
  unfold encodeArg argItems
  split
  · exact (items_plain (by decide) _).trans (congrArg _ (items_plain (by decide) _))
  · exact escaped arg

theorem read_argItems (arg : Bytes) (done : List Bytes) :
    (argItems arg).foldl Words.read ⟨.outside, [], done⟩ = ⟨.plain, arg, done⟩ := by
  have escaped : ∀ (arg word : Bytes), (arg.map escaped).foldl Words.read ⟨.plain, word, done⟩ =
      ⟨.plain, word ++ arg, done⟩ := by
    intro arg
    induction arg with
    | nil => intro word; rw [append_nil]; rfl
    | cons c arg ih =>
      intro word
      exact (ih (word ++ [c])).trans (by rw [append_assoc]; rfl)
  cases arg with
  | nil => rfl
  | cons c arg => exact escaped arg [c]

theorem words_encode (args : List Bytes) : words (encode args) = args := by
  have fold : ∀ (args : List Bytes) (done : List Bytes),
      ((items (encode args)).foldl Words.read ⟨.outside, [], done⟩).close.done = done ++ args := by
    intro args
    induction args with
    | nil => intro done; exact (append_nil done).symm
    | cons arg rest ih =>
      intro done
      cases rest with
      | nil =>
        have whole := items_encodeArg arg []
        rw [append_nil, items, append_nil] at whole
        rw [encode, whole, read_argItems]
        rfl
      | cons next rest =>
        rw [encode, items_encodeArg, items_plain (by decide), foldl_append, read_argItems, foldl_cons]
        exact (ih (done ++ [arg])).trans (by rw [append_assoc]; rfl)
  exact fold args []

theorem encode_clean : ∀ {args : List Bytes}, (∀ arg ∈ args, 0 ∉ arg) → 0 ∉ encode args := by
  have one : ∀ arg : Bytes, 0 ∉ arg → 0 ∉ encodeArg arg := by
    intro arg clean
    unfold encodeArg
    split
    · decide
    · intro mem
      obtain ⟨c, inside, is⟩ := mem_flatMap.mp mem
      rcases mem_pair.mp is with zero | rfl
      · exact absurd zero (by decide)
      · exact clean inside
  intro args
  induction args with
  | nil => nofun
  | cons arg rest ih =>
    intro clean
    have first := one arg (clean arg mem_cons_self)
    cases rest with
    | nil => exact first
    | cons next rest =>
      rw [encode, mem_append, mem_cons]
      rintro (mem | blank | mem)
      · exact first mem
      · exact absurd blank (by decide)
      · exact ih (fun arg mem => clean arg (mem_cons_of_mem _ mem)) mem

/-- The counting and the filling pass agree on the number of arguments, the
second writes behind what it reads and on the line only, and its strings are the words of the line;
lists of strings survive being encoded and split. -/
theorem parseargs_splits_words (data line : Bytes) (p : Nat) (clean : 0 ∉ line)
    (unread : Holds data p (line ++ [0])) (list : List Bytes) (strings : ∀ arg ∈ list, 0 ∉ arg) :
    (∃ counted filled args, rumprunParseargs data p none = some counted ∧ counted.data = data ∧
      rumprunParseargs data p (some []) = some filled ∧ counted.nargs = filled.nargs ∧
      filled.outarray = some args ∧ args.length = filled.nargs ∧
      args.map (stringAt filled.data) = (words line).map some ∧ filled.data.length = data.length ∧
      (∀ i, i < p ∨ p + line.length < i → filled.data[i]? = data[i]?) ∧
      ∀ v ∈ ParseArgs.visited (data.length - p)
        { data := data, p := p, out := none, quote := -1, nargs := 0, outarray := some [] },
        ∀ o, v.out = some o → o ≤ v.p) ∧
    0 ∉ encode list ∧ words (encode list) = list := by
  refine ⟨?_, encode_clean strings, words_encode list⟩
  obtain ⟨counted, counting⟩ := rumprunParseargs_spec unread clean none nofun
  obtain ⟨filled, filling⟩ := rumprunParseargs_spec unread clean (some []) (by simp)
  obtain ⟨args, array, texts, number⟩ := filling.strings
  refine ⟨counted, filled, args, counting.ran, (counting.agree.counts rfl).2, filling.ran,
    counting.agree.nargs.trans filling.agree.nargs.symm, array, number, texts, filling.agree.length, ?_,
    filling.behind⟩
  intro i apart
  exact filling.agree.apart i (by omega)

theorem parseargs_splits_words_two :
    words [97, 32, 98, 92, 32, 99] = [[97], [98, 32, 99]] ∧
      words (encode [[97, 32], []]) = [[97, 32], []] ∧
      ∃ (filled : ParseArgs) (args : List Nat),
        rumprunParseargs [97, 32, 98, 92, 32, 99, 0] 0 (some []) = some filled ∧
        args.map (stringAt filled.data) = (words [97, 32, 98, 92, 32, 99]).map some := by
  obtain ⟨⟨-, filled, args, -, -, fills, -, -, -, texts, -⟩, -, back⟩ :=
    parseargs_splits_words [97, 32, 98, 92, 32, 99, 0] [97, 32, 98, 92, 32, 99] 0 (by decide)
      (by unfold Holds; decide) [[97, 32], []] (by decide)
  exact ⟨by decide, back, filled, args, fills, texts⟩

/-! ## Quotes -/

def otherQuote (q : UInt8) : UInt8 := if q = ascii '\"' then ascii '\'' else ascii '\"'

theorem isQuote_iff {q c : UInt8} (quote : isQuote q) : isQuote c ↔ c = q ∨ c = otherQuote q := by
  rcases quote with rfl | rfl
  · exact or_congr_right (by rw [otherQuote, if_neg (by decide)])
  · exact or_comm.trans (or_congr_right (by rw [otherQuote, if_pos rfl]))

def Item.isQuote : Item → Bool
  | .escaped _ => false
  | .plain c => decide (Base.isQuote c)

/-- How many bytes the words have. -/
def Words.size (w : Words) : Nat := w.word.length + w.done.flatten.length

/-- A quote character that is not escaped is never part of a word. -/
theorem Words.size_read (w : Words) (item : Item) :
    (w.read item).size ≤ w.size + if item.isQuote = true then 0 else 1 := by
  have closed : w.close.size ≤ w.size := by
    unfold close
    split
    · exact Nat.le_refl _
    · simp [size]
      omega
  have added : ∀ c, (w.add c).size = w.size + 1 := by
    intro c
    have done : w.begin.done = w.done := by unfold begin; split <;> rfl
    simp [size, add, done]
    omega
  cases item with
  | escaped c => exact Nat.le_of_eq (added c)
  | plain c =>
    simp only [read]
    split
    · exact Nat.le_trans closed (Nat.le_add_right _ _)
    split
    · exact Nat.le_add_right _ _
    split
    · exact Nat.le_add_right _ _
    · next plain =>
      rw [if_neg (by simp [Item.isQuote, plain])]
      exact Nat.le_of_eq (added c)

theorem Words.size_reads (list : List Item) : ∀ w : Words,
    (list.foldl Words.read w).size ≤ w.size + list.countP (!Item.isQuote ·) := by
  induction list with
  | nil => exact fun w => Nat.le_refl _
  | cons item list ih =>
    intro w
    have first := w.size_read item
    have rest := ih (w.read item)
    rw [foldl_cons, countP_cons]
    cases quote : item.isQuote <;> simp only [quote] at first ⊢ <;> simp at first ⊢ <;> omega

theorem Words.read_region {q : UInt8} (quote : isQuote q) : ∀ (region : List Item) (w : Words),
    w.mode = .inside q → (∀ item ∈ region, item.isQuote = false) →
    region.foldl Words.read w = { w with word := w.word ++ region.map rc } := by
  intro region
  induction region with
  | nil => intro w _ _; simp
  | cons item region ih =>
    intro w mode literal
    have begun : w.begin = w := if_neg (by rw [mode]; nofun)
    have added : w.read item = { w with word := w.word ++ [item.rc] } := by
      have plain := literal item mem_cons_self
      cases item with
      | escaped c => rw [read, add, begun]; rfl
      | plain c =>
        have plain : ¬Base.isQuote c := by simpa [Item.isQuote] using plain
        have other : ¬w.mode = .inside c := by
          rw [mode]
          rintro ⟨⟩
          exact plain quote
        rw [read, if_neg (by rw [mode]; simp), if_neg other, if_neg plain, add, begun]
        rfl
    have rest := ih { w with word := w.word ++ [item.rc] } mode fun next mem =>
      literal next (mem_cons_of_mem _ mem)
    rw [foldl_cons, added]
    exact rest.trans (by simp)

section
variable {q : UInt8} (quote : isQuote q) {w : Words} (mode : w.mode = .outside ∨ w.mode = .plain)
  {region : List Item}
include quote

theorem isQuote_region (unescaped : ∀ item ∈ region, item ≠ .plain q) :
    (∀ item ∈ region, item.isQuote = false) ↔ ∀ item ∈ region, item ≠ .plain (otherQuote q) := by
  refine forall_congr' fun item => imp_congr_right fun mem => ?_
  cases item with
  | escaped c => exact iff_of_true rfl nofun
  | plain c =>
    have ne : c ≠ q := fun is => unescaped _ mem (by rw [is])
    simp [Item.isQuote, isQuote_iff quote, ne]

include mode

theorem Words.read_quote : w.read (.plain q) = { w with mode := .inside q } := by
  have blank : isBlank q ≠ true := by rcases quote with rfl | rfl <;> decide
  have other : ¬w.mode = .inside q := by rcases mode with is | is <;> rw [is] <;> nofun
  rw [Words.read, if_neg fun is => blank is.1, if_neg other, if_pos quote]

theorem Words.read_opened (literal : ∀ item ∈ region, item.isQuote = false) :
    region.foldl Words.read (w.read (.plain q)) =
      { w with mode := .inside q, word := w.word ++ region.map rc } := by
  rw [read_quote quote mode, read_region quote region _ rfl literal]

theorem Words.read_closed (literal : ∀ item ∈ region, item.isQuote = false) :
    (region ++ [Item.plain q]).foldl Words.read (w.read (.plain q)) =
      { w with mode := .plain, word := w.word ++ region.map rc } := by
  rw [foldl_append, read_opened quote mode literal]
  simp only [foldl_cons, foldl_nil, Words.read]
  rw [if_neg (by simp), if_pos trivial]

/-- Where each byte of the region is in a word, none of them is a quote character. -/
theorem Words.literal_of_read (last : List Item) {after : Mode}
    (marks : last.countP (!Item.isQuote ·) = 0)
    (read : (region ++ last).foldl Words.read (w.read (.plain q)) =
      { w with mode := after, word := w.word ++ region.map rc }) :
    ∀ item ∈ region, item.isQuote = false := by
  have size := size_reads (region ++ last) (w.read (.plain q))
  rw [read, read_quote quote mode, countP_append, marks] at size
  simp only [Words.size, length_append, length_map] at size
  have most := countP_le_length (p := fun item => !Item.isQuote item) (l := region)
  have all := countP_eq_length.mp (Nat.le_antisymm most (by omega))
  exact fun item mem => by simpa using all item mem

end

/-- A region behind a quote character `q`, up to the next one or to the end of the line, is taken
literally exactly when there is no quote character of the other kind in it that is not escaped. A
command line with such a region has its bytes in one of its arguments. -/
theorem quoted_region_literal_iff (q : UInt8) (quote : isQuote q) (region : List Item)
    (unescaped : ∀ item ∈ region, item ≠ .plain q) :
    (∀ w : Words, w.mode = .outside ∨ w.mode = .plain →
      ((region ++ [Item.plain q]).foldl Words.read (w.read (.plain q)) =
          { w with mode := .plain, word := w.word ++ region.map Item.rc } ↔
        ∀ item ∈ region, item ≠ .plain (otherQuote q)) ∧
      (region.foldl Words.read (w.read (.plain q)) =
          { w with mode := .inside q, word := w.word ++ region.map Item.rc } ↔
        ∀ item ∈ region, item ≠ .plain (otherQuote q))) ∧
    ((∀ item ∈ region, item ≠ .plain (otherQuote q)) →
      ∀ (data line : Bytes) (p : Nat) (before : List Item), 0 ∉ line → Holds data p (line ++ [0]) →
        (before.foldl Words.read .init).mode = .outside ∨
          (before.foldl Words.read .init).mode = .plain →
        (∀ after, items line = before ++ .plain q :: region ++ .plain q :: after →
          ∃ filled args, rumprunParseargs data p (some []) = some filled ∧
            filled.outarray = some args ∧ args.map (stringAt filled.data) =
              (after.foldl Words.read { before.foldl Words.read .init with
                mode := .plain,
                word := (before.foldl Words.read .init).word ++ region.map Item.rc }).close.done.map
                  some) ∧
        (items line = before ++ .plain q :: region →
          ∃ filled args, rumprunParseargs data p (some []) = some filled ∧
            filled.outarray = some args ∧ args.map (stringAt filled.data) =
              ((before.foldl Words.read .init).done ++
                [(before.foldl Words.read .init).word ++ region.map Item.rc]).map some)) := by
  rw [← isQuote_region quote unescaped]
  refine ⟨fun w mode =>
    ⟨⟨?_, Words.read_closed quote mode⟩, ?_, Words.read_opened quote mode⟩, ?_⟩
  · exact Words.literal_of_read quote mode [.plain q] (by simp [Item.isQuote, quote])
  · intro read
    exact Words.literal_of_read quote mode [] rfl (by rwa [append_nil])
  · intro literal data line p before clean unread mode
    obtain ⟨filled, filling⟩ := rumprunParseargs_spec unread clean (some []) (by simp)
    obtain ⟨args, array, texts, -⟩ := filling.strings
    constructor
    · intro after split
      refine ⟨filled, args, filling.ran, array, texts.trans ?_⟩
      have region' : before ++ Item.plain q :: region ++ .plain q :: after =
          before ++ [.plain q] ++ (region ++ [.plain q]) ++ after := by simp
      rw [words, split, region', foldl_append, foldl_append, foldl_append (l := before)]
      exact congrArg (fun w => (foldl Words.read w after).close.done.map some)
        (Words.read_closed quote mode literal)
    · intro split
      refine ⟨filled, args, filling.ran, array, texts.trans ?_⟩
      rw [words, split, foldl_append, foldl_cons, Words.read_opened quote mode literal]
      rfl

theorem quoted_region_literal_blank :
    ∃ (filled : ParseArgs) (args : List Nat),
      rumprunParseargs [97, 32, 34, 98, 32, 99, 34, 100, 0] 0 (some []) = some filled ∧
        args.map (stringAt filled.data) = [some [97], some [98, 32, 99, 100]] := by
  obtain ⟨filled, args, fills, -, texts⟩ := ((quoted_region_literal_iff 34 (by decide)
    [.plain 98, .plain 32, .plain 99] (by decide)).2 (by decide)
    [97, 32, 34, 98, 32, 99, 34, 100, 0] [97, 32, 34, 98, 32, 99, 34, 100] 0
    [.plain 97, .plain 32] (by decide) (by unfold Holds; decide) (by decide)).1 [.plain 100] (by decide)
  exact ⟨filled, args, fills, texts.trans (by decide)⟩

/-- `"it's"`: the single quote closes nothing and is dropped, and the argument is `its`. -/
theorem quoted_region_drops_other_quote :
    (rumprunParseargs [34, 105, 116, 39, 115, 34, 0] 0 (some [])).map
      (fun filled => (filled.outarray.getD []).map (stringAt filled.data)) =
        some [some [105, 116, 115]] := by
  decide

end Rumprun.Base
