import Rumprun.Core.Platform
import Rumprun.Lib.ByteMemory
import Rumprun.Lib.MachineWord

/-! # String and memory routines, `lib/libbmk_core/bmk_string.c`

`bmk_strcmp` moves both pointers on inside of its loop condition and takes them back
only when `a` has not come to its terminator. When the first difference is at the last
character of `a`, the two bytes behind it are compared instead. -/

namespace Rumprun.Core
open MachineWord ByteMemory Function List

/-! ## Memory -/

def bmkMemset (memory : Memory) (v : Nat) (c : UInt8) : Nat → Memory
  | 0 => memory
  | n + 1 => bmkMemset (update memory v c) (add v 1) c n

def bmkMemcpy (memory : Memory) (dp sp : Nat) : Nat → Memory
  | 0 => memory
  | n + 1 => bmkMemcpy (update memory dp (memory sp)) (add dp 1) (add sp 1) n

theorem bmkMemcpy_outside {x : Nat} : ∀ {n : Nat} {memory : Memory} {dp sp : Nat},
    dp + n ≤ 2 ^ 64 → x < dp ∨ dp + n ≤ x → bmkMemcpy memory dp sp n x = memory x := by
  intro n
  induction n with
  | zero => intro memory dp sp _ _; rfl
  | succ n ih =>
    intro memory dp sp fits apart
    rw [bmkMemcpy]
    cases n with
    | zero =>
      rw [bmkMemcpy, update_of_ne (by omega)]
    | succ n =>
      have next : add dp 1 = dp + 1 := add_eq (by omega)
      rw [next, ih (by omega) (by omega), update_of_ne (by omega)]

theorem bmkMemcpy_inside : ∀ {n : Nat} {memory : Memory} {dp sp i : Nat},
    dp + n ≤ 2 ^ 64 → sp + n ≤ 2 ^ 64 → dp + n ≤ sp ∨ sp + n ≤ dp → i < n →
      bmkMemcpy memory dp sp n (dp + i) = memory (sp + i) := by
  intro n
  induction n with
  | zero => intro memory dp sp i _ _ _ within; omega
  | succ n ih =>
    intro memory dp sp i fits fits' apart within
    rw [bmkMemcpy]
    cases n with
    | zero =>
      obtain rfl : i = 0 := by omega
      rw [bmkMemcpy, add_zero, update_self, add_zero]
    | succ n =>
      have nextD : add dp 1 = dp + 1 := add_eq (by omega)
      have nextS : add sp 1 = sp + 1 := add_eq (by omega)
      rw [nextD, nextS]
      cases i with
      | zero =>
        rw [bmkMemcpy_outside (by omega) (by omega), add_zero, update_self, add_zero]
      | succ i =>
        have later : bmkMemcpy (update memory dp (memory sp)) (dp + 1) (sp + 1)
            (n + 1) (dp + 1 + i) = update memory dp (memory sp) (sp + 1 + i) :=
          ih (by omega) (by omega) (by omega) (by omega)
        rw [show dp + (i + 1) = dp + 1 + i by omega, later,
          update_of_ne (by omega), show sp + (i + 1) = sp + 1 + i by omega]

/-! ## Strings -/

/-- The bytes of a string up to its terminator. -/
structure CString where
  bytes : List UInt8
  noNul : 0 ∉ bytes
  deriving DecidableEq

/-- The string that starts with the first byte. -/
def CString.ofBytes (bytes : List UInt8) : CString where
  bytes := bytes.takeWhile (· ≠ 0)
  noNul := fun mem => by simpa using all_eq_true.mp all_takeWhile 0 mem

def readByte (bytes : List UInt8) (i : Nat) : Except Stop UInt8 :=
  match (bytes ++ [0])[i]? with
  | some c => .ok c
  | none => .error (.undefined "read past the terminator")

def CString.read (s : CString) (i : Nat) : Except Stop UInt8 := readByte s.bytes i

/-- The loop of `bmk_strcmp`; both pointers are `i` bytes into their strings. -/
def strcmpLoop (a b : CString) : Nat → Nat → Except Stop Nat
  | 0, _ => .error (.undefined "bmk_strcmp does not return")
  | fuel + 1, i => do
    let c ← a.read i
    if c = 0 then
      .ok i
    else
      let d ← b.read i
      if c = d then strcmpLoop a b fuel (i + 1) else .ok (i + 1)

/-- What follows the loop; `char` is the value of a plain `char`, signed or not. -/
def strcmpEnd (char : UInt8 → Int) (a b : CString) (i : Nat) : Except Stop Int := do
  let i := if (← a.read i) ≠ 0 then i - 1 else i
  let c ← a.read i
  let d ← b.read i
  .ok (char c - char d)

/-- There is a byte of `a`, or its terminator, for every iteration. -/
def bmkStrcmp (char : UInt8 → Int) (a b : CString) : Except Stop Int := do
  let i ← strcmpLoop a b (a.bytes.length + 1) 0
  strcmpEnd char a b i

def signedChar (c : UInt8) : Int :=
  if c.toNat < 128 then c.toNat else (c.toNat : Int) - 256

/-! ## Its uses in `xenbus.c` -/

/-- `!bmk_strcmp(watch->token, event->token)`. -/
def sameString (char : UInt8 → Int) (a b : CString) : Except Stop Bool := do
  let r ← bmkStrcmp char a b
  .ok (r == 0)

/-- The same with the byte that is in memory behind the terminator of `b`, for where it is read. -/
def sameStringBehind (char : UInt8 → Int) (behind : UInt8) (a b : CString) : Bool :=
  match bmkStrcmp char a b with
  | .ok r => r == 0
  | .error _ => char 0 - char behind == 0

/-- The search of `xenbus_thread_func` for the watch of an event. -/
def findWatch (char : UInt8 → Int) (token : CString) : List CString → Except Stop (Option CString)
  | [] => .ok none
  | watch :: rest => do
    if ← sameString char watch token then .ok (some watch) else findWatch char token rest

/-- The loop of `xenbus_wait_for_value` over the values it reads, one after each watch event; the
number of events it waits for, if it comes to an end. -/
def waitForValue (char : UInt8 → Int) (value : CString) : List CString → Except Stop (Option Nat)
  | [] => .ok none
  | res :: rest => do
    if ← sameString char value res then .ok (some 0)
    else
      let waited ← waitForValue char value rest
      .ok (waited.map (· + 1))

/-! ## What comparing is -/

/-- The difference of the first bytes that differ, terminators included; zero if none does. -/
def difference (char : UInt8 → Int) : List UInt8 → List UInt8 → Int
  | [], [] => 0
  | [], d :: _ => - char d
  | c :: _, [] => char c
  | c :: a, d :: b => if c = d then difference char a b else char c - char d

/-- `bmk_strcmp` returns, without a read past a terminator, zero for equal strings only and a
number with the sign of the first difference. -/
def Compares (char : UInt8 → Int) (a b : CString) : Prop :=
  ∃ r, bmkStrcmp char a b = .ok r ∧ (r = 0 ↔ a = b) ∧ r.sign = (difference char a.bytes b.bytes).sign

/-- A test by `bmk_strcmp` holds if and only if the strings are equal. -/
def TestsEqual (char : UInt8 → Int) (a b : CString) : Prop :=
  ∃ same, sameString char a b = .ok same ∧ (same = true ↔ a = b)

/-- The first difference is not at the last byte of `a`, or `b` goes on behind it with a byte that
happens to have the right sign. -/
def Orders (char : UInt8 → Int) : List UInt8 → List UInt8 → Prop
  | [], _ => True
  | [_], [] => False
  | [c], d :: b => c = d ∨ ∃ e ∈ b.head?, (- char e).sign = (char c - char d).sign
  | _ :: _ :: _, [] => True
  | c :: c' :: a, d :: b => c = d → Orders char (c' :: a) b

/-- The first difference is not at the last byte of `a`, or `b` goes on behind it. -/
def TellsApart : List UInt8 → List UInt8 → Prop
  | [], _ => True
  | [_], [] => False
  | [c], d :: b => c = d ∨ b ≠ []
  | _ :: _ :: _, [] => True
  | c :: c' :: a, d :: b => c = d → TellsApart (c' :: a) b

instance decidableTellsApart : ∀ a b, Decidable (TellsApart a b)
  | [], _ => .isTrue trivial
  | [_], [] => .isFalse id
  | [c], d :: b => inferInstanceAs (Decidable (c = d ∨ b ≠ []))
  | _ :: _ :: _, [] => .isTrue trivial
  | c :: c' :: a, d :: b =>
    have := decidableTellsApart (c' :: a) b
    inferInstanceAs (Decidable (c = d → TellsApart (c' :: a) b))

/-! ## What `bmk_strcmp` returns -/

/-- The next byte of a string that may be at its end. -/
def front (bytes : List UInt8) : UInt8 := bytes.headD 0

/-- Nothing is returned where `b` is read past its terminator. -/
def strcmpValue (char : UInt8 → Int) : List UInt8 → List UInt8 → Option Int
  | [], b => some (char 0 - char (front b))
  | [_], [] => none
  | [_], _ :: b => some (char 0 - char (front b))
  | c :: _ :: _, [] => some (char c - char 0)
  | c :: c' :: a, d :: b => if c = d then strcmpValue char (c' :: a) b else some (char c - char d)

theorem readByte_append (start bytes : List UInt8) (k : Nat) :
    readByte (start ++ bytes) (start.length + k) = readByte bytes k := by
  unfold readByte
  rw [append_assoc, getElem?_append_right (Nat.le_add_right _ _), Nat.add_sub_cancel_left]

theorem readByte_zero (bytes : List UInt8) : readByte bytes 0 = .ok (front bytes) := by
  cases bytes <;> rfl

theorem readByte_succ (c : UInt8) (bytes : List UInt8) (k : Nat) :
    readByte (c :: bytes) (k + 1) = readByte bytes k := rfl

theorem readByte_nil_succ (k : Nat) :
    readByte [] (k + 1) = .error (.undefined "read past the terminator") := rfl

section
variable {char : UInt8 → Int} {a b : CString} {start x y : List UInt8} {c : UInt8}

theorem read_front (is : a.bytes = start ++ x) : a.read start.length = .ok (front x) := by
  have here := readByte_append start x 0
  rw [add_zero, readByte_zero, ← is] at here
  exact here

theorem read_next (is : a.bytes = start ++ c :: x) : a.read (start.length + 1) = .ok (front x) := by
  rw [CString.read, is, readByte_append, readByte_succ, readByte_zero]

theorem read_past (is : a.bytes = start) :
    a.read (start.length + 1) = .error (.undefined "read past the terminator") := by
  have there := readByte_append start [] 1
  rw [append_nil, readByte_nil_succ, ← is] at there
  rw [CString.read, ← is]
  exact there

theorem ne_zero_of_bytes (is : a.bytes = start ++ c :: x) : c ≠ 0 := by
  intro zero
  apply a.noNul
  rw [is, zero]
  simp

theorem strcmpValue_cons_same (c : UInt8) (x y : List UInt8) :
    strcmpValue char (c :: x) (c :: y) = strcmpValue char x y := by
  cases x <;> simp [strcmpValue]

theorem strcmpEnd_differs (isA : a.bytes = start ++ c :: x) (isB : b.bytes = start ++ y)
    (differs : c ≠ front y) :
    strcmpEnd char a b (start.length + 1) = match strcmpValue char (c :: x) y with
      | some r => .ok r
      | none => .error (.undefined "read past the terminator") := by
  have behind := read_next isA
  cases x with
  | nil =>
    simp only [strcmpEnd, behind, ok_bind, front, headD_nil, ne_eq, not_true_eq_false,
      if_false]
    cases y with
    | nil =>
      rw [append_nil] at isB
      rw [read_past isB]
      rfl
    | cons d y =>
      rw [read_next isB]
      rfl
  | cons c' x =>
    have split : a.bytes = (start ++ [c]) ++ c' :: x := by simp [isA]
    have nonzero := ne_zero_of_bytes split
    have hereA : a.read start.length = .ok c := read_front isA
    have hereB := read_front isB
    simp only [strcmpEnd, behind, ok_bind, front, headD_cons, ne_eq, nonzero,
      not_false_eq_true, if_true, Nat.add_sub_cancel, hereA]
    rw [hereB, ok_bind]
    cases y with
    | nil => rfl
    | cons d y =>
      have apart : c ≠ d := differs
      simp [strcmpValue, apart, front]

theorem strcmp_from : ∀ (x y start : List UInt8) (fuel : Nat), x.length < fuel →
    a.bytes = start ++ x → b.bytes = start ++ y →
    (do
      let i ← strcmpLoop a b fuel start.length
      strcmpEnd char a b i) =
      match strcmpValue char x y with
      | some r => .ok r
      | none => .error (.undefined "read past the terminator") := by
  intro x
  induction x with
  | nil =>
    intro y start fuel more isA isB
    obtain ⟨fuel, rfl⟩ : ∃ n, fuel = n + 1 := ⟨fuel - 1, by simp at more; omega⟩
    simp [strcmpLoop, strcmpEnd, read_front isA, read_front isB, ok_bind, front, strcmpValue]
  | cons c x ih =>
    intro y start fuel more isA isB
    obtain ⟨fuel, rfl⟩ : ∃ n, fuel = n + 1 := ⟨fuel - 1, by simp at more; omega⟩
    have nonzero := ne_zero_of_bytes isA
    have hereA : a.read start.length = .ok c := read_front isA
    simp only [strcmpLoop, hereA, read_front isB, ok_bind, if_neg nonzero]
    by_cases same : c = front y
    · cases y with
      | nil => exact absurd same nonzero
      | cons d y =>
        obtain rfl : c = d := same
        have next := ih y (start ++ [c]) fuel (by simp at more; omega) (by simp [isA])
          (by simp [isB])
        rw [length_append, length_singleton] at next
        rw [if_pos (show c = front (c :: y) from rfl), strcmpValue_cons_same]
        exact next
    · rw [if_neg same, ok_bind]
      exact strcmpEnd_differs isA isB same

theorem bmkStrcmp_eq (char : UInt8 → Int) (a b : CString) :
    bmkStrcmp char a b = match strcmpValue char a.bytes b.bytes with
      | some r => .ok r
      | none => .error (.undefined "read past the terminator") :=
  strcmp_from a.bytes b.bytes [] (a.bytes.length + 1) (Nat.lt_succ_self _) rfl rfl

theorem bmkStrcmp_ok_iff {r : Int} :
    bmkStrcmp char a b = .ok r ↔ strcmpValue char a.bytes b.bytes = some r := by
  rw [bmkStrcmp_eq]
  cases strcmpValue char a.bytes b.bytes with
  | none | some => simp

end

/-! ## When that is right -/

theorem CString.eq_iff {a b : CString} : a = b ↔ a.bytes = b.bytes := by
  cases a
  cases b
  simp

section
variable {char : UInt8 → Int} (zero : char 0 = 0) (injective : Function.Injective char)
include zero injective

theorem char_eq_zero_iff (c : UInt8) : char c = 0 ↔ c = 0 := by
  rw [← zero]
  exact injective.eq_iff

theorem front_eq_zero_iff {y : List UInt8} (noNul : 0 ∉ y) : char (front y) = 0 ↔ y = [] := by
  rw [char_eq_zero_iff zero injective]
  cases y with
  | nil => simp [front]
  | cons d y =>
    have nonzero : d ≠ 0 := fun is => noNul (is ▸ mem_cons_self)
    simp [front, nonzero]

omit zero injective in
theorem difference_cons_same (c : UInt8) (x y : List UInt8) :
    difference char (c :: x) (c :: y) = difference char x y := by
  simp [difference]

omit zero injective in
theorem orders_cons_same (c : UInt8) (x y : List UInt8) :
    Orders char (c :: x) (c :: y) ↔ Orders char x y := by
  cases x <;> simp [Orders]

theorem strcmpValue_orders_iff : ∀ (x y : List UInt8), 0 ∉ x → 0 ∉ y →
    ((∃ r, strcmpValue char x y = some r ∧ (r = 0 ↔ x = y) ∧
      r.sign = (difference char x y).sign) ↔ Orders char x y) := by
  intro x
  induction x with
  | nil =>
    intro y _ noNul
    have ends := front_eq_zero_iff zero injective noNul
    cases y with
    | nil => simp [strcmpValue, Orders, difference, front]
    | cons d y =>
      simp only [front, headD_cons, reduceCtorEq, iff_false] at ends
      simp [strcmpValue, Orders, difference, front, zero, ends]
  | cons c x ih =>
    intro y noNulX noNulY
    have nonzero : char c ≠ 0 := by
      rw [ne_eq, char_eq_zero_iff zero injective]
      exact fun is => noNulX (is ▸ mem_cons_self)
    cases y with
    | nil => cases x <;> simp [strcmpValue, Orders, difference, zero, nonzero]
    | cons d y =>
      have restX : 0 ∉ x := fun mem => noNulX (mem_cons_of_mem c mem)
      have restY : 0 ∉ y := fun mem => noNulY (mem_cons_of_mem d mem)
      by_cases same : c = d
      · subst same
        rw [strcmpValue_cons_same, difference_cons_same, orders_cons_same, cons_inj_right]
        exact ih y restX restY
      · have apart : char c - char d ≠ 0 := fun is => same (injective (by omega))
        cases x with
        | cons c' x => simp [strcmpValue, Orders, difference, same, apart]
        | nil =>
          -- the bytes behind the difference: the terminator of `a`, and what `b` has there
          have ends := front_eq_zero_iff zero injective restY
          cases y with
          | nil => simp [strcmpValue, Orders, same, front]
          | cons e y =>
            simp only [front, headD_cons, reduceCtorEq, iff_false] at ends
            simp [strcmpValue, Orders, difference, front, zero, same, ends]

theorem compares_iff (a b : CString) : Compares char a b ↔ Orders char a.bytes b.bytes := by
  simp only [Compares, bmkStrcmp_ok_iff, CString.eq_iff]
  exact strcmpValue_orders_iff zero injective a.bytes b.bytes a.noNul b.noNul

omit zero injective in
theorem tellsApart_cons_same (c : UInt8) (x y : List UInt8) :
    TellsApart (c :: x) (c :: y) ↔ TellsApart x y := by
  cases x <;> simp [TellsApart]

theorem strcmpValue_tells_iff : ∀ (x y : List UInt8), 0 ∉ x → 0 ∉ y →
    ((∃ r, strcmpValue char x y = some r ∧ (r = 0 ↔ x = y)) ↔ TellsApart x y) := by
  intro x
  induction x with
  | nil =>
    intro y _ noNul
    have ends := front_eq_zero_iff zero injective noNul
    simp only [strcmpValue, TellsApart, zero, Option.some.injEq, exists_eq_left', iff_true,
      zero_sub, neg_eq_zero, ends]
    exact eq_comm
  | cons c x ih =>
    intro y noNulX noNulY
    have nonzero : char c ≠ 0 := by
      rw [ne_eq, char_eq_zero_iff zero injective]
      exact fun is => noNulX (is ▸ mem_cons_self)
    cases y with
    | nil => cases x <;> simp [strcmpValue, TellsApart, zero, nonzero]
    | cons d y =>
      have restX : 0 ∉ x := fun mem => noNulX (mem_cons_of_mem c mem)
      have restY : 0 ∉ y := fun mem => noNulY (mem_cons_of_mem d mem)
      by_cases same : c = d
      · subst same
        rw [strcmpValue_cons_same, tellsApart_cons_same, cons_inj_right]
        exact ih y restX restY
      · have apart : char c - char d ≠ 0 := fun is => same (injective (by omega))
        cases x with
        | cons c' x => simp [strcmpValue, TellsApart, same, apart]
        | nil =>
          have ends := front_eq_zero_iff zero injective restY
          simp [strcmpValue, TellsApart, zero, same, ends]

theorem testsEqual_iff (a b : CString) : TestsEqual char a b ↔ TellsApart a.bytes b.bytes := by
  rw [← strcmpValue_tells_iff zero injective a.bytes b.bytes a.noNul b.noNul]
  unfold TestsEqual sameString
  rw [bmkStrcmp_eq]
  cases strcmpValue char a.bytes b.bytes with
  | none => simp [bind, Except.bind]
  | some r => simp [ok_bind, CString.eq_iff]

end

/-! ## The uses -/

section
variable {char : UInt8 → Int}

theorem sameString_eq {a b : CString} (tests : TestsEqual char a b) :
    sameString char a b = .ok (decide (a = b)) := by
  obtain ⟨same, ran, iff⟩ := tests
  rw [ran, Bool.eq_iff_iff.mpr (iff.trans decide_eq_true_iff.symm)]

theorem sameStringBehind_eq {a b : CString} (tests : TestsEqual char a b) (behind : UInt8) :
    sameStringBehind char behind a b = decide (a = b) := by
  have same := sameString_eq tests
  unfold sameString at same
  obtain ⟨r, ran, is⟩ := bind_eq_ok same
  rw [sameStringBehind, ran]
  exact Except.ok.inj is

theorem findWatch_eq (token : CString) : ∀ watches : List CString,
    (∀ watch ∈ watches, TestsEqual char watch token) →
      findWatch char token watches = .ok (watches.find? fun watch => decide (watch = token)) := by
  intro watches
  induction watches with
  | nil => intro _; rfl
  | cons watch rest ih =>
    intro tests
    rw [findWatch, sameString_eq (tests watch mem_cons_self), ok_bind, find?_cons]
    cases decide (watch = token) with
    | true => rfl
    | false => exact ih fun other mem => tests other (mem_cons_of_mem watch mem)

theorem waitForValue_eq (value : CString) : ∀ reads : List CString,
    (∀ res ∈ reads, TestsEqual char value res) →
      waitForValue char value reads = .ok (reads.findIdx? fun res => decide (value = res)) := by
  intro reads
  induction reads with
  | nil => intro _; rfl
  | cons res rest ih =>
    intro tests
    rw [waitForValue, sameString_eq (tests res mem_cons_self), ok_bind, findIdx?_cons]
    cases decide (value = res) with
    | true => rfl
    | false =>
      have later := ih fun other mem => tests other (mem_cons_of_mem res mem)
      simp only [Bool.false_eq_true, if_false, later, ok_bind]

end

/-- Where `bmk_strcmp` orders strings, where it tells them apart, and what its uses come to
there. -/
theorem strcmp_orders_iff (char : UInt8 → Int) (zero : char 0 = 0)
    (injective : Function.Injective char) (a b : CString) :
    (Compares char a b ↔ Orders char a.bytes b.bytes) ∧
      (TestsEqual char a b ↔ TellsApart a.bytes b.bytes) ∧
      (∀ watches : List CString, (∀ watch ∈ watches, TellsApart watch.bytes a.bytes) →
        findWatch char a watches = .ok (watches.find? fun watch => decide (watch = a))) ∧
      ∀ reads : List CString, (∀ res ∈ reads, TellsApart a.bytes res.bytes) →
        waitForValue char a reads = .ok (reads.findIdx? fun res => decide (a = res)) := by
  refine ⟨compares_iff zero injective a b, testsEqual_iff zero injective a b, ?_, ?_⟩
  · intro watches apart
    apply findWatch_eq
    intro watch mem
    exact (testsEqual_iff zero injective watch a).mpr (apart watch mem)
  · intro reads apart
    apply waitForValue_eq
    intro res mem
    exact (testsEqual_iff zero injective a res).mpr (apart res mem)

theorem signedChar_injective : Function.Injective signedChar := by
  intro c d same
  have small := c.toNat_lt
  have small' := d.toNat_lt
  apply UInt8.toNat_inj.mp
  unfold signedChar at same
  split at same <;> split at same <;> omega

theorem strcmp_orders_iff_states :
    Compares signedChar ⟨[0x34, 0x31], by decide⟩ ⟨[0x31, 0x32], by decide⟩ ∧
      findWatch signedChar ⟨[0x61, 0x62], by decide⟩ [⟨[0x61, 0x62], by decide⟩] =
        .ok (some ⟨[0x61, 0x62], by decide⟩) := by
  obtain ⟨orders, -, -, -⟩ := strcmp_orders_iff signedChar rfl signedChar_injective
    ⟨[0x34, 0x31], by decide⟩ ⟨[0x31, 0x32], by decide⟩
  obtain ⟨-, -, found, -⟩ := strcmp_orders_iff signedChar rfl signedChar_injective
    ⟨[0x61, 0x62], by decide⟩ ⟨[], by decide⟩
  refine ⟨orders.mpr ?_, ?_⟩
  · simp [Orders]
  · rw [found [⟨[0x61, 0x62], by decide⟩] (by simp [TellsApart])]
    simp

/-- `"ab"` and `"ac"` are equal for `bmk_strcmp`, and `"ab"` with `"a"` is read past the end:
an event goes to the wrong watch. -/
theorem strcmp_last_character :
    bmkStrcmp signedChar ⟨[0x61, 0x62], by decide⟩ ⟨[0x61, 0x63], by decide⟩ = .ok 0 ∧
      bmkStrcmp signedChar ⟨[0x61, 0x62], by decide⟩ ⟨[0x61], by decide⟩ =
        .error (.undefined "read past the terminator") ∧
      findWatch signedChar ⟨[0x61, 0x63], by decide⟩
        [⟨[0x61, 0x62], by decide⟩, ⟨[0x61, 0x63], by decide⟩] =
        .ok (some ⟨[0x61, 0x62], by decide⟩) := by
  refine ⟨rfl, rfl, rfl⟩

/-! ## `bmk_strncpy` -/

/-- The first loop; `s` is `i` bytes into its string. The byte is stored before it is looked at, and
the terminator does not count. -/
def strncpyLoop (s : CString) : Nat → Nat → Memory → Nat → Except Stop (Memory × Nat × Nat × Nat)
  | 0, i, memory, d => .ok (memory, d, i, 0)
  | n + 1, i, memory, d => do
    let c ← s.read i
    if c = 0 then .ok (update memory d c, add d 1, i + 1, n + 1)
    else strncpyLoop s n (i + 1) (update memory d c) (add d 1)

/-- The second loop is that of `bmk_memset`; returned with the number of bytes read. -/
def bmkStrncpy (memory : Memory) (d : Nat) (s : CString) (n : Nat) : Except Stop (Memory × Nat) := do
  let (memory, d, i, n) ← strncpyLoop s n 0 memory d
  .ok (bmkMemset memory d 0 n, i)

/-- In every memory `n` bytes are stored, those of the string and then terminators. -/
def StoresExactly (s : CString) (n : Nat) : Prop :=
  ∀ (memory : Memory) (d : Nat), d + n ≤ 2 ^ 64 →
    ∃ after i, bmkStrncpy memory d s n = .ok (after, i) ∧ i ≤ n ∧
      (∀ k < n, after (d + k) = s.bytes.getD k 0) ∧ ∀ x, x < d ∨ d + n ≤ x → after x = memory x

/-- Bytes stored one after the other. -/
def put (memory : Memory) (d : Nat) : List UInt8 → Memory
  | [] => memory
  | c :: rest => put (update memory d c) (add d 1) rest

theorem put_append (x y : List UInt8) : ∀ (memory : Memory) (d : Nat),
    put memory d (x ++ y) = put (put memory d x) ((add · 1)^[x.length] d) y := by
  induction x with
  | nil => intro memory d; rfl
  | cons c x ih =>
    intro memory d
    exact ih _ _

theorem bmkMemset_eq (c : UInt8) : ∀ (n : Nat) (memory : Memory) (d : Nat),
    bmkMemset memory d c n = put memory d (replicate n c) := by
  intro n
  induction n with
  | zero => intro memory d; rfl
  | succ n ih =>
    intro memory d
    exact ih _ _

theorem put_apply (bytes : List UInt8) : ∀ (memory : Memory) (d x : Nat),
    d + bytes.length ≤ 2 ^ 64 →
      put memory d bytes x =
        if d ≤ x ∧ x < d + bytes.length then bytes.getD (x - d) 0 else memory x := by
  induction bytes with
  | nil =>
    intro memory d x _
    rw [if_neg (by simp), put]
  | cons c rest ih =>
    intro memory d x fits
    rw [length_cons] at fits ⊢
    rw [put]
    cases rest with
    | nil =>
      by_cases here : x = d
      · simp [put, here]
      · rw [put, update_of_ne here, if_neg (by simp; omega)]
    | cons c' rest =>
      rw [length_cons] at fits ⊢
      rw [add_eq (by omega), ih _ _ _ (by rw [length_cons]; omega), length_cons]
      by_cases here : x = d
      · simp [here]
      · rw [update_of_ne here]
        by_cases inside : d + 1 ≤ x ∧ x < d + 1 + (rest.length + 1)
        · rw [if_pos inside, if_pos (by omega), show x - d = x - (d + 1) + 1 by omega, getD_cons_succ]
        · rw [if_neg inside, if_neg (by omega)]

theorem strncpyLoop_eq {s : CString} : ∀ (x start : List UInt8) (n : Nat) (memory : Memory) (d : Nat),
    s.bytes = start ++ x →
      strncpyLoop s n start.length memory d =
        .ok (put memory d ((x ++ [0]).take n), (add · 1)^[min n (x.length + 1)] d,
          start.length + min n (x.length + 1), n - x.length) := by
  intro x
  induction x with
  | nil =>
    intro start n memory d is
    cases n with
    | zero => simp [strncpyLoop, put]
    | succ n =>
      have here : s.read start.length = .ok 0 := read_front is
      simp [strncpyLoop, here, ok_bind, put]
  | cons c x ih =>
    intro start n memory d is
    cases n with
    | zero => simp [strncpyLoop, put]
    | succ n =>
      have here : s.read start.length = .ok c := read_front is
      have next := ih (start ++ [c]) n (update memory d c) (add d 1) (by simp [is])
      rw [length_append, length_singleton, Nat.add_right_comm, add_assoc] at next
      rw [strncpyLoop, here, ok_bind, if_neg (ne_zero_of_bytes is), next, length_cons,
        Nat.add_min_add_right, Nat.add_sub_add_right]
      rfl

theorem bmkStrncpy_eq (memory : Memory) (d : Nat) (s : CString) (n : Nat) :
    bmkStrncpy memory d s n = .ok (put memory d
      ((s.bytes ++ [0]).take n ++ replicate (n - s.bytes.length) 0), min n (s.bytes.length + 1)) := by
  have copied := strncpyLoop_eq (s := s) s.bytes [] n memory d rfl
  rw [length_nil, zero_add] at copied
  rw [bmkStrncpy, copied, ok_bind, put_append]
  simp [bmkMemset_eq]

/-- The terminator that the first loop stores is not counted, and one byte too many is stored. -/
theorem strncpy_exact_iff (s : CString) (n : Nat) (word : n < 2 ^ 64) :
    StoresExactly s n ↔ n ≤ s.bytes.length := by
  constructor
  · intro exactly
    by_contra short
    obtain ⟨after, i, copied, -, -, frame⟩ := exactly (fun _ => 1) 0 (by omega)
    cases (bmkStrncpy_eq _ _ _ _).symm.trans copied
    have kept := frame n (.inr (by omega))
    rw [put_apply _ _ _ _ (by simp; omega), if_pos (by simp; omega), Nat.sub_zero,
      getD_append_right _ _ _ _ (by simp)] at kept
    simp at kept
  · intro long memory d fits
    refine ⟨_, _, bmkStrncpy_eq memory d s n, Nat.min_le_left _ _, ?_, ?_⟩
    · intro k within
      rw [put_apply _ _ _ _ (by simp; omega), if_pos (by simp; omega), Nat.add_sub_cancel_left,
        Nat.sub_eq_zero_of_le long, replicate_zero, append_nil, take_append_of_le_length long]
      simp [getD_eq_getElem?_getD, within]
    · intro x outside
      rw [put_apply _ _ _ _ (by simp; omega), if_neg (by simp; omega)]

theorem strncpy_exact_iff_four : StoresExactly ⟨[109, 97, 105, 110], by decide⟩ 3 :=
  (strncpy_exact_iff ⟨[109, 97, 105, 110], by decide⟩ 3 (by decide)).mpr (by decide)

/-- Three bytes are asked for, and four are stored. -/
theorem strncpy_stores_four :
    ∃ done ∈ (bmkStrncpy (fun _ => 1) 0 ⟨[109], by decide⟩ 3).toOption,
      [0, 1, 2, 3, 4].map done.1 = [109, 0, 0, 0, 1] := by
  decide

end Rumprun.Core
