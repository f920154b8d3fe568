import Mathlib.Data.List.Basic

/-! # Splitting a command line, `lib/librumprun_base/parseargs.c`

`rumprun_parseargs` runs twice over a line: once to count the arguments, and once
with an array for them. The second time it writes the arguments over the line
while it reads it. -/

namespace Rumprun.Base

abbrev Bytes := List UInt8

def ascii (c : Char) : UInt8 := UInt8.ofNat c.toNat

/-- The string at `p`, up to its terminator. -/
def stringAt (data : Bytes) (p : Nat) : Option Bytes :=
  if 0 ∈ data.drop p then some ((data.drop p).takeWhile (· ≠ 0)) else none

/-- The locals of the loop. `quote` is -1 outside of an argument, 0 inside of one, and the quote
character inside of a quoted part. Without `outarray` (`none`) nothing is written. -/
structure ParseArgs where
  data : Bytes
  p : Nat
  out : Option Nat
  quote : Int
  nargs : Nat
  outarray : Option (List Nat)
  deriving DecidableEq, Repr

namespace ParseArgs

/-- `if (out) *out++ = c`. -/
def put (c : UInt8) (s : ParseArgs) : Option ParseArgs :=
  match s.out with
  | none => some s
  | some out =>
    if out < s.data.length then some { s with data := s.data.set out c, out := some (out + 1) }
    else none

def start (s : ParseArgs) : ParseArgs :=
  { s with
    out := match s.outarray with
      | none => s.out
      | some _ => some (s.p - 1)
    outarray := s.outarray.map (· ++ [s.p - 1])
    nargs := s.nargs + 1
    quote := 0 }

/-- The rest of a turn when the byte is not a delimiter between arguments. -/
def take (ac rc : UInt8) (s : ParseArgs) : Option ParseArgs :=
  let s := if s.quote < 0 then s.start else s
  if 0 < s.quote ∧ (ac.toNat : Int) = s.quote then some { s with quote := 0 }
  else if ac = ascii '\'' ∨ ac = ascii '\"' then some { s with quote := ac.toNat }
  else s.put rc

/-- A turn behind its reads; `true` when it was the last one. -/
def turnOn (ac rc : UInt8) (s : ParseArgs) : Option (Bool × ParseArgs) :=
  let blank : Bool := ac = ascii ' ' || ac = ascii '\n' || ac = ascii '\t'
  if rc = 0 then do
    let s ← s.put 0
    pure (true, { s with quote := -1 })
  else if blank && s.quote = 0 then do
    let s ← s.put 0
    pure (false, { s with quote := -1 })
  else if blank && s.quote < 0 then
    pure (false, s)
  else do
    let s ← s.take ac rc
    pure (false, s)

/-- One turn of the loop: a backslash takes the next byte with it. -/
def turn (s : ParseArgs) : Option (Bool × ParseArgs) :=
  match s.data[s.p]? with
  | none => none
  | some ac =>
    if ac = ascii '\\' then
      match s.data[s.p + 1]? with
      | none => none
      | some rc => turnOn ac rc { s with p := s.p + 2 }
    else turnOn ac ac { s with p := s.p + 1 }

/-- Every turn reads one byte more, so a buffer that ends within `left` turns is left. -/
def loop : Nat → ParseArgs → Option ParseArgs
  | 0, _ => none
  | left + 1, s =>
    match s.turn with
    | none => none
    | some (true, s) => some s
    | some (false, s) => loop left s

end ParseArgs

def rumprunParseargs (data : Bytes) (p : Nat) (outarray : Option (List Nat)) : Option ParseArgs :=
  ParseArgs.loop (data.length - p)
    { data := data, p := p, out := none, quote := -1, nargs := 0, outarray := outarray }

namespace ParseArgs

/-- The states at the head of the loop, and the last one. -/
def visited : Nat → ParseArgs → List ParseArgs
  | 0, s => [s]
  | left + 1, s =>
    s :: match s.turn with
      | none => []
      | some (true, t) => [t]
      | some (false, t) => visited left t

end ParseArgs
end Rumprun.Base
