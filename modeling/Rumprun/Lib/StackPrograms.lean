import Mathlib.Data.List.Basic

/-! # Structured programs on a stack

Sequence, an open choice between two branches, and loops that end at any turn. A
thread is a stack of programs still to run, so that many can be interleaved.

`effect i d d'` says that instruction `i` may be run at the abstract value `d` and
leaves `d'`. `wp` is the weakest precondition for that, and `Triple` has the rules. -/

namespace StackPrograms

universe u v

inductive Code (I : Type u) where
  | skip
  | prim (instr : I)
  | seq (first second : Code I)
  | either (left right : Code I)
  | loop (body : Code I)

variable {I : Type u} {D : Type v}

def Code.all : List (Code I) → Code I
  | [] => .skip
  | code :: rest => .seq code (all rest)

/-- One step of a stack: the instruction that is run, if it is one, and what is left. `choice` is
the way a branch or a loop takes. -/
def next (choice : Bool) : List (Code I) → Option (Option I × List (Code I))
  | [] => none
  | .skip :: rest => some (none, rest)
  | .prim instr :: rest => some (some instr, rest)
  | .seq first second :: rest => some (none, first :: second :: rest)
  | .either left right :: rest => some (none, (if choice = true then left else right) :: rest)
  | .loop body :: rest => some (none, if choice = true then body :: .loop body :: rest else rest)

variable (effect : I → D → D → Prop)

def Code.wp : Code I → (D → Prop) → D → Prop
  | .skip, post => post
  | .prim instr, post => fun d => ∃ d', effect instr d d' ∧ post d'
  | .seq first second, post => first.wp (second.wp post)
  | .either left right, post => fun d => left.wp post d ∧ right.wp post d
  | .loop body, post => fun d => ∃ inv : D → Prop, inv d ∧ ∀ x, inv x → body.wp inv x ∧ post x

/-- Every way through the stack is allowed. -/
def Safe : List (Code I) → D → Prop
  | [] => fun _ => True
  | code :: rest => code.wp effect (Safe rest)

def Triple (pre : D → Prop) (code : Code I) (post : D → Prop) : Prop :=
  ∀ d, pre d → code.wp effect post d

variable {effect}

theorem Code.wp_mono (code : Code I) : ∀ {post post' : D → Prop}, (∀ d, post d → post' d) →
    ∀ d, code.wp effect post d → code.wp effect post' d := by
  induction code with
  | skip => intro post post' weaker d holds; exact weaker d holds
  | prim instr =>
    rintro post post' weaker d ⟨d', leads, holds⟩
    exact ⟨d', leads, weaker d' holds⟩
  | seq first second ihFirst ihSecond =>
    intro post post' weaker d holds
    exact ihFirst (ihSecond weaker) d holds
  | either left right ihLeft ihRight =>
    intro post post' weaker d holds
    exact ⟨ihLeft weaker d holds.1, ihRight weaker d holds.2⟩
  | loop body _ =>
    rintro post post' weaker d ⟨inv, here, kept⟩
    exact ⟨inv, here, fun x is => ⟨(kept x is).1, weaker x (kept x is).2⟩⟩

theorem Safe.next_none {choice : Bool} {stack rest : List (Code I)} {d : D}
    (safe : Safe effect stack d) (steps : next choice stack = some (none, rest)) :
    Safe effect rest d := by
  cases stack with
  | nil => cases steps
  | cons code below =>
    cases code with
    | skip | seq => cases steps; exact safe
    | prim instr => cases steps
    | either left right =>
      cases steps
      cases choice with
      | true => exact safe.1
      | false => exact safe.2
    | loop body =>
      cases steps
      obtain ⟨inv, here, kept⟩ := safe
      cases choice with
      | true => exact body.wp_mono (fun x is => ⟨inv, is, kept⟩) d (kept d here).1
      | false => exact (kept d here).2

theorem Safe.next_some {choice : Bool} {stack rest : List (Code I)} {instr : I} {d : D}
    (safe : Safe effect stack d) (steps : next choice stack = some (some instr, rest)) :
    ∃ d', effect instr d d' ∧ Safe effect rest d' := by
  cases stack with
  | nil => cases steps
  | cons code below =>
    cases code with
    | prim instr => cases steps; exact safe
    | skip | seq | either | loop => cases steps

namespace Triple
variable {pre mid post : D → Prop}

theorem skip : Triple effect pre .skip pre := fun _ holds => holds

theorem prim {instr : I} (leads : ∀ d, pre d → ∃ d', effect instr d d' ∧ post d') :
    Triple effect pre (.prim instr) post := leads

theorem seq {first second : Code I} (one : Triple effect pre first mid)
    (two : Triple effect mid second post) : Triple effect pre (.seq first second) post :=
  fun d holds => first.wp_mono two d (one d holds)

theorem either {left right : Code I} (one : Triple effect pre left post)
    (two : Triple effect pre right post) : Triple effect pre (.either left right) post :=
  fun d holds => ⟨one d holds, two d holds⟩

theorem loop {body : Code I} (kept : Triple effect pre body pre) : Triple effect pre (.loop body) pre :=
  fun _ holds => ⟨pre, holds, fun x is => ⟨kept x is, is⟩⟩

theorem all_nil : Triple effect pre (Code.all []) pre := skip

theorem all_cons {code : Code I} {rest : List (Code I)} (one : Triple effect pre code mid)
    (two : Triple effect mid (Code.all rest) post) :
    Triple effect pre (Code.all (code :: rest)) post := seq one two

theorem safe {code : Code I} (triple : Triple effect pre code post) {d : D} (holds : pre d) :
    Safe effect [code] d :=
  code.wp_mono (fun _ _ => trivial) d (triple d holds)

end Triple
end StackPrograms
