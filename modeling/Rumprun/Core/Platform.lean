import Mathlib.Algebra.Order.Ring.Nat
import Mathlib.Algebra.Order.Ring.Int

/-! # Ways the program stops

A failed `bmk_assert` is a halt whose message quotes the condition. Behaviour that C
leaves undefined is kept apart, so that a proof that an operation returns also says that
it stays inside the language. -/

namespace Rumprun.Core
variable {α β : Type} {condition : Bool} {text : String}

inductive Stop where
  | halt (panicstring : String)
  | undefined (what : String)
  deriving DecidableEq, Repr

def bmkAssert (condition : Bool) (text : String) : Except Stop Unit :=
  if condition then .ok () else .error (.halt ("assert \"" ++ text ++ "\" FAILED\n"))

theorem bmkAssert_bind (f : Unit → Except Stop α) (holds : condition = true) :
    (bmkAssert condition text >>= f) = f () := by
  rw [bmkAssert, if_pos holds]
  rfl

theorem bmkAssert_eq_ok {u : Unit} (ran : bmkAssert condition text = .ok u) : condition = true := by
  cases condition with
  | true => rfl
  | false => cases ran

theorem bmkAssert_bind_ok {f : Unit → Except Stop α} {result : α}
    (ran : (bmkAssert condition text >>= f) = .ok result) : condition = true ∧ f () = .ok result := by
  cases condition with
  | false => cases ran
  | true => exact ⟨rfl, ran⟩

theorem ok_bind (a : α) (f : α → Except Stop β) : ((Except.ok a : Except Stop α) >>= f) = f a := rfl

theorem bind_eq_ok {x : Except Stop α} {f : α → Except Stop β} {result : β}
    (ran : x >>= f = .ok result) : ∃ a, x = .ok a ∧ f a = .ok result := by
  cases x with
  | error stop => cases ran
  | ok a => exact ⟨a, rfl, ran⟩

theorem map_eq_ok {x : Except Stop α} {f : α → β} {result : β} (ran : x.map f = .ok result) :
    ∃ a, x = .ok a ∧ f a = result := by
  cases x with
  | error stop => cases ran
  | ok a => exact ⟨a, rfl, Except.ok.inj ran⟩

theorem findM?_eq_some {test : α → Except Stop Bool} {a : α} : ∀ {l : List α},
    l.findM? test = .ok (some a) → a ∈ l ∧ test a = .ok true := by
  intro l
  induction l with
  | nil => intro found; cases found
  | cons x rest ih =>
    intro found
    obtain ⟨same, tested, found⟩ := bind_eq_ok found
    cases same with
    | true =>
      cases found
      exact ⟨List.mem_cons_self, tested⟩
    | false =>
      obtain ⟨mem, right⟩ := ih found
      exact ⟨List.mem_cons_of_mem x mem, right⟩

theorem of_ok {x : Except Stop α} {P : α → Prop} (spec : ∃ a, x = .ok a ∧ P a) {a : α}
    (ran : x = .ok a) : P a := by
  obtain ⟨b, ran', holds⟩ := spec
  cases ran.symm.trans ran'
  exact holds

/-- `BMK_PCPU_PAGE_SHIFT` and `BMK_PCPU_PAGE_SIZE`, the same on every platform. -/
def pageShift : Nat := 12

def pageSize : Nat := 2 ^ pageShift

theorem pageSize_eq : pageSize = 2 ^ 12 := rfl

end Rumprun.Core
