import Mathlib.Data.List.Basic

/-! # Runs of a fallible step function

A component is a step function into `Except`; the callers promise a condition on
the state before each step. A run is *admissible* when every step meets that
condition in the state the run has reached. -/

namespace StepRuns

universe u v w
variable {State : Type u} {Op : Type v} {Fault : Type w} {op : Op} {rest first second : List Op}
  {state next final middle : State} {fault : Fault} {Inv P : State → Prop} {Value : Type u}
  {result : Except Fault Value} {good : State → Op → Prop} {Q : State → Op → State → Prop}

def run (step : State → Op → Except Fault State) : List Op → State → Except Fault State
  | [], state => .ok state
  | op :: rest, state =>
    match step state op with
    | .error fault => .error fault
    | .ok next => run step rest next

def Admissible (admits : State → Op → Prop) (step : State → Op → Except Fault State) :
    List Op → State → Prop
  | [], _ => True
  | op :: rest, state =>
    admits state op ∧ ∀ next, step state op = .ok next → Admissible admits step rest next

variable {step : State → Op → Except Fault State} {admits : State → Op → Prop}

theorem admissible_cons_ok (stepped : step state op = .ok next) :
    Admissible admits step (op :: rest) state ↔ admits state op ∧ Admissible admits step rest next := by
  simp only [Admissible, stepped, Except.ok.injEq, forall_eq']

theorem admissible_cons_error (stepped : step state op = .error fault) :
    Admissible admits step (op :: rest) state ↔ admits state op := by
  simp only [Admissible, stepped, reduceCtorEq, false_imp_iff, implies_true, and_true]

theorem admissible_of_forall (all : ∀ state op, admits state op) :
    ∀ (ops : List Op) (state : State), Admissible admits step ops state := by
  intro ops
  induction ops with
  | nil => intro state; trivial
  | cons op rest ih => intro state; exact ⟨all state op, fun next _ => ih next⟩

instance decidableAdmissible [∀ state op, Decidable (admits state op)] :
    ∀ ops state, Decidable (Admissible admits step ops state)
  | [], _ => .isTrue trivial
  | op :: rest, state =>
    match stepped : step state op with
    | .error _ => decidable_of_iff _ (admissible_cons_error stepped).symm
    | .ok next =>
      have := decidableAdmissible rest next
      decidable_of_iff _ (admissible_cons_ok stepped).symm

theorem Admissible.imp {admits' : State → Op → Prop} :
    ∀ {ops : List Op} {state : State}, Admissible admits step ops state →
      (∀ op ∈ ops, ∀ s, admits s op → admits' s op) → Admissible admits' step ops state := by
  intro ops
  induction ops with
  | nil => intro _ _ _; trivial
  | cons op rest ih =>
    intro state allowed weaker
    refine ⟨weaker op List.mem_cons_self state allowed.1, ?_⟩
    intro next stepped
    exact ih (allowed.2 next stepped) fun other mem => weaker other (List.mem_cons_of_mem op mem)

theorem run_cons (stepped : step state op = .ok next) :
    run step (op :: rest) state = run step rest next := by
  simp only [run, stepped]

theorem run_append (first second : List Op) (state : State) :
    run step (first ++ second) state = match run step first state with
      | .error fault => .error fault
      | .ok middle => run step second middle := by
  induction first generalizing state with
  | nil => rfl
  | cons op rest ih =>
    simp only [List.cons_append, run]
    cases step state op with
    | error fault => rfl
    | ok next => exact ih next

theorem run_invariant (preserved : ∀ state op, Inv state → admits state op →
      ∃ next, step state op = .ok next ∧ Inv next) :
    ∀ (ops : List Op) (state : State), Inv state → Admissible admits step ops state →
      ∃ final, run step ops state = .ok final ∧ Inv final := by
  intro ops
  induction ops with
  | nil => intro state holds _; exact ⟨state, rfl, holds⟩
  | cons op rest ih =>
    intro state holds allowed
    obtain ⟨next, stepped, holdsNext⟩ := preserved state op holds allowed.1
    obtain ⟨final, ran, holdsFinal⟩ := ih next holdsNext (allowed.2 next stepped)
    exact ⟨final, by simp only [run, stepped, ran], holdsFinal⟩

theorem eq_ok_of_mem {value : Value} (mem : value ∈ result.toOption) : result = .ok value := by
  cases result with
  | error fault => cases mem
  | ok other => cases mem; rfl

/-- The fault that a run ends with. -/
def faultOf {Value : Type u} : Except Fault Value → Option Fault
  | .error fault => some fault
  | .ok _ => none

theorem eq_error_of_faultOf (is : faultOf result = some fault) : result = .error fault := by
  cases result with
  | error other => cases is; rfl
  | ok value => cases is

theorem run_reaches
    (preserved : ∀ state op next, Inv state → admits state op → step state op = .ok next → Inv next) :
    ∀ (ops : List Op) (state final : State), Inv state → Admissible admits step ops state →
      run step ops state = .ok final → Inv final := by
  intro ops
  induction ops with
  | nil =>
    intro state final holds _ ran
    cases ran
    exact holds
  | cons op rest ih =>
    intro state final holds allowed ran
    rw [run] at ran
    cases stepped : step state op with
    | error fault => rw [stepped] at ran; cases ran
    | ok next =>
      rw [stepped] at ran
      exact ih next final (preserved state op next holds allowed.1 stepped)
        (allowed.2 next stepped) ran

/-- Steps that stop with one fault, and only there: the run returns if and only if no step of it
is one of these. -/
theorem run_decides (decides : ∀ state op, Inv state → admits state op →
      (good state op ∧ ∃ next, step state op = .ok next ∧ Inv next) ∨
        ¬ good state op ∧ step state op = .error fault) :
    ∀ (ops : List Op) (state : State), Inv state → Admissible admits step ops state →
      (Admissible (fun s op => admits s op ∧ good s op) step ops state ∧
        ∃ final, run step ops state = .ok final ∧ Inv final) ∨
      ¬ Admissible (fun s op => admits s op ∧ good s op) step ops state ∧
        run step ops state = .error fault := by
  intro ops
  induction ops with
  | nil => intro state holds _; exact .inl ⟨trivial, state, rfl, holds⟩
  | cons op rest ih =>
    intro state holds allowed
    rcases decides state op holds allowed.1 with ⟨right, next, stepped, after⟩ | ⟨wrong, stepped⟩
    · simp only [run, stepped, admissible_cons_ok stepped]
      rcases ih next after (allowed.2 next stepped) with ⟨further, ran⟩ | ⟨stops, ran⟩
      · exact .inl ⟨⟨⟨allowed.1, right⟩, further⟩, ran⟩
      · exact .inr ⟨fun both => stops both.2, ran⟩
    · right
      simp only [run, stepped, and_true]
      exact fun both => wrong both.1.2

/-- The run returns, and each of its steps is as `Q` says. -/
def Each (Q : State → Op → State → Prop) (step : State → Op → Except Fault State) :
    List Op → State → Prop
  | [], _ => True
  | op :: rest, state => ∃ next, step state op = .ok next ∧ Q state op next ∧ Each Q step rest next

/-- Steps that are as `Q` says from an invariant on if they are good, and only then: a run is as
`Q` says if and only if every step of it is good. -/
theorem each_iff (Inv : State → Prop)
    (keeps : ∀ state op, Inv state → admits state op → good state op →
      ∃ next, step state op = .ok next ∧ Q state op next ∧ Inv next)
    (loses : ∀ state op next, Inv state → admits state op → ¬ good state op →
      step state op = .ok next → ¬ Q state op next) :
    ∀ (ops : List Op) (state : State), Inv state → Admissible admits step ops state →
      (Each Q step ops state ↔ Admissible (fun s op => admits s op ∧ good s op) step ops state) := by
  intro ops
  induction ops with
  | nil => intro state _ _; simp only [Each, Admissible]
  | cons op rest ih =>
    intro state inv allowed
    by_cases right : good state op
    · obtain ⟨next, stepped, as, after⟩ := keeps state op inv allowed.1 right
      rw [admissible_cons_ok stepped, ← ih next after (allowed.2 next stepped)]
      simp [Each, stepped, as, allowed.1, right]
    · constructor
      · rintro ⟨next, stepped, as, -⟩
        exact absurd as (loses state op next inv allowed.1 right stepped)
      · intro both
        exact absurd both.1.2 right

/-- The run returns, and `P` holds in every state on its way. -/
def Throughout (P : State → Prop) (step : State → Op → Except Fault State) (ops : List Op)
    (state : State) : Prop :=
  P state ∧ Each (fun _ _ next => P next) step ops state

theorem throughout_iff (Inv : State → Prop) (holds : ∀ state, Inv state → P state)
    (keeps : ∀ state op, Inv state → admits state op → good state op →
      ∃ next, step state op = .ok next ∧ Inv next)
    (loses : ∀ state op next, Inv state → admits state op → ¬ good state op →
      step state op = .ok next → ¬ P next) (ops : List Op) (state : State) (inv : Inv state)
    (allowed : Admissible admits step ops state) :
    Throughout P step ops state ↔ Admissible (fun s op => admits s op ∧ good s op) step ops state := by
  rw [Throughout, and_iff_right (holds state inv)]
  refine each_iff Inv ?_ loses ops state inv allowed
  intro state op inv allowed right
  obtain ⟨next, stepped, after⟩ := keeps state op inv allowed right
  exact ⟨next, stepped, holds next after, after⟩

theorem each_of_invariant (Inv : State → Prop) (keeps : ∀ state op, Inv state → admits state op →
      ∃ next, step state op = .ok next ∧ Q state op next ∧ Inv next) :
    ∀ (ops : List Op) (state : State), Inv state → Admissible admits step ops state →
      Each Q step ops state := by
  intro ops
  induction ops with
  | nil => intro state _ _; trivial
  | cons op rest ih =>
    intro state inv allowed
    obtain ⟨next, stepped, as, after⟩ := keeps state op inv allowed.1
    exact ⟨next, stepped, as, ih next after (allowed.2 next stepped)⟩

theorem throughout_of_invariant (Inv : State → Prop) (holds : ∀ state, Inv state → P state)
    (keeps : ∀ state op, Inv state → admits state op → ∃ next, step state op = .ok next ∧ Inv next)
    (ops : List Op) (state : State) (inv : Inv state) (allowed : Admissible admits step ops state) :
    Throughout P step ops state := by
  refine ⟨holds state inv, each_of_invariant Inv ?_ ops state inv allowed⟩
  intro state op inv allowed
  obtain ⟨next, stepped, after⟩ := keeps state op inv allowed
  exact ⟨next, stepped, holds next after, after⟩

theorem Throughout.ends {ops : List Op} (always : Throughout P step ops state) :
    ∃ final, run step ops state = .ok final ∧ P final := by
  obtain ⟨now, each⟩ := always
  induction ops generalizing state with
  | nil => exact ⟨state, rfl, now⟩
  | cons op rest ih =>
    obtain ⟨next, stepped, after, later⟩ := each
    obtain ⟨final, ran, holds⟩ := ih after later
    exact ⟨final, (run_cons stepped).trans ran, holds⟩

/-! ## One step again and again -/

theorem admissible_replicate (always : ∀ state, admits state op) :
    ∀ (n : Nat) (state : State), Admissible admits step (List.replicate n op) state := by
  intro n
  induction n with
  | zero => intro state; trivial
  | succ n ih => intro state; exact ⟨always state, fun next _ => ih next⟩

theorem run_replicate_keeps (Inv : State → Prop)
    (preserved : ∀ state next, Inv state → step state op = .ok next → Inv next) :
    ∀ (n : Nat) (state final : State), Inv state →
      run step (List.replicate n op) state = .ok final → Inv final := by
  intro n
  induction n with
  | zero =>
    intro state final inv ran
    cases ran
    exact inv
  | succ n ih =>
    intro state final inv ran
    rw [List.replicate_succ, run] at ran
    cases stepped : step state op with
    | error fault => rw [stepped] at ran; cases ran
    | ok next =>
      rw [stepped] at ran
      exact ih next final (preserved state next inv stepped) ran

theorem run_replicate_ends (Inv Done : State → Prop) (distance : State → Nat)
    (progress : ∀ state, Inv state → ¬ Done state →
      ∃ next, step state op = .ok next ∧ Inv next ∧ distance next < distance state) :
    ∀ state, Inv state →
      ∃ n final, run step (List.replicate n op) state = .ok final ∧ Inv final ∧ Done final := by
  intro state
  induction state using (measure distance).wf.induction with
  | h state ih =>
    intro inv
    by_cases done : Done state
    · exact ⟨0, state, rfl, inv, done⟩
    · obtain ⟨next, stepped, after, nearer⟩ := progress state inv done
      obtain ⟨n, final, ran, ends⟩ := ih next nearer after
      exact ⟨n + 1, final, by simp only [List.replicate_succ, run, stepped, ran], ends⟩

/-! ## Runs put together by hand -/

/-- An admissible run from one state to another. -/
def Leads (admits : State → Op → Prop) (step : State → Op → Except Fault State)
    (ops : List Op) (state final : State) : Prop :=
  Admissible admits step ops state ∧ run step ops state = .ok final

theorem Leads.nil : Leads admits step [] state state := ⟨trivial, rfl⟩

theorem Leads.cons {ops : List Op} (allowed : admits state op) (stepped : step state op = .ok next)
    (later : Leads admits step ops next final) : Leads admits step (op :: ops) state final :=
  ⟨(admissible_cons_ok stepped).mpr ⟨allowed, later.1⟩, by simp only [run, stepped, later.2]⟩

theorem Leads.then_admissible (leads : Leads admits step first state middle)
    (allowed : Admissible admits step second middle) :
    Admissible admits step (first ++ second) state := by
  induction first generalizing state with
  | nil => cases Except.ok.inj leads.2; exact allowed
  | cons op rest ih =>
    refine ⟨leads.1.1, ?_⟩
    intro next stepped
    have ran := leads.2
    simp only [run, stepped] at ran
    exact ih ⟨leads.1.2 next stepped, ran⟩

theorem Leads.append (leads : Leads admits step first state middle)
    (later : Leads admits step second middle final) : Leads admits step (first ++ second) state final :=
  ⟨leads.then_admissible later.1, by rw [run_append, leads.2]; exact later.2⟩

theorem leads_rounds (At : Nat → State → Prop) {piece : Nat → List Op} {bound : Nat}
    (turn : ∀ n state, n < bound → At n state → ∃ next, Leads admits step (piece n) state next ∧
      At (n + 1) next) (start : At 0 state) :
    ∀ n, n ≤ bound → ∃ final, Leads admits step ((List.range n).flatMap piece) state final ∧
      At n final := by
  intro n
  induction n with
  | zero => intro _; exact ⟨state, .nil, start⟩
  | succ n ih =>
    intro within
    obtain ⟨middle, leads, reached⟩ := ih (by omega)
    obtain ⟨final, more, further⟩ := turn n middle (by omega) reached
    refine ⟨final, ?_, further⟩
    rw [List.range_succ, List.flatMap_append, List.flatMap_singleton]
    exact leads.append more

end StepRuns
