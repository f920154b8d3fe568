import Mathlib.Data.List.Basic

/-! # Tail queues

The intrusive tail queues of the BSD queue macros, word by word. Several heads share
the elements, so that an element on one queue can be removed through the head of
another, as in C. `Holds` says which list a queue is, and on queues that are in order
the macros are the operations on lists. -/

namespace TailQueue
open Function List

universe u v
variable {H : Type u} {E : Type v}

/-- The address of a pointer to an element. -/
inductive Loc (H : Type u) (E : Type v) where
  | first (h : H)
  | next (e : E)
  deriving DecidableEq

/-- One of the pointers of the queue `l` of head `h`. -/
def Loc.Of (h : H) (l : List E) (at_ : Loc H E) : Prop := at_ = .first h ∨ ∃ e ∈ l, at_ = .next e

theorem Loc.Of.apart {h k : H} {l r : List E} {at_ : Loc H E} (first : at_.Of h l)
    (second : at_.Of k r) (heads : h ≠ k) : ∃ e ∈ l, e ∈ r := by
  rcases first with isFirst | ⟨e, inL, isNext⟩
  · rcases second with isFirst' | ⟨d, -, isNext'⟩
    · exact absurd (Loc.first.inj (isFirst.symm.trans isFirst')) heads
    · exact absurd (isFirst.symm.trans isNext') nofun
  · rcases second with isFirst' | ⟨d, inR, isNext'⟩
    · exact absurd (isFirst'.symm.trans isNext) nofun
    · have same : e = d := Loc.next.inj (isNext.symm.trans isNext')
      exact ⟨e, inL, same ▸ inR⟩

theorem Loc.Of.next_mem {h : H} {l : List E} {e : E} (inside : (Loc.next e : Loc H E).Of h l) :
    e ∈ l := by
  rcases inside with first | ⟨d, mem, next⟩
  · exact absurd first nofun
  · rw [Loc.next.inj next]
    exact mem

structure Links (H : Type u) (E : Type v) where
  first : H → Option E
  last : H → Loc H E
  next : E → Option E
  prev : E → Loc H E

namespace Links

def load (m : Links H E) : Loc H E → Option E
  | .first h => m.first h
  | .next e => m.next e

/-- `TAILQ_FOREACH` from the pointer `p` visits `l` and ends. -/
def Visits (m : Links H E) : Option E → List E → Prop
  | none, [] => True
  | some e, x :: l => e = x ∧ m.Visits (m.next e) l
  | _, _ => False

/-- From the pointer at `here` the elements of `l` follow, each with the address of the pointer
before it; the last of them has its `next` pointer at `there`. -/
def Segment (m : Links H E) : Loc H E → List E → Loc H E → Prop
  | here, [], there => here = there
  | here, e :: l, there => m.load here = some e ∧ m.prev e = here ∧ m.Segment (.next e) l there

def Holds (m : Links H E) (h : H) (l : List E) : Prop :=
  m.Segment (.first h) l (m.last h) ∧ m.load (m.last h) = none

/-! ## Segments -/

section Segments
variable {m : Links H E} {here there : Loc H E} {l k : List E} {h : H} {e : E}

theorem segment_append :
    m.Segment here (l ++ k) there ↔ ∃ middle, m.Segment here l middle ∧ m.Segment middle k there := by
  induction l generalizing here with
  | nil => simp [Segment]
  | cons e l ih => simp [Segment, ih, and_assoc]

theorem Segment.end_mem (segment : m.Segment here l there) :
    there = here ∨ ∃ e ∈ l, there = .next e := by
  induction l generalizing here with
  | nil => exact .inl segment.symm
  | cons e l ih =>
    rcases ih segment.2.2 with is | ⟨d, mem, is⟩
    · exact .inr ⟨e, mem_cons_self, is⟩
    · exact .inr ⟨d, mem_cons_of_mem e mem, is⟩

theorem Segment.frame {m' : Links H E} (segment : m.Segment here l there)
    (outside : ∀ e ∈ l, here ≠ .next e) (nodup : l.Nodup)
    (loads : ∀ at_, at_ ≠ there → (at_ = here ∨ ∃ e ∈ l, at_ = .next e) → m'.load at_ = m.load at_)
    (prevs : ∀ e ∈ l, m'.prev e = m.prev e) : m'.Segment here l there := by
  induction l generalizing here with
  | nil => exact segment
  | cons e l ih =>
    obtain ⟨points, back, rest⟩ := segment
    obtain ⟨fresh, nodup⟩ := nodup_cons.mp nodup
    have apart : here ≠ there := by
      rcases rest.end_mem with is | ⟨d, mem, is⟩
      · rw [is]
        exact outside e mem_cons_self
      · rw [is]
        exact outside d (mem_cons_of_mem e mem)
    refine ⟨(loads here apart (.inl rfl)).trans points, (prevs e mem_cons_self).trans back, ?_⟩
    refine ih rest ?_ nodup ?_ fun d mem => prevs d (mem_cons_of_mem e mem)
    · intro d mem is
      cases is
      exact fresh mem
    · intro at_ other inside
      refine loads at_ other (.inr ?_)
      rcases inside with is | ⟨d, mem, is⟩
      · exact ⟨e, mem_cons_self, is⟩
      · exact ⟨d, mem_cons_of_mem e mem, is⟩

theorem Segment.visits (segment : m.Segment here l there) (ends : m.load there = none) :
    m.Visits (m.load here) l := by
  induction l generalizing here with
  | nil =>
    cases segment
    rw [ends]
    trivial
  | cons e l ih =>
    rw [segment.1]
    exact ⟨rfl, ih segment.2.2⟩

theorem Visits.unique {p : Option E} (first : m.Visits p l) (second : m.Visits p k) : l = k := by
  induction l generalizing p k with
  | nil =>
    cases p with
    | none =>
      cases k with
      | nil => rfl
      | cons x k => exact second.elim
    | some e => exact first.elim
  | cons x l ih =>
    cases p with
    | none => exact first.elim
    | some e =>
      cases k with
      | nil => exact second.elim
      | cons y k =>
        obtain ⟨is, rest⟩ := first
        obtain ⟨is', rest'⟩ := second
        rw [← is, ← is', ih rest rest']

theorem Holds.visits (holds : m.Holds h l) : m.Visits (m.first h) l := holds.1.visits holds.2

theorem Holds.last_of (holds : m.Holds h l) : (m.last h).Of h l := holds.1.end_mem

theorem Holds.frame {m' : Links H E} (holds : m.Holds h l) (nodup : l.Nodup)
    (last : m'.last h = m.last h) (loads : ∀ at_ : Loc H E, at_.Of h l → m'.load at_ = m.load at_)
    (prevs : ∀ e ∈ l, m'.prev e = m.prev e) : m'.Holds h l := by
  refine ⟨?_, ?_⟩
  · rw [last]
    exact holds.1.frame (fun _ _ => nofun) nodup (fun at_ _ => loads at_) prevs
  · rw [last, loads _ holds.last_of]
    exact holds.2

/-- Around an element of a queue: the pointer to it belongs to the queue, and so does the element
behind it. -/
theorem Holds.around (holds : m.Holds h l) (mem : e ∈ l) :
    (m.prev e).Of h l ∧ ∀ n, m.next e = some n → n ∈ l := by
  obtain ⟨front, r, is⟩ := append_of_mem mem
  subst is
  obtain ⟨before, segment, -, back, rest⟩ := segment_append.mp holds.1
  refine ⟨?_, ?_⟩
  · rw [back]
    rcases segment.end_mem with first | ⟨d, inFront, next⟩
    · exact .inl first
    · exact .inr ⟨d, mem_append_left _ inFront, next⟩
  · intro n next
    cases r with
    | nil =>
      have last : m.load (.next e) = none := rest ▸ holds.2
      exact absurd (next.symm.trans last) nofun
    | cons d r =>
      have points : m.next e = some d := rest.1
      rw [points] at next
      cases next
      simp

end Segments
variable [DecidableEq H] [DecidableEq E]

def store (m : Links H E) : Loc H E → Option E → Links H E
  | .first h, p => { m with first := update m.first h p }
  | .next e, p => { m with next := update m.next e p }

def remove (m : Links H E) (h : H) (e : E) : Links H E :=
  let m :=
    match m.next e with
    | some n => { m with prev := update m.prev n (m.prev e) }
    | none => { m with last := update m.last h (m.prev e) }
  m.store (m.prev e) (m.next e)

def insertTail (m : Links H E) (h : H) (e : E) : Links H E :=
  let m := { m with next := update m.next e none }
  let m := { m with prev := update m.prev e (m.last h) }
  let m := m.store (m.last h) (some e)
  { m with last := update m.last h (.next e) }

instance decidableVisits (m : Links H E) : ∀ p l, Decidable (m.Visits p l)
  | none, [] => .isTrue trivial
  | some e, x :: l =>
    have := decidableVisits m (m.next e) l
    inferInstanceAs (Decidable (e = x ∧ m.Visits (m.next e) l))
  | none, _ :: _ => .isFalse id
  | some _, [] => .isFalse id

def init : Links H E :=
  { first := fun _ => none
    last := .first
    next := fun _ => none
    prev := .next }

section Store
variable (m : Links H E) (here : Loc H E) (p : Option E)

@[simp] theorem store_prev : (m.store here p).prev = m.prev := by
  cases here with
  | first | next => rfl

@[simp] theorem store_last : (m.store here p).last = m.last := by
  cases here with
  | first | next => rfl

theorem load_store (there : Loc H E) :
    (m.store here p).load there = if there = here then p else m.load there := by
  cases here with
  | first h =>
    cases there with
    | first k => simp [store, load, update_apply]
    | next e => simp [store, load]
  | next e =>
    cases there with
    | first k => simp [store, load]
    | next d => simp [store, load, update_apply]

end Store

/-! ## The macros on queues that are in order -/

section Queues
variable {m : Links H E} {h k : H} {e : E} {l : List E}

/-! What `TAILQ_INSERT_TAIL` stores. -/

theorem insertTail_load (m : Links H E) (h : H) (e : E) (at_ : Loc H E) :
    (m.insertTail h e).load at_ =
      if at_ = m.last h then some e else if at_ = .next e then none else m.load at_ := by
  have same : (m.insertTail h e).load at_ =
      ({ m with
        next := update m.next e none
        prev := update m.prev e (m.last h) }.store (m.last h) (some e)).load at_ := by
    cases at_ with
    | first | next => rfl
  rw [same, load_store]
  cases at_ with
  | first k => rfl
  | next d => simp [load, update_apply]

theorem insertTail_prev (m : Links H E) (h : H) (e d : E) :
    (m.insertTail h e).prev d = if d = e then m.last h else m.prev d := by
  simp [Links.insertTail, update_apply]

theorem insertTail_last (m : Links H E) (h k : H) (e : E) :
    (m.insertTail h e).last k = if k = h then .next e else m.last k := by
  simp [Links.insertTail, update_apply]

theorem Holds.insertTail (holds : m.Holds h l) (nodup : l.Nodup) (fresh : e ∉ l) :
    (m.insertTail h e).Holds h (l ++ [e]) := by
  have lastNe : m.last h ≠ .next e := by
    intro is
    have inside := holds.last_of
    rw [is] at inside
    exact fresh inside.next_mem
  have last : (m.insertTail h e).last h = .next e := by
    rw [insertTail_last, if_pos rfl]
  refine ⟨segment_append.mpr ⟨m.last h, ?_, ?_, ?_, ?_⟩, ?_⟩
  · apply holds.1.frame (fun _ _ => nofun) nodup
    · intro at_ other inside
      rw [insertTail_load, if_neg other, if_neg]
      intro is
      rw [is] at inside
      exact fresh (Loc.Of.next_mem inside)
    · intro d mem
      rw [insertTail_prev, if_neg]
      intro is
      exact fresh (is ▸ mem)
  · rw [insertTail_load, if_pos rfl]
  · rw [insertTail_prev, if_pos rfl]
  · exact last.symm
  · rw [last, insertTail_load, if_neg lastNe.symm, if_pos rfl]

/-! What `TAILQ_REMOVE` stores. -/

theorem remove_load (m : Links H E) (h : H) (e : E) (at_ : Loc H E) :
    (m.remove h e).load at_ = if at_ = m.prev e then m.next e else m.load at_ := by
  cases next : m.next e with
  | none =>
    simp only [Links.remove, next]
    rw [load_store]
    rfl
  | some n =>
    -- the first store leaves the removed element's own pointer as it is
    have self : update m.prev n (m.prev e) e = m.prev e := by
      rw [update_apply]
      split
      · rfl
      · rfl
    simp only [Links.remove, next]
    rw [load_store, self]
    rfl

theorem remove_prev (m : Links H E) (h : H) (e d : E) :
    (m.remove h e).prev d = if m.next e = some d then m.prev e else m.prev d := by
  cases next : m.next e with
  | none => simp only [Links.remove, next, store_prev, reduceCtorEq, if_false]
  | some n =>
    simp only [Links.remove, next, store_prev, Option.some.injEq, update_apply, eq_comm]

theorem remove_last (m : Links H E) (h k : H) (e : E) :
    (m.remove h e).last k = if m.next e = none ∧ k = h then m.prev e else m.last k := by
  cases next : m.next e with
  | none => simp only [Links.remove, next, store_last, true_and, update_apply]
  | some n => simp only [Links.remove, next, store_last, reduceCtorEq, false_and, if_false]

theorem Holds.remove {r : List E} (holds : m.Holds h (l ++ e :: r))
    (nodup : (l ++ e :: r).Nodup) : (m.remove h e).Holds h (l ++ r) := by
  obtain ⟨segment, ends⟩ := holds
  obtain ⟨before, front, points, back, rest⟩ := segment_append.mp segment
  obtain ⟨nodupFront, nodupBack, apart⟩ := nodup_append.mp nodup
  have beforeNe : ∀ d ∈ e :: r, before ≠ .next d := by
    intro d mem is
    rcases front.end_mem with first | ⟨c, inL, next⟩
    · exact absurd (first.symm.trans is) nofun
    · have same : c = d := Loc.next.inj (next.symm.trans is)
      exact apart c inL d mem same
  have frontStays : (∀ d ∈ l, m.next e ≠ some d) →
      (m.remove h e).Segment (.first h) l before := by
    intro behind
    apply front.frame (fun _ _ => nofun) nodupFront
    · intro at_ other _
      rw [remove_load, back, if_neg other]
    · intro d mem
      rw [remove_prev, if_neg (behind d mem)]
  cases r with
  | nil =>
    have isLast : m.last h = .next e := rest.symm
    rw [isLast] at ends
    have last : (m.remove h e).last h = before := by
      rw [remove_last, if_pos ⟨ends, rfl⟩, back]
    rw [append_nil]
    refine ⟨?_, ?_⟩
    · rw [last]
      exact frontStays fun d _ is => absurd (is.symm.trans ends) nofun
    · rw [last, remove_load, if_pos back.symm]
      exact ends
  | cons n r =>
    obtain ⟨next, backN, tail⟩ := rest
    have nextE : m.next e = some n := next
    obtain ⟨-, nodupTail⟩ := nodup_cons.mp nodupBack
    obtain ⟨fresh, nodupR⟩ := nodup_cons.mp nodupTail
    have last : (m.remove h e).last h = m.last h := by
      rw [remove_last, if_neg]
      rw [nextE]
      exact fun is => absurd is.1 nofun
    have inTail : ∀ at_, (at_ = .next n ∨ ∃ d ∈ r, at_ = .next d) →
        (m.remove h e).load at_ = m.load at_ := by
      intro at_ inside
      rw [remove_load, back, if_neg]
      intro is
      rcases inside with here | ⟨d, mem, here⟩
      · exact beforeNe n (by simp) (is.symm.trans here)
      · exact beforeNe d (by simp [mem]) (is.symm.trans here)
    refine ⟨segment_append.mpr ⟨before, ?_, ?_, ?_, ?_⟩, ?_⟩
    · refine frontStays fun d mem is => ?_
      cases nextE.symm.trans is
      exact apart n mem n (by simp) rfl
    · rw [remove_load, if_pos back.symm, nextE]
    · rw [remove_prev, if_pos nextE, back]
    · rw [last]
      refine tail.frame ?_ nodupR (fun at_ _ => inTail at_) ?_
      · intro d mem is
        cases is
        exact fresh mem
      · intro d mem
        rw [remove_prev, if_neg]
        intro is
        cases nextE.symm.trans is
        exact fresh mem
    · rw [last, inTail _ tail.end_mem]
      exact ends

/-- The last element of `h`, removed through another head and then put back at the end of `h`, is
not on `h` any more: `h` still has the address of its `next` pointer, and the element comes to
point to itself. -/
theorem Holds.lost (holds : m.Holds h (l ++ [e])) (nodup : (l ++ [e]).Nodup) (other : k ≠ h) :
    ((m.remove k e).insertTail h e).Visits (((m.remove k e).insertTail h e).first h) l ∧
      ((m.remove k e).insertTail h e).next e = some e := by
  obtain ⟨segment, ends⟩ := holds
  obtain ⟨before, front, points, back, isLast⟩ := segment_append.mp segment
  obtain ⟨nodupFront, -, apart⟩ := nodup_append.mp nodup
  have fresh : e ∉ l := fun mem => apart e mem e mem_cons_self rfl
  have nextE : m.next e = none := by
    rw [← isLast] at ends
    exact ends
  have beforeNe : before ≠ .next e := by
    intro is
    have inside : before.Of h l := front.end_mem
    rw [is] at inside
    exact fresh inside.next_mem
  have last : (m.remove k e).last h = .next e := by
    rw [remove_last, if_neg fun is => other is.2.symm]
    exact isLast.symm
  have frontStays : ((m.remove k e).insertTail h e).Segment (.first h) l before := by
    apply front.frame (fun _ _ => nofun) nodupFront
    · intro at_ notEnd inside
      have notE : at_ ≠ .next e := by
        intro is
        rw [is] at inside
        exact fresh (Loc.Of.next_mem inside)
      rw [insertTail_load, last, if_neg notE, if_neg notE, remove_load, back, if_neg notEnd]
    · intro d mem
      have notE : d ≠ e := fun is => fresh (is ▸ mem)
      rw [insertTail_prev, if_neg notE, remove_prev, nextE, if_neg nofun]
  refine ⟨frontStays.visits ?_, ?_⟩
  · rw [insertTail_load, last, if_neg beforeNe, if_neg beforeNe, remove_load, if_pos back.symm, nextE]
  · have self := insertTail_load (m.remove k e) h e (.next e)
    rw [last, if_pos rfl] at self
    exact self

/-- Queues in order: every head holds its list, and no element is on two queues. -/
structure Ordered (m : Links H E) (queue : H → List E) : Prop where
  holds : ∀ h, m.Holds h (queue h)
  nodup : ∀ h, (queue h).Nodup
  apart : ∀ {h k e}, e ∈ queue h → e ∈ queue k → h = k

namespace Ordered
variable {queue : H → List E}

omit [DecidableEq H] [DecidableEq E] in
theorem init : (init : Links H E).Ordered fun _ => [] where
  holds := fun _ => ⟨rfl, rfl⟩
  nodup := fun _ => nodup_nil
  apart := fun inNil => absurd inNil not_mem_nil

theorem insertTail (ordered : m.Ordered queue) (h : H) (fresh : ∀ k, e ∉ queue k) :
    (m.insertTail h e).Ordered (update queue h (queue h ++ [e])) where
  holds := by
    intro k
    by_cases here : k = h
    · subst here
      rw [update_self]
      exact (ordered.holds k).insertTail (ordered.nodup k) (fresh k)
    · rw [update_of_ne here]
      apply (ordered.holds k).frame (ordered.nodup k)
      · rw [insertTail_last, if_neg here]
      · intro at_ inside
        rw [insertTail_load, if_neg, if_neg]
        · intro is
          rw [is] at inside
          exact fresh k inside.next_mem
        · intro is
          rw [is] at inside
          obtain ⟨d, inK, inH⟩ := inside.apart (ordered.holds h).last_of here
          exact here (ordered.apart inK inH)
      · intro d inK
        rw [insertTail_prev, if_neg]
        intro is
        exact fresh k (is ▸ inK)
  nodup := by
    intro k
    by_cases here : k = h
    · subst here
      rw [update_self]
      refine nodup_append.mpr ⟨ordered.nodup k, pairwise_singleton _ e, ?_⟩
      intro d inK c inE is
      rw [mem_singleton.mp inE] at is
      exact fresh k (is ▸ inK)
    · rw [update_of_ne here]
      exact ordered.nodup k
  apart := by
    -- an old element is where it was, and the new one is on `h` only
    have was : ∀ {j d}, d ∈ update queue h (queue h ++ [e]) j →
        d ∈ queue j ∨ d = e ∧ j = h := by
      intro j d mem
      by_cases here : j = h
      · subst here
        rw [update_self, mem_append, mem_singleton] at mem
        exact mem.imp id fun is => ⟨is, rfl⟩
      · rw [update_of_ne here] at mem
        exact .inl mem
    intro k j d inK inJ
    rcases was inK with oldK | ⟨isE, isH⟩
    · rcases was inJ with oldJ | ⟨isE, -⟩
      · exact ordered.apart oldK oldJ
      · exact absurd (isE ▸ oldK) (fresh k)
    · rcases was inJ with oldJ | ⟨-, isH'⟩
      · exact absurd (isE ▸ oldJ) (fresh j)
      · exact isH.trans isH'.symm

theorem remove (ordered : m.Ordered queue) (h : H) (mem : e ∈ queue h) :
    (m.remove h e).Ordered (update queue h ((queue h).erase e)) where
  holds := by
    intro k
    by_cases here : k = h
    · subst here
      rw [update_self]
      obtain ⟨front, r, is⟩ := append_of_mem mem
      have nodup := ordered.nodup k
      have holds := ordered.holds k
      rw [is] at nodup holds ⊢
      have behind : e ∉ front := fun inFront =>
        (nodup_append.mp nodup).2.2 e inFront e mem_cons_self rfl
      rw [erase_append_right _ behind, erase_cons_head]
      exact holds.remove nodup
    · rw [update_of_ne here]
      obtain ⟨back, behind⟩ := (ordered.holds h).around mem
      apply (ordered.holds k).frame (ordered.nodup k)
      · rw [remove_last, if_neg fun is => here is.2]
      · intro at_ inside
        rw [remove_load, if_neg]
        intro is
        rw [is] at inside
        obtain ⟨d, inK, inH⟩ := inside.apart back here
        exact here (ordered.apart inK inH)
      · intro d inK
        rw [remove_prev, if_neg]
        intro is
        exact here (ordered.apart inK (behind d is))
  nodup := by
    intro k
    by_cases here : k = h
    · subst here
      rw [update_self]
      exact (ordered.nodup k).erase e
    · rw [update_of_ne here]
      exact ordered.nodup k
  apart := by
    have was : ∀ {j d}, d ∈ update queue h ((queue h).erase e) j → d ∈ queue j := by
      intro j d inJ
      by_cases here : j = h
      · subst here
        rw [update_self] at inJ
        exact mem_of_mem_erase inJ
      · rw [update_of_ne here] at inJ
        exact inJ
    intro k j d inK inJ
    exact ordered.apart (was inK) (was inJ)

end Ordered
end Queues
end Links
end TailQueue
