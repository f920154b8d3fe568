import Rumprun.Hw.Intr

/-! # A delivery pass of `doisr`

The variable that counts the lines in the inner loop of `doisr` is also the one that
gets the slot of a routed line: with `BMK_SCREW_INTERRUPT_ROUTING` that is slot 32,
behind the last line, and the loop goes on from there. -/

namespace Rumprun.Hw
open Core Intr
open Function (update update_self update_of_ne)

structure Registration where
  ih : Hand
  line : Nat
  routed : Bool
  deriving DecidableEq, Repr

def Registration.flags (r : Registration) : BitVec 32 := if r.routed = true then bmkIntrRouted else 0

/-- Calls of `bmk_isr_rumpkernel` for which there is memory and `cpu_intr_init` succeeds. -/
def register (screw : Bool) : List Registration → Intr → Except Stop Intr
  | [], s => .ok s
  | r :: rest, s => do register screw rest (← s.bmkIsrRumpkernel screw r.ih r.line r.flags true 0)

def Place.running : Place → List Hand
  | .handler _ _ (ih :: _) => [ih]
  | _ => []

/-- The pieces of `doisr` up to `rumpkern_unsched`, with the handlers that they have run. -/
def IsrSys.deliver (screw : Bool) : Nat → IsrSys → Except Stop (Option (List Hand))
  | 0, _ => .ok none
  | fuel + 1, s =>
    if s.place = .leave then .ok (some [])
    else do
      let next ← s.doisr screw
      let rest ← next.deliver screw fuel
      return rest.map (s.place.running ++ ·)

/-! ## Registrations -/

/-- The slot of a line in `isr_ih`. -/
def Intr.slot (screw : Bool) (s : Intr) (line : Nat) : Nat :=
  if s.isrRouted line = .yes then routeintr screw line else line

structure Registered (screw : Bool) (s : Intr) (r : Registration) : Prop where
  routed : s.isrRouted r.line = if r.routed = true then .yes else .no
  listed : r.ih ∈ s.isrIh (s.slot screw r.line)
  lowest : s.isrLowest ≤ r.line

theorem bmkIsrRumpkernel_ok {screw : Bool} {s next : Intr} {r : Registration}
    (done : s.bmkIsrRumpkernel screw r.ih r.line r.flags true 0 = .ok next) :
    ∃ noted, noted = s.note r.line (if r.routed = true then .yes else .no) ∧
      noted.isrRouted r.line = (if r.routed = true then .yes else .no) ∧
      next = { noted with
        isrIh := update noted.isrIh (noted.slot screw r.line)
          (r.ih :: noted.isrIh (noted.slot screw r.line))
        isrLowest := if r.line < noted.isrLowest then r.line else noted.isrLowest } := by
  have asks : r.flags &&& bmkIntrRouted ≠ 0 ↔ r.routed = true := by
    unfold Registration.flags
    cases r.routed <;> decide
  unfold bmkIsrRumpkernel at done
  simp only [asks, Int.toNat_natCast] at done
  refine ⟨_, rfl, ?_⟩
  split at done
  · cases done
  split at done
  · cases done
  by_cases is : (s.note r.line (if r.routed = true then .yes else .no)).isrRouted r.line =
      if r.routed = true then .yes else .no
  swap
  · rw [if_neg nofun, if_pos is] at done
    cases done
  rw [if_neg nofun, if_neg (not_not.mpr is), if_neg (not_not.mpr rfl)] at done
  refine ⟨is, ?_⟩
  cases done
  have slot : (s.note r.line (if r.routed = true then .yes else .no)).slot screw r.line =
      if r.routed = true then routeintr screw r.line else r.line := by
    unfold slot
    rw [is]
    cases r.routed <;> rfl
  rw [slot]

theorem note_of_ne {s : Intr} {line other : Nat} {icheck : Routed}
    (known : s.isrRouted other ≠ .noidea) :
    (s.note line icheck).isrRouted other = s.isrRouted other := by
  unfold note
  split
  · next fresh =>
    refine update_of_ne ?_ _ _
    rintro rfl
    exact known fresh
  · rfl

theorem note_isrIh (s : Intr) (line : Nat) (icheck : Routed) :
    (s.note line icheck).isrIh = s.isrIh ∧ (s.note line icheck).isrLowest = s.isrLowest := by
  unfold note
  split <;> exact ⟨rfl, rfl⟩

theorem Registered.intro {screw : Bool} {s next : Intr} {r : Registration}
    (done : s.bmkIsrRumpkernel screw r.ih r.line r.flags true 0 = .ok next) :
    Registered screw next r := by
  obtain ⟨noted, -, is, rfl⟩ := bmkIsrRumpkernel_ok done
  refine ⟨is, ?_, ?_⟩
  · change r.ih ∈ (update noted.isrIh (noted.slot screw r.line) (r.ih :: _) : Nat → _)
      (noted.slot screw r.line)
    rw [update_self]
    exact List.mem_cons_self
  · dsimp only
    split
    · exact le_rfl
    · next above => exact not_lt.mp above

theorem Registered.kept {screw : Bool} {s next : Intr} {q r : Registration} (was : Registered screw s q)
    (done : s.bmkIsrRumpkernel screw r.ih r.line r.flags true 0 = .ok next) :
    Registered screw next q := by
  obtain ⟨noted, isNoted, -, rfl⟩ := bmkIsrRumpkernel_ok done
  have known : s.isrRouted q.line ≠ .noidea := by
    rw [was.routed]
    cases q.routed <;> nofun
  have routed : noted.isrRouted q.line = s.isrRouted q.line := isNoted ▸ note_of_ne known
  have slot : noted.slot screw q.line = s.slot screw q.line := by
    unfold slot
    rw [routed]
  obtain ⟨lists, least⟩ := note_isrIh s r.line (if r.routed = true then .yes else .no)
  rw [← isNoted] at lists least
  refine ⟨routed.trans was.routed, ?_, ?_⟩
  · change q.ih ∈ (update noted.isrIh (noted.slot screw r.line) (r.ih :: _) : Nat → _)
      (noted.slot screw q.line)
    rw [slot, lists]
    by_cases here : s.slot screw q.line = noted.slot screw r.line
    · rw [← here, update_self]
      exact List.mem_cons_of_mem _ was.listed
    · rw [update_of_ne here]
      exact was.listed
  · have low := was.lowest
    dsimp only
    rw [least]
    split <;> omega

theorem register_kept {screw : Bool} {q : Registration} : ∀ (regs : List Registration) {s next : Intr},
    register screw regs s = .ok next → Registered screw s q → Registered screw next q := by
  intro regs
  induction regs with
  | nil =>
    intro s next done was
    cases done
    exact was
  | cons r rest ih =>
    intro s next done was
    obtain ⟨mid, first, later⟩ := bind_eq_ok done
    exact ih later (was.kept first)

theorem register_registered {screw : Bool} : ∀ (regs : List Registration) {s next : Intr},
    register screw regs s = .ok next → ∀ r ∈ regs, Registered screw next r := by
  intro regs
  induction regs with
  | nil => nofun
  | cons q rest ih =>
    intro s next done r mem
    obtain ⟨mid, first, later⟩ := bind_eq_ok done
    rcases List.mem_cons.mp mem with rfl | mem
    · exact register_kept rest later (.intro first)
    · exact ih later r mem

/-! ## The scan -/

theorem clear_line (isrcopy : BitVec 32) (i line : Nat) :
    (isrcopy &&& ~~~(1#32 <<< i)).getLsbD line = true ↔ isrcopy.getLsbD line = true ∧ line ≠ i := by
  simp [BitVec.getLsbD_and]
  grind

theorem test_line {isrcopy : BitVec 32} {i : Nat} (lt : i < 32) :
    isrcopy &&& (1#32 <<< i) = 0 ↔ isrcopy.getLsbD i = false := by
  rw [← BitVec.twoPow_eq, BitVec.and_twoPow]
  have nonzero : BitVec.twoPow 32 i ≠ 0#32 := by
    intro zero
    have bit := congrArg (BitVec.getLsbD · i) zero
    simp [lt] at bit
  cases isrcopy.getLsbD i <;> simp [nonzero]

theorem exists_line {isrcopy : BitVec 32} (nonzero : isrcopy ≠ 0) :
    ∃ line, line < 32 ∧ isrcopy.getLsbD line = true := by
  by_contra none
  refine nonzero (BitVec.eq_of_getLsbD_eq fun line lt => ?_)
  have unset : isrcopy.getLsbD line ≠ true := fun set => none ⟨line, lt, set⟩
  simpa using unset

/-- A routed line is set below another one. -/
def Hides (s : Intr) (isrcopy : BitVec 32) (first : Nat) : Prop :=
  ∃ line other, first ≤ line ∧ line < other ∧ isrcopy.getLsbD line = true ∧
    isrcopy.getLsbD other = true ∧ s.isrRouted line = .yes

theorem Hides.lower {s : Intr} {isrcopy : BitVec 32} {first least : Nat}
    (hides : Hides s isrcopy first) (le : least ≤ first) : Hides s isrcopy least := by
  obtain ⟨line, other, from_, rest⟩ := hides
  exact ⟨line, other, le.trans from_, rest⟩

namespace IsrSys
variable {screw : Bool} {s next : IsrSys} {hands : Hand → Prop} {i : Nat} {isrcopy : BitVec 32}

/-- The pass comes to its end, and runs the handlers that `hands` names. -/
def Completes (screw : Bool) (s : IsrSys) (hands : Hand → Prop) : Prop :=
  ∃ fuel ran, s.deliver screw fuel = .ok (some ran) ∧ ∀ ih, hands ih → ih ∈ ran

theorem Completes.step (inside : s.place ≠ .leave) (stepped : s.doisr screw = .ok next)
    (rest : next.Completes screw hands) :
    s.Completes screw fun ih => ih ∈ s.place.running ∨ hands ih := by
  obtain ⟨fuel, ran, delivered, all⟩ := rest
  refine ⟨fuel + 1, s.place.running ++ ran, ?_, ?_⟩
  · rw [deliver, if_neg inside, stepped, ok_bind, delivered]
    rfl
  · rintro ih (now | later)
    · exact List.mem_append_left _ now
    · exact List.mem_append_right _ (all ih later)

theorem Completes.mono {fewer : Hand → Prop} (completes : s.Completes screw hands)
    (sub : ∀ ih, fewer ih → hands ih) : s.Completes screw fewer := by
  obtain ⟨fuel, ran, delivered, all⟩ := completes
  exact ⟨fuel, ran, delivered, fun ih mem => all ih (sub ih mem)⟩

theorem completes_leave (screw : Bool) (s : IsrSys) : (s.goto .leave).Completes screw fun _ => False :=
  ⟨1, [], if_pos rfl, nofun⟩

theorem completes_empty (screw : Bool) (s : IsrSys) (i : Nat) :
    (s.goto (.scan i 0)).Completes screw fun ih =>
      ∃ line, (0 : BitVec 32).getLsbD line = true ∧ ih ∈ s.intr.isrIh (s.intr.slot screw line) := by
  have done : (s.goto (.scan i 0)).doisr screw = .ok (s.goto .leave) := rfl
  apply (Completes.step Place.noConfusion done (completes_leave screw s)).mono
  rintro ih ⟨line, set, -⟩
  simp at set

theorem doisr_scan (s : IsrSys) (inside : i < 32) (nonzero : isrcopy ≠ 0) :
    (s.goto (.scan i isrcopy)).doisr screw =
      if isrcopy &&& (1#32 <<< i) = 0 then .ok (s.goto (.scan (i + 1) isrcopy))
      else .ok (s.goto (.handler (s.intr.slot screw i) (isrcopy &&& ~~~(1#32 <<< i))
        (s.intr.isrIh (s.intr.slot screw i)))) := by
  rw [doisr]
  dsimp only [goto]
  rw [if_neg nonzero, bmkAssert_bind _ (decide_eq_true inside)]
  rfl

theorem completes_handlers (rest : (s.goto (.scan (i + 1) isrcopy)).Completes screw hands)
    (handlers : List Hand) :
    (s.goto (.handler i isrcopy handlers)).Completes screw fun ih => ih ∈ handlers ∨ hands ih := by
  induction handlers with
  | nil =>
    exact (Completes.step Place.noConfusion rfl rest).mono fun ih mem => mem.imp_left nofun
  | cons first handlers hyp =>
    apply (Completes.step Place.noConfusion rfl hyp).mono
    intro ih mem
    rwa [List.mem_cons, or_assoc, ← List.mem_singleton] at mem

/-- All lines of the copy are at `i` or above, and no routed one hides another: they are served. -/
theorem completes_scan (screw : Bool) (s : IsrSys) : ∀ (left i : Nat) (isrcopy : BitVec 32),
    32 ≤ i + left → (∀ line, isrcopy.getLsbD line = true → i ≤ line) →
    (screw = true → ¬Hides s.intr isrcopy i) →
    (s.goto (.scan i isrcopy)).Completes screw fun ih =>
      ∃ line, isrcopy.getLsbD line = true ∧ ih ∈ s.intr.isrIh (s.intr.slot screw line) := by
  intro left
  induction left with
  | zero =>
    intro i isrcopy enough above clear
    have zero : isrcopy = 0 := by
      by_contra nonzero
      obtain ⟨line, lt, set⟩ := exists_line nonzero
      have := above line set
      omega
    subst zero
    exact completes_empty screw s i
  | succ left hyp =>
    intro i isrcopy enough above clear
    by_cases zero : isrcopy = 0
    · subst zero
      exact completes_empty screw s i
    obtain ⟨last, lt, lastSet⟩ := exists_line zero
    have inside : i < 32 := (above last lastSet).trans_lt lt
    cases set : isrcopy.getLsbD i with
    | false =>
      have next : ∀ line, isrcopy.getLsbD line = true → i + 1 ≤ line := by
        intro line is
        apply lt_of_le_of_ne (above line is)
        rintro rfl
        rw [set] at is
        cases is
      have rest := hyp (i + 1) isrcopy (by omega) next fun on hides => clear on (hides.lower (by omega))
      refine (Completes.step Place.noConfusion ?_ rest).mono fun ih served => .inr served
      rw [doisr_scan s inside zero, if_pos ((test_line inside).mpr set)]
    | true =>
      have next : ∀ line, (isrcopy &&& ~~~(1#32 <<< i)).getLsbD line = true → i + 1 ≤ line := by
        intro line is
        obtain ⟨was, ne⟩ := (clear_line isrcopy i line).mp is
        exact lt_of_le_of_ne (above line was) ne.symm
      have found : (s.goto (.scan i isrcopy)).doisr screw = .ok (s.goto (.handler (s.intr.slot screw i)
          (isrcopy &&& ~~~(1#32 <<< i)) (s.intr.isrIh (s.intr.slot screw i)))) := by
        rw [doisr_scan s inside zero, if_neg fun is => by
          rw [(test_line inside).mp is] at set; cases set]
      have split : ∀ ih, (∃ line, isrcopy.getLsbD line = true ∧
            ih ∈ s.intr.isrIh (s.intr.slot screw line)) →
          ih ∈ s.intr.isrIh (s.intr.slot screw i) ∨
            ∃ line, (isrcopy &&& ~~~(1#32 <<< i)).getLsbD line = true ∧
              ih ∈ s.intr.isrIh (s.intr.slot screw line) := by
        rintro ih ⟨line, is, mem⟩
        by_cases here : line = i
        · exact .inl (here ▸ mem)
        · exact .inr ⟨line, (clear_line isrcopy i line).mpr ⟨is, here⟩, mem⟩
      have rest : (s.goto (.scan (s.intr.slot screw i + 1) (isrcopy &&& ~~~(1#32 <<< i)))).Completes
          screw fun ih => ∃ line, (isrcopy &&& ~~~(1#32 <<< i)).getLsbD line = true ∧
            ih ∈ s.intr.isrIh (s.intr.slot screw line) := by
        by_cases away : s.intr.isrRouted i = .yes ∧ screw = true
        · -- the scan goes on behind the last line, and nothing is left
          have none : isrcopy &&& ~~~(1#32 <<< i) = 0 := by
            by_contra left
            obtain ⟨line, -, is⟩ := exists_line left
            exact clear away.2 ⟨i, line, le_rfl, next line is, set,
              ((clear_line isrcopy i line).mp is).1, away.1⟩
          rw [none]
          exact completes_empty screw s _
        · have same : s.intr.slot screw i = i := by
            unfold slot routeintr
            split
            · next yes => exact if_neg fun on => away ⟨yes, on⟩
            · rfl
          rw [same]
          apply hyp (i + 1) _ (by omega) next
          rintro on ⟨line, other, from_, below, is, isOther, yes⟩
          exact clear on ⟨line, other, by omega, below, ((clear_line ..).mp is).1,
            ((clear_line ..).mp isOther).1, yes⟩
      exact (Completes.step Place.noConfusion found (completes_handlers rest _)).mono
        fun ih served => .inr (split ih served)

/-! ## The assertion -/

/-- The scan will come to an index behind the last line with lines left. -/
def Doomed (s : IsrSys) : Prop :=
  match s.place with
  | .copied isrcopy => Hides s.intr isrcopy s.intr.isrLowest
  | .enter isrcopy => Hides s.intr isrcopy s.intr.isrLowest
  | .scan i isrcopy => 32 ≤ i ∧ isrcopy ≠ 0 ∨ Hides s.intr isrcopy i
  | .handler i isrcopy _ => 32 ≤ i ∧ isrcopy ≠ 0 ∨ Hides s.intr isrcopy (i + 1)
  | _ => False

theorem Doomed.step (doomed : s.Doomed) (stepped : s.doisr true = .ok next) : next.Doomed := by
  unfold Doomed at doomed
  split at doomed
  · next place =>
    rw [doisr, place] at stepped
    cases stepped
    exact doomed
  · next place =>
    rw [doisr, place] at stepped
    cases stepped
    exact .inr doomed
  · next i isrcopy place =>
    have here : s = s.goto (.scan i isrcopy) := by rw [← place]; rfl
    have nonzero : isrcopy ≠ 0 := by
      rcases doomed with ⟨-, left⟩ | ⟨line, other, -, -, set, -⟩
      · exact left
      · rintro rfl
        simp at set
    by_cases inside : i < 32
    · obtain ⟨line, other, from_, below, set, setOther, yes⟩ :=
        doomed.resolve_left fun out => absurd inside (not_lt.mpr out.1)
      rw [here, doisr_scan s inside nonzero] at stepped
      split at stepped
      · next unset =>
        cases stepped
        refine .inr ⟨line, other, lt_of_le_of_ne from_ ?_, below, set, setOther, yes⟩
        rintro rfl
        rw [(test_line inside).mp unset] at set
        cases set
      · cases stepped
        have kept : ∀ line, isrcopy.getLsbD line = true → line ≠ i →
            (isrcopy &&& ~~~(1#32 <<< i)).getLsbD line = true :=
          fun line is ne => (clear_line ..).mpr ⟨is, ne⟩
        have left := kept other setOther (by omega)
        by_cases routed : s.intr.isrRouted i = .yes
        · refine .inl ⟨?_, ?_⟩
          · rw [slot, if_pos routed]
            exact le_rfl
          · intro zero
            rw [zero] at left
            simp at left
        · have apart : line ≠ i := by
            rintro rfl
            exact routed yes
          refine .inr ⟨line, other, ?_, below, kept line set apart, left, yes⟩
          rw [slot, if_neg routed]
          omega
    · rw [doisr, place] at stepped
      dsimp only at stepped
      rw [if_neg nonzero, decide_eq_false inside] at stepped
      cases stepped
  · next i isrcopy handlers place =>
    cases handlers with
    | nil =>
      rw [doisr, place] at stepped
      cases stepped
      exact doomed.imp_left fun out => ⟨out.1.trans (Nat.le_succ i), out.2⟩
    | cons first handlers =>
      rw [doisr, place] at stepped
      cases stepped
      exact doomed
  · exact doomed.elim

theorem Doomed.not_delivered : ∀ (fuel : Nat) {s : IsrSys}, s.Doomed →
    ∀ ran, s.deliver true fuel ≠ .ok (some ran) := by
  intro fuel
  induction fuel with
  | zero => nofun
  | succ fuel hyp =>
    intro s doomed ran delivered
    have inside : s.place ≠ .leave := by
      intro place
      rw [Doomed, place] at doomed
      exact doomed
    rw [deliver, if_neg inside] at delivered
    obtain ⟨next, stepped, later⟩ := bind_eq_ok delivered
    obtain ⟨rest, delivered, is⟩ := bind_eq_ok later
    cases rest with
    | none => cases is
    | some ran => exact hyp (doomed.step stepped) ran delivered

end IsrSys

/-- A pass over `mask` comes to its end and runs every handler of every set line, exactly when with
`BMK_SCREW_INTERRUPT_ROUTING` no line is set above a routed one that is set. -/
theorem delivery_pass_iff (screw : Bool) (regs : List Registration) (mask : BitVec 32)
    (known : ∀ line, mask.getLsbD line = true → ∃ r ∈ regs, r.line = line) (s : IsrSys)
    (registered : register screw regs intrInit = .ok s.intr) (place : s.place = .copied mask) :
    (s.Completes screw fun ih => ∃ r ∈ regs, mask.getLsbD r.line = true ∧ ih = r.ih) ↔
      (screw = true → ∀ r ∈ regs, r.routed = true → mask.getLsbD r.line = true →
        ∀ line, mask.getLsbD line = true → line ≤ r.line) := by
  have all := register_registered regs registered
  constructor
  · rintro ⟨fuel, ran, delivered, -⟩ rfl r mem routed set line above
    by_contra higher
    have yes := (all r mem).routed
    rw [if_pos routed] at yes
    refine IsrSys.Doomed.not_delivered fuel ?_ ran delivered
    rw [IsrSys.Doomed, place]
    exact ⟨r.line, line, (all r mem).lowest, not_le.mp higher, set, above, yes⟩
  · intro clear
    have above : ∀ line, mask.getLsbD line = true → s.intr.isrLowest ≤ line := by
      intro line set
      obtain ⟨r, mem, rfl⟩ := known line set
      exact (all r mem).lowest
    have open_ : screw = true → ¬Hides s.intr mask s.intr.isrLowest := by
      rintro on ⟨line, other, -, below, set, setOther, yes⟩
      obtain ⟨r, mem, rfl⟩ := known line set
      have routed : r.routed = true := by
        have is := (all r mem).routed
        rw [yes] at is
        cases flag : r.routed with
        | true => rfl
        | false => rw [flag] at is; cases is
      exact absurd (clear on r mem routed set other setOther) (not_le.mpr below)
    have scanned := IsrSys.completes_scan screw { s with totwork := s.totwork ||| mask } 32 _ mask
      (Nat.le_add_left ..) above open_
    have entered := IsrSys.Completes.step (s := { s with totwork := s.totwork ||| mask }.goto (.enter mask))
      Place.noConfusion rfl scanned
    have copied : s.doisr screw =
        .ok ({ s with totwork := s.totwork ||| mask }.goto (.enter mask)) := by
      rw [IsrSys.doisr, place]
    apply (IsrSys.Completes.step (by rw [place]; nofun) copied entered).mono
    rintro ih ⟨r, mem, set, rfl⟩
    exact .inr (.inr ⟨r.line, set, (all r mem).listed⟩)

theorem delivery_pass_routed_last : ∃ s : IsrSys, s.place = .copied 0x28#32 ∧
    s.Completes true fun ih => ∃ r ∈ [⟨1, 3, false⟩, ⟨2, 5, true⟩],
      (0x28#32).getLsbD r.line = true ∧ ih = Registration.ih r := by
  have known : ∀ line < 32, (0x28#32).getLsbD line = true →
      ∃ r ∈ [(⟨1, 3, false⟩ : Registration), ⟨2, 5, true⟩], r.line = line := by
    decide
  have highest : ∀ line < 32, (0x28#32).getLsbD line = true → line ≤ 5 := by
    decide
  obtain ⟨intr, registered⟩ : ∃ intr, register true [⟨1, 3, false⟩, ⟨2, 5, true⟩] intrInit = .ok intr :=
    ⟨_, rfl⟩
  let s := { IsrSys.init (.mainOnly 7 5 64) with intr := intr, place := .copied 0x28#32 }
  refine ⟨s, rfl, (delivery_pass_iff true _ 0x28#32 ?_ s registered rfl).mpr ?_⟩
  · exact fun line set => known line (BitVec.lt_of_getLsbD set) set
  · intro _ r mem routed _ line set
    have top := highest line (BitVec.lt_of_getLsbD set) set
    simp only [List.mem_cons, List.not_mem_nil, or_false] at mem
    rcases mem with rfl | rfl
    · cases routed
    · exact top

/-- A routed device on line 5 and another on line 6: the pass trips the assertion, and the handler
for line 6 has not run. -/
theorem delivery_pass_trips : ∃ intr, register true [⟨1, 5, true⟩, ⟨2, 6, false⟩] intrInit = .ok intr ∧
    IsrSys.deliver true 16
      { IsrSys.init (.mainOnly 7 5 64) with intr := intr, place := .copied 0x60#32 } =
        .error (.halt "assert \"i < sizeof(isrcopy)*8\" FAILED\n") := by
  refine ⟨_, rfl, ?_⟩
  decide +kernel

end Rumprun.Hw
