import Rumprun.Core.Platform
import Rumprun.Lib.StepRuns

/-! # Opening and closing block devices on Xen, `rumphyper_bio.c`

What `blkfront_init` returns is an argument of the calls that may make it.

The count of a device should be the number of its descriptors. `devopen` returns 1 for a
device that is open, which its callers take for an error after the count went up; nothing
takes an open back that ends in `EROFS`; and `rumpuser_close` counts down from 0 as well. -/

namespace Rumprun.Xen
open Core StepRuns Function

def nblkdev : Nat := 10

def blkfdoff : Int := 64

def eio : Nat := 5

def enxio : Nat := 6

def ebadf : Nat := 9

def erofs : Nat := 30

/-! The flags of `rumpuser_open`, and the file type, from the interface of the rump kernel. -/

def rumpuserOpenWronly : Nat := 1

def rumpuserOpenRdwr : Nat := 2

def rumpuserOpenAccmode : Nat := 3

def rumpuserOpenBio : Nat := 16

def rumpuserFtBlk : Nat := 3

inductive BlkfrontMode where
  | rdonly
  | rdwr
  deriving DecidableEq, Repr

structure BlkfrontInfo where
  sectors : Nat
  sectorSize : Nat
  mode : BlkfrontMode
  deriving DecidableEq, Repr

/-- `struct blkdev`; a `struct blkfront_dev` is named by its address. -/
structure BlkDev where
  blkDev : Option Nat
  blkInfo : BlkfrontInfo
  blkOpen : Int
  blkVbd : Int
  deriving DecidableEq, Repr

/-- What `blkfront_init` returns and writes, if it finds the device. -/
abbrev InitAnswer := Option (Nat × BlkfrontInfo)

/-! ## Names of devices -/

inductive DevType where
  | sd
  | hd
  | xvd
  deriving DecidableEq, Repr

def xenblkMagic : List Char := ['X', 'E', 'N', 'B', 'L', 'K', '_']

/-- Which type of disk, and what follows. -/
def devType (name : List Char) : Option (DevType × List Char) :=
  if ['h', 'd'].isPrefixOf name then some (.hd, name.drop 2)
  else if ['s', 'd'].isPrefixOf name then some (.sd, name.drop 2)
  else if ['x', 'v', 'd'].isPrefixOf name then some (.xvd, name.drop 3)
  else none

/-- The vbd of a disk and a partition, by the type of the disk. -/
def constructVbd (disk part : Nat) : DevType → Int
  | .hd =>
    if disk < 2 then ((3 <<< 8) ||| (disk <<< 6) ||| part : Nat)
    else if disk < 4 then ((22 <<< 8) ||| ((disk - 2) <<< 6) ||| part : Nat)
    else -1
  | .sd =>
    if 16 < disk ∨ 16 < part then -1 else ((8 <<< 8) ||| (disk <<< 4) ||| part : Nat)
  | .xvd =>
    if disk < 16 then ((202 <<< 8) ||| (disk <<< 4) ||| part : Nat)
    else if 'z'.toNat - 'a'.toNat < disk then -1
    else ((1 <<< 28) ||| (disk <<< 8) ||| part : Nat)

def devname2vbd (name : List Char) : Int :=
  if ¬ xenblkMagic.isPrefixOf name then -1
  else
    match devType (name.drop xenblkMagic.length) with
    | none => -1
    | some (_, []) => -1
    | some (_, _ :: _ :: _ :: _) => -1
    | some (dt, c :: rest) =>
      let disk : Int := c.toNat - 'a'.toNat
      let part : Int :=
        match rest with
        | [] => 0
        | p :: _ => p.toNat - '0'.toNat
      if disk < 0 ∨ part < 0 ∨ 9 < part then -1 else constructVbd disk.toNat part.toNat dt

/-! ## The table -/

structure BlkDevs where
  blkdevs : Fin nblkdev → BlkDev
  shutdowns : Fin nblkdev → Nat

namespace BlkDevs

/-- After `rumprun_platform_rumpuser_init`. -/
def init : BlkDevs :=
  { blkdevs := fun _ =>
      { blkDev := none, blkInfo := ⟨0, 0, .rdonly⟩, blkOpen := 0, blkVbd := -1 }
    shutdowns := fun _ => 0 }

def set (s : BlkDevs) (num : Fin nblkdev) (bd : BlkDev) : BlkDevs :=
  { s with blkdevs := update s.blkdevs num bd }

def devname2num (s : BlkDevs) (name : List Char) : Option (Fin nblkdev) × BlkDevs :=
  let vbd := devname2vbd name
  if vbd = -1 then (none, s)
  else
    match (List.finRange nblkdev).find? fun i => vbd == (s.blkdevs i).blkVbd with
    | some i => (some i, s)
    | none =>
      match (List.finRange nblkdev).find? fun i => (s.blkdevs i).blkVbd == -1 with
      | some i => (some i, s.set i { s.blkdevs i with blkVbd := vbd })
      | none => (none, s)

/-- The assertion on `num` is the type of `num`. -/
def devopen (s : BlkDevs) (num : Fin nblkdev) (answer : InitAnswer) : Nat × BlkDevs :=
  let bd := s.blkdevs num
  if bd.blkOpen ≠ 0 then (1, s.set num { bd with blkOpen := bd.blkOpen + 1 })
  else
    match answer with
    | some (dev, info) => (0, s.set num { bd with blkDev := some dev, blkInfo := info, blkOpen := 1 })
    | none => (eio, s.set num { bd with blkDev := none })

/-- Does the mode ask for writing? -/
def writes (mode : Nat) : Prop :=
  mode &&& rumpuserOpenAccmode = rumpuserOpenWronly ∨ mode &&& rumpuserOpenAccmode = rumpuserOpenRdwr

instance (mode : Nat) : Decidable (writes mode) := inferInstanceAs (Decidable (_ ∨ _))

/-- The result, and the descriptor where it is 0. -/
def rumpuserOpen (s : BlkDevs) (name : List Char) (mode : Nat) (answer : InitAnswer) :
    Nat × Option Int × BlkDevs :=
  if mode &&& rumpuserOpenBio = 0 then (enxio, none, s)
  else
    match s.devname2num name with
    | (none, s) => (enxio, none, s)
    | (some num, s) =>
      let (rv, s) := s.devopen num answer
      if rv ≠ 0 then (rv, none, s)
      else if writes mode ∧ (s.blkdevs num).blkInfo.mode ≠ .rdwr then (erofs, none, s)
      else (0, some (blkfdoff + num), s)

def descriptor (fd : Int) : Option (Fin nblkdev) :=
  if inside : 0 ≤ fd - blkfdoff ∧ fd - blkfdoff + 1 ≤ nblkdev then
    some ⟨(fd - blkfdoff).toNat, by omega⟩
  else none

def rumpuserClose (s : BlkDevs) (fd : Int) : Except Stop (Nat × BlkDevs) :=
  match descriptor fd with
  | none => .ok (ebadf, s)
  | some rfd =>
    let bd := { s.blkdevs rfd with blkOpen := (s.blkdevs rfd).blkOpen - 1 }
    if bd.blkOpen = 0 then
      match bd.blkDev with
      | none => .error (.undefined "blkfront_shutdown of a null pointer")
      | some _ => .ok (0, { s.set rfd { bd with blkDev := none } with
          shutdowns := update s.shutdowns rfd (s.shutdowns rfd + 1) })
    else .ok (0, s.set rfd bd)

/-- The result, and size and type where it is 0. -/
def rumpuserGetfileinfo (s : BlkDevs) (name : List Char) (answer : InitAnswer) :
    Except Stop (Nat × Option (Nat × Nat) × BlkDevs) :=
  match s.devname2num name with
  | (none, s) => .ok (enxio, none, s)
  | (some num, s) =>
    let (rv, s) := s.devopen num answer
    if rv ≠ 0 then .ok (rv, none, s)
    else do
      let info := (s.blkdevs num).blkInfo
      let (_, s) ← s.rumpuserClose (num + blkfdoff)
      .ok (0, some (info.sectors * info.sectorSize % 2 ^ 64, rumpuserFtBlk), s)

end BlkDevs

inductive BlkCall where
  | open_ (name : List Char) (mode : Nat) (answer : InitAnswer)
  | getfileinfo (name : List Char) (answer : InitAnswer)
  | close (fd : Int)

/-- The table, with what the last call returned and the number of descriptors that are open: those
that `rumpuser_open` returned, without those that were closed since. -/
structure Counted where
  devs : BlkDevs
  returned : Nat
  count : Fin nblkdev → Nat

namespace Counted

def init : Counted := { devs := .init, returned := 0, count := fun _ => 0 }

def opened (count : Fin nblkdev → Nat) (fd : Int) : Fin nblkdev → Nat :=
  match BlkDevs.descriptor fd with
  | none => count
  | some num => update count num (count num + 1)

def closed (count : Fin nblkdev → Nat) (fd : Int) : Fin nblkdev → Nat :=
  match BlkDevs.descriptor fd with
  | none => count
  | some num => update count num (count num - 1)

def step (s : Counted) : BlkCall → Except Stop Counted
  | .open_ name mode answer =>
    match s.devs.rumpuserOpen name mode answer with
    | (rv, none, devs) => .ok { s with devs := devs, returned := rv }
    | (rv, some fd, devs) =>
      .ok { devs := devs, returned := rv, count := opened s.count fd }
  | .getfileinfo name answer => do
    let (rv, _, devs) ← s.devs.rumpuserGetfileinfo name answer
    .ok { s with devs := devs, returned := rv }
  | .close fd => do
    let (rv, devs) ← s.devs.rumpuserClose fd
    .ok { devs := devs, returned := rv, count := closed s.count fd }

/-- The calls after which the last descriptor of `d` is closed; that of `rumpuser_getfileinfo` is
its own. -/
def LastClosed (s : Counted) (d : Fin nblkdev) : BlkCall → Prop
  | .open_ _ _ _ => False
  | .getfileinfo name answer =>
    (s.devs.devname2num name).1 = some d ∧ s.count d = 0 ∧ answer ≠ none
  | .close fd => BlkDevs.descriptor fd = some d ∧ s.count d = 1

instance (s : Counted) (d : Fin nblkdev) : ∀ call, Decidable (s.LastClosed d call) := by
  intro event
  unfold LastClosed
  split <;> infer_instance

/-- What one call should do to the counts. -/
structure Contract (s : Counted) (call : BlkCall) (next : Counted) : Prop where
  counts : ∀ d, (next.devs.blkdevs d).blkOpen = next.count d
  reopens : ∀ name mode answer num, call = .open_ name mode answer →
    mode &&& rumpuserOpenBio ≠ 0 → (s.devs.devname2num name).1 = some num → 0 < s.count num →
    (BlkDevs.writes mode → (s.devs.blkdevs num).blkInfo.mode = .rdwr) → next.returned = 0
  fails : next.returned ≠ 0 → ∀ d, (next.devs.blkdevs d).blkOpen = (s.devs.blkdevs d).blkOpen
  shutdowns : ∀ d, next.devs.shutdowns d = s.devs.shutdowns d + if s.LastClosed d call then 1 else 0

/-- A device is opened, and its size asked for, only while no descriptor of it is open, and for
writing only where it can be written; and only what is open is closed. -/
def InTurn (s : Counted) : BlkCall → Prop
  | .open_ name mode answer => mode &&& rumpuserOpenBio ≠ 0 →
      ∀ num ∈ (s.devs.devname2num name).1, s.count num = 0 ∧
        ∀ found ∈ answer, BlkDevs.writes mode → found.2.mode = .rdwr
  | .getfileinfo name _ => ∀ num ∈ (s.devs.devname2num name).1, s.count num = 0
  | .close fd => ∀ num ∈ BlkDevs.descriptor fd, 0 < s.count num

end Counted

/-! ## The table keeps its counts while a name is looked up -/

namespace BlkDevs

/-- The tables differ in the vbds only. -/
structure SameDevs (s t : BlkDevs) : Prop where
  blkOpen : ∀ d, (t.blkdevs d).blkOpen = (s.blkdevs d).blkOpen
  blkDev : ∀ d, (t.blkdevs d).blkDev = (s.blkdevs d).blkDev
  blkInfo : ∀ d, (t.blkdevs d).blkInfo = (s.blkdevs d).blkInfo
  shutdowns : t.shutdowns = s.shutdowns

theorem sameDevs_refl (s : BlkDevs) : SameDevs s s := ⟨fun _ => rfl, fun _ => rfl, fun _ => rfl, rfl⟩

theorem sameDevs_set_vbd (s : BlkDevs) (i : Fin nblkdev) (vbd : Int) :
    SameDevs s (s.set i { s.blkdevs i with blkVbd := vbd }) := by
  constructor
  case shutdowns => rfl
  all_goals
    intro d
    by_cases same : d = i
    · simp [set, same]
    · simp [set, same]

theorem devname2num_same (s : BlkDevs) (name : List Char) : SameDevs s (s.devname2num name).2 := by
  simp only [devname2num]
  split
  · exact sameDevs_refl s
  split
  · exact sameDevs_refl s
  split
  · exact sameDevs_set_vbd s _ _
  · exact sameDevs_refl s

theorem descriptor_add (num : Fin nblkdev) : descriptor (blkfdoff + num) = some num := by
  have inside : 0 ≤ blkfdoff + (num : Int) - blkfdoff ∧
      blkfdoff + (num : Int) - blkfdoff + 1 ≤ nblkdev := by omega
  rw [descriptor, dif_pos inside]
  simp

end BlkDevs
namespace Counted
variable {s : Counted}
open BlkDevs
variable {devs : BlkDevs} {call : BlkCall} {num : Fin nblkdev} {name : List Char}
  {answer : InitAnswer} {fd : Int}

structure OpenInv (s : Counted) : Prop where
  counts : ∀ d, (s.devs.blkdevs d).blkOpen = s.count d
  attached : ∀ d, (s.devs.blkdevs d).blkDev ≠ none ↔ 0 < s.count d

theorem init_openInv : init.OpenInv := by
  constructor
  · intro d; rfl
  · intro d; simp [init, BlkDevs.init]

theorem OpenInv.set (inv : s.OpenInv) (same : SameDevs s.devs devs) (num : Fin nblkdev)
    (bd : BlkDev) (n : Nat) (counts : bd.blkOpen = n) (attached : bd.blkDev ≠ none ↔ 0 < n)
    (shutdowns : Fin nblkdev → Nat) (rv : Nat) :
    OpenInv
      { devs := { devs.set num bd with shutdowns := shutdowns }
        returned := rv
        count := update s.count num n } := by
  constructor
  · intro d
    by_cases is : d = num
    · simp [BlkDevs.set, is, counts]
    · simp [BlkDevs.set, is, same.blkOpen, inv.counts]
  · intro d
    by_cases is : d = num
    · simpa [BlkDevs.set, is] using attached
    · simpa [BlkDevs.set, is, same.blkDev] using inv.attached d

theorem OpenInv.same (inv : s.OpenInv) (same : SameDevs s.devs devs) (rv : Nat) :
    OpenInv { s with devs := devs, returned := rv } :=
  ⟨fun d => by rw [same.blkOpen]; exact inv.counts d,
    fun d => by rw [same.blkDev]; exact inv.attached d⟩

theorem OpenInv.fails (inv : s.OpenInv) (same : SameDevs s.devs devs) (rv : Nat)
    (none : ∀ d, ¬ s.LastClosed d call)
    (closed : ∀ name mode answer num, call = .open_ name mode answer →
      mode &&& rumpuserOpenBio ≠ 0 → (s.devs.devname2num name).1 = some num → s.count num = 0) :
    Contract s call { s with devs := devs, returned := rv } := by
  refine ⟨(inv.same same rv).counts, ?_, fun _ => same.blkOpen, ?_⟩
  · intro name mode answer num is bio named some
    exact absurd (closed name mode answer num is bio named) (ne_of_gt some)
  · intro d
    rw [same.shutdowns, if_neg (none d)]
    rfl

theorem devopen_open {s : BlkDevs} (some : (s.blkdevs num).blkOpen ≠ 0) (answer : InitAnswer) :
    s.devopen num answer =
      (1, s.set num { s.blkdevs num with blkOpen := (s.blkdevs num).blkOpen + 1 }) := by
  simp only [devopen, if_pos some]

theorem OpenInv.notFound (inv : s.OpenInv) (same : SameDevs s.devs devs) (zero : s.count num = 0) :
    devs.devopen num none = (eio, devs.set num { devs.blkdevs num with blkDev := none }) ∧
      SameDevs s.devs (devs.set num { devs.blkdevs num with blkDev := none }) := by
  have closed : (devs.blkdevs num).blkOpen = 0 := by rw [same.blkOpen, inv.counts, zero]; rfl
  have detached : (s.devs.blkdevs num).blkDev = none := by
    by_contra some
    exact absurd ((inv.attached num).mp some) (by omega)
  refine ⟨by simp only [devopen, closed, ne_eq, not_true, if_false], ?_⟩
  constructor
  case shutdowns => exact same.shutdowns
  all_goals
    intro d
    by_cases is : d = num
    · simp [BlkDevs.set, is, same.blkOpen, same.blkInfo, detached]
    · simp [BlkDevs.set, is, same.blkOpen, same.blkInfo, same.blkDev]

theorem OpenInv.found (inv : s.OpenInv) (same : SameDevs s.devs devs) (zero : s.count num = 0)
    (dev : Nat) (info : BlkfrontInfo) :
    devs.devopen num (some (dev, info)) = (0, devs.set num
      { devs.blkdevs num with blkDev := some dev, blkInfo := info, blkOpen := 1 }) := by
  have closed : (devs.blkdevs num).blkOpen = 0 := by rw [same.blkOpen, inv.counts, zero]; rfl
  simp only [devopen, closed, ne_eq, not_true, if_false]

/-! ## The three calls, in turn -/

theorem OpenInv.open_ (inv : s.OpenInv) {mode : Nat} (turn : s.InTurn (.open_ name mode answer)) :
    ∃ next, s.step (.open_ name mode answer) = .ok next ∧
      Contract s (.open_ name mode answer) next ∧ next.OpenInv := by
  have never : ∀ d, ¬ s.LastClosed d (.open_ name mode answer) := fun _ => id
  have closed : ∀ name' mode' answer' num, BlkCall.open_ name mode answer = .open_ name' mode' answer' →
      mode' &&& rumpuserOpenBio ≠ 0 → (s.devs.devname2num name').1 = some num → s.count num = 0 := by
    intro name' mode' answer' num is bio named
    cases is
    exact (turn bio num named).1
  -- Whatever is refused leaves the table alone.
  have refused : ∀ devs rv, SameDevs s.devs devs →
      s.step (.open_ name mode answer) = .ok { s with devs := devs, returned := rv } →
      ∃ next, s.step (.open_ name mode answer) = .ok next ∧
        Contract s (.open_ name mode answer) next ∧ next.OpenInv :=
    fun devs rv same ran => ⟨_, ran, inv.fails same rv never closed, inv.same same rv⟩
  by_cases bio : mode &&& rumpuserOpenBio = 0
  · exact refused s.devs enxio (sameDevs_refl s.devs) (by simp only [step, rumpuserOpen, if_pos bio])
  have same := s.devs.devname2num_same name
  cases named : s.devs.devname2num name with
  | mk found devs =>
    rw [named] at same
    cases found with
    | none =>
      exact refused devs enxio same (by simp only [step, rumpuserOpen, if_neg bio, named])
    | some num =>
      obtain ⟨zero, writable⟩ := turn bio num (by rw [named]; rfl)
      cases answer with
      | none =>
        obtain ⟨ran, still⟩ := inv.notFound same zero
        exact refused _ eio still (by
          simp only [step, rumpuserOpen, if_neg bio, named, ran]; rfl)
      | some pair =>
        obtain ⟨dev, info⟩ := pair
        have may : ¬ (writes mode ∧ info.mode ≠ .rdwr) :=
          fun both => both.2 (writable (dev, info) rfl both.1)
        let bd : BlkDev :=
          { devs.blkdevs num with blkDev := some dev, blkInfo := info, blkOpen := 1 }
        have after := inv.set same num bd 1 rfl (by simp [bd]) devs.shutdowns 0
        have ran : s.step (.open_ name mode (some (dev, info))) = .ok
            { devs := devs.set num bd, returned := 0
              count := update s.count num 1 } := by
          simp only [step, rumpuserOpen, if_neg bio, named, inv.found same zero dev info]
          simp [BlkDevs.set, may, opened, descriptor_add, zero, bd]
        refine ⟨_, ran, ⟨after.counts, fun _ _ _ _ _ _ _ _ _ => rfl, by simp, ?_⟩, after⟩
        intro d
        rw [if_neg (never d)]
        exact congrFun same.shutdowns d

theorem rumpuserClose_eq {s : BlkDevs} {n dev : Nat} (named : descriptor fd = some num)
    (counts : (s.blkdevs num).blkOpen = (n + 1 : Nat)) (attached : (s.blkdevs num).blkDev = some dev) :
    s.rumpuserClose fd = .ok (0,
      { s.set num { s.blkdevs num with
          blkOpen := n
          blkDev := if n = 0 then none else some dev } with
        shutdowns := if n = 0 then update s.shutdowns num (s.shutdowns num + 1)
          else s.shutdowns }) := by
  have less : (s.blkdevs num).blkOpen - 1 = n := by omega
  cases n with
  | zero => simp [rumpuserClose, named, less, attached, BlkDevs.set]
  | succ n =>
    have some : ¬ ((n + 1 : Nat) : Int) = 0 := by omega
    simp only [rumpuserClose, named, less, if_neg some, Nat.succ_ne_zero, if_false, ← attached]
    rfl

theorem OpenInv.close (inv : s.OpenInv) (turn : s.InTurn (.close fd)) :
    ∃ next, s.step (.close fd) = .ok next ∧ Contract s (.close fd) next ∧ next.OpenInv := by
  cases named : descriptor fd with
  | none =>
    have never : ∀ d, ¬ s.LastClosed d (.close fd) := by
      intro d last
      rw [LastClosed, named] at last
      cases last.1
    refine ⟨{ s with returned := ebadf }, ?_, ?_, inv.same (sameDevs_refl s.devs) ebadf⟩
    · simp only [step, rumpuserClose, closed, named]
      rfl
    · exact inv.fails (sameDevs_refl s.devs) ebadf never (by intro _ _ _ _ is; cases is)
  | some num =>
    obtain ⟨n, count⟩ := Nat.exists_eq_add_one.mpr (turn num named)
    obtain ⟨dev, attached⟩ := Option.ne_none_iff_exists'.mp ((inv.attached num).mpr (turn num named))
    have counts : (s.devs.blkdevs num).blkOpen = (n + 1 : Nat) := by rw [inv.counts, count]
    have ran := rumpuserClose_eq named counts attached
    have after := inv.set (sameDevs_refl s.devs) num
      { s.devs.blkdevs num with blkOpen := n, blkDev := if n = 0 then none else some dev } n rfl
      (by by_cases zero : n = 0 <;> simp [zero, Nat.pos_iff_ne_zero])
      (if n = 0 then update s.devs.shutdowns num (s.devs.shutdowns num + 1)
        else s.devs.shutdowns) 0
    refine ⟨_, ?_, ⟨after.counts, ?_, ?_, ?_⟩, after⟩
    · simp only [step, ran, ok_bind, closed, named, count, Nat.add_sub_cancel]
    · intro _ _ _ _ is
      cases is
    · intro error
      exact absurd rfl error
    · intro d
      by_cases is : d = num
      · by_cases zero : n = 0 <;> simp [LastClosed, named, is, zero, count]
      · have other : ¬ s.LastClosed d (.close fd) := by
          intro last
          rw [LastClosed, named] at last
          exact is (Option.some.inj last.1).symm
        by_cases zero : n = 0 <;> simp [other, zero, is]

theorem rumpuserClose_opened (devs : BlkDevs) (num : Fin nblkdev) (dev : Nat) (info : BlkfrontInfo) :
    BlkDevs.rumpuserClose (devs.set num
        { devs.blkdevs num with blkDev := some dev, blkInfo := info, blkOpen := 1 })
        (num + blkfdoff) =
      .ok (0, { devs.set num
          { devs.blkdevs num with blkDev := none, blkInfo := info, blkOpen := 0 } with
        shutdowns := update devs.shutdowns num (devs.shutdowns num + 1) }) := by
  have named : descriptor (num + blkfdoff) = some num := by
    rw [Int.add_comm]
    exact descriptor_add num
  have here : (devs.set num { devs.blkdevs num with
      blkDev := some dev, blkInfo := info, blkOpen := 1 }).blkdevs num =
      { devs.blkdevs num with blkDev := some dev, blkInfo := info, blkOpen := 1 } :=
    update_self ..
  have counts := congrArg BlkDev.blkOpen here
  have attached := congrArg BlkDev.blkDev here
  rw [rumpuserClose_eq (n := 0) named counts attached, here]
  simp [BlkDevs.set]

theorem OpenInv.getfileinfo (inv : s.OpenInv) (turn : s.InTurn (.getfileinfo name answer)) :
    ∃ next, s.step (.getfileinfo name answer) = .ok next ∧
      Contract s (.getfileinfo name answer) next ∧ next.OpenInv := by
  have same := s.devs.devname2num_same name
  cases named : s.devs.devname2num name with
  | mk found devs =>
    replace same : SameDevs s.devs devs := by rwa [named] at same
    -- Nothing is found under the name, or by `blkfront_init`.
    have refused : ∀ devs rv, SameDevs s.devs devs → (found = none ∨ answer = none) →
        s.step (.getfileinfo name answer) = .ok { s with devs := devs, returned := rv } →
        ∃ next, s.step (.getfileinfo name answer) = .ok next ∧
          Contract s (.getfileinfo name answer) next ∧ next.OpenInv := by
      intro devs rv same nothing ran
      refine ⟨_, ran, inv.fails same rv ?_ (by intro _ _ _ _ is; cases is), inv.same same rv⟩
      intro d last
      rw [LastClosed, named] at last
      rcases nothing with none | none
      · rw [none] at last; cases last.1
      · exact last.2.2 none
    cases found with
    | none =>
      exact refused devs enxio same (.inl rfl)
        (by simp only [step, rumpuserGetfileinfo, named]; rfl)
    | some num =>
      have zero := turn num (by rw [named]; rfl)
      cases answer with
      | none =>
        obtain ⟨ran, still⟩ := inv.notFound same zero
        exact refused _ eio still (.inr rfl) (by
          simp only [step, rumpuserGetfileinfo, named, ran]; rfl)
      | some pair =>
        obtain ⟨dev, info⟩ := pair
        let bd : BlkDev := { devs.blkdevs num with blkDev := none, blkInfo := info, blkOpen := 0 }
        let shutdowns := update devs.shutdowns num (devs.shutdowns num + 1)
        have ran : s.step (.getfileinfo name (some (dev, info))) = .ok
            { devs := { devs.set num bd with shutdowns := shutdowns }
              returned := 0
              count := update s.count num 0 } := by
          have still : update s.count num 0 = s.count := by
            rw [← zero, update_eq_self]
          simp only [step, rumpuserGetfileinfo, named, inv.found same zero dev info, ne_eq,
            not_true, if_false, rumpuserClose_opened, still]
          rfl
        have after := inv.set same num bd 0 rfl (by simp [bd]) shutdowns 0
        refine ⟨_, ran, ⟨after.counts, ?_, by simp, ?_⟩, after⟩
        · intro _ _ _ _ is
          cases is
        · intro d
          by_cases is : d = num
          · simp [LastClosed, named, is, zero, shutdowns, same.shutdowns]
          · have other : ¬ s.LastClosed d (.getfileinfo name (some (dev, info))) := by
              intro last
              rw [LastClosed, named] at last
              exact is (Option.some.inj last.1).symm
            simp [other, is, shutdowns, same.shutdowns]

/-! ## Calls out of turn -/

theorem OpenInv.loses (inv : s.OpenInv) {next : Counted} (late : ¬ s.InTurn call)
    (ran : s.step call = .ok next) : ¬ Contract s call next := by
  intro contract
  -- An open of an open device, by either call, leaves the count one too high.
  have reopened : ∀ (devs : BlkDevs) (num : Fin nblkdev), SameDevs s.devs devs → s.count num ≠ 0 →
      ∀ answer, devs.devopen num answer = (1, devs.set num { devs.blkdevs num with
        blkOpen := s.count num + 1 }) := by
    intro devs num same some answer
    have isOpen : (devs.blkdevs num).blkOpen ≠ 0 := by rw [same.blkOpen, inv.counts]; omega
    rw [devopen_open isOpen, same.blkOpen, inv.counts]
  cases call with
  | open_ name mode answer =>
    simp only [InTurn, Classical.not_imp, not_forall] at late
    obtain ⟨bio, num, isNum, late⟩ := late
    have same := s.devs.devname2num_same name
    cases named : s.devs.devname2num name with
    | mk found devs =>
      rw [named] at same isNum
      cases isNum
      by_cases zero : s.count num = 0
      · simp only [zero, true_and, not_forall] at late
        obtain ⟨⟨dev, info⟩, isAnswer, writing, readonly⟩ := late
        cases isAnswer
        simp only [step, rumpuserOpen, if_neg bio, named, inv.found same zero dev info] at ran
        simp [BlkDevs.set, writing, readonly] at ran
        have count := contract.counts num
        rw [← ran] at count
        simp [zero] at count
      · simp only [step, rumpuserOpen, if_neg bio, named, reopened devs num same zero] at ran
        have count := contract.counts num
        rw [← Except.ok.inj ran] at count
        simp [BlkDevs.set] at count
  | getfileinfo name answer =>
    simp only [InTurn, not_forall] at late
    obtain ⟨num, isNum, some⟩ := late
    have same := s.devs.devname2num_same name
    cases named : s.devs.devname2num name with
    | mk found devs =>
      rw [named] at same isNum
      cases isNum
      simp only [step, rumpuserGetfileinfo, named, reopened devs num same some] at ran
      have count := contract.counts num
      rw [← Except.ok.inj ran] at count
      simp [BlkDevs.set] at count
  | close fd =>
    simp only [InTurn, not_forall, not_lt, Nat.le_zero_eq] at late
    obtain ⟨num, named, zero⟩ := late
    have closed : (s.devs.blkdevs num).blkOpen = 0 := by rw [inv.counts, zero]; rfl
    have named : descriptor fd = some num := named
    simp only [step, rumpuserClose, named, closed] at ran
    have count := contract.counts num
    rw [← Except.ok.inj ran] at count
    simp [BlkDevs.set, Counted.closed, named, zero] at count

/-- The counts are right exactly in the runs in which each call is in turn. -/
theorem open_counts (calls : List BlkCall) :
    Each Contract step calls init ↔ Admissible InTurn step calls init := by
  have keeps : ∀ (s : Counted) (call : BlkCall), s.OpenInv → True → s.InTurn call →
      ∃ next, s.step call = .ok next ∧ Contract s call next ∧ next.OpenInv := by
    intro s call inv _ turn
    cases call with
    | open_ name mode answer => exact inv.open_ turn
    | getfileinfo name answer => exact inv.getfileinfo turn
    | close fd => exact inv.close turn
  have iff := each_iff OpenInv keeps (fun _ _ _ inv _ late ran => inv.loses late ran) calls init
    init_openInv (admissible_of_forall (fun _ _ => trivial) calls init)
  simpa only [true_and] using iff

def hda : List Char := xenblkMagic ++ ['h', 'd', 'a']

def dev0 : Fin nblkdev := ⟨0, by decide⟩

/-- The second open of a device fails and counts, and so does asking for its size; an open for
writing of a device that is read only fails and counts; a close of a closed device returns 0 and
counts down to -1. -/
theorem open_counts_astray :
    (∃ final ∈ (run step [.open_ hda rumpuserOpenBio (some (1, ⟨8, 512, .rdwr⟩)),
        .open_ hda rumpuserOpenBio none] init).toOption,
      final.returned = 1 ∧ (final.devs.blkdevs dev0).blkOpen = 2 ∧ final.count dev0 = 1) ∧
    (∃ final ∈ (run step [.open_ hda rumpuserOpenBio (some (1, ⟨8, 512, .rdwr⟩)),
        .getfileinfo hda none, .close 64] init).toOption,
      final.returned = 0 ∧ (final.devs.blkdevs dev0).blkOpen = 1 ∧ final.count dev0 = 0 ∧
        final.devs.shutdowns dev0 = 0) ∧
    (∃ final ∈ (run step [.open_ hda (rumpuserOpenBio ||| rumpuserOpenRdwr)
        (some (1, ⟨8, 512, .rdonly⟩))] init).toOption,
      final.returned = erofs ∧ (final.devs.blkdevs dev0).blkOpen = 1 ∧ final.count dev0 = 0) ∧
    ∃ final ∈ (run step [.close 64] init).toOption,
      final.returned = 0 ∧ (final.devs.blkdevs dev0).blkOpen = -1 ∧ final.count dev0 = 0 := by
  decide +kernel

end Counted
end Rumprun.Xen
