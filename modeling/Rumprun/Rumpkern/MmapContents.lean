import Rumprun.Rumpkern.PartialMunmap

/-! # What `sys_mmap` leaves behind

The exits for a file that is not there, cannot be read or is no vnode come after the
mapping has been recorded and leave it, and the rounding of the length wraps around in
the last page of the address space. -/

namespace Rumprun.Rumpkern
open Core MachineWord Chunk

structure MmapState where
  mmcList : List Chunk
  /-- The blocks of `rump_hypermalloc`, each with its size. -/
  blocks : List (Nat × Nat)
  byte : Nat → Nat

/-- An open file: what `dofileread` copies from the position on, the error it returns, and what the
file has there. -/
structure OpenFile where
  fread : Bool
  vnode : Bool
  copied : List Nat
  error : Option Nat
  content : List Nat
  deriving DecidableEq

/-- The file as the model without contents has it. -/
def OpenFile.file (file : OpenFile) : File :=
  { fread := file.fread
    vnode := file.vnode
    read := match file.error with
      | some error => .error error
      | none => .ok file.copied.length }

def memcpy (byte : Nat → Nat) (v : Nat) (bytes : List Nat) (a : Nat) : Nat :=
  if v ≤ a ∧ a < v + bytes.length then bytes.getD (a - v) 0 else byte a

def memset (byte : Nat → Nat) (v c n : Nat) (a : Nat) : Nat :=
  if v ≤ a ∧ a < v + n then c else byte a

namespace MmapState

def mmapmemAlloc (s : MmapState) (roundedlen v : Nat) (record : Bool) : MmapState × Nat :=
  let (mmcList, start) := Rumpkern.mmapmemAlloc s.mmcList roundedlen v record
  ({ s with
    mmcList := mmcList
    blocks := if record = true ∧ v ≠ 0 then (v, roundedlen) :: s.blocks else s.blocks }, start)

/-- The block of a record that has no pages left is freed with it. -/
def mmapmemFree (s : MmapState) (addr roundedlen : Nat) : Except Stop MmapState := do
  match ← Rumpkern.mmapmemFree addr roundedlen s.mmcList with
  | none => return s
  | some mmcList =>
    let freed := s.mmcList.find? fun mc =>
      mc.spans addr roundedlen && (mc.less (roundedlen / pageSize)).isEmpty
    return { s with
      mmcList := mmcList
      blocks := match freed with
        | none => s.blocks
        | some mc => s.blocks.erase (mc.mmStart, mc.mmSize) }

def mmapFile (s : MmapState) (roundedlen v : Nat) (fp : OpenFile) :
    Except Stop (MmapState × Except Errno Nat) :=
  if fp.fread = false then .ok (s, .error .ebadf)
  else if fp.vnode = false then .ok (s, .error .enodev)
  else
    let s := { s with byte := memcpy s.byte v fp.copied }
    let cnt := fp.copied.length
    match fp.error with
    | some error => do
      let s ← s.mmapmemFree v roundedlen
      return (s, .error (.file error))
    | none =>
      if cnt ≠ roundedlen then do
        kassert (decide (cnt < roundedlen)) "\"cnt < roundedlen\" failed"
        return ({ s with byte := memset s.byte (v + cnt) 0 (roundedlen - cnt) }, .ok v)
      else .ok (s, .ok v)

def sysMmap (s : MmapState) (uap : MmapArgs) (v : Nat) (record : Bool) (fp : Option OpenFile) :
    Except Stop (MmapState × Except Errno Nat) :=
  if uap.fd ≠ -1 ∧ uap.prot ≠ protRead then .ok (s, .error .eopnotsupp)
  else if uap.flags &&& mapFixed ≠ 0 then .ok (s, .error .enomem)
  else if uap.pos &&& (pageSize - 1) ≠ 0 then .ok (s, .error .einval)
  else
    let roundedlen := roundup2 uap.len
    let (s, v) := s.mmapmemAlloc roundedlen v record
    if v = 0 then .ok (s, .error .enomem)
    else if uap.flags &&& mapAnon ≠ 0 then
      .ok ({ s with byte := memset s.byte v 0 roundedlen }, .ok v)
    else
      match fp with
      | none => .ok (s, .error .ebadf)
      | some fp => s.mmapFile roundedlen v fp

/-- What the model without contents has of a result. -/
def listOf (done : MmapState × Except Errno Nat) : List Chunk × Except Errno Nat :=
  (done.1.mmcList, done.2)

theorem mmapFile_mmcList (s : MmapState) (roundedlen v : Nat) (fp : OpenFile) :
    (s.mmapFile roundedlen v fp).map listOf = Rumpkern.mmapFile s.mmcList roundedlen v fp.file := by
  unfold mmapFile Rumpkern.mmapFile OpenFile.file
  dsimp only
  split
  · rfl
  split
  · rfl
  cases fp.error with
  | some error =>
    dsimp only
    unfold mmapmemFree
    cases Rumpkern.mmapmemFree v roundedlen s.mmcList with
    | error stop => rfl
    | ok freed => cases freed <;> rfl
  | none =>
    dsimp only
    split
    · unfold kassert
      split <;> rfl
    · rfl

theorem sysMmap_mmcList (s : MmapState) (uap : MmapArgs) (v : Nat) (record : Bool)
    (fp : Option OpenFile) :
    (s.sysMmap uap v record fp).map listOf =
      Rumpkern.sysMmap s.mmcList uap v record (fp.map OpenFile.file) := by
  unfold sysMmap Rumpkern.sysMmap mmapmemAlloc
  dsimp only
  split
  · rfl
  split
  · rfl
  split
  · rfl
  split
  · rfl
  split
  · rfl
  cases fp with
  | none => rfl
  | some file => exact mmapFile_mmcList ..

end MmapState

/-! ## All or nothing -/

def wholePages (len : Nat) : Nat := (len + (pageSize - 1)) / pageSize * pageSize

/-- What the memory of a mapping is to hold. -/
def MmapArgs.holds (uap : MmapArgs) (fp : Option OpenFile) (i : Nat) : Nat :=
  if uap.flags &&& mapAnon ≠ 0 then 0 else ((fp.map OpenFile.content).getD []).getD i 0

/-- `rump_hypermalloc`, which may sleep, returns new memory, and `dofileread` copies what the file has,
as much as there is room for. -/
structure Services (s : MmapState) (uap : MmapArgs) (v : Nat) (fp : Option OpenFile) : Prop where
  found : v ≠ 0
  fresh : ∀ block ∈ s.blocks, v + roundup2 uap.len ≤ block.1 ∨ block.1 + block.2 ≤ v
  read : ∀ file, fp = some file → file.error = none → file.copied = file.content.take (roundup2 uap.len)
  room : ∀ file, fp = some file → file.copied.length ≤ roundup2 uap.len

/-- A new record of the right size for memory with the right contents, or everything as it was. -/
def AllOrNothing (s : MmapState) (uap : MmapArgs) (fp : Option OpenFile) (next : MmapState) :
    Except Errno Nat → Prop
  | .ok v => next.mmcList = .fresh v (wholePages uap.len) :: s.mmcList ∧
      next.blocks = (v, wholePages uap.len) :: s.blocks ∧
      ∀ i < wholePages uap.len, next.byte (v + i) = uap.holds fp i
  | .error _ => next.mmcList = s.mmcList ∧ next.blocks = s.blocks ∧
      ∀ block ∈ s.blocks, ∀ i < block.2, next.byte (block.1 + i) = s.byte (block.1 + i)

/-- The call gets as far as `mmapmem_alloc`, and that has a record. -/
def MmapArgs.Allocates (uap : MmapArgs) (record : Bool) : Prop :=
  ¬(uap.fd ≠ -1 ∧ uap.prot ≠ protRead) ∧ uap.flags &&& mapFixed = 0 ∧
    uap.pos &&& (pageSize - 1) = 0 ∧ record = true

def OpenFile.Readable (file : OpenFile) : Prop := file.fread = true ∧ file.vnode = true

/-- A file is open, can be read and is a vnode; the rounding of the length does not wrap around in a
call that succeeds. -/
def MmapArgs.Good (uap : MmapArgs) (fp : Option OpenFile) : Prop :=
  if uap.flags &&& mapAnon ≠ 0 then uap.len + (pageSize - 1) < 2 ^ 64
  else ∃ file, fp = some file ∧ file.Readable ∧ (file.error = none → uap.len + (pageSize - 1) < 2 ^ 64)

theorem roundup2_eq_wholePages {len : Nat} (word : len < 2 ^ 64) :
    roundup2 len = wholePages len ↔ len + (pageSize - 1) < 2 ^ 64 := by
  have size : pageSize = 4096 := rfl
  rw [roundup2_eq, wholePages, add, size]
  omega

namespace MmapState
variable {s : MmapState} {uap : MmapArgs} {v : Nat} {record : Bool} {fp : Option OpenFile}

def mapped (s : MmapState) (v roundedlen : Nat) : MmapState :=
  { s with mmcList := .fresh v roundedlen :: s.mmcList, blocks := (v, roundedlen) :: s.blocks }

theorem mmapmemFree_mapped (s : MmapState) (v roundedlen : Nat) :
    (s.mapped v roundedlen).mmapmemFree v roundedlen = .ok s := by
  have spans : (fresh v roundedlen).spans v roundedlen = true := by
    simp [fresh, spans]
  have less : (fresh v roundedlen).less (roundedlen / pageSize) = [] := by
    simp [fresh, less]
  have freed : Rumpkern.mmapmemFree v roundedlen (.fresh v roundedlen :: s.mmcList) =
      .ok (some s.mmcList) := by
    rw [Rumpkern.mmapmemFree, if_pos spans]
    dsimp only
    rw [less]
    simp [fresh, kassert]
  simp [mmapmemFree, mapped, freed, spans, less]
  simp [fresh]
  rfl

theorem sysMmap_early (s : MmapState) (fp : Option OpenFile) (early : ¬uap.Allocates record) :
    ∃ error, s.sysMmap uap v record fp = .ok (s, .error error) := by
  unfold sysMmap
  split
  · exact ⟨_, rfl⟩
  split
  · exact ⟨_, rfl⟩
  split
  · exact ⟨_, rfl⟩
  next access fixed aligned =>
  have none : record = false := by
    cases record with
    | false => rfl
    | true => exact absurd ⟨access, not_not.mp fixed, not_not.mp aligned, rfl⟩ early
  subst none
  exact ⟨.enomem, rfl⟩

theorem sysMmap_late (found : v ≠ 0) (late : uap.Allocates record) :
    s.sysMmap uap v record fp =
      if uap.flags &&& mapAnon ≠ 0 then
        .ok ({ s.mapped v (roundup2 uap.len) with byte := memset s.byte v 0 (roundup2 uap.len) }, .ok v)
      else
        match fp with
        | none => .ok (s.mapped v (roundup2 uap.len), .error .ebadf)
        | some fp => (s.mapped v (roundup2 uap.len)).mmapFile (roundup2 uap.len) v fp := by
  obtain ⟨access, fixed, aligned, rfl⟩ := late
  have allocated : s.mmapmemAlloc (roundup2 uap.len) v true = (s.mapped v (roundup2 uap.len), v) := by
    simp [mmapmemAlloc, Rumpkern.mmapmemAlloc, mapped, found]
  unfold sysMmap
  rw [if_neg access, if_neg (not_not.mpr fixed), if_neg (not_not.mpr aligned)]
  dsimp only
  rw [allocated]
  dsimp only
  rw [if_neg found]
  rfl

end MmapState

theorem allOrNothing_mapped {s : MmapState} {uap : MmapArgs} {fp : Option OpenFile} {v : Nat}
    {byte : Nat → Nat} (word : uap.len < 2 ^ 64)
    (holds : ∀ i < roundup2 uap.len, byte (v + i) = uap.holds fp i) :
    AllOrNothing s uap fp { s.mapped v (roundup2 uap.len) with byte := byte } (.ok v) ↔
      uap.len + (pageSize - 1) < 2 ^ 64 := by
  rw [← roundup2_eq_wholePages word]
  constructor
  · rintro ⟨records, -, -⟩
    exact congrArg mmSize (List.cons.inj records).1
  · intro whole
    rw [AllOrNothing, ← whole]
    exact ⟨rfl, rfl, holds⟩

theorem not_allOrNothing_mapped {s : MmapState} {uap : MmapArgs} {fp : Option OpenFile} {v : Nat}
    {error : Errno} (n : Nat) : ¬AllOrNothing s uap fp (s.mapped v n) (.error error) := by
  rintro ⟨records, -, -⟩
  exact List.cons_ne_self _ _ records

theorem memset_memcpy (byte : Nat → Nat) (v n i : Nat) (content : List Nat) (lt : i < n) :
    memset (memcpy byte v (content.take n)) (v + (content.take n).length) 0
      (n - (content.take n).length) (v + i) = content.getD i 0 := by
  have size : (content.take n).length ≤ n := List.length_take_le ..
  unfold memset memcpy
  by_cases inside : i < (content.take n).length
  · rw [if_neg (by omega), if_pos (by omega), Nat.add_sub_cancel_left]
    simp [List.getD_eq_getElem?_getD, lt]
  · rw [if_pos (by omega)]
    have short : content.length ≤ i := by
      rw [List.length_take] at inside
      omega
    simp [List.getD_eq_getElem?_getD, List.getElem?_eq_none short]

/-- A call of `sys_mmap` is all or nothing exactly when it is good, or does not get to allocate. -/
theorem mmap_all_or_nothing_iff (s : MmapState) (uap : MmapArgs) (v : Nat) (record : Bool)
    (fp : Option OpenFile) (word : uap.len < 2 ^ 64) (services : Services s uap v fp) :
    (∃ next result, s.sysMmap uap v record fp = .ok (next, result) ∧
      AllOrNothing s uap fp next result) ↔ (uap.Allocates record → uap.Good fp) := by
  by_cases late : uap.Allocates record
  swap
  · obtain ⟨error, returned⟩ := s.sysMmap_early fp late
    exact iff_of_true ⟨s, _, returned, rfl, rfl, fun _ _ _ _ => rfl⟩ fun is => absurd is late
  rw [MmapState.sysMmap_late services.found late, imp_iff_right late, MmapArgs.Good]
  have returns : ∀ {next : MmapState} {result : Except Errno Nat} {P : MmapState → Except Errno Nat → Prop},
      (∃ next' result', (Except.ok (next, result) : Except Stop _) = .ok (next', result') ∧
        P next' result') ↔ P next result := by
    intro next result P
    constructor
    · rintro ⟨_, _, is, holds⟩
      cases is
      exact holds
    · exact fun holds => ⟨_, _, rfl, holds⟩
  by_cases anon : uap.flags &&& mapAnon ≠ 0
  · rw [if_pos anon, if_pos anon, returns]
    apply allOrNothing_mapped word
    intro i lt
    rw [MmapArgs.holds, if_pos anon]
    exact if_pos ⟨Nat.le_add_right .., by omega⟩
  rw [if_neg anon, if_neg anon]
  cases fp with
  | none =>
    rw [returns]
    exact iff_of_false (not_allOrNothing_mapped _) nofun
  | some file =>
    have good : (∃ other, some file = some other ∧ other.Readable ∧
        (other.error = none → uap.len + (pageSize - 1) < 2 ^ 64)) ↔
        file.Readable ∧ (file.error = none → uap.len + (pageSize - 1) < 2 ^ 64) := by
      simp
    rw [good]
    by_cases readable : file.Readable
    swap
    · refine iff_of_false ?_ fun is => readable is.1
      dsimp only
      unfold MmapState.mmapFile
      split
      · rw [returns]
        exact not_allOrNothing_mapped _
      split
      · rw [returns]
        exact not_allOrNothing_mapped _
      next noread novnode =>
      exact absurd ⟨by simpa using noread, by simpa using novnode⟩ readable
    rw [and_iff_right readable]
    dsimp only
    unfold MmapState.mmapFile
    rw [if_neg (by rw [readable.1]; nofun), if_neg (by rw [readable.2]; nofun)]
    dsimp only
    cases error : file.error with
    | some error =>
      have freed := MmapState.mmapmemFree_mapped
        { s with byte := memcpy s.byte v file.copied } v (roundup2 uap.len)
      dsimp only [MmapState.mapped] at freed ⊢
      rw [freed]
      refine iff_of_true ⟨_, _, rfl, rfl, rfl, ?_⟩ nofun
      intro block mem i lt
      apply if_neg
      have room := services.room file rfl
      rcases services.fresh block mem with below | above
      · omega
      · omega
    | none =>
      rw [imp_iff_right rfl]
      have copied := services.read file rfl error
      have holds : ∀ i, uap.holds (some file) i = file.content.getD i 0 := by
        intro i
        rw [MmapArgs.holds, if_neg anon]
        rfl
      by_cases full : file.copied.length = roundup2 uap.len
      · rw [if_neg (not_not.mpr full), returns]
        apply allOrNothing_mapped word
        intro i lt
        have same := memset_memcpy s.byte v (roundup2 uap.len) i file.content lt
        rw [← copied, full, memset, if_neg (by omega)] at same
        exact same.trans (holds i).symm
      · have room := services.room file rfl
        rw [if_pos full, kassert, if_pos (decide_eq_true (by omega)), ok_bind]
        change (∃ next result, Except.ok _ = _ ∧ _) ↔ _
        rw [returns]
        apply allOrNothing_mapped word
        intro i lt
        have same := memset_memcpy s.byte v (roundup2 uap.len) i file.content lt
        rw [← copied] at same
        exact same.trans (holds i).symm

theorem mmap_all_or_nothing_short_file :
    ∃ next result, MmapState.sysMmap ⟨[], [], fun _ => 7⟩ ⟨3, protRead, 0, 5, 0⟩ 0x10000 true
        (some ⟨true, true, [1, 2, 3], none, [1, 2, 3]⟩) = .ok (next, result) ∧
      AllOrNothing ⟨[], [], fun _ => 7⟩ ⟨3, protRead, 0, 5, 0⟩
        (some ⟨true, true, [1, 2, 3], none, [1, 2, 3]⟩) next result := by
  refine (mmap_all_or_nothing_iff ⟨[], [], fun _ => 7⟩ ⟨3, protRead, 0, 5, 0⟩ 0x10000 true
    (some ⟨true, true, [1, 2, 3], none, [1, 2, 3]⟩) (by decide) ⟨by decide, nofun, ?_, ?_⟩).mpr ?_
  · rintro file is -
    cases is
    decide
  · intro file is
    cases is
    decide
  · intro _
    rw [MmapArgs.Good, if_neg (by decide)]
    exact ⟨_, rfl, ⟨rfl, rfl⟩, fun _ => by decide⟩

/-- A file that is not open: the call fails with `EBADF`, and the record and the memory stay. A
length in the last page of the address space: the call succeeds with a mapping of no bytes. -/
theorem mmap_leaves_record_or_wraps :
    (MmapState.sysMmap ⟨[], [], fun _ => 7⟩ ⟨4096, protRead, 0, 5, 0⟩ 0x10000 true none).toOption.map
        (fun done => (done.1.mmcList, done.1.blocks, done.2.toOption)) =
      some ([⟨0x10000, 4096, 1⟩], [(0x10000, 4096)], none) ∧
    (MmapState.sysMmap ⟨[], [], fun _ => 7⟩ ⟨2 ^ 64 - 1, protRead, mapAnon, -1, 0⟩ 0x10000 true
        none).toOption.map (fun done => (done.1.mmcList, done.1.blocks, done.2.toOption)) =
      some ([⟨0x10000, 0, 0⟩], [(0x10000, 0)], some 0x10000) := by
  decide +kernel

end Rumprun.Rumpkern
