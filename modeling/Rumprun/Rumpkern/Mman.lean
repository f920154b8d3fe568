import Rumprun.Core.Platform
import Rumprun.Lib.MachineWord

/-! # Memory mappings, `lib/librumpkern_mman/sys_mman.c`

A mapping is one record in `mmc_list`, with the number of its pages that have not
been unmapped. Addresses and lengths are 64-bit words. What the memory holds is
left out; the allocators and the file are seen through what they return. -/

namespace Rumprun.Rumpkern
open Core MachineWord

def pageSize : Nat := 2 ^ 12

def protRead : BitVec 32 := 0x1

def mapFixed : BitVec 32 := 0x10

def mapAnon : BitVec 32 := 0x1000

inductive Errno where
  | eopnotsupp
  | enomem
  | einval
  | ebadf
  | enodev
  | file (error : Nat)
  deriving DecidableEq, Repr

def kassert (condition : Bool) (text : String) : Except Stop Unit :=
  if condition = true then .ok () else .error (.halt ("kernel diagnostic assertion " ++ text))

structure Chunk where
  mmStart : Nat
  mmSize : Nat
  mmPgsleft : Nat
  deriving DecidableEq, Repr

def Chunk.fresh (v roundedlen : Nat) : Chunk :=
  { mmStart := v, mmSize := roundedlen, mmPgsleft := roundedlen / pageSize }

def roundup2 (len : Nat) : Nat := add len (pageSize - 1) &&& compl (pageSize - 1)

/-- `mmapmem_alloc`: `record` says whether `kmem_alloc` has a record, and `v` is what
`rump_hypermalloc` returns. -/
def mmapmemAlloc (mmcList : List Chunk) (roundedlen v : Nat) (record : Bool) : List Chunk × Nat :=
  if record = false then (mmcList, 0)
  else (.fresh v roundedlen :: mmcList, v)

namespace Chunk

/-- The test in the loop of `mmapmem_free`. -/
def spans (addr roundedlen : Nat) (mc : Chunk) : Bool :=
  decide (mc.mmStart ≤ addr) && decide (add addr roundedlen ≤ add mc.mmStart mc.mmSize)

/-- The record after `npgs` of its pages have been given back, unless it has none left. -/
def less (mc : Chunk) (npgs : Nat) : List Chunk :=
  if mc.mmPgsleft - npgs ≠ 0 then [{ mc with mmPgsleft := mc.mmPgsleft - npgs }] else []

end Chunk

/-- The list after `mmapmem_free`, or `none` for `EINVAL`. -/
def mmapmemFree (addr roundedlen : Nat) : List Chunk → Except Stop (Option (List Chunk))
  | [] => .ok none
  | mc :: rest =>
    if mc.spans addr roundedlen = true then do
      let npgs := roundedlen / pageSize
      kassert (decide (npgs ≤ mc.mmPgsleft)) "\"npgs <= mc->mm_pgsleft\" failed"
      return some (mc.less npgs ++ rest)
    else do
      let freed ← mmapmemFree addr roundedlen rest
      return freed.map (mc :: ·)

structure MmapArgs where
  len : Nat
  prot : BitVec 32
  flags : BitVec 32
  fd : Int
  pos : Nat
  deriving DecidableEq

/-- What `fd_getfile` finds: whether it may be read, whether it is a vnode, and what `dofileread`
returns. -/
structure File where
  fread : Bool
  vnode : Bool
  read : Except Nat Nat
  deriving DecidableEq

/-- `sys_mmap` for a file, from `fd_getfile` on. -/
def mmapFile (mmcList : List Chunk) (roundedlen v : Nat) (fp : File) :
    Except Stop (List Chunk × Except Errno Nat) :=
  if fp.fread = false then .ok (mmcList, .error .ebadf)
  else if fp.vnode = false then .ok (mmcList, .error .enodev)
  else
    match fp.read with
    | .error error => do
      let freed ← mmapmemFree v roundedlen mmcList
      return (freed.getD mmcList, .error (.file error))
    | .ok cnt => do
      if cnt ≠ roundedlen then kassert (decide (cnt < roundedlen)) "\"cnt < roundedlen\" failed"
      return (mmcList, .ok v)

/-- The list afterwards, and the address or the error. -/
def sysMmap (mmcList : List Chunk) (uap : MmapArgs) (v : Nat) (record : Bool) (fp : Option File) :
    Except Stop (List Chunk × Except Errno Nat) :=
  if uap.fd ≠ -1 ∧ uap.prot ≠ protRead then .ok (mmcList, .error .eopnotsupp)
  else if uap.flags &&& mapFixed ≠ 0 then .ok (mmcList, .error .enomem)
  else if uap.pos &&& (pageSize - 1) ≠ 0 then .ok (mmcList, .error .einval)
  else
    let roundedlen := roundup2 uap.len
    let (mmcList, v) := mmapmemAlloc mmcList roundedlen v record
    if v = 0 then .ok (mmcList, .error .enomem)
    else if uap.flags &&& mapAnon ≠ 0 then .ok (mmcList, .ok v)
    else
      match fp with
      | none => .ok (mmcList, .error .ebadf)
      | some fp => mmapFile mmcList roundedlen v fp

/-- The list afterwards, and the error if there is one. -/
def sysMunmap (mmcList : List Chunk) (addr len : Nat) : Except Stop (List Chunk × Option Errno) :=
  if addr &&& (pageSize - 1) ≠ 0 then .ok (mmcList, some .einval)
  else do
    match ← mmapmemFree addr (roundup2 len) mmcList with
    | none => return (mmcList, some .einval)
    | some mmcList => return (mmcList, none)

/-! ## Runs -/

def pages (start size : Nat) : Finset Nat :=
  (Finset.range (size / pageSize)).image fun i => start + i * pageSize

def Chunk.pages (mc : Chunk) : Finset Nat := Rumpkern.pages mc.mmStart mc.mmSize

/-- `mapped` has the pages that a call of `sys_mmap` has mapped and no successful call of
`sys_munmap` has covered since. -/
structure MmSys where
  mmcList : List Chunk
  mapped : Finset Nat

inductive MmEvent where
  | mmap (uap : MmapArgs) (v : Nat) (record : Bool) (fp : Option File)
  | munmap (addr len : Nat)
  deriving DecidableEq

namespace MmSys

def init : MmSys := { mmcList := [], mapped := ∅ }

def step (s : MmSys) : MmEvent → Except Stop MmSys
  | .mmap uap v record fp => do
    let (mmcList, result) ← sysMmap s.mmcList uap v record fp
    match result with
    | .ok v => return { mmcList := mmcList, mapped := s.mapped ∪ pages v (roundup2 uap.len) }
    | .error _ => return { s with mmcList := mmcList }
  | .munmap addr len => do
    let (mmcList, error) ← sysMunmap s.mmcList addr len
    match error with
    | none => return { mmcList := mmcList, mapped := s.mapped \ pages addr (roundup2 len) }
    | some _ => return { s with mmcList := mmcList }

def Apart (v size : Nat) (mc : Chunk) : Prop :=
  v + size ≤ mc.mmStart ∨ mc.mmStart + mc.mmSize ≤ v ∨ size = 0 ∨ mc.mmSize = 0

instance (v size : Nat) (mc : Chunk) : Decidable (Apart v size mc) :=
  inferInstanceAs (Decidable (_ ∨ _ ∨ _ ∨ _))

/-- A call of `sys_mmap` succeeds, with pages that are no others' memory; a call of `sys_munmap`
has any two words. -/
def Admits (s : MmSys) : MmEvent → Prop
  | .mmap uap v record fp =>
    (sysMmap s.mmcList uap v record fp).toOption.any (fun result => result.2.isOk) = true ∧
      pageSize ∣ v ∧ v + roundup2 uap.len < 2 ^ 64 ∧
      ∀ mc ∈ s.mmcList, Apart v (roundup2 uap.len) mc
  | .munmap addr len => addr < 2 ^ 64 ∧ len < 2 ^ 64

instance decidableAdmits (s : MmSys) : ∀ event, Decidable (s.Admits event) := by
  intro event
  unfold Admits
  split <;> infer_instance

end MmSys
end Rumprun.Rumpkern
