import Aios.Ipc.Shmem
import Aios.Lib.Runs
import Aios.Mm.Asid
import Aios.Mm.Buddy

/-!
User address spaces: `kernel/src/mm/pgtable.rs` and `kernel/src/mm/uspace.rs`.

A page table is a page of 512 entries of eight bytes. Its bytes are reached through the direct map,
so the memory is the one at the kernel's virtual addresses. Tables are added to the tree when a
mapping first needs them. A failed assertion is `none`.
-/

namespace Aios.Ipc.VmFlags

def user : VmFlags := 8

end Aios.Ipc.VmFlags

namespace Aios.Mm

open Aios.Lib Aios.Ipc

abbrev PageTableEntry := BitVec 64

namespace PageTableEntry

def valid : PageTableEntry := 1 <<< 0
def table : PageTableEntry := 1 <<< 1
def attrIdxShift : ℕ := 2
def apUser : PageTableEntry := 1 <<< 6
def apRo : PageTableEntry := 1 <<< 7
def shInner : PageTableEntry := 0b11 <<< 8
def af : PageTableEntry := 1 <<< 10
def ng : PageTableEntry := 1 <<< 11
def pxn : PageTableEntry := 1 <<< 53
def uxn : PageTableEntry := 1 <<< 54

def physMask : PageTableEntry := 0x0000FFFFFFFFF000

def newTable (nextTablePhys : ℕ) : PageTableEntry :=
  (BitVec.ofNat 64 nextTablePhys &&& physMask) ||| table ||| valid

/-- `new_page`; `none` is the failed assertion that no page is writable and executable. -/
def newPage (framePhys : ℕ) (mairIdx : BitVec 64) (flags : VmFlags) : Option PageTableEntry :=
  if flags.contains (.write ||| .execute) then none
  else
    let pte := (BitVec.ofNat 64 framePhys &&& physMask) ||| valid ||| table ||| af ||| shInner |||
      ((mairIdx &&& 0x7) <<< attrIdxShift)
    let pte := if !flags.contains .write then pte ||| apRo else pte
    let pte :=
      if !flags.contains .execute then pte ||| (pxn ||| uxn)
      else if !flags.contains .user then pte ||| uxn
      else pte
    let pte := if flags.contains .user then pte ||| apUser ||| ng else pte
    some pte

def isValid (e : PageTableEntry) : Bool := e &&& valid != 0

def isTable (e : PageTableEntry) : Bool := e &&& (valid ||| table) == (valid ||| table)

def isWritable (e : PageTableEntry) : Bool := e &&& apRo == 0

/-- `is_executable`: at EL1. -/
def isExecutable (e : PageTableEntry) : Bool := e &&& pxn == 0

def isUserExecutable (e : PageTableEntry) : Bool := e &&& uxn == 0

/-- `phys_addr`, and `table_addr`. -/
def physAddr (e : PageTableEntry) : ℕ := (e &&& physMask).toNat

end PageTableEntry

open PageTableEntry

def l0Index (va : ℕ) : ℕ := (va >>> 39) &&& 0x1FF
def l1Index (va : ℕ) : ℕ := (va >>> 30) &&& 0x1FF
def l2Index (va : ℕ) : ℕ := (va >>> 21) &&& 0x1FF
def l3Index (va : ℕ) : ℕ := (va >>> 12) &&& 0x1FF

def indices (va : ℕ) : List ℕ := [l0Index va, l1Index va, l2Index va, l3Index va]

def directMapBase : ℕ := 0xFFFF000100000000

@[irreducible] def physToDmap (pa : ℕ) : ℕ := (directMapBase + pa) % 2 ^ 64

@[irreducible] def entry (m : Mem) (tablePhys index : ℕ) : PageTableEntry :=
  BitVec.ofNat 64 (m.readLe (physToDmap tablePhys + index * 8) 8)

@[irreducible] def setEntry (m : Mem) (tablePhys index : ℕ) (e : PageTableEntry) : Mem :=
  m.writeLe (physToDmap tablePhys + index * 8) 8 e.toNat

def walk (m : Mem) (tablePhys : ℕ) : List ℕ → Option PageTableEntry
  | [] => none
  | [i] =>
    let e := entry m tablePhys i
    if e.isValid then some e else none
  | i :: j :: path =>
    let e := entry m tablePhys i
    if e.isTable then walk m e.physAddr (j :: path)
    else if e.isValid then some e
    else none

def translate (m : Mem) (pgdPhys va : ℕ) : Option PageTableEntry := walk m pgdPhys (indices va)

/-- The memory, the pages that `alloc_page` will answer and those it has answered. -/
structure Frames where
  mem : Mem
  supply : List ℕ
  taken : List ℕ

namespace Frames

/-- `alloc_page().expect(..)` and zeroing the page. -/
def zeroedPage (f : Frames) : Option (ℕ × Frames) :=
  match f.supply with
  | [] => none
  | page :: supply =>
    some (page, ⟨f.mem.fill (physToDmap page) pageSize 0, supply, page :: f.taken⟩)

def ensureTableDmap (f : Frames) (tablePhys index : ℕ) : Option (ℕ × Frames) :=
  let raw := entry f.mem tablePhys index
  if raw ≠ 0 then
    if raw.isTable then some (raw.physAddr, f) else none
  else do
    let (page, f) ← f.zeroedPage
    some (page, { f with mem := setEntry f.mem tablePhys index (newTable page) })

def mapPageDmap (f : Frames) (pgdPhys va pa : ℕ) (mairIdx : BitVec 64) (flags : VmFlags) :
    Option Frames := do
  let (l1, f) ← f.ensureTableDmap pgdPhys (l0Index va)
  let (l2, f) ← f.ensureTableDmap l1 (l1Index va)
  let (l3, f) ← f.ensureTableDmap l2 (l2Index va)
  let pte ← newPage pa mairIdx flags
  some { f with mem := setEntry f.mem l3 (l3Index va) pte }

end Frames

structure MemoryStats where
  pagesAllocated : ℕ
  peakPages : ℕ
  deriving DecidableEq, Repr

namespace MemoryStats

def new : MemoryStats := ⟨0, 0⟩

def trackAlloc (s : MemoryStats) : MemoryStats :=
  let n := s.pagesAllocated + 1
  ⟨n, if n > s.peakPages then n else s.peakPages⟩

end MemoryStats

structure UserAddressSpace where
  pgdPhys : ℕ
  asid : Asid
  stats : MemoryStats
  deriving DecidableEq, Repr

def mairNormalWbIdx : BitVec 64 := 3

/-- A call of `map_user_page` that went through. -/
structure Mapping where
  space : ℕ
  va : ℕ
  pa : ℕ
  flags : VmFlags

namespace Uspace

/-- The address spaces that exist, and the calls of `map_user_page` so far, the last one first. -/
structure Sys where
  frames : Frames
  asids : AsidAllocator
  /-- How often all TLB entries were dropped. -/
  flushes : ℕ
  spaces : List UserAddressSpace
  log : List Mapping

namespace Sys

def boot (mem : Mem) : Sys := ⟨⟨mem, [], []⟩, .new, 0, [], []⟩

def createUserAddressSpace (s : Sys) : Option Sys := do
  let (pgdPhys, frames) ← s.frames.zeroedPage
  let ((asid, needsFlush), asids) := s.asids.alloc
  some { s with
    frames
    asids
    flushes := if needsFlush then s.flushes + 1 else s.flushes
    spaces := s.spaces ++ [⟨pgdPhys, asid, .new⟩] }

/-- `map_user_page` on the address space number `k`. -/
def mapUserPage (s : Sys) (k va pa : ℕ) (flags : VmFlags) : Option Sys := do
  let space ← s.spaces[k]?
  if !flags.contains .user then none
  else if ¬ va < 0x0001000000000000 then none
  else if va &&& (pageSize - 1) ≠ 0 then none
  else if pa &&& (pageSize - 1) ≠ 0 then none
  else
    let frames ← s.frames.mapPageDmap space.pgdPhys va pa mairNormalWbIdx flags
    some { s with
      frames
      spaces := s.spaces.set k { space with stats := space.stats.trackAlloc }
      log := ⟨k, va, pa, flags⟩ :: s.log }

/-- The last mapping of an address in the address space number `k`. -/
def lastMapping (s : Sys) (k va : ℕ) : Option Mapping :=
  s.log.find? fun m => m.space == k && m.va == va

end Sys

/-- A call, with what `alloc_page` answers during it. -/
inductive Call
  | create (supply : List ℕ)
  | map (k va pa : ℕ) (flags : VmFlags) (supply : List ℕ)

def Frame (pa : ℕ) : Prop := pageSize ∣ pa ∧ pa < 2 ^ 48

instance (pa : ℕ) : Decidable (Frame pa) := inferInstanceAs (Decidable (_ ∧ _))

/-- `alloc_page` answers fresh frames. -/
def Fresh (taken supply : List ℕ) : Prop :=
  supply.Nodup ∧ ∀ p ∈ supply, Frame p ∧ p ∉ taken

instance (taken supply : List ℕ) : Decidable (Fresh taken supply) :=
  inferInstanceAs (Decidable (_ ∧ _))

/-- The physical addresses lie below `2 ^ 48`, and `alloc_page` answers fresh pages. -/
def Call.Ok (s : Sys) : Call → Prop
  | .create supply => Fresh s.frames.taken supply
  | .map _ _ pa _ supply => pa < 2 ^ 48 ∧ Fresh s.frames.taken supply

instance (s : Sys) (c : Call) : Decidable (c.Ok s) :=
  match c with
  | .create supply => inferInstanceAs (Decidable (Fresh s.frames.taken supply))
  | .map _ _ pa _ supply =>
    inferInstanceAs (Decidable (pa < 2 ^ 48 ∧ Fresh s.frames.taken supply))

/-- One call; `none` when an assertion fails. -/
def Sys.next (s : Sys) : Call → Option Sys
  | .create supply =>
    { s with frames := { s.frames with supply := supply } }.createUserAddressSpace
  | .map k va pa flags supply =>
    { s with frames := { s.frames with supply := supply } }.mapUserPage k va pa flags

end Uspace

end Aios.Mm
