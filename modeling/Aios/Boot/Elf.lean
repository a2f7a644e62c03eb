import Aios.Lib.Bytes
import Aios.Lib.Fallible

/-!
The loader of the kernel image: `uefi-stub/src/elf.rs`.

Numbers are `u64` (`usize` has 64 bits on the target). The additions and multiplications the source
leaves unchecked wrap, and a wrap is noted; so is every range of the file that is read. A read
outside the file finds whatever stands in memory there.
-/

namespace Aios.Boot

open Aios.Lib Aios.Lib.Fallible

structure FileData where
  bytes : List UInt8
  around : Mem

def FileData.mem (f : FileData) : Mem := fun o => (f.bytes[o]?).getD (f.around o)

inductive ElfError
  | fileTooSmall | invalidMagic | notElf64 | notLittleEndian | notAarch64
  | phentsizeTooSmall | phdrOutOfBounds
  | fileszOverMemsz | notPageAligned | inconsistentDelta | overflow
  | noLoadSegments | entryNotExecutable
  | segmentOutOfBounds | allocationFailed
  deriving DecidableEq, Repr

def elfMagic : List UInt8 := [0x7f, 0x45, 0x4c, 0x46]
def elfclass64 : UInt8 := 2
def elfdata2lsb : UInt8 := 1
def emAarch64 : ℕ := 0xB7
def ptLoad : ℕ := 1
def pfX : ℕ := 1
def pageSize : ℕ := 0x1000

/-- `Elf64Header`, the fields that are used. -/
structure Elf64Header where
  ident : List UInt8
  machine : ℕ
  entry : ℕ
  phoff : ℕ
  phentsize : ℕ
  phnum : ℕ
  deriving DecidableEq, Repr

namespace Elf64Header

def size : ℕ := 64

def parse (m : Mem) : Elf64Header where
  ident := m.read 0 16
  machine := m.readLe 18 2
  entry := m.readLe 24 8
  phoff := m.readLe 32 8
  phentsize := m.readLe 54 2
  phnum := m.readLe 56 2

/-- The bytes of a record that passes the checks of `load_elf`; unused fields are 0. -/
def bytes (entry phoff phentsize phnum : ℕ) : List UInt8 :=
  elfMagic ++ [elfclass64, elfdata2lsb] ++ Bytes.le 12 0 ++ Bytes.le 2 emAarch64 ++ Bytes.le 4 0 ++
    Bytes.le 8 entry ++ Bytes.le 8 phoff ++ Bytes.le 14 0 ++ Bytes.le 2 phentsize ++
    Bytes.le 2 phnum ++ Bytes.le 6 0

end Elf64Header

/-- `Elf64Phdr`, the fields that are used. -/
structure Elf64Phdr where
  type : ℕ
  flags : ℕ
  offset : ℕ
  vaddr : ℕ
  paddr : ℕ
  filesz : ℕ
  memsz : ℕ
  deriving DecidableEq, Repr

namespace Elf64Phdr

def size : ℕ := 56

def parse (m : Mem) (a : ℕ) : Elf64Phdr where
  type := m.readLe a 4
  flags := m.readLe (a + 4) 4
  offset := m.readLe (a + 8) 8
  vaddr := m.readLe (a + 16) 8
  paddr := m.readLe (a + 24) 8
  filesz := m.readLe (a + 32) 8
  memsz := m.readLe (a + 40) 8

def bytes (ph : Elf64Phdr) : List UInt8 :=
  Bytes.le 4 ph.type ++ Bytes.le 4 ph.flags ++ Bytes.le 8 ph.offset ++ Bytes.le 8 ph.vaddr ++
    Bytes.le 8 ph.paddr ++ Bytes.le 8 ph.filesz ++ Bytes.le 8 ph.memsz ++ Bytes.le 8 pageSize

def isLoad (ph : Elf64Phdr) : Bool := ph.type == ptLoad

def executable (ph : Elf64Phdr) : Bool := ph.flags &&& pfX != 0

def delta (ph : Elf64Phdr) : ℕ := (2 ^ 64 - ph.paddr + ph.vaddr) % 2 ^ 64

def containsVirt (ph : Elf64Phdr) (a : ℕ) : Bool :=
  decide (ph.vaddr ≤ a) && decide (a - ph.vaddr < ph.memsz)

end Elf64Phdr

structure LoadedKernel where
  entry : ℕ
  physBase : ℕ
  size : ℕ
  deriving DecidableEq, Repr

inductive MemoryType
  | loaderCode | loaderData
  deriving DecidableEq, Repr

def Elf64Phdr.memoryType (ph : Elf64Phdr) : MemoryType :=
  if ph.executable then .loaderCode else .loaderData

/-- The machine while the loader runs: physical memory, the pages the loader was given
(`none` for the others), the ranges made visible to instruction fetch, the ranges of the file read,
and whether an addition or a multiplication has wrapped. -/
structure Machine where
  mem : Mem
  given : ℕ → Option MemoryType
  synced : List (ℕ × ℕ)
  reads : List (ℕ × ℕ)
  wrapped : Bool

def Machine.start (mem : Mem) (given : ℕ → Option MemoryType) : Machine :=
  ⟨mem, given, [], [], false⟩

abbrev Loader := EStateM ElfError Machine

def noteRead (offset len : ℕ) : Loader Unit :=
  modify fun s => { s with reads := (offset, len) :: s.reads }

def unchecked (v : ℕ) : Loader ℕ := do
  modify fun s => { s with wrapped := s.wrapped || decide (2 ^ 64 ≤ v) }
  pure (v % 2 ^ 64)

def checkedAdd (a b : ℕ) : Loader ℕ :=
  if a + b < 2 ^ 64 then pure (a + b) else throw .overflow

/-- `checked_next_multiple_of(PAGE_SIZE)`. -/
def checkedNextPage (a : ℕ) : Loader ℕ :=
  let up := (a + pageSize - 1) / pageSize * pageSize
  if up < 2 ^ 64 then pure up else throw .overflow

def getPhdr (f : FileData) (phoff phentsize i : ℕ) : Loader Elf64Phdr := do
  failIf (phentsize < Elf64Phdr.size) .phentsizeTooSmall
  let skip ← unchecked (i * phentsize)
  let offset ← unchecked (phoff + skip)
  let fin ← unchecked (offset + Elf64Phdr.size)
  failIf (f.bytes.length < fin) .phdrOutOfBounds
  noteRead offset Elf64Phdr.size
  pure (Elf64Phdr.parse f.mem offset)

/-! ### Pass 1 -/

structure Extent where
  lowestPaddr : ℕ
  lowestVaddr : ℕ
  highestEnd : ℕ
  virtPhysDelta : Option ℕ
  entryInExecSegment : Bool
  deriving DecidableEq, Repr

def Extent.start : Extent := ⟨2 ^ 64 - 1, 2 ^ 64 - 1, 0, none, false⟩

/-- The variables after a segment that passes the checks and ends at `fin`. -/
def Extent.add (x : Extent) (entry : ℕ) (ph : Elf64Phdr) (fin : ℕ) : Extent where
  lowestPaddr := if ph.paddr < x.lowestPaddr then ph.paddr else x.lowestPaddr
  lowestVaddr := if ph.paddr < x.lowestPaddr then ph.vaddr else x.lowestVaddr
  highestEnd := if x.highestEnd < fin then fin else x.highestEnd
  virtPhysDelta := some ph.delta
  entryInExecSegment := x.entryInExecSegment || (ph.executable && ph.containsVirt entry)

def scanSegment (entry : ℕ) (x : Extent) (ph : Elf64Phdr) : Loader Extent :=
  if ph.isLoad then do
    failIf (ph.memsz < ph.filesz) .fileszOverMemsz
    failIf (ph.paddr % pageSize ≠ 0) .notPageAligned
    failIf (x.virtPhysDelta.any (· != ph.delta)) .inconsistentDelta
    let fin ← checkedAdd ph.paddr ph.memsz
    pure (x.add entry ph fin)
  else pure x

def pass1 (f : FileData) (hdr : Elf64Header) : Loader Extent :=
  (List.range hdr.phnum).foldlM (fun x i => do
    let ph ← getPhdr f hdr.phoff hdr.phentsize i
    scanSegment hdr.entry x ph) Extent.start

/-! ### Pass 2 -/

/-- `count` pages from `first` on are the loader's. -/
def Machine.give (s : Machine) (first count : ℕ) (type : MemoryType) : Machine :=
  { s with given := fun p => if first ≤ p ∧ p < first + count then some type else s.given p }

/-- `allocate_pages` at an address. It fails unless every page is free, and may fail otherwise:
`grants` is what the firmware makes of the request. -/
def allocatePages (grants : ℕ → ℕ → Bool) (base : ℕ) (type : MemoryType) (count : ℕ) :
    Loader Unit := fun s =>
  let first := base / pageSize
  if grants base count && (List.range count).all fun k => (s.given (first + k)).isNone then
    .ok () (s.give first count type)
  else .error .allocationFailed s

def copySegment (f : FileData) (ph : Elf64Phdr) (segEnd : ℕ) : Loader Unit :=
  modify fun s =>
    { s with
      mem := (s.mem.fill ph.paddr (segEnd - ph.paddr) 0).write ph.paddr
        (f.mem.read ph.offset ph.filesz)
      synced := if ph.executable then (ph.paddr, segEnd) :: s.synced else s.synced }

def loadSegment (f : FileData) (grants : ℕ → ℕ → Bool) (ph : Elf64Phdr) : Loader Unit :=
  if ph.isLoad = false ∨ ph.memsz = 0 then pure ()
  else do
    let fileEnd ← checkedAdd ph.offset ph.filesz
    failIf (f.bytes.length < fileEnd) .segmentOutOfBounds
    let top ← unchecked (ph.paddr + ph.memsz)
    let segEnd ← checkedNextPage top
    allocatePages grants ph.paddr ph.memoryType ((segEnd - ph.paddr) / pageSize)
    noteRead ph.offset ph.filesz
    copySegment f ph segEnd

def pass2 (f : FileData) (grants : ℕ → ℕ → Bool) (hdr : Elf64Header) : Loader Unit :=
  forM (List.range hdr.phnum) fun i => do
    let ph ← getPhdr f hdr.phoff hdr.phentsize i
    loadSegment f grants ph

def loadElf (f : FileData) (grants : ℕ → ℕ → Bool) : Loader LoadedKernel := do
  failIf (f.bytes.length < Elf64Header.size) .fileTooSmall
  noteRead 0 Elf64Header.size
  let hdr := Elf64Header.parse f.mem
  failIf (hdr.ident.take 4 ≠ elfMagic) .invalidMagic
  failIf (hdr.ident[4]? ≠ some elfclass64) .notElf64
  failIf (hdr.ident[5]? ≠ some elfdata2lsb) .notLittleEndian
  failIf (hdr.machine ≠ emAarch64) .notAarch64
  let x ← pass1 f hdr
  failIf (x.lowestPaddr = 2 ^ 64 - 1) .noLoadSegments
  failIf (x.entryInExecSegment = false) .entryNotExecutable
  pass2 f grants hdr
  -- e_entry.wrapping_sub(lowest_vaddr).wrapping_add(lowest_paddr)
  let physEntry ← unchecked ((2 ^ 64 - x.lowestVaddr + hdr.entry) % 2 ^ 64 + x.lowestPaddr)
  pure ⟨physEntry, x.lowestPaddr, x.highestEnd - x.lowestPaddr⟩

end Aios.Boot
