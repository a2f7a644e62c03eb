import Aios.Kernel.State
import Aios.Lib.Ledger

/-!
Shared and private memory of processes, `kernel/src/ipc/shmem.rs`.

A region and a private allocation each hold one block of the user pool. Beside the tables the
model keeps what was ever taken from the pool and what was given back to it. The answer of
`alloc_user_pages` is part of an operation; that it overlaps no outstanding block is assumed
of the allocator.
-/

namespace Aios

open Aios.Lib Aios.Ipc

def maxPrivatePages : ℕ := 64
def maxPrivateAllocations : ℕ := 64
def privateVaBase : ℕ := shmVaBase + maxSharedRegions * shmVaStride
def privateVaStride : ℕ := maxPrivatePages * pageSize

structure PrivateAllocation where
  owner : ProcessId
  basePhys : ℕ
  order : ℕ
  pages : ℕ
  deriving DecidableEq, Repr

/-- A block of `2 ^ order` pages of the user pool. -/
structure Block where
  base : ℕ
  order : ℕ
  deriving DecidableEq, Repr

def Block.Apart (A B : Block) : Prop :=
  A.base + 2 ^ A.order * pageSize ≤ B.base ∨ B.base + 2 ^ B.order * pageSize ≤ A.base

instance (A B : Block) : Decidable (A.Apart B) := inferInstanceAs (Decidable (_ ∨ _))

def Ipc.SharedMemoryRegion.block (r : SharedMemoryRegion) : Block := ⟨r.basePhys, r.order⟩

def PrivateAllocation.block (a : PrivateAllocation) : Block := ⟨a.basePhys, a.order⟩

def pagesFor (size : ℕ) : ℕ := max ((size + pageSize - 1) / pageSize) 1

/-- The tables, and the history of the pool: `taken` and `freed` count every
`alloc_user_pages` that answered and every `free_user_pages`. -/
structure Memory where
  kernel : Kernel
  privates : Slots maxPrivateAllocations PrivateAllocation
  taken : Multiset Block
  freed : Multiset Block

namespace Kernel

/-- The block `shared_memory_create` gets, when its checks let it ask for one and the
allocator answers `base`. -/
def createBlock (K : Kernel) (pid : ProcessId) (size : ℕ) (flags : VmFlags) (base : Option ℕ) :
    Option Block :=
  if flags.contains (.write ||| .execute) then none
  else if maxSharedRegionPages < pagesFor size then none
  else
    match K.checkSharedMemoryCreate pid with
    | .error _ => none
    | .ok _ => base.map fun b => ⟨b, orderForPages (pagesFor size)⟩

/-- What `shared_memory_unmap` gives back to the pool. -/
def unmapFrees (K : Kernel) (pid : ProcessId) (id : SharedMemoryId) : Multiset Block :=
  if h : id < maxSharedRegions then
    match K.regions ⟨id, h⟩ with
    | none => 0
    | some r =>
      match r.dropMapping pid with
      | some none => {r.block}
      | _ => 0
  else 0

end Kernel

namespace Memory

/-! ### The operations -/

/-- `shared_memory_create`; a block for which the table has no slot goes back. -/
def sharedMemoryCreate (m : Memory) (pid : ProcessId) (size : ℕ) (flags : VmFlags)
    (base : Option ℕ) : Except IpcError ℕ × Memory :=
  let r := m.kernel.sharedMemoryCreate pid size flags base
  let got := (m.kernel.createBlock pid size flags base).elim 0 fun b => {b}
  (r.1, { m with
    kernel := r.2
    taken := m.taken + got
    freed := match r.1 with
      | .error _ => m.freed + got
      | .ok _ => m.freed })

def sharedMemoryMap (m : Memory) (pid : ProcessId) (id : SharedMemoryId) (flags : VmFlags) :
    Except IpcError ℕ × Memory :=
  let r := m.kernel.sharedMemoryMap pid id flags
  (r.1, { m with kernel := r.2 })

def sharedMemoryUnmap (m : Memory) (pid : ProcessId) (id : SharedMemoryId) :
    Except IpcError ℕ × Memory :=
  let r := m.kernel.sharedMemoryUnmap pid id
  (r.1, { m with kernel := r.2, freed := m.freed + m.kernel.unmapFrees pid id })

def sharedMemoryShare (m : Memory) (pid : ProcessId) (id : SharedMemoryId)
    (target : ProcessId) : Except IpcError ℕ × Memory :=
  let r := m.kernel.sharedMemoryShare pid id target
  (r.1, { m with kernel := r.2 })

def memoryMap (m : Memory) (pid : ProcessId) (size : ℕ) (flags : VmFlags) (base : Option ℕ) :
    Except IpcError ℕ × Memory :=
  if flags.contains (.write ||| .execute) then (.error .einval, m)
  else if maxPrivatePages < pagesFor size then (.error .einval, m)
  else
    match base with
    | none => (.error .enomem, m)
    | some b =>
      let order := orderForPages (pagesFor size)
      match m.privates.firstFree with
      | some i =>
        (.ok (privateVaBase + i * privateVaStride), { m with
          privates := Function.update m.privates i (some ⟨pid, b, order, pagesFor size⟩)
          taken := m.taken + {⟨b, order⟩} })
      | none =>
        (.error .enospc, { m with
          taken := m.taken + {⟨b, order⟩}
          freed := m.freed + {⟨b, order⟩} })

def privateSlot (va : ℕ) : Option (Fin maxPrivateAllocations) :=
  if va < privateVaBase then none
  else
    let offset := va - privateVaBase
    if h : offset / privateVaStride < maxPrivateAllocations then
      if offset % privateVaStride = 0 then some ⟨offset / privateVaStride, h⟩ else none
    else none

def memoryUnmap (m : Memory) (pid : ProcessId) (va size : ℕ) : Except IpcError ℕ × Memory :=
  if (shmVaBase ≤ va ∧ va < shmVaBase + maxSharedRegions * shmVaStride) ∧
      (va - shmVaBase) / shmVaStride < maxSharedRegions then
    m.sharedMemoryUnmap pid ((va - shmVaBase) / shmVaStride)
  else
    match privateSlot va with
    | none => (.error .einval, m)
    | some i =>
      match m.privates i with
      | none => (.error .einval, m)
      | some a =>
        if a.owner = pid ∧ a.pages = pagesFor size then
          (.ok 0, { m with
            privates := Function.update m.privates i none
            freed := m.freed + {a.block} })
        else (.error .einval, m)

/-- `shmem_destroy`: one `shared_memory_unmap` for each process that maps the region. A region
without mappings stays. -/
def shmemDestroy (m : Memory) (id : SharedMemoryId) : Memory :=
  if h : id < maxSharedRegions then
    match m.kernel.regions ⟨id, h⟩ with
    | none => m
    | some r => (r.mappings.items.map (·.pid)).foldl (fun m pid => (m.sharedMemoryUnmap pid id).2) m
  else m

/-- `process_cleanup_shared_memory`: its loop does to every slot what `shared_memory_unmap`
does to one. -/
def processCleanupSharedMemory (m : Memory) (pid : ProcessId) : Memory :=
  (List.finRange maxSharedRegions).foldl
    (fun m (i : Fin maxSharedRegions) => (m.sharedMemoryUnmap pid i).2) m

inductive Op
  | create (pid : ProcessId) (size : ℕ) (flags : VmFlags) (base : Option ℕ)
  | map (pid : ProcessId) (id : SharedMemoryId) (flags : VmFlags)
  | unmap (pid : ProcessId) (id : SharedMemoryId)
  | share (pid : ProcessId) (id : SharedMemoryId) (target : ProcessId)
  | memoryMap (pid : ProcessId) (size : ℕ) (flags : VmFlags) (base : Option ℕ)
  | memoryUnmap (pid : ProcessId) (va size : ℕ)
  | destroy (id : SharedMemoryId)
  | cleanup (pid : ProcessId)
  /-- Anything else the kernel does: whatever happens to its other tables. -/
  | rest (K : Kernel)

def next (m : Memory) : Op → Memory
  | .create pid size flags base => (m.sharedMemoryCreate pid size flags base).2
  | .map pid id flags => (m.sharedMemoryMap pid id flags).2
  | .unmap pid id => (m.sharedMemoryUnmap pid id).2
  | .share pid id target => (m.sharedMemoryShare pid id target).2
  | .memoryMap pid size flags base => (m.memoryMap pid size flags base).2
  | .memoryUnmap pid va size => (m.memoryUnmap pid va size).2
  | .destroy id => m.shmemDestroy id
  | .cleanup pid => m.processCleanupSharedMemory pid
  | .rest K => { m with kernel := { K with regions := m.kernel.regions } }

/-- The block the allocator answers an operation with. -/
def answer : Op → Option Block
  | .create _ size _ base | .memoryMap _ size _ base =>
    base.map fun b => ⟨b, orderForPages (pagesFor size)⟩
  | _ => none

def AllocatorOk (m : Memory) (op : Op) : Prop :=
  ∀ b ∈ answer op, ∀ a ∈ m.taken - m.freed, b.Apart a

instance (m : Memory) (op : Op) : Decidable (m.AllocatorOk op) := by
  unfold AllocatorOk
  infer_instance

structure Start (m : Memory) : Prop where
  regions : m.kernel.regions = Slots.empty
  privates : m.privates = Slots.empty
  taken : m.taken = 0
  freed : m.freed = 0

/-! ### What is live -/

abbrev Holder := Fin maxSharedRegions ⊕ Fin maxPrivateAllocations

def blockAt (m : Memory) : Holder → Option Block
  | .inl i => (m.kernel.regions i).map (·.block)
  | .inr i => (m.privates i).map (·.block)

def live (m : Memory) : Multiset Block := Slots.total (fun b => {b}) m.blockAt

abbrev Spot := (Fin maxSharedRegions × Fin maxSharedMappings) ⊕ Fin maxPrivateAllocations

def rangeAt (m : Memory) (pid : ProcessId) : Spot → Option (ℕ × ℕ)
  | .inl (i, j) =>
    (m.kernel.regions i).bind fun r =>
      ((r.mappings j).filter (·.pid == pid)).map fun a => (a.vaddr, r.sizeBytes)
  | .inr i =>
    ((m.privates i).filter (·.owner == pid)).map fun a =>
      (privateVaBase + i * privateVaStride, a.pages * pageSize)

def ApartRange (a b : ℕ × ℕ) : Prop := a.1 + a.2 ≤ b.1 ∨ b.1 + b.2 ≤ a.1

end Memory

end Aios
