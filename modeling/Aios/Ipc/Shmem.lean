import Aios.Types
import Aios.Lib.Slots

/-!
Shared memory regions, `kernel/src/ipc/shmem.rs`: the record of a region and its mappings.
-/

namespace Aios.Ipc

open Aios.Lib

abbrev VmFlags := BitVec 32

namespace VmFlags

def read : VmFlags := 1
def write : VmFlags := 2
def execute : VmFlags := 4

def contains (a b : VmFlags) : Bool := a &&& b == b

end VmFlags

def pageSize : ℕ := 4096
def maxSharedRegionPages : ℕ := 2 ^ 10
def shmVaBase : ℕ := 0x10000000
def shmVaStride : ℕ := maxSharedRegionPages * pageSize

/-- `order_for_pages`: the least order whose blocks have that many pages. -/
def orderForPages (pages : ℕ) : ℕ := Nat.clog 2 pages

structure SharedMapping where
  pid : ProcessId
  vaddr : ℕ
  flags : VmFlags
  deriving DecidableEq, Repr

structure SharedMemoryRegion where
  id : SharedMemoryId
  basePhys : ℕ
  order : ℕ
  sizeBytes : ℕ
  refCount : ℕ
  creator : ProcessId
  maxFlags : VmFlags
  creationCap : Option CapabilityTokenId
  mappings : Slots maxSharedMappings SharedMapping

namespace SharedMemoryRegion

def mappingOf (r : SharedMemoryRegion) (pid : ProcessId) : Option (Fin maxSharedMappings) :=
  (List.finRange maxSharedMappings).find? fun i => (r.mappings i).any fun m => m.pid == pid

/-- What `shared_memory_map` does to a region, once the capability is checked. -/
def addMapping (r : SharedMemoryRegion) (id : SharedMemoryId) (pid : ProcessId)
    (flags : VmFlags) :
    Except IpcError SharedMemoryRegion :=
  if !r.maxFlags.contains flags then .error .einval
  else if (r.mappingOf pid).isSome then .error .eexist
  else
    match r.mappings.firstFree with
    | none => .error .enospc
    | some i =>
      .ok { r with
        mappings := Function.update r.mappings i (some ⟨pid, shmVaBase + id * shmVaStride, flags⟩)
        refCount := r.refCount + 1 }

def clearMapping (r : SharedMemoryRegion) (i : Fin maxSharedMappings) : SharedMemoryRegion :=
  { r with mappings := Function.update r.mappings i none }

/-- A process gives up its mapping: `none` when it has none. The slot of the mapping is
emptied in any case; the region itself goes with its last reference. -/
def dropMapping (r : SharedMemoryRegion) (pid : ProcessId) : Option (Option SharedMemoryRegion) :=
  (r.mappingOf pid).map fun i =>
    let r' := r.clearMapping i
    if r'.refCount = 0 then some r'
    else if r'.refCount = 1 then none
    else some { r' with refCount := r'.refCount - 1 }

variable {r' r : SharedMemoryRegion} {pid : ProcessId}

lemma addMapping_creator {id : SharedMemoryId} {flags : VmFlags}
    (h : r.addMapping id pid flags = .ok r') : r'.creator = r.creator := by
  unfold addMapping at h
  split_ifs at h
  split at h
  · simp at h
  · cases h; rfl

lemma dropMapping_creator (h : r.dropMapping pid = some (some r')) : r'.creator = r.creator := by
  simp only [dropMapping, Option.map_eq_some_iff] at h
  obtain ⟨i, -, h⟩ := h
  split_ifs at h
  · cases h; rfl
  · cases h; rfl

end SharedMemoryRegion

end Aios.Ipc
