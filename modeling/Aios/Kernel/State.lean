import Aios.Cap.Revoke
import Aios.Ipc.Channel
import Aios.Ipc.Shmem

/-!
The kernel's tables and the calls that change them, one call at a time.

A call is what a thread or another part of the kernel asks for: the capability operations of
`kernel/src/cap/mod.rs` and the capability syscalls, the channel operations of
`kernel/src/ipc`, the shared memory operations of `kernel/src/ipc/shmem.rs` and
`process_exit`. Blocking and waking change none of these tables; of `ipc_call`, `ipc_send`
and `ipc_recv` the sections that hold the lock of the channel table are modelled.
-/

namespace Aios

open Aios.Lib Aios.Cap Aios.Ipc Function

structure Kernel where
  procs : Slots maxProcesses CapabilityTable
  owner : ThreadId → Option ProcessId
  channels : Slots maxChannels (Channel RawMessage)
  regions : Slots maxSharedRegions SharedMemoryRegion
  nextTokenId : CapabilityTokenId
  tick : ℕ

namespace Kernel

/-! ### Processes and their capabilities -/

def processRef (K : Kernel) (pid : ProcessId) : Except IpcError CapabilityTable :=
  if h : pid < maxProcesses then
    match K.procs ⟨pid, h⟩ with
    | some T => .ok T
    | none => .error .eperm
  else .error .einval

def setTable (K : Kernel) (pid : ProcessId) (T : CapabilityTable) : Kernel :=
  if h : pid < maxProcesses then { K with procs := update K.procs ⟨pid, h⟩ (some T) }
  else K

/-- `check_channel_create` and `check_shared_memory_create`: the authorizing token. A missing
process is denied (`deny_missing_process`). -/
def checkCreate (K : Kernel) (cap : Capability) (pid : ProcessId) :
    Except IpcError CapabilityTokenId :=
  match K.processRef pid with
  | .error _ => .error .eperm
  | .ok T =>
    match T.findAuthorizingToken cap K.tick with
    | some id => .ok id
    | none => .error .eperm

def checkChannelCreate (K : Kernel) (pid : ProcessId) : Except IpcError CapabilityTokenId :=
  K.checkCreate .channelCreate pid

def checkSharedMemoryCreate (K : Kernel) (pid : ProcessId) : Except IpcError CapabilityTokenId :=
  K.checkCreate .sharedMemoryCreate pid

def checkAccess (K : Kernel) (cap : Capability) (pid : ProcessId) : Except IpcError Unit :=
  match K.processRef pid with
  | .error _ => .error .eperm
  | .ok T => if T.hasCapability cap K.tick then .ok () else .error .eperm

def checkChannelAccess (K : Kernel) (pid : ProcessId) (channel : ChannelId) :
    Except IpcError Unit :=
  if channel < maxChannels then K.checkAccess (.channelAccess channel) pid else .error .einval

def checkSharedMemoryAccess (K : Kernel) (pid : ProcessId) (region : SharedMemoryId) :
    Except IpcError Unit :=
  K.checkAccess (.sharedMemoryAccess region) pid

def bumpTokenId (K : Kernel) : Kernel := { K with nextTokenId := (K.nextTokenId + 1) % 2 ^ 64 }

def grantToProcess (K : Kernel) (pid : ProcessId) (cap : Capability) (delegatable : Bool) :
    Except IpcError ℕ × Kernel :=
  match K.processRef pid with
  | .error e => (.error e, K)
  | .ok T =>
    let r := T.grant ⟨K.nextTokenId, cap, pid, delegatable, false, none, 0, K.tick, none⟩
    (r.1, (K.setTable pid r.2).bumpTokenId)

/-- The capability that registers `x1` and `x3` of `CapabilityAttenuate` ask for. -/
def attenuateCap (x1 x3 : ℕ) : Except IpcError Capability :=
  match x1 with
  | 0 => .ok .channelCreate
  | 1 => if x3 < 2 ^ 32 then .ok (.channelAccess x3) else .error .einval
  | 2 => .ok .sharedMemoryCreate
  | 3 => if x3 < 2 ^ 32 then .ok (.sharedMemoryAccess x3) else .error .einval
  | 4 => .ok .spawnAgent
  | 5 => .ok .debugPrint
  | _ => .error .einval

/-- `sys_capability_attenuate` by a thread, on its four registers. -/
def sysCapabilityAttenuate (K : Kernel) (tid : ThreadId) (x0 x1 x2 x3 : ℕ) :
    Except IpcError ℕ × Kernel :=
  if x0 < maxCapsPerProcess then
    match K.owner tid with
    | none => (.error .eperm, K)
    | some pid =>
      match attenuateCap x1 x3 with
      | .error e => (.error e, K)
      | .ok newCap =>
        match K.processRef pid with
        | .error e => (.error e, K)
        | .ok T =>
          let r := T.attenuate x0 newCap (if x2 = 0 then none else some x2) pid K.nextTokenId
          (r.1, (K.setTable pid r.2).bumpTokenId)
  else (.error .einval, K)

/-- `revoke_channels_for_cap`: every channel created under the token goes. -/
def revokeChannelsForCap (K : Kernel) (id : CapabilityTokenId) : Kernel :=
  { K with channels := fun i => (K.channels i).filter fun ch => !(ch.creationCap == some id) }

def revokeInProcess (K : Kernel) (pid : ProcessId) (id : CapabilityTokenId) :
    Except IpcError ℕ × Kernel :=
  if pid < maxProcesses then
    match K.processRef pid with
    | .error _ => (.ok 0, K.revokeChannelsForCap id)
    | .ok T => (.ok 0, (K.setTable pid (T.revoke id)).revokeChannelsForCap id)
  else (.error .einval, K)

/-! ### Channels -/

def channelCreate (K : Kernel) (creator : ThreadId) : Except IpcError ℕ × Kernel :=
  match K.owner creator with
  | none => (.error .eperm, K)
  | some pid =>
    match K.checkChannelCreate pid with
    | .error e => (.error e, K)
    | .ok token =>
      match K.channels.firstFree with
      | none => (.error .enospc, K)
      | some i =>
        (.ok i, { K with
          channels := update K.channels i
            (some { Channel.new i pid with creationCap := some token }) })

/-- `channel_mut` followed by an update of the channel under the lock. -/
def onChannel (K : Kernel) (channel : ChannelId)
    (f : Channel RawMessage → Except IpcError (Option (Channel RawMessage))) :
    Except IpcError ℕ × Kernel :=
  if h : channel < maxChannels then
    match K.channels ⟨channel, h⟩ with
    | none => (.error .epipe, K)
    | some ch =>
      match f ch with
      | .error e => (.error e, K)
      | .ok ch' => (.ok 0, { K with channels := update K.channels ⟨channel, h⟩ ch' })
  else (.error .einval, K)

def withAccess (K : Kernel) (tid : ThreadId) (channel : ChannelId)
    (act : Except IpcError ℕ × Kernel) : Except IpcError ℕ × Kernel :=
  match K.owner tid with
  | none => (.error .eperm, K)
  | some pid =>
    match K.checkChannelAccess pid channel with
    | .error e => (.error e, K)
    | .ok () => act

/-- `channel_destroy`; the slot is free again at once. -/
def channelDestroy (K : Kernel) (tid : ThreadId) (channel : ChannelId) :
    Except IpcError ℕ × Kernel :=
  K.withAccess tid channel (K.onChannel channel fun _ => .ok none)

def ipcCall (K : Kernel) (tid : ThreadId) (channel : ChannelId) (buf : List UInt8) :
    Except IpcError ℕ × Kernel :=
  if maxMessageSize < buf.length then (.error .enospc, K)
  else K.withAccess tid channel
    (K.onChannel channel fun ch => (ch.call tid ⟨tid, buf⟩).map fun r => some r.2)

def ipcSend (K : Kernel) (tid : ThreadId) (channel : ChannelId) (buf : List UInt8) :
    Except IpcError ℕ × Kernel :=
  if maxMessageSize < buf.length then (.error .enospc, K)
  else K.withAccess tid channel
    (K.onChannel channel fun ch => (ch.send ⟨tid, buf⟩).map fun r => some r.2)

def ipcRecv (K : Kernel) (tid : ThreadId) (channel : ChannelId) (poll : Bool) :
    Except IpcError ℕ × Kernel :=
  K.withAccess tid channel
    (K.onChannel channel fun ch => (ch.recv tid poll).map fun r => some r.2)

/-! ### Shared memory -/

/-- `shared_memory_create`; `base` is the answer of the page allocator. The creator is granted
access to the region, and a failure of that grant is only logged. -/
def sharedMemoryCreate (K : Kernel) (pid : ProcessId) (size : ℕ) (flags : VmFlags)
    (base : Option ℕ) : Except IpcError ℕ × Kernel :=
  let sizePages := max ((size + pageSize - 1) / pageSize) 1
  if flags.contains (.write ||| .execute) then (.error .einval, K)
  else if maxSharedRegionPages < sizePages then (.error .einval, K)
  else
    match K.checkSharedMemoryCreate pid with
    | .error e => (.error e, K)
    | .ok token =>
      match base with
      | none => (.error .enomem, K)
      | some basePhys =>
        match K.regions.firstFree with
        | none => (.error .enospc, K)
        | some i =>
          let region : SharedMemoryRegion :=
            { id := i
              basePhys := basePhys
              order := orderForPages sizePages
              sizeBytes := sizePages * pageSize
              refCount := 0
              creator := pid
              maxFlags := flags
              creationCap := some token
              mappings := Slots.empty }
          let K' := { K with regions := update K.regions i (some region) }
          (.ok i, (K'.grantToProcess pid (.sharedMemoryAccess i) true).2)

def sharedMemoryMap (K : Kernel) (pid : ProcessId) (id : SharedMemoryId) (flags : VmFlags) :
    Except IpcError ℕ × Kernel :=
  if h : id < maxSharedRegions then
    if flags.contains (.write ||| .execute) then (.error .einval, K)
    else
      match K.checkSharedMemoryAccess pid id with
      | .error e => (.error e, K)
      | .ok () =>
        match K.regions ⟨id, h⟩ with
        | none => (.error .epipe, K)
        | some r =>
          match r.addMapping id pid flags with
          | .error e => (.error e, K)
          | .ok r' =>
            (.ok (shmVaBase + id * shmVaStride),
              { K with regions := update K.regions ⟨id, h⟩ (some r') })
  else (.error .einval, K)

/-- `shared_memory_unmap`: the region is freed with its last mapping. -/
def sharedMemoryUnmap (K : Kernel) (pid : ProcessId) (id : SharedMemoryId) :
    Except IpcError ℕ × Kernel :=
  if h : id < maxSharedRegions then
    match K.regions ⟨id, h⟩ with
    | none => (.error .epipe, K)
    | some r =>
      match r.dropMapping pid with
      | none => (.error .eperm, K)
      | some r' =>
        (if r.refCount = 0 then .error .einval else .ok 0,
          { K with regions := update K.regions ⟨id, h⟩ r' })
  else (.error .einval, K)

def sharedMemoryShare (K : Kernel) (pid : ProcessId) (id : SharedMemoryId) (target : ProcessId) :
    Except IpcError ℕ × Kernel :=
  if h : id < maxSharedRegions then
    if target < maxProcesses then
      match K.regions ⟨id, h⟩ with
      | none => (.error .epipe, K)
      | some r =>
        if r.creator = pid then
          match K.grantToProcess target (.sharedMemoryAccess id) false with
          | (.ok _, K') => (.ok 0, K')
          | (.error e, K') => (.error e, K')
        else (.error .eperm, K)
    else (.error .einval, K)
  else (.error .einval, K)

/-- `process_exit`: the channels with an endpoint of the process die, and its mappings go.
Its capability table stays. -/
def processExit (K : Kernel) (pid : ProcessId) : Kernel :=
  if pid < maxProcesses then
    { K with
      channels := fun i => (K.channels i).map fun ch =>
        if ch.ownerA = pid ∨ ch.ownerB = some pid then ch.markDead else ch
      regions := fun i =>
        match K.regions i with
        | none => none
        | some r => (r.dropMapping pid).getD (some r) }
  else K

/-! ### Calls -/

inductive Call
  | tick
  | grantToProcess (pid : ProcessId) (cap : Capability) (delegatable : Bool)
  | attenuate (tid : ThreadId) (x0 x1 x2 x3 : ℕ)
  | revokeInProcess (pid : ProcessId) (id : CapabilityTokenId)
  | channelCreate (tid : ThreadId)
  | channelDestroy (tid : ThreadId) (channel : ChannelId)
  | ipcCall (tid : ThreadId) (channel : ChannelId) (buf : List UInt8)
  | ipcSend (tid : ThreadId) (channel : ChannelId) (buf : List UInt8)
  | ipcRecv (tid : ThreadId) (channel : ChannelId) (poll : Bool)
  | sharedMemoryCreate (pid : ProcessId) (size : ℕ) (flags : VmFlags) (base : Option ℕ)
  | sharedMemoryMap (pid : ProcessId) (id : SharedMemoryId) (flags : VmFlags)
  | sharedMemoryUnmap (pid : ProcessId) (id : SharedMemoryId)
  | sharedMemoryShare (pid : ProcessId) (id : SharedMemoryId) (target : ProcessId)
  | processExit (pid : ProcessId)

def exec (K : Kernel) : Call → Except IpcError ℕ × Kernel
  | .tick => (.ok 0, { K with tick := K.tick + 1 })
  | .grantToProcess pid cap delegatable => K.grantToProcess pid cap delegatable
  | .attenuate tid x0 x1 x2 x3 => K.sysCapabilityAttenuate tid x0 x1 x2 x3
  | .revokeInProcess pid id => K.revokeInProcess pid id
  | .channelCreate tid => K.channelCreate tid
  | .channelDestroy tid channel => K.channelDestroy tid channel
  | .ipcCall tid channel buf => K.ipcCall tid channel buf
  | .ipcSend tid channel buf => K.ipcSend tid channel buf
  | .ipcRecv tid channel poll => K.ipcRecv tid channel poll
  | .sharedMemoryCreate pid size flags base => K.sharedMemoryCreate pid size flags base
  | .sharedMemoryMap pid id flags => K.sharedMemoryMap pid id flags
  | .sharedMemoryUnmap pid id => K.sharedMemoryUnmap pid id
  | .sharedMemoryShare pid id target => K.sharedMemoryShare pid id target
  | .processExit pid => (.ok 0, K.processExit pid)

end Kernel

end Aios
