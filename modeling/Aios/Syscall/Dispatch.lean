import Aios.Syscall.Operations

/-!
`syscall_dispatch` and the handlers, `kernel/src/syscall/mod.rs`, with the decoders of
`shared/src/syscall.rs`.
-/

namespace Aios.Syscall

open Aios.Lib Aios.Lib.Shared Aios.Lib.Fallible Aios.Ipc
open Aios.Ipc.Notify (Word maxSelectEntries)

/-! ### Arguments -/

def idArg (reg : Word) : SysM ℕ :=
  if reg.toNat < 2 ^ 32 then pure reg.toNat else throw .einval

def capHandleArg (reg : Word) : SysM CapabilityHandle :=
  if reg.toNat < Cap.maxCapsPerProcess then pure reg.toNat else throw .einval

def memoryFlagsMask : Word := 0b0111

def fromCallerBits (reg : Word) : SysM VmFlags :=
  if reg &&& ~~~memoryFlagsMask = 0 then pure (reg.setWidth 32) else throw .einval

structure RawSelectEntry where
  kind : ℕ
  id : ℕ
  mask : Word
  deriving DecidableEq, Repr

namespace RawSelectEntry

def size : ℕ := 16

def fromBytes (b : List UInt8) : RawSelectEntry where
  kind := Bytes.ofLe (b.take 4)
  id := Bytes.ofLe ((b.drop 4).take 4)
  mask := BitVec.ofNat 64 (Bytes.ofLe ((b.drop 8).take 8))

def decode (raw : RawSelectEntry) : Except IpcError SelectKind :=
  match raw.kind with
  | 0 => .ok (.channel raw.id)
  | 1 => .ok (.notification raw.id raw.mask)
  | _ => .error .einval

def chunk (wire : List UInt8) (i : ℕ) : RawSelectEntry :=
  fromBytes ((wire.drop (size * i)).take size)

end RawSelectEntry

/-- The loop of `sys_ipc_select` over the chunks. -/
def decodeEntries (wire : List UInt8) (count : ℕ) : Except IpcError (List SelectKind) :=
  (List.range count).mapM fun i => (RawSelectEntry.chunk wire i).decode

/-! ### Handlers -/

def ofExcept {α : Type} : Except IpcError α → SysM α
  | .ok a => pure a
  | .error e => throw e

/-! A decoder touches nothing. -/

section Decoders

variable {I : Shared Tables Cpu → Prop}

@[grind ←] lemma keeps_idArg (reg : Word) : Keeps I (idArg reg) := .ite (.pure _) .throw

@[grind ←] lemma keeps_capHandleArg (reg : Word) : Keeps I (capHandleArg reg) :=
  .ite (.pure _) .throw

@[grind ←] lemma keeps_fromCallerBits (reg : Word) : Keeps I (fromCallerBits reg) :=
  .ite (.pure _) .throw

@[grind ←] lemma keeps_ofExcept {α : Type} (r : Except IpcError α) : Keeps I (ofExcept r) := by
  cases r with
  | ok a => exact .pure a
  | error e => exact .throw

lemma op_currentProcess (w : Shared Tables Cpu) : op currentProcess w =
    .error .eperm w ∨ ∃ tid pid, w.own.thread.tid = some tid ∧ w.state.kernel.owner tid = some pid ∧
    op currentProcess w = .ok pid w := by
  obtain ⟨⟨x, ⟨tid, blocked⟩, copies⟩, k, others⟩ := w
  cases tid with
  | none => exact .inl rfl
  | some tid =>
    unfold op zoom currentProcess
    rw [bind_eq (x := currentThread _) rfl]
    unfold processOfThread
    cases hpid : k.kernel.owner tid with
    | none => exact .inl rfl
    | some pid => exact .inr ⟨tid, pid, rfl, hpid, rfl⟩

end Decoders

def asResult (n : ℕ) : Word := BitVec.ofNat 64 n

def setX1 (v : Word) : SysM Unit := modifyOwn fun c => { c with x := Function.update c.x 1 v }

def sysIpcCall (x : Frame) : SysM Word := do
  let channel ← idArg (x 0)
  failIf (maxMessageSize < (x 2).toNat ∨ maxMessageSize < (x 4).toNat) .enospc
  failIf (validateUserVa (x 1).toNat (x 2).toNat = false ∨
    validateUserVa (x 3).toNat (x 4).toNat = false) .einval
  let sendBuf ← copyFromUser (x 1).toNat (x 2).toNat
  let reply ← op (ipcCall channel sendBuf (x 4).toNat (x 5).toNat)
  copyToUser (x 3).toNat (reply.take (x 4).toNat)
  pure (asResult (reply.take (x 4).toNat).length)

def sysIpcSend (x : Frame) : SysM Word := do
  let channel ← idArg (x 0)
  failIf (maxMessageSize < (x 2).toNat) .enospc
  let sendBuf ← copyFromUser (x 1).toNat (x 2).toNat
  op (ipcSend channel sendBuf)
  pure 0

def sysIpcRecv (x : Frame) : SysM Word := do
  let channel ← idArg (x 0)
  failIf (maxMessageSize < (x 2).toNat) .enospc
  failIf (validateUserVa (x 1).toNat (x 2).toNat = false) .einval
  let r ← op (ipcRecv channel (x 2).toNat (x 3).toNat)
  copyToUser (x 1).toNat r.1
  setX1 (asResult r.2)
  pure (asResult r.1.length)

def sysIpcReply (x : Frame) : SysM Word := do
  let channel ← idArg (x 0)
  failIf (maxMessageSize < (x 2).toNat) .enospc
  let replyBuf ← copyFromUser (x 1).toNat (x 2).toNat
  op (ipcReply channel replyBuf)
  pure 0

def sysIpcCancel (x : Frame) : SysM Word := do
  let channel ← idArg (x 0)
  op (ipcCancel channel)
  pure 0

def sysIpcSelect (x : Frame) : SysM Word := do
  failIf ((x 1).toNat = 0 ∨ maxSelectEntries < (x 1).toNat) .einval
  let wire ← copyFromUser (x 0).toNat ((x 1).toNat * RawSelectEntry.size)
  let entries ← ofExcept (decodeEntries wire (x 1).toNat)
  let r ← op (ipcSelect entries (x 2).toNat)
  setX1 r.2
  pure (asResult r.1)

def sysChannelCreate : SysM Word := do
  let tid ← op (currentThread .eperm)
  let id ← op (locked (Tables.onKernel (·.channelCreate tid)))
  pure (asResult id)

def sysChannelDestroy (x : Frame) : SysM Word := do
  let channel ← idArg (x 0)
  op (channelDestroy channel)
  pure 0

def sysNotificationCreate : SysM Word := do
  let _ ← op currentProcess
  let id ← op (locked notificationCreate)
  pure (asResult id)

def sysNotificationSignal (x : Frame) : SysM Word := do
  let id ← idArg (x 0)
  op (notificationSignal id (x 1))
  pure 0

def sysNotificationWait (x : Frame) : SysM Word := do
  let id ← idArg (x 0)
  op (notificationWait id (x 1) (x 2).toNat)

def sysCapabilityAttenuate (x : Frame) : SysM Word := do
  let handle ← capHandleArg (x 0)
  let pid ← op currentProcess
  let newCap ← ofExcept (Kernel.attenuateCap (x 1).toNat (x 3).toNat)
  let newHandle ← op (locked (Tables.onKernel
    (attenuateSection pid handle newCap (if x 2 = 0 then none else some (x 2).toNat))))
  pure (asResult newHandle)

def sysCapabilityRevoke (x : Frame) : SysM Word := do
  let handle ← capHandleArg (x 0)
  let pid ← op currentProcess
  let id ← op (locked (tokenOf pid handle))
  op (revokeInProcess pid id)
  pure 0

/-- The loop of `sys_capability_list` from an address on. -/
def copyIds : ℕ → List CapabilityTokenId → SysM Unit
  | _, [] => pure ()
  | ptr, id :: ids => do
    copyToUser ptr (Bytes.le 8 id)
    copyIds (ptr + 8) ids

def sysCapabilityList (x : Frame) : SysM Word := do
  -- `saturating_mul`
  failIf (validateUserVa (x 0).toNat (min ((x 1).toNat * 8) (2 ^ 64 - 1)) = false) .einval
  let pid ← op currentProcess
  let ids ← op (locked (listSection pid (min (x 1).toNat Cap.maxCapsPerProcess)))
  copyIds (x 0).toNat ids
  pure (asResult ids.length)

def sysMemoryMap (x : Frame) (base : Option ℕ) : SysM Word := do
  let flags ← fromCallerBits (x 1)
  let pid ← op currentProcess
  let va ← op (locked (Tables.onMemory (·.memoryMap pid (x 0).toNat flags base)))
  pure (asResult va)

def sysMemoryUnmap (x : Frame) : SysM Word := do
  let pid ← op currentProcess
  let _ ← op (locked (Tables.onMemory (·.memoryUnmap pid (x 0).toNat (x 1).toNat)))
  pure 0

def sysSharedMemoryCreate (x : Frame) (base : Option ℕ) : SysM Word := do
  let flags ← fromCallerBits (x 1)
  let pid ← op currentProcess
  let id ← op (locked (Tables.onMemory (·.sharedMemoryCreate pid (x 0).toNat flags base)))
  pure (asResult id)

def sysSharedMemoryMap (x : Frame) : SysM Word := do
  let id ← idArg (x 0)
  let flags ← fromCallerBits (x 1)
  let pid ← op currentProcess
  let va ← op (locked (Tables.onMemory (·.sharedMemoryMap pid id flags)))
  pure (asResult va)

def sysSharedMemoryShare (x : Frame) : SysM Word := do
  let id ← idArg (x 0)
  let target ← idArg (x 1)
  let pid ← op currentProcess
  let _ ← op (locked (Tables.onMemory (·.sharedMemoryShare pid id target)))
  pure 0

def sysProcessExit (x : Frame) : SysM Word := do
  let pid ← op currentProcess
  op (processExit pid ((x 0).setWidth 32))
  pure 0

def sysProcessWait (x : Frame) : SysM Word := do
  let pid ← idArg (x 0)
  let tid ← op (currentThread .eperm)
  let code ← op (processWait tid pid)
  pure (code.signExtend 64)

/-- `sys_time_get`, nanoseconds as a `u64`. -/
def timeGet (ticks freq : ℕ) : Word :=
  if freq = 0 then 0 else BitVec.ofNat 64 (ticks * 1000000000 / freq)

def sysTimeSleep (x : Frame) : SysM Word :=
  if x 0 = 0 then pure 0
  else do
    op (sleepTicks (((x 0).toNat + 999999) / 1000000))
    pure 0

def sysAuditLog (x : Frame) : SysM Word := do
  failIf (48 < (x 1).toNat) .enospc
  let event ← copyFromUser (x 0).toNat (x 1).toNat
  let pid ← op currentProcess
  op (update (auditLog pid event))
  pure 0

def sysDebugPrint (x : Frame) : SysM Word := do
  failIf (256 < (x 1).toNat) .enospc
  let buf ← copyFromUser (x 0).toNat (x 1).toNat
  op (update (debugPrint buf))
  pure 0

/-- The `match` of `syscall_dispatch`. -/
def handle (c : Trap) : SysM Word :=
  match (c.x 8).toNat with
  | 0 => sysIpcCall c.x
  | 1 => sysIpcSend c.x
  | 2 => sysIpcRecv c.x
  | 3 => sysIpcReply c.x
  | 4 => sysIpcCancel c.x
  | 5 => sysIpcSelect c.x
  | 6 => sysChannelCreate
  | 7 => sysChannelDestroy c.x
  | 10 => sysNotificationCreate
  | 11 => sysNotificationSignal c.x
  | 12 => sysNotificationWait c.x
  | 15 => sysCapabilityAttenuate c.x
  | 16 => sysCapabilityRevoke c.x
  | 17 => sysCapabilityList c.x
  | 18 => sysMemoryMap c.x c.base
  | 19 => sysMemoryUnmap c.x
  | 20 => sysSharedMemoryCreate c.x c.base
  | 21 => sysSharedMemoryMap c.x
  | 22 => sysSharedMemoryShare c.x
  | 24 => sysProcessExit c.x
  | 25 => sysProcessWait c.x
  | 26 => pure (timeGet c.ticks c.freq)
  | 27 => sysTimeSleep c.x
  | 29 => sysAuditLog c.x
  | 30 => sysDebugPrint c.x
  | _ => throw .enotsup

def errno (e : IpcError) : Word := BitVec.ofInt 64 e.code

lemma errno_neg (e : IpcError) : (errno e).toInt < 0 := by cases e <;> decide

def setX0 (v : Word) (w : Shared Tables Cpu) : Shared Tables Cpu :=
  { w with own := { w.own with x := Function.update w.own.x 0 v } }

@[simp] lemma setX0_x0 (v : Word) (w : Shared Tables Cpu) : (setX0 v w).own.x 0 = v := by
  simp [setX0]

def run (c : Trap) (k : Tables) (others : List (Tables → Tables)) :
    EStateM.Result IpcError (Shared Tables Cpu) Word :=
  handle c ⟨c.enter, k, others⟩

def syscallDispatch (c : Trap) (k : Tables) (others : List (Tables → Tables)) :
    Shared Tables Cpu :=
  match run c k others with
  | .ok v w => setX0 v w
  | .error e w => setX0 (errno e) w

end Aios.Syscall
