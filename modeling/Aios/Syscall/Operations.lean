import Aios.Syscall.State

/-!
The operations behind the syscalls, section by section: `kernel/src/ipc`, `kernel/src/cap/mod.rs`
and `kernel/src/task/process.rs`.

An operation returns what the source's function returns. Where a thread blocks, what the others do
until it runs again comes before its next section. `service_on_death` touches none of the tables.
-/

namespace Aios.Syscall

open Aios.Lib Aios.Lib.Shared Aios.Lib.Fallible Aios.Ipc Function
open Aios.Ipc.Notify (Tid Word NotificationId NotificationObject Waiter maxNotifications
  maxSelectEntries)

/-! ### Channels -/

def checkChannelAccess (pid : ProcessId) (channel : ChannelId) : OpM Unit :=
  locked fun k => (k.kernel.checkChannelAccess pid channel, k)

/-- The section of `ipc_call` under the lock of the channel table. The receiver it finds waiting
has its timeout cleared, and its record marked if it is in `ipc_select`. -/
def callSection (tid : ThreadId) (channel : ChannelId) (buf : List UInt8) (timeout : ℕ)
    (k : Tables) : Except IpcError (Option ThreadId × Option ℕ) × Tables :=
  match k.withChannel channel (·.call tid ⟨tid, buf⟩) with
  | (.error e, k') => (.error e, k')
  | (.ok receiver, k') =>
    (.ok (receiver, if timeout = 0 then none else k.deadlineFromNow timeout),
      match receiver with
      | some r => (k'.clearTimeout r).setSelectReady r (.channel channel) 0
      | none => k')

/-- The switch of `ipc_call` to the receiver; without one, and without a receiver, the caller
blocks by itself. -/
def callSwitch (tid : ThreadId) (channel : ChannelId) : Option ThreadId → OpM Unit
  | none => blockCurrent tid (.blockedIpc channel)
  | some r => do
    let switched ← locked fun k => (.ok (k.tryDirectSwitch tid r).1, (k.tryDirectSwitch tid r).2)
    if switched then park
    else do
      update (·.wakeSelectOrUnblock r (.channel channel) 0)
      blockCurrent tid (.blockedIpc channel)

def getWakeupError (tid : ThreadId) : OpM (Option IpcError) :=
  locked fun k =>
    (.ok (k.wakeupErrors tid), { k with wakeupErrors := update k.wakeupErrors tid none })

/-- `ipc_call`; the answer is the part of the reply that was written to the buffer. -/
def ipcCall (channel : ChannelId) (sendBuf : List UInt8) (recvLen timeout : ℕ) :
    OpM (List UInt8) := do
  failIf (maxMessageSize < sendBuf.length) .enospc
  let tid ← currentThread .eperm
  let pid ← processOfThread tid
  checkChannelAccess pid channel
  let r ← locked (callSection tid channel sendBuf timeout)
  update (·.setReplySlot tid (some ⟨recvLen, []⟩))
  update (·.armTimeout tid r.2)
  callSwitch tid channel r.1
  update (·.setTimeout tid none)
  let slot ← locked fun k => (.ok (k.replySlots tid), k.setReplySlot tid none)
  let error ← getWakeupError tid
  match error with
  | some e => do
    update (·.tidyChannel channel (·.clearPending tid))
    throw e
  | none => pure (slot.elim [] (·.written))

/-- The first section of `ipc_recv`: a message, or the deadline of the wait. -/
def recvSection (tid : ThreadId) (channel : ChannelId) (timeout : ℕ) (k : Tables) :
    Except IpcError (Option RawMessage × Option ℕ) × Tables :=
  match k.withChannel channel (·.recv tid (decide (timeout = 0))) with
  | (.error e, k') => (.error e, k')
  | (.ok msg, k') => (.ok (msg, k.deadlineFromNow timeout), k')

/-- The last section of `ipc_recv`. -/
def retrySection (channel : ChannelId) (k : Tables) : Except IpcError RawMessage × Tables :=
  k.withChannel channel fun ch =>
    match ch.ring.pop with
    | some (msg, ring) => .ok (msg, { ch with ring := ring })
    | none => .error .eagain

/-- `ipc_recv`: what fits into the buffer, and the sender. -/
def ipcRecv (channel : ChannelId) (recvLen timeout : ℕ) : OpM (List UInt8 × ThreadId) := do
  let tid ← currentThread .eperm
  let pid ← processOfThread tid
  checkChannelAccess pid channel
  let r ← locked (recvSection tid channel timeout)
  match r.1 with
  | some msg => pure (msg.data.take recvLen, msg.sender)
  | none => do
    update (·.armTimeout tid r.2)
    blockCurrent tid (.blockedIpc channel)
    update (·.setTimeout tid none)
    update (·.tidyChannel channel (·.clearWaiting tid))
    let error ← getWakeupError tid
    match error with
    | some e => throw e
    | none => do
      let msg ← locked (retrySection channel)
      pure (msg.data.take recvLen, msg.sender)

/-- The section of `ipc_reply` and of `ipc_cancel` that takes the pending caller. -/
def takePending (channel : ChannelId) (k : Tables) : Except IpcError (Option ThreadId) × Tables :=
  k.withChannel channel fun ch => .ok (ch.pendingCaller, { ch with pendingCaller := none })

/-- The copy of `ipc_reply` into the slot of the caller, if it is still there. -/
def fillReplySlot (caller : ThreadId) (buf : List UInt8) (k : Tables) : Tables :=
  match k.replySlots caller with
  | some slot => k.setReplySlot caller (some { slot with written := buf.take slot.bufLen })
  | none => k

def ipcReply (channel : ChannelId) (replyBuf : List UInt8) : OpM Unit := do
  failIf (maxMessageSize < replyBuf.length) .enospc
  let replier ← currentThread .eperm
  let pending ← locked (takePending channel)
  match pending with
  | none => throw .eproto
  | some caller => do
    update (fillReplySlot caller replyBuf)
    update (·.clearTimeout caller)
    let switched ← locked fun k =>
      (.ok (k.tryReplySwitch replier caller).1, (k.tryReplySwitch replier caller).2)
    if switched then pure () else update (·.unblock caller)

def ipcSend (channel : ChannelId) (sendBuf : List UInt8) : OpM Unit := do
  failIf (maxMessageSize < sendBuf.length) .enospc
  let tid ← currentThread .eperm
  let pid ← processOfThread tid
  checkChannelAccess pid channel
  let receiver ← locked (Tables.withChannel channel (·.send ⟨tid, sendBuf⟩))
  match receiver with
  | none => pure ()
  | some r => do
    update (·.clearTimeout r)
    update (·.wakeSelectOrUnblock r (.channel channel) 0)

def ipcCancel (channel : ChannelId) : OpM Unit := do
  let pid ← currentProcess
  checkChannelAccess pid channel
  let pending ← locked (takePending channel)
  match pending with
  | none => pure ()
  | some caller => update (·.wakeWithError .ecanceled caller)

/-- The section of `channel_destroy_unchecked`: the threads registered on the channel. -/
def destroySection (channel : ChannelId) (k : Tables) : Except IpcError (List ThreadId) × Tables :=
  if h : channel < maxChannels then
    match k.kernel.channels ⟨channel, h⟩ with
    | none => (.error .epipe, k)
    | some ch =>
      (.ok ch.registered, k.setKernel
        { k.kernel with channels := update k.kernel.channels ⟨channel, h⟩ none })
  else (.error .einval, k)

def wakeEpipe (tids : List ThreadId) : OpM Unit :=
  forM tids fun tid => update (·.wakeWithError .epipe tid)

def channelDestroy (channel : ChannelId) : OpM Unit := do
  let pid ← currentProcess
  checkChannelAccess pid channel
  let tids ← locked (destroySection channel)
  wakeEpipe tids

/-! ### Capabilities -/

def channelsUnder (id : CapabilityTokenId) (k : Tables) : List ChannelId :=
  ((List.finRange maxChannels).filter fun i =>
    (k.kernel.channels i).any fun ch => ch.creationCap == some id).map Fin.val

/-- `revoke_channels_for_cap`; a channel that is gone by now is passed over. -/
def revokeChannelsForCap (id : CapabilityTokenId) : OpM Unit := do
  let channels ← load (channelsUnder id)
  forM channels fun channel => do
    let tids ← locked fun k =>
      (.ok ((destroySection channel k).1.toOption.getD []), (destroySection channel k).2)
    wakeEpipe tids

def revokeInTable (pid : ProcessId) (id : CapabilityTokenId) (k : Tables) : Tables :=
  match k.kernel.processRef pid with
  | .ok T => k.setKernel (k.kernel.setTable pid (T.revoke id))
  | .error _ => k

def revokeInProcess (pid : ProcessId) (id : CapabilityTokenId) : OpM Unit := do
  failIf (maxProcesses ≤ pid) .einval
  update (revokeInTable pid id)
  revokeChannelsForCap id

/-- The token that `sys_capability_revoke` looks up. -/
def tokenOf (pid : ProcessId) (handle : CapabilityHandle) (k : Tables) :
    Except IpcError CapabilityTokenId × Tables :=
  (match k.kernel.processRef pid with
    | .error e => .error e
    | .ok T => match T.get handle with
      | some token => .ok token.id
      | none => .error .eperm, k)

def attenuateSection (pid : ProcessId) (handle : CapabilityHandle) (newCap : Cap.Capability)
    (expiry : Option ℕ) (K : Kernel) : Except IpcError CapabilityHandle × Kernel :=
  match K.processRef pid with
  | .error e => (.error e, K)
  | .ok T =>
    ((T.attenuate handle newCap expiry pid K.nextTokenId).1,
      (K.setTable pid (T.attenuate handle newCap expiry pid K.nextTokenId).2).bumpTokenId)

/-- `CapabilityTable::list`: the live tokens in slot order, at most `limit`. -/
def listTokens (T : Cap.CapabilityTable) (limit : ℕ) : List CapabilityTokenId :=
  ((T.tokens.items.filter fun token => !token.revoked).map (·.id)).take limit

def listSection (pid : ProcessId) (limit : ℕ) (k : Tables) :
    Except IpcError (List CapabilityTokenId) × Tables :=
  ((k.kernel.processRef pid).map fun T => listTokens T limit, k)

/-! ### Notifications and `ipc_select` -/

def notificationCreate (k : Tables) : Except IpcError NotificationId × Tables :=
  match k.notifications.firstFree with
  | none => (.error .enomem, k)
  | some i => (.ok i, k.setNotification i ⟨0, Slots.empty⟩)

def bitsFor (wakes : List (Tid × Word)) (tid : ThreadId) : List Word :=
  (wakes.filter fun w => w.1.val == tid).map (·.2)

/-- The section of `notification_signal` under the lock of the table. -/
def signalSection (id : NotificationId) (bits : Word) (k : Tables) :
    Except IpcError (List (Tid × Word)) × Tables :=
  match k.notifications id with
  | none => (.error .einval, k)
  | some n =>
    (.ok (Notify.Sys.signalObject n bits).2,
      { k.setNotification id (Notify.Sys.signalObject n bits).1 with
        inFlight := fun tid => k.inFlight tid ++ bitsFor (Notify.Sys.signalObject n bits).2 tid })

/-- The results that `notification_signal` stores. -/
def storeResults (wakes : List (Tid × Word)) (k : Tables) : Tables :=
  { k with
    results := wakes.foldl (fun r w => update r w.1 (some w.2)) k.results
    inFlight := fun tid => (k.inFlight tid).diff (bitsFor wakes tid) }

def notificationSignal (id : ℕ) (bits : Word) : OpM Unit :=
  if h : id < maxNotifications then do
    let wakes ← locked (signalSection ⟨id, h⟩ bits)
    if wakes = [] then pure ()
    else do
      update (storeResults wakes)
      forM wakes fun w => update (·.wakeSelectOrUnblock w.1 (.notification id w.2) w.2)
  else throw .einval

def takeBits (id : NotificationId) (n : NotificationObject) (mask : Word) (k : Tables) : Tables :=
  if n.word &&& mask = 0 then k
  else k.setNotification id { n with word := n.word &&& ~~~(n.word &&& mask) }

/-- The first look of `notification_wait`. -/
def firstLook (id : NotificationId) (mask : Word) (k : Tables) : Except IpcError Word × Tables :=
  match k.notifications id with
  | none => (.error .einval, k)
  | some n => (.ok (n.word &&& mask), takeBits id n mask k)

def secondLook (tid : Tid) (id : NotificationId) (mask : Word) (k : Tables) :
    Except IpcError Word × Tables :=
  match k.notifications id with
  | none => (.error .einval, k)
  | some n =>
    if n.word &&& mask = 0 then
      match n.waiters.firstFree with
      | none => (.error .enomem, k)
      | some i =>
        (.ok 0, k.setNotification id
          { n with waiters := update n.waiters i (some ⟨tid, mask⟩) })
    else (.ok (n.word &&& mask), takeBits id n mask k)

/-- `set_thread_deadline`; without a deadline it is `u64::MAX`. -/
def setThreadDeadline (tid : ThreadId) (deadline : Option ℕ) (k : Tables) : Tables :=
  { k with deadlines := update k.deadlines tid (deadline.getD (2 ^ 64 - 1)) }

def takeResult (tid : ThreadId) (k : Tables) : Except IpcError (Option Word) × Tables :=
  (.ok (k.results tid), { k with results := update k.results tid none })

def cleanupWaiter (id : ℕ) (tid : Tid) (k : Tables) : Tables :=
  k.onNotification id (Notify.Sys.dropWaiter · tid)

def notificationWait (id : ℕ) (mask : Word) (timeout : ℕ) : OpM Word :=
  if h : id < maxNotifications then do
    let tid ← currentThread .einval
    let hit ← locked (firstLook ⟨id, h⟩ mask)
    if hit ≠ 0 then pure hit
    else do
      let deadline ← load (·.deadlineFromNow timeout)
      let hit ← locked (secondLook tid ⟨id, h⟩ mask)
      if hit ≠ 0 then pure hit
      else do
        update (setThreadDeadline tid deadline)
        blockCurrent tid (.blockedNotification id)
        let result ← locked (takeResult tid)
        match result with
        | some bits => pure bits
        | none => do
          update (cleanupWaiter id tid)
          throw .etimedout
  else throw .einval

/-- The ids that `ipc_select` lets pass. -/
def SelectKind.inRange : SelectKind → Bool
  | channel id => decide (id < maxChannels)
  | notification id _ => decide (id < maxNotifications)

def SelectKind.channel? : SelectKind → Option ChannelId
  | channel id => some id
  | notification _ _ => none

def checkChannelEntries (tid : ThreadId) (entries : List SelectKind) : OpM Unit :=
  if entries.filterMap SelectKind.channel? = [] then pure ()
  else do
    let pid ← processOfThread tid
    forM (entries.filterMap SelectKind.channel?) fun channel => checkChannelAccess pid channel

/-- One entry of `scan_entries`: the bits, when the entry is ready. -/
def scanEntry : SelectKind → Tables → Except IpcError (Option Word) × Tables
  | .channel id, k =>
    (.ok (match (k.withChannel id fun ch => .ok (ch.ring.len, ch)).1 with
      | .ok len => if 0 < len then some 0 else none
      | .error _ => none), k)
  | .notification id mask, k =>
    if h : id < maxNotifications then
      match k.notifications ⟨id, h⟩ with
      | none => (.ok none, k)
      | some n =>
        (.ok (if n.word &&& mask = 0 then none else some (n.word &&& mask)),
          takeBits ⟨id, h⟩ n mask k)
    else (.ok none, k)

/-- `scan_entries` from an index on. -/
def scanEntries : ℕ → List SelectKind → OpM (Option (ℕ × Word))
  | _, [] => pure none
  | i, entry :: entries => do
    let ready ← locked (scanEntry entry)
    match ready with
    | some bits => pure (some (i, bits))
    | none => scanEntries (i + 1) entries

def addWaiter (tid : Tid) (mask : Word) (n : NotificationObject) : NotificationObject :=
  match n.waiters.firstFree with
  | some i => { n with waiters := update n.waiters i (some ⟨tid, mask⟩) }
  | none => n

/-- One entry of `register_on_sources`. -/
def registerOn (tid : Tid) : SelectKind → Tables → Tables
  | .channel id, k => k.tidyChannel id fun ch =>
    if ch.waitingReceiver.isNone then { ch with waitingReceiver := some tid.val } else ch
  | .notification id mask, k => k.onNotification id (addWaiter tid mask)

/-- One entry of `unregister_from_sources`. -/
def unregisterFrom (tid : Tid) : SelectKind → Tables → Tables
  | .channel id, k => k.tidyChannel id (·.clearWaiting tid)
  | .notification id _, k => cleanupWaiter id tid k

def takeSelect (tid : ThreadId) (k : Tables) : Except IpcError (Option (ℕ × Word)) × Tables :=
  (.ok ((k.selects tid).bind (·.ready)), k.setSelect tid none)

def ipcSelect (entries : List SelectKind) (timeout : ℕ) : OpM (ℕ × Word) := do
  let tid ← currentThread .einval
  failIf (entries = [] ∨ maxSelectEntries < entries.length) .einval
  failIf (entries.any (fun entry => !entry.inRange) = true) .einval
  checkChannelEntries tid entries
  let found ← scanEntries 0 entries
  match found with
  | some r => pure r
  | none => do
    let deadline ← load (·.deadlineFromNow timeout)
    update (·.setSelect tid (some ⟨entries, none⟩))
    forM entries fun entry => update (registerOn tid entry)
    update (setThreadDeadline tid deadline)
    blockCurrent tid .blockedSelect
    let ready ← locked (takeSelect tid)
    forM entries fun entry => update (unregisterFrom tid entry)
    match ready with
    | some r => pure r
    | none => throw .etimedout

/-! ### Processes, time and the log -/

def storeExitCode (pid : ProcessId) (code : BitVec 32) (k : Tables) : Tables :=
  { k with exitCodes := update k.exitCodes pid code }

def markThreads (pid : ProcessId) (k : Tables) : Tables :=
  { k with threads := fun tid =>
      if k.kernel.owner tid = some pid then (k.threads tid).map fun _ => .dead else k.threads tid }

/-- The scan of the channel table: the channels with an endpoint of the process die, and the
threads registered on them are collected. -/
def scanChannels (pid : ProcessId) (k : Tables) : Except IpcError (List ThreadId) × Tables :=
  (.ok (epipeWakeups k.kernel.channels pid),
    k.setKernel { k.kernel with channels := (k.kernel.processExit pid).channels })

def wakeProcessWaiter (pid : ProcessId) (k : Tables) : Tables :=
  match k.processWaiters pid with
  | some tid => { k with processWaiters := update k.processWaiters pid none }.unblock tid
  | none => k

def updateIf (b : Bool) (g : Tables → Tables) : OpM Unit := if b then update g else pure ()

def processExit (pid : ProcessId) (code : BitVec 32) : OpM Unit :=
  if pid < maxProcesses then do
    let hasProcess ← load fun k => (k.kernel.processRef pid).toOption.isSome
    updateIf hasProcess (storeExitCode pid code)
    update (markThreads pid)
    let tids ← locked (scanChannels pid)
    wakeEpipe tids
    update fun k => { k with memory := k.memory.processCleanupSharedMemory pid }
    updateIf hasProcess (wakeProcessWaiter pid)
  else pure ()

def processWait (parent : ThreadId) (pid : ProcessId) : OpM (BitVec 32) := do
  failIf (maxProcesses ≤ pid) .einval
  let code ← load (·.exitCodes pid)
  if code ≠ i32Min then pure code
  else do
    let _ ← locked fun k => (k.kernel.processRef pid, k)
    update fun k => { k with processWaiters := update k.processWaiters pid (some parent) }
    blockCurrent parent (.blockedProcessWait pid)
    let code ← load (·.exitCodes pid)
    if code ≠ i32Min then pure code else throw .eperm

/-- `sleep_ticks`; the channel of the blocked state is `u64::MAX`. -/
def sleepTicks (ticks : ℕ) : OpM Unit := fun w =>
  match w.own.tid with
  | none => .ok () w
  | some tid =>
    if ticks = 0 then .ok () w
    else
      (do
        update fun k =>
          k.setTimeout tid (some ⟨(k.deadlineFromNow ticks).getD (2 ^ 64 - 1), none⟩)
        blockCurrent tid (.blockedIpc (2 ^ 64 - 1)) : OpM Unit) w

def auditLog (pid : ProcessId) (event : List UInt8) (k : Tables) : Tables :=
  { k with
    auditHead := (k.auditHead + 1) % 2 ^ 64
    auditRing := update k.auditRing (Fin.ofNat auditRingSize k.auditHead)
      ⟨k.kernel.tick, pid, event.take 48⟩ }

/-- The line that `sys_debug_print` writes. -/
def debugPrint (buf : List UInt8) (k : Tables) : Tables :=
  { k with console := k.console ++ [(String.fromUTF8? ⟨buf.toArray⟩).getD "<invalid utf8>"] }

end Aios.Syscall
