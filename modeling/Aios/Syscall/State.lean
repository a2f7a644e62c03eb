import Aios.Kernel.Memory
import Aios.Kernel.Exit
import Aios.Ipc.Notify
import Aios.Ipc.Machine
import Aios.Sched.Machine
import Aios.Lib.Bytes
import Aios.Lib.Shared

/-!
What a syscall reaches: the kernel's tables, the memory of the user, and the CPU it runs on.

A syscall shares the tables with the other threads and the timer. It reads and changes them in
sections that hold a lock, and before each section the others may have acted. What belongs to the
calling thread alone (the trap frame, the current thread, the owner of a thread) is read without a
section, and so is user memory: every copy from the user comes before the first section.
-/

namespace Aios.Syscall

open Aios.Lib Aios.Ipc Function
open Aios.Ipc.Notify (Tid Word NotificationId NotificationObject Waiter maxNotifications
  maxSelectEntries)
open Aios.Sched (ThreadState)

/-- `SelectKind`; `ipc_select` checks the ids. -/
inductive SelectKind
  | channel (id : ChannelId)
  | notification (id : ℕ) (mask : Word)
  deriving DecidableEq, Repr

/-- The comparison of `try_wake_select` and `set_select_ready`. -/
def SelectKind.sameSource : SelectKind → SelectKind → Bool
  | channel a, channel b => a == b
  | notification a _, notification b _ => a == b
  | _, _ => false

/-- `SelectWaiter`; `ready` is the index and the bits that the waker stored. -/
structure SelectWaiter where
  entries : List SelectKind
  ready : Option (ℕ × Word)
  deriving DecidableEq, Repr

/-- `ReplySlot`: the length of the caller's buffer and what the reply has written to it. -/
structure ReplySlot where
  bufLen : ℕ
  written : List UInt8
  deriving DecidableEq, Repr

/-- `TimeoutEntry`; a sleep has no error. -/
structure TimeoutEntry where
  wakeAtTick : ℕ
  error : Option IpcError
  deriving DecidableEq, Repr

structure AuditEntry where
  timestamp : ℕ
  pid : ProcessId
  event : List UInt8
  deriving DecidableEq, Repr

/-- `AuditEntry::empty`. -/
instance : Inhabited AuditEntry := ⟨⟨0, 0, []⟩⟩

def auditRingSize : ℕ := 256

instance : NeZero auditRingSize := ⟨by decide⟩

def i32Min : BitVec 32 := BitVec.intMin 32

/-- The tables, and user memory. `inFlight` is not a table and is read by nothing: it has the bits
that a signal has taken out of a word for a thread and has not stored yet. -/
structure Tables where
  memory : Memory
  notifications : Slots maxNotifications NotificationObject
  /-- `NOTIFY_RESULTS`. -/
  results : ThreadId → Option Word
  inFlight : ThreadId → List Word
  /-- `NOTIFY_DEADLINES`. -/
  deadlines : ThreadId → ℕ
  /-- `SELECT_WAITERS`. -/
  selects : ThreadId → Option SelectWaiter
  /-- The states of the threads in `THREAD_TABLE`. -/
  threads : ThreadId → Option ThreadState
  /-- `TIMEOUT_QUEUE`, and whether another CPU holds its lock. -/
  timeouts : ThreadId → Option TimeoutEntry
  timeoutsBusy : Bool
  wakeupErrors : ThreadId → Option IpcError
  replySlots : ThreadId → Option ReplySlot
  exitCodes : ProcessId → BitVec 32
  processWaiters : ProcessId → Option ThreadId
  auditHead : ℕ
  auditRing : Fin auditRingSize → AuditEntry
  console : List String
  user : Mem

namespace Tables

variable {α : Type}

def kernel (k : Tables) : Kernel := k.memory.kernel

def setKernel (k : Tables) (K : Kernel) : Tables :=
  { k with memory := { k.memory with kernel := K } }

def setThread (k : Tables) (tid : ThreadId) (st : ThreadState) : Tables :=
  { k with threads := update k.threads tid ((k.threads tid).map fun _ => st) }

def setNotification (k : Tables) (id : NotificationId) (n : NotificationObject) : Tables :=
  { k with notifications := update k.notifications id (some n) }

def setSelect (k : Tables) (tid : ThreadId) (sw : Option SelectWaiter) : Tables :=
  { k with selects := update k.selects tid sw }

def setTimeout (k : Tables) (tid : ThreadId) (entry : Option TimeoutEntry) : Tables :=
  { k with timeouts := update k.timeouts tid entry }

def setReplySlot (k : Tables) (tid : ThreadId) (slot : Option ReplySlot) : Tables :=
  { k with replySlots := update k.replySlots tid slot }

/-- An operation on the kernel's own tables. -/
def onKernel (f : Kernel → Except IpcError α × Kernel) (k : Tables) : Except IpcError α × Tables :=
  ((f k.kernel).1, k.setKernel (f k.kernel).2)

def onMemory (f : Memory → Except IpcError α × Memory) (k : Tables) : Except IpcError α × Tables :=
  ((f k.memory).1, { k with memory := (f k.memory).2 })

/-- `channel_mut`, and what is done with the channel. -/
def withChannel (channel : ChannelId)
    (f : Channel RawMessage → Except IpcError (α × Channel RawMessage)) (k : Tables) :
    Except IpcError α × Tables :=
  if h : channel < maxChannels then
    match k.kernel.channels ⟨channel, h⟩ with
    | none => (.error .epipe, k)
    | some ch =>
      match f ch with
      | .error e => (.error e, k)
      | .ok (a, ch') =>
        (.ok a, k.setKernel
          { k.kernel with channels := update k.kernel.channels ⟨channel, h⟩ (some ch') })
  else (.error .einval, k)

def tidyChannel (channel : ChannelId) (f : Channel RawMessage → Channel RawMessage) (k : Tables) :
    Tables :=
  (k.withChannel channel fun ch => .ok ((), f ch)).2

def onNotification (id : ℕ) (f : NotificationObject → NotificationObject) (k : Tables) : Tables :=
  if h : id < maxNotifications then
    match k.notifications ⟨id, h⟩ with
    | some n => k.setNotification ⟨id, h⟩ (f n)
    | none => k
  else k

/-! ### Timeouts and wakes -/

def deadlineFromNow (k : Tables) (ticks : ℕ) : Option ℕ := Machine.deadlineAfter k.kernel.tick ticks

def armTimeout (tid : ThreadId) (deadline : Option ℕ) (k : Tables) : Tables :=
  match deadline with
  | some d => k.setTimeout tid (some ⟨d, some .etimedout⟩)
  | none => k

/-- `clear_timeout`, which does not wait for the lock. -/
def clearTimeout (tid : ThreadId) (k : Tables) : Tables :=
  if k.timeoutsBusy then k else k.setTimeout tid none

def unblock (tid : ThreadId) (k : Tables) : Tables :=
  if (k.threads tid).any fun st => st.isReady then k else k.setThread tid .runnable

def wakeWithError (e : IpcError) (tid : ThreadId) (k : Tables) : Tables :=
  ({ k with wakeupErrors := update k.wakeupErrors tid (some e) }.clearTimeout tid).unblock
    tid

/-- The record of a thread in `ipc_select` with the entry for the source marked, if it has one. -/
def markReady (k : Tables) (tid : ThreadId) (source : SelectKind) (bits : Word) :
    Option SelectWaiter :=
  (k.selects tid).bind fun sw =>
    (sw.entries.findIdx? (·.sameSource source)).map fun i => { sw with ready := some (i, bits) }

def setSelectReady (tid : ThreadId) (source : SelectKind) (bits : Word) (k : Tables) : Tables :=
  match k.markReady tid source bits with
  | some sw => k.setSelect tid (some sw)
  | none => k

/-- `try_wake_select`, and `unblock` when it answers `false`. -/
def wakeSelectOrUnblock (tid : ThreadId) (source : SelectKind) (bits : Word) (k : Tables) :
    Tables :=
  if k.threads tid = some .blockedSelect then
    match k.markReady tid source bits with
    | some sw => (k.setSelect tid (some sw)).unblock tid
    | none => k.unblock tid
  else k.unblock tid

/-- `try_direct_switch`: a receiver that is blocked takes over the CPU of the sender. -/
def tryDirectSwitch (sender receiver : ThreadId) (k : Tables) : Bool × Tables :=
  if (k.threads sender).isSome ∧ (k.threads receiver).any (·.isBlockedIpc) then
    (true, (k.setThread receiver .runnable).setThread sender (.blockedIpc 0))
  else (false, k)

/-- `try_reply_switch`: the caller takes over the CPU, and the replier stays runnable. -/
def tryReplySwitch (replier caller : ThreadId) (k : Tables) : Bool × Tables :=
  if (k.threads replier).isSome ∧ (k.threads caller).any (·.isBlockedIpc) then
    (true, (k.setThread caller .running).setThread replier .runnable)
  else (false, k)

def init : Tables where
  memory := ⟨⟨Slots.empty, fun _ => none, Slots.empty, Slots.empty, 1, 0⟩, Slots.empty, 0, 0⟩
  notifications := Slots.empty
  results _ := none
  inFlight _ := []
  deadlines _ := 2 ^ 64 - 1
  selects _ := none
  threads _ := none
  timeouts _ := none
  timeoutsBusy := false
  wakeupErrors _ := none
  replySlots _ := none
  exitCodes _ := i32Min
  processWaiters _ := none
  auditHead := 0
  auditRing _ := default
  console := []
  user _ := 0

end Tables

/-! ### Operations of the kernel -/

structure Thread where
  /-- `CURRENT_THREAD` of the CPU. -/
  tid : Option Tid
  /-- It has been switched out until another thread or the timer wakes it. -/
  blocked : Bool

/-- An operation of the kernel. It has not the CPU, and so neither the trap frame nor the log of
copies; user memory lies among the tables because other threads write it as well, and it is
`copyToUser` alone that writes it for this one. -/
abbrev OpM := EStateM IpcError (Shared Tables Thread)

open Shared

/-- `current_thread_id`, and the error for a CPU without one. -/
def currentThread (e : IpcError) : OpM Tid := fun w =>
  match w.own.tid with
  | some tid => .ok tid w
  | none => .error e w

def processOfThread (tid : ThreadId) : OpM ProcessId := fun w =>
  match w.state.kernel.owner tid with
  | some pid => .ok pid w
  | none => .error .eperm w

def currentProcess : OpM ProcessId := do
  let tid ← currentThread .eperm
  processOfThread tid

def park : OpM Unit := modifyOwn fun t => { t with blocked := true }

def blockCurrent (tid : ThreadId) (st : ThreadState) : OpM Unit := do
  update (·.setThread tid st)
  park

/-! ### The CPU and user memory -/

/-- The registers `x0` to `x30` of a trap frame. -/
abbrev Frame := Fin 31 → Word

instance neZeroFrame : NeZero 31 := ⟨by decide⟩

inductive Access
  | read
  | write
  deriving DecidableEq, Repr

structure Copy where
  access : Access
  ptr : ℕ
  len : ℕ
  deriving DecidableEq, Repr

structure Trap where
  x : Frame
  tid : Option Tid
  /-- What `alloc_user_pages` answers. -/
  base : Option ℕ
  /-- `CNTVCT_EL0` and `CNTFRQ_EL0`. -/
  ticks : ℕ
  freq : ℕ

/-- A CPU inside a syscall; `copies` are the copies made so far. -/
structure Cpu where
  x : Frame
  thread : Thread
  copies : List Copy

def Trap.enter (c : Trap) : Cpu := ⟨c.x, ⟨c.tid, false⟩, []⟩

abbrev SysM := EStateM IpcError (Shared Tables Cpu)

def op {α : Type} (m : OpM α) : SysM α := zoom Cpu.thread (fun t c => { c with thread := t }) m

def userVaMin : ℕ := 0x1000
def userVaLimit : ℕ := 0x0000800000000000

def validateUserVa (ptr len : ℕ) : Bool :=
  decide (ptr + len < 2 ^ 64) &&
    (decide (userVaMin ≤ ptr ∧ ptr < userVaLimit) && decide (ptr + len ≤ userVaLimit))

def logCopy (access : Access) (ptr len : ℕ) (c : Cpu) : Cpu :=
  { c with copies := c.copies ++ [⟨access, ptr, len⟩] }

def copyFromUser (src len : ℕ) : SysM (List UInt8) := fun w =>
  if validateUserVa src len then
    .ok (w.state.user.read src len) { w with own := logCopy .read src len w.own }
  else .error .einval w

def copyToUser (dst : ℕ) (src : List UInt8) : SysM Unit := fun w =>
  if validateUserVa dst src.length then
    .ok () { w with
      own := logCopy .write dst src.length w.own
      state := { w.state with user := w.state.user.write dst src } }
  else .error .einval w

end Aios.Syscall
