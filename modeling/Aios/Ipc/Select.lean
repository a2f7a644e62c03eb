import Aios.Ipc.Bits
import Aios.Ipc.Channel

/-!
`ipc_select` over notifications and channels: `kernel/src/ipc/select.rs` with the sections of
`kernel/src/ipc/channel.rs` that look at a channel's ring and waiting receiver.

The sections of `notification_signal`, `notification_wait`, `ipc_select` and of the timer's scan are
those of `Notify`; here the channels are added, and the threads that send, call and receive on them.
A thread in `ipc_call` or `ipc_recv` blocks like one in `notification_wait`. Wakes that come from
elsewhere (a reply, a cancelled or timed out call) may unblock any thread at any time. The queue of
the IPC timeouts is left out: what clears an entry of it has no effect here.

`call`, `timed`, `number`, `armedBy` and `cleared` record what happened and are read by nothing: the
waiting call that a thread is in or was in last, whether it has a deadline, how many such calls the
thread has begun, which of them stored the thread's deadline, and the bits that signals have taken
out of notifications for the thread since the call began.
-/

namespace Aios.Ipc

open Aios.Lib Notify Function

def Notify.SelectKind.isForChannel (c : ChannelId) : SelectKind → Bool
  | channel id => id == c
  | notification _ _ => false

/-- The registration of `ipc_select` on a channel: nothing happens if there is a receiver. -/
def Channel.registerReceiver {μ : Type} (ch : Channel μ) (receiver : ThreadId) : Channel μ :=
  if ch.waitingReceiver.isNone then { ch with waitingReceiver := some receiver } else ch

namespace Select

inductive Op
  | none
  /-- `ipc_call`, with the waiting receiver taken, before the direct switch. -/
  | callSwitch (c : ChannelId) (r : Tid)
  /-- `try_wake_select` for the receiver of an `ipc_call` or `ipc_send`, before its state is
  read. -/
  | wakeLook (c : ChannelId) (r : Tid) (caller : Bool)
  /-- The receiver is in `ipc_select`; before its record is written. -/
  | wakeMark (c : ChannelId) (r : Tid) (caller : Bool)
  /-- Before the receiver is unblocked. -/
  | wakeUnblock (c : ChannelId) (r : Tid) (caller : Bool)
  | callBlock (c : ChannelId)
  | callWoken (c : ChannelId)
  | recvBlock (c : ChannelId)
  | recvWoken (c : ChannelId)
  | recvRetry (c : ChannelId)
  deriving DecidableEq, Repr

/-- A waiting call. -/
inductive WaitCall
  | wait (id : NotificationId) (mask : Word)
  | select (entries : List SelectKind)
  deriving DecidableEq, Repr

structure Sys where
  base : Notify.Sys
  channels : ChannelId → Option (Channel RawMessage)
  op : Tid → Op
  /-- Is the thread in the state `BlockedIpc`? -/
  ipc : Tid → Bool
  call : Tid → WaitCall
  timed : Tid → Bool
  number : Tid → ℕ
  armedBy : Tid → ℕ
  cleared : Tid → BitLog

namespace Sys

/-- No thread is in an operation; the notifications and channels that exist have any words and
rings. -/
def boot (words : NotificationId → Option Word)
    (rings : ChannelId → Option (MessageRing RawMessage)) : Sys where
  base :=
    { table := fun i => (words i).map fun w => ⟨w, Slots.empty⟩
      results := fun _ => none
      selects := fun _ => none
      deadlines := fun _ => false
      blocked := fun _ => none
      pc := fun _ => .idle
      timer := .idle
      raised := []
      handed := fun _ => []
      returned := [] }
  channels := fun c => (rings c).map fun r =>
    { (Channel.new c 0 : Channel RawMessage) with ring := r }
  op := fun _ => .none
  ipc := fun _ => false
  call := fun _ => .select []
  timed := fun _ => false
  number := fun _ => 0
  armedBy := fun _ => 0
  cleared := fun _ => []

def setOp (s : Sys) (tid : Tid) (p : Op) : Sys := { s with op := update s.op tid p }

def setChannel (s : Sys) (c : ChannelId) (ch : Channel RawMessage) : Sys :=
  { s with channels := update s.channels c (some ch) }

def unblock (s : Sys) (tid : Tid) : Sys :=
  { s with base := s.base.setBlocked tid none, ipc := update s.ipc tid false }

/-- `block_current` in `ipc_call` and `ipc_recv`. -/
def blockIpc (s : Sys) (tid : Tid) : Sys := { s with ipc := update s.ipc tid true }

/-- `set_select_ready`, and `try_wake_select` on the record: the first entry for the channel
becomes the ready one. -/
def markChannel (b : Notify.Sys) (c : ChannelId) (tid : Tid) : Notify.Sys :=
  match b.selects tid with
  | none => b
  | some sw =>
    match sw.entries.findIdx? (·.isForChannel c) with
    | none => b
    | some index =>
      { b with
        selects := update b.selects tid (some { sw with ready := some (index, 0) }) }

/-- `ipc_send`, the section under the lock of the channels. -/
def send (s : Sys) (tid : Tid) (c : ChannelId) (buf : List UInt8) : Sys :=
  if maxMessageSize < buf.length then s
  else
    match s.channels c with
    | none => s
    | some ch =>
      match ch.send ⟨tid, buf⟩ with
      | .error _ => s
      | .ok (none, ch) => s.setChannel c ch
      | .ok (some r, ch) =>
        (s.setChannel c ch).setOp tid (.wakeLook c (Fin.ofNat maxThreads r) false)

/-- `ipc_call`, the section under the lock of the channels. -/
def callOn (s : Sys) (tid : Tid) (c : ChannelId) (buf : List UInt8) : Sys :=
  if maxMessageSize < buf.length then s
  else
    match s.channels c with
    | none => s
    | some ch =>
      match ch.call tid ⟨tid, buf⟩ with
      | .error _ => s
      | .ok (none, ch) => (s.setChannel c ch).setOp tid (.callBlock c)
      | .ok (some r, ch) =>
        let r := Fin.ofNat maxThreads r
        ({ s with base := markChannel s.base c r }.setChannel c ch).setOp tid (.callSwitch c r)

/-- `ipc_recv`, the first section. -/
def recv (s : Sys) (tid : Tid) (c : ChannelId) (poll : Bool) : Sys :=
  match s.channels c with
  | none => s
  | some ch =>
    match ch.recv tid poll with
    | .error _ => s
    | .ok (some _, ch) => s.setChannel c ch
    | .ok (none, ch) => (s.setChannel c ch).setOp tid (.recvBlock c)

/-- `ipc_reply` and `ipc_cancel`, the first section: the pending caller is taken. -/
def takeCaller (s : Sys) (c : ChannelId) : Sys :=
  match s.channels c with
  | none => s
  | some ch => s.setChannel c { ch with pendingCaller := none }

/-- The next section of an operation on a channel. `direct` is the direct switch of `ipc_call`,
which needs its receiver in the state `BlockedIpc`; `error` says whether a woken thread finds an
error. -/
def runOp (s : Sys) (tid : Tid) (direct error : Bool) : Option Sys :=
  match s.op tid with
  | .none => none
  | .callSwitch c r =>
    if direct then
      if s.ipc r then some (((s.unblock r).blockIpc tid).setOp tid (.callWoken c)) else none
    else some (s.setOp tid (.wakeLook c r true))
  | .wakeLook c r caller =>
    some (s.setOp tid (if s.base.blocked r = some .select then .wakeMark c r caller
      else .wakeUnblock c r caller))
  | .wakeMark c r caller =>
    some ({ s with base := markChannel s.base c r }.setOp tid (.wakeUnblock c r caller))
  | .wakeUnblock c r caller =>
    some ((s.unblock r).setOp tid (if caller then .callBlock c else .none))
  | .callBlock c => some ((s.blockIpc tid).setOp tid (.callWoken c))
  | .callWoken c =>
    if s.ipc tid then none
    else
      match s.channels c, error with
      | some ch, true => some ((s.setChannel c (ch.clearPending tid)).setOp tid .none)
      | _, _ => some (s.setOp tid .none)
  | .recvBlock c => some ((s.blockIpc tid).setOp tid (.recvWoken c))
  | .recvWoken c =>
    if s.ipc tid then none
    else
      let onward := if error then Op.none else .recvRetry c
      match s.channels c with
      | some ch => some ((s.setChannel c (ch.clearWaiting tid)).setOp tid onward)
      | none => some (s.setOp tid onward)
  | .recvRetry c =>
    match s.channels c with
    | some ch =>
      match ch.ring.pop with
      | some (_, ring) => some ((s.setChannel c { ch with ring := ring }).setOp tid .none)
      | none => some (s.setOp tid .none)
    | none => some (s.setOp tid .none)

/-- The entry that the thread's `ipc_select` scans, registers on or unregisters from next. -/
def currentEntry : Notify.Pc → Option SelectKind
  | .selScan entries index _ | .selRegister entries index _ | .selUnregister entries index _ =>
    entries[index]?
  | _ => none

/-- Does the channel that `ipc_select` scans have a message? -/
def scanReady (s : Sys) (tid : Tid) : Bool :=
  match currentEntry (s.base.pc tid) with
  | some (.channel c) => (s.channels c).any fun ch => decide (0 < ch.ring.len)
  | _ => false

/-- What the next section of `ipc_select` does to its channel. -/
def touchChannel (s : Sys) (tid : Tid) : ChannelId → Option (Channel RawMessage) :=
  match s.base.pc tid, currentEntry (s.base.pc tid) with
  | .selRegister _ _ _, some (.channel c) =>
    update s.channels c ((s.channels c).map (·.registerReceiver tid))
  | .selUnregister _ _ _, some (.channel c) =>
    update s.channels c ((s.channels c).map (·.clearWaiting tid))
  | _, _ => s.channels

def unblocks : Notify.Pc → Option Tid
  | .sigUnblock _ t _ _ => some t
  | _ => none

def timerUnblocks : TimerPc → Option Tid
  | .unblock t => some t
  | _ => none

def arms : Notify.Pc → Bool
  | .waitDeadline _ _ | .selDeadline _ _ => true
  | _ => false

/-- `unblock` on a thread in the state `BlockedIpc`. -/
def release (ipc : Tid → Bool) : Option Tid → Tid → Bool
  | none => ipc
  | some t => update ipc t false

/-- The state after a section of `notification_signal`, `notification_wait` or `ipc_select`. -/
def afterRun (s : Sys) (tid : Tid) (b : Notify.Sys) : Sys :=
  { s with
    base := b
    channels := s.touchChannel tid
    ipc := release s.ipc (unblocks (s.base.pc tid))
    armedBy := if arms (s.base.pc tid) then update s.armedBy tid (s.number tid)
      else s.armedBy }

def run (s : Sys) (tid : Tid) (direct error : Bool) : Option Sys :=
  if s.op tid = .none then (s.base.run tid (s.scanReady tid)).map (s.afterRun tid)
  else s.runOp tid direct error

inductive Act
  | signal (u : Tid) (id : NotificationId) (bits : Word)
  | wait (tid : Tid) (id : NotificationId) (mask : Word) (timed : Bool)
  | select (tid : Tid) (entries : List SelectKind) (timed : Bool)
  | send (tid : Tid) (c : ChannelId) (buf : List UInt8)
  | call (tid : Tid) (c : ChannelId) (buf : List UInt8)
  | recv (tid : Tid) (c : ChannelId) (poll : Bool)
  | run (tid : Tid) (direct error : Bool)
  | takeCaller (c : ChannelId)
  /-- A wake that comes from elsewhere. -/
  | unblock (tid : Tid)
  /-- The deadline of a thread has passed. -/
  | expire (tid : Tid)
  | timer (locked : Bool)

/-- The bits that a signal takes for the waiters. -/
def taken (s : Sys) (id : NotificationId) (bits : Word) : List (Tid × Word) :=
  match s.base.table id with
  | some n => (Notify.Sys.signalObject n bits).2
  | none => []

def begin (s : Sys) (tid : Tid) (call : WaitCall) (timed : Bool) : Sys :=
  { s with
    call := update s.call tid call
    timed := update s.timed tid timed
    number := update s.number tid (s.number tid + 1)
    cleared := update s.cleared tid [] }

def Idle (s : Sys) (tid : Tid) : Prop := s.op tid = .none ∧ s.base.pc tid = .idle

instance (s : Sys) (tid : Tid) : Decidable (s.Idle tid) := inferInstanceAs (Decidable (_ ∧ _))

def next (s : Sys) : Act → Option Sys
  | .signal u id bits =>
    if s.op u = .none then
      (s.base.next (.signal u id bits)).map fun b =>
        { s with base := b, cleared := Notify.Sys.hand id s.cleared (s.taken id bits) }
    else none
  | .wait tid id mask timed =>
    if s.op tid = .none then
      (s.base.next (.wait tid id mask timed)).map fun b =>
        { s.begin tid (.wait id mask) timed with base := b }
    else none
  | .select tid entries timed =>
    if s.op tid = .none then
      (s.base.next (.select tid entries timed)).map fun b =>
        { s.begin tid (.select entries) timed with base := b }
    else none
  | .send tid c buf => if s.Idle tid then some (s.send tid c buf) else none
  | .call tid c buf => if s.Idle tid then some (s.callOn tid c buf) else none
  | .recv tid c poll => if s.Idle tid then some (s.recv tid c poll) else none
  | .run tid direct error => s.run tid direct error
  | .takeCaller c => some (s.takeCaller c)
  | .unblock tid => some (s.unblock tid)
  | .expire tid => (s.base.next (.expire tid)).map fun b => { s with base := b }
  | .timer locked =>
    (s.base.next (.timer locked)).map fun b =>
      { s with base := b, ipc := release s.ipc (timerUnblocks s.base.timer) }

abbrev Step (s : Sys) (a : Act) (s' : Sys) : Prop := s.next a = some s'

end Sys

def Op.wakes : Op → Option Tid
  | .callSwitch _ r | .wakeLook _ r _ | .wakeMark _ r _ | .wakeUnblock _ r _ => some r
  | _ => Option.none

def timerWakes : TimerPc → Option Tid
  | .cleanup t _ | .unblock t => some t
  | _ => none

def Sys.WakePending (s : Sys) (t : Tid) : Prop :=
  (∃ u, t ∈ (s.base.pc u).inFlight ∨ (s.op u).wakes = some t) ∨ timerWakes s.base.timer = some t

instance (s : Sys) (t : Tid) : Decidable (s.WakePending t) := inferInstanceAs (Decidable (_ ∨ _))

end Select

end Aios.Ipc
