import Aios.Ipc.Machine

/-!
Waits that end with an error: `ipc_call`, `ipc_recv`, `ipc_reply`, `ipc_send`, `ipc_cancel`,
`channel_create`, `channel_destroy` and `check_timeouts` on the whole table of channels.

As in `Ipc.Machine`, one step is one section that runs under a lock, `block_current` or an
`unblock`, and an `unblock` that finds its thread not blocked is lost. A channel id outside the
table and a missing capability are errors that leave everything as it is, so the steps are those
on slots of the table by threads that hold their capability. The reply slots, which no section reads
here, and the records of `ipc_select`, which a thread in `ipc_call` or `ipc_recv` does not have, are
left out.

`wait`, `receiverWait`, `callerWait`, `timeoutWait`, `errorWait` and the number that a store carries
record what happened and are read by nothing: how many waits a thread has registered, which of them
stands in a channel or in the timeout queue, and at which of them the `wake_with_error` was aimed
that stored the thread's error.
-/

namespace Aios.Ipc.Errors

open Aios.Lib Function

def maxCores : ℕ := 8

instance : NeZero maxCores := ⟨by decide⟩

abbrev Tid := Fin maxThreads
abbrev Cid := Fin maxChannels
abbrev Cpu := Fin maxCores

inductive WakeStep
  | store (tid : Tid) (error : IpcError) (aim : ℕ)
  | clearTimeout (tid : Tid)
  | unblock (tid : Tid)
  deriving DecidableEq, Repr

def wakeWithError (tid : Tid) (error : IpcError) (aim : ℕ) : List WakeStep :=
  [.store tid error aim, .clearTimeout tid, .unblock tid]

inductive Pc
  | idle
  -- ipc_call
  | callArm (c : Cid) (deadline : Option ℕ) (receiver : Option Tid)
  | callSwitch (c : Cid) (receiver : Tid)
  | callBlock (c : Cid)
  | callWoken (c : Cid)
  | callError (c : Cid)
  | callClean (c : Cid) (error : IpcError)
  -- ipc_send
  | sendClear (receiver : Tid)
  | sendUnblock (receiver : Tid)
  -- ipc_recv
  | recvArm (c : Cid) (deadline : Option ℕ)
  | recvBlock (c : Cid)
  | recvWoken (c : Cid)
  | recvClear (c : Cid)
  | recvError (c : Cid)
  | recvRetry (c : Cid)
  -- the wakes at the end of ipc_reply, ipc_cancel and channel_destroy
  | waking (steps : List WakeStep)
  deriving DecidableEq, Repr

structure Sys where
  channels : Cid → Option (Channel RawMessage)
  timeouts : Tid → Option TimeoutEntry
  /-- `WAKEUP_ERRORS`; `none` stands for 0. -/
  wakeupErrors : Tid → Option IpcError
  /-- Is the thread in the state `BlockedIpc`? -/
  blocked : Tid → Bool
  pc : Tid → Pc
  /-- The wakes that the timer interrupt of a CPU still has to make. -/
  irq : Cpu → List WakeStep
  tick : ℕ
  wait : Tid → ℕ
  receiverWait : Cid → ℕ
  callerWait : Cid → ℕ
  timeoutWait : Tid → ℕ
  errorWait : Tid → ℕ

namespace Sys

/-- Every thread is outside the operations; the channels that exist have any rings. -/
def boot (rings : Cid → Option (MessageRing RawMessage)) : Sys where
  channels := fun c => (rings c).map fun r =>
    { (Channel.new c.val 0 : Channel RawMessage) with ring := r }
  timeouts _ := none
  wakeupErrors _ := none
  blocked _ := false
  pc _ := .idle
  irq _ := []
  tick := 0
  wait _ := 0
  receiverWait _ := 0
  callerWait _ := 0
  timeoutWait _ := 0
  errorWait _ := 0

def setPc (s : Sys) (t : Tid) (p : Pc) : Sys := { s with pc := update s.pc t p }

def setChannel (s : Sys) (c : Cid) (ch : Option (Channel RawMessage)) : Sys :=
  { s with channels := update s.channels c ch }

def setBlocked (s : Sys) (t : Tid) (b : Bool) : Sys :=
  { s with blocked := update s.blocked t b }

def armTimeout (s : Sys) (t : Tid) : Option ℕ → Sys
  | some d =>
    { s with
      timeouts := update s.timeouts t (some ⟨d, .etimedout⟩)
      timeoutWait := update s.timeoutWait t (s.wait t) }
  | none => s

/-- `clear_timeout`, which does nothing when the queue is locked. -/
def clearTimeout (s : Sys) (t : Tid) (busy : Bool) : Sys :=
  if busy then s else { s with timeouts := update s.timeouts t none }

def wake (s : Sys) (busy : Bool) : WakeStep → Sys
  | .store t e aim =>
    { s with
      wakeupErrors := update s.wakeupErrors t (some e)
      errorWait := update s.errorWait t aim }
  | .clearTimeout t => s.clearTimeout t busy
  | .unblock t => s.setBlocked t false

def expired (s : Sys) : List Tid :=
  (List.finRange maxThreads).filter fun t =>
    (s.timeouts t).any fun te => decide (te.wakeAtTick ≤ s.tick)

/-- The locked section of `check_timeouts`: take the expired entries and note their wakes. -/
def checkTimeouts (s : Sys) (cpu : Cpu) : Sys :=
  { s with
    timeouts := fun t => if t ∈ s.expired then none else s.timeouts t
    irq := update s.irq cpu (s.expired.flatMap fun t =>
      match s.timeouts t with
      | some te => wakeWithError t te.errorCode (s.timeoutWait t)
      | none => []) }

/-- The first section of `ipc_call`. A waiting receiver's timeout is cleared in it. -/
def call (s : Sys) (t : Tid) (c : Cid) (buf : List UInt8) (ticks : ℕ) (busy : Bool) : Sys :=
  if maxMessageSize < buf.length then s
  else
    match s.channels c with
    | none => s
    | some ch =>
      match ch.call t ⟨t, buf⟩ with
      | .error _ => s
      | .ok (receiver, ch) =>
        let deadline := if ticks = 0 then none else Machine.deadlineAfter s.tick ticks
        let s' := { s.setChannel c (some ch) with
          wait := update s.wait t (s.wait t + 1)
          callerWait := update s.callerWait c (s.wait t + 1) }
        match receiver with
        | some r =>
          (s'.clearTimeout (Fin.ofNat maxThreads r) busy).setPc t
            (.callArm c deadline (some (Fin.ofNat maxThreads r)))
        | none => s'.setPc t (.callArm c deadline none)

def send (s : Sys) (t : Tid) (c : Cid) (buf : List UInt8) : Sys :=
  if maxMessageSize < buf.length then s
  else
    match s.channels c with
    | none => s
    | some ch =>
      match ch.send ⟨t, buf⟩ with
      | .error _ => s
      | .ok (none, ch) => s.setChannel c (some ch)
      | .ok (some r, ch) =>
        (s.setChannel c (some ch)).setPc t (.sendClear (Fin.ofNat maxThreads r))

/-- The first section of `ipc_recv`; 0 ticks is a poll. -/
def recv (s : Sys) (t : Tid) (c : Cid) (ticks : ℕ) : Sys :=
  match s.channels c with
  | none => s
  | some ch =>
    match ch.recv t (ticks == 0) with
    | .error _ => s
    | .ok (some _, ch) => s.setChannel c (some ch)
    | .ok (none, ch) =>
      { s.setChannel c (some ch) with
        wait := update s.wait t (s.wait t + 1)
        receiverWait := update s.receiverWait c (s.wait t + 1) }.setPc t
        (.recvArm c (Machine.deadlineAfter s.tick ticks))

/-- The first section of `ipc_reply` and `ipc_cancel`: take the pending caller. -/
def takeCaller (s : Sys) (t : Tid) (c : Cid) (steps : Tid → ℕ → List WakeStep) : Sys :=
  match s.channels c with
  | none => s
  | some ch =>
    match ch.pendingCaller with
    | none => s
    | some caller =>
      (s.setChannel c (some { ch with pendingCaller := none })).setPc t
        (.waking (steps (Fin.ofNat maxThreads caller) (s.callerWait c)))

def reply (s : Sys) (t : Tid) (c : Cid) (buf : List UInt8) : Sys :=
  if maxMessageSize < buf.length then s
  else s.takeCaller t c fun caller _ => [.clearTimeout caller, .unblock caller]

def cancel (s : Sys) (t : Tid) (c : Cid) : Sys :=
  s.takeCaller t c fun caller aim => wakeWithError caller .ecanceled aim

/-- The wakes of `channel_destroy` for a thread that the channel names. -/
def epipe (aim : ℕ) : Option ThreadId → List WakeStep
  | some r => wakeWithError (Fin.ofNat maxThreads r) .epipe aim
  | none => []

/-- `channel_destroy_unchecked`, the section under the lock of the channels. -/
def destroy (s : Sys) (t : Tid) (c : Cid) : Sys :=
  match s.channels c with
  | none => s
  | some ch =>
    (s.setChannel c none).setPc t (.waking (epipe (s.receiverWait c) ch.waitingReceiver ++
      epipe (s.callerWait c) ch.pendingCaller))

/-- The next section of a thread inside an operation. `direct` is the direct switch of `ipc_call`,
which needs its receiver blocked. -/
def run (s : Sys) (t : Tid) (busy direct : Bool) : Option Sys :=
  match s.pc t with
  | .idle => none
  | .callArm c deadline receiver =>
    some ((s.armTimeout t deadline).setPc t (match receiver with
      | some r => .callSwitch c r
      | none => .callBlock c))
  | .callSwitch c r =>
    if direct then
      if s.blocked r then
        some (((s.setBlocked r false).setBlocked t true).setPc t (.callWoken c))
      else none
    else some ((s.setBlocked r false).setPc t (.callBlock c))
  | .callBlock c => some ((s.setBlocked t true).setPc t (.callWoken c))
  | .callWoken c => some ((s.clearTimeout t false).setPc t (.callError c))
  | .callError c =>
    let s' := { s with wakeupErrors := update s.wakeupErrors t none }
    match s.wakeupErrors t with
    | some e => some (s'.setPc t (.callClean c e))
    | none => some (s'.setPc t .idle)
  | .callClean c _ =>
    some ((s.setChannel c ((s.channels c).map (·.clearPending t))).setPc t .idle)
  | .sendClear r => some ((s.clearTimeout r busy).setPc t (.sendUnblock r))
  | .sendUnblock r => some ((s.setBlocked r false).setPc t .idle)
  | .recvArm c deadline => some ((s.armTimeout t deadline).setPc t (.recvBlock c))
  | .recvBlock c => some ((s.setBlocked t true).setPc t (.recvWoken c))
  | .recvWoken c => some ((s.clearTimeout t false).setPc t (.recvClear c))
  | .recvClear c =>
    some ((s.setChannel c ((s.channels c).map (·.clearWaiting t))).setPc t (.recvError c))
  | .recvError c =>
    let s' := { s with wakeupErrors := update s.wakeupErrors t none }
    match s.wakeupErrors t with
    | some _ => some (s'.setPc t .idle)
    | none => some (s'.setPc t (.recvRetry c))
  | .recvRetry c =>
    match (s.channels c).bind fun ch => ch.ring.pop.map fun x => { ch with ring := x.2 } with
    | some ch => some ((s.setChannel c (some ch)).setPc t .idle)
    | none => some (s.setPc t .idle)
  | .waking [] => some (s.setPc t .idle)
  | .waking (w :: steps) => some ((s.wake busy w).setPc t (.waking steps))

inductive Act
  | tick
  | checkTimeouts (cpu : Cpu)
  | irq (cpu : Cpu) (busy : Bool)
  | call (t : Tid) (c : Cid) (buf : List UInt8) (ticks : ℕ) (busy : Bool)
  | send (t : Tid) (c : Cid) (buf : List UInt8)
  | recv (t : Tid) (c : Cid) (ticks : ℕ)
  | reply (t : Tid) (c : Cid) (buf : List UInt8)
  | cancel (t : Tid) (c : Cid)
  | create (c : Cid) (owner : ProcessId)
  | destroy (t : Tid) (c : Cid)
  | run (t : Tid) (busy direct : Bool)

/-- The step of an action, `none` when it is not enabled. -/
def next (s : Sys) : Act → Option Sys
  | .tick => some { s with tick := s.tick + 1 }
  | .checkTimeouts cpu => if s.irq cpu = [] then some (s.checkTimeouts cpu) else none
  | .irq cpu busy =>
    match s.irq cpu with
    | [] => none
    | w :: steps => some { s.wake busy w with irq := update s.irq cpu steps }
  | .call t c buf ticks busy =>
    if s.pc t = .idle then some (s.call t c buf ticks busy) else none
  | .send t c buf => if s.pc t = .idle then some (s.send t c buf) else none
  | .recv t c ticks => if s.pc t = .idle then some (s.recv t c ticks) else none
  | .reply t c buf => if s.pc t = .idle then some (s.reply t c buf) else none
  | .cancel t c => if s.pc t = .idle then some (s.cancel t c) else none
  | .create c owner =>
    if s.channels c = none then some (s.setChannel c (some (Channel.new c.val owner))) else none
  | .destroy t c => if s.pc t = .idle then some (s.destroy t c) else none
  | .run t busy direct => if s.blocked t then none else s.run t busy direct

abbrev Step (s : Sys) (a : Act) (s' : Sys) : Prop := s.next a = some s'

def takes (s : Sys) (t : Tid) : Option IpcError :=
  match s.pc t with
  | .callError _ | .recvError _ => s.wakeupErrors t
  | _ => none

end Sys

end Aios.Ipc.Errors
