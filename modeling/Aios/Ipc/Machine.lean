import Aios.Lib.Runs
import Aios.Ipc.Channel

/-!
One channel, its callers and its server, section by section.

Every section that `ipc_call`, `ipc_recv`, `ipc_reply`, `ipc_send`, `ipc_cancel` and
`check_timeouts` run under a lock is one step, and between two sections of a thread any other
thread or the timer may run. A thread's program counter says which section of its operation
comes next. `block_current` takes a thread out until some `unblock`; an `unblock` that finds
the thread not blocked yet is lost, as in the source. The server thread alternates `ipc_recv`,
with a buffer for the largest message, and `ipc_reply`.

Each call gets a number that the code does not have: it is carried by the call's request and
by its reply slot, and nothing the code does depends on it.
-/

namespace Aios.Ipc

open Aios.Lib Function

/-- A queued message; `origin` is the number of the call that queued it, if it was a call. -/
structure Message where
  raw : RawMessage
  origin : Option ℕ
  deriving DecidableEq

instance : Inhabited Message := ⟨⟨default, none⟩⟩

/-- `ReplySlot`: the room the caller gave, and what the replier wrote. -/
structure ReplySlot where
  bufLen : ℕ
  data : List UInt8
  bytesWritten : ℕ
  call : ℕ
  deriving DecidableEq

structure TimeoutEntry where
  wakeAtTick : ℕ
  errorCode : IpcError
  deriving DecidableEq

/-- A section of `wake_with_error`, `clear_timeout` or `unblock` on a thread. -/
inductive WakeOp
  | setError (tid : ThreadId) (error : IpcError)
  | clearTimeout (tid : ThreadId)
  | unblock (tid : ThreadId)
  deriving DecidableEq

/-- The sections of `wake_with_error`. -/
def wakeWithError (tid : ThreadId) (error : IpcError) : List WakeOp :=
  [.setError tid error, .clearTimeout tid, .unblock tid]

inductive Pc
  | idle
  -- ipc_call number `n`
  | callRegister (n bufLen : ℕ) (deadline : Option ℕ) (receiver : Option ThreadId)
  | callArm (n : ℕ) (deadline : Option ℕ) (receiver : Option ThreadId)
  | callSwitch (n : ℕ) (receiver : ThreadId)
  | callBlock (n : ℕ)
  | callWoken (n : ℕ)
  | callTake (n : ℕ)
  | callError (n bytes : ℕ)
  | callClean (n : ℕ) (error : IpcError)
  -- ipc_recv
  | recvArm (deadline : Option ℕ)
  | recvBlock
  | recvWoken
  | recvClear
  | recvError
  | recvRetry
  -- ipc_reply, once it has taken the caller
  | replyDeliver (caller : ThreadId) (buf : List UInt8)
  -- the wakes at the end of ipc_send, ipc_cancel and ipc_reply
  | waking (ops : List WakeOp)
  deriving DecidableEq

structure Delivery where
  request : Message
  caller : ThreadId
  slot : ReplySlot

structure Machine where
  channel : Channel Message
  replySlots : ThreadId → Option ReplySlot
  timeouts : ThreadId → Option TimeoutEntry
  wakeupErrors : ThreadId → Option IpcError
  blocked : ThreadId → Bool
  pc : ThreadId → Pc
  /-- What a thread's last operation returned. -/
  answer : ThreadId → Except IpcError ℕ
  /-- The wakes that the timer interrupt of a CPU still has to make. -/
  irq : ℕ → List WakeOp
  tick : ℕ
  /-- The message the server has received and not replied to yet. -/
  request : Option Message
  nextCall : ℕ
  deliveries : List Delivery

namespace Machine

/-- A new channel, and every thread outside the operations. -/
def init : Machine where
  channel := Channel.new 0 0
  replySlots _ := none
  timeouts _ := none
  wakeupErrors _ := none
  blocked _ := false
  pc _ := .idle
  answer _ := .ok 0
  irq _ := []
  tick := 0
  request := none
  nextCall := 0
  deliveries := []

def setPc (M : Machine) (tid : ThreadId) (p : Pc) : Machine :=
  { M with pc := update M.pc tid p }

def finish (M : Machine) (tid : ThreadId) (a : Except IpcError ℕ) : Machine :=
  { M.setPc tid .idle with answer := update M.answer tid a }

/-- `deadline_after`: no deadline when the sum would reach `u64::MAX`. -/
def deadlineAfter (now ticks : ℕ) : Option ℕ :=
  if now + ticks < 2 ^ 64 - 1 then some (now + ticks) else none

def armTimeout (M : Machine) (tid : ThreadId) (deadline : Option ℕ) : Machine :=
  match deadline with
  | some d => { M with timeouts := update M.timeouts tid (some ⟨d, .etimedout⟩) }
  | none => M

/-- `clear_timeout`, which does nothing when the queue is locked. -/
def clearTimeout (M : Machine) (tid : ThreadId) (busy : Bool) : Machine :=
  if busy then M else { M with timeouts := update M.timeouts tid none }

def setBlocked (M : Machine) (tid : ThreadId) (b : Bool) : Machine :=
  { M with blocked := update M.blocked tid b }

def wake (M : Machine) (busy : Bool) : WakeOp → Machine
  | .setError tid e => { M with wakeupErrors := update M.wakeupErrors tid (some e) }
  | .clearTimeout tid => M.clearTimeout tid busy
  | .unblock tid => M.setBlocked tid false

/-- The locked section of `check_timeouts`: take the expired entries and note their wakes. -/
def checkTimeouts (M : Machine) (cpu : ℕ) : Machine :=
  let expired := (List.range maxThreads).filter fun tid =>
    (M.timeouts tid).any fun te => decide (te.wakeAtTick ≤ M.tick)
  { M with
    timeouts := fun tid => if tid ∈ expired then none else M.timeouts tid
    irq := update M.irq cpu (expired.flatMap fun tid =>
      match M.timeouts tid with
      | some te => wakeWithError tid te.errorCode
      | none => []) }

/-- The first section of `ipc_call`. A waiting receiver's timeout is cleared in it. -/
def call (M : Machine) (tid : ThreadId) (buf : List UInt8) (bufLen ticks : ℕ) (busy : Bool) :
    Machine :=
  if maxMessageSize < buf.length then M.finish tid (.error .enospc)
  else
    match M.channel.call tid ⟨⟨tid, buf⟩, some M.nextCall⟩ with
    | .error e => M.finish tid (.error e)
    | .ok (receiver, ch) =>
      let deadline := if ticks = 0 then none else deadlineAfter M.tick ticks
      let M' := { M with channel := ch, nextCall := M.nextCall + 1 }
      let M'' := match receiver with
        | some r => M'.clearTimeout r busy
        | none => M'
      M''.setPc tid (.callRegister M.nextCall bufLen deadline receiver)

def send (M : Machine) (tid : ThreadId) (buf : List UInt8) : Machine :=
  if maxMessageSize < buf.length then M.finish tid (.error .enospc)
  else
    match M.channel.send ⟨⟨tid, buf⟩, none⟩ with
    | .error e => M.finish tid (.error e)
    | .ok (none, ch) => { M with channel := ch }.finish tid (.ok 0)
    | .ok (some r, ch) => { M with channel := ch }.setPc tid (.waking [.clearTimeout r, .unblock r])

def cancel (M : Machine) (tid : ThreadId) : Machine :=
  match M.channel.pendingCaller with
  | none => M.finish tid (.ok 0)
  | some c =>
    { M with channel := { M.channel with pendingCaller := none } }.setPc tid
      (.waking (wakeWithError c .ecanceled))

/-- The first section of the server's `ipc_recv`; 0 ticks is a poll. -/
def recv (M : Machine) (srv : ThreadId) (ticks : ℕ) : Machine :=
  match M.channel.recv srv (ticks == 0) with
  | .error e => M.finish srv (.error e)
  | .ok (some msg, ch) =>
    { M with channel := ch, request := some msg }.finish srv (.ok msg.raw.data.length)
  | .ok (none, ch) => { M with channel := ch }.setPc srv (.recvArm (deadlineAfter M.tick ticks))

/-- The first section of the server's `ipc_reply`: take the pending caller. -/
def reply (M : Machine) (srv : ThreadId) (buf : List UInt8) : Machine :=
  if maxMessageSize < buf.length then { M with request := none }.finish srv (.error .enospc)
  else
    match M.channel.pendingCaller with
    | none => { M with request := none }.finish srv (.error .eproto)
    | some c =>
      { M with channel := { M.channel with pendingCaller := none } }.setPc srv
        (.replyDeliver c buf)

/-- The section of `ipc_reply` that copies the reply into the caller's slot. -/
def deliver (M : Machine) (srv caller : ThreadId) (buf : List UInt8) : Machine :=
  let M' := match M.replySlots caller, M.request with
    | some slot, some req =>
      let n := min buf.length slot.bufLen
      { M with
        replySlots := update M.replySlots caller
          (some { slot with data := buf.take n, bytesWritten := n })
        deliveries := ⟨req, caller, slot⟩ :: M.deliveries }
    | _, _ => M
  { M' with request := none }.setPc srv (.waking [.clearTimeout caller, .unblock caller])

/-- The next section of a thread inside an operation. `direct` is the direct switch of
`ipc_call`, which needs its receiver blocked. -/
def run (M : Machine) (tid : ThreadId) (busy direct : Bool) : Option Machine :=
  match M.pc tid with
  | .idle => none
  | .callRegister n bufLen deadline receiver =>
    some ({ M with replySlots := update M.replySlots tid (some ⟨bufLen, [], 0, n⟩) }.setPc
      tid (.callArm n deadline receiver))
  | .callArm n deadline receiver =>
    some ((M.armTimeout tid deadline).setPc tid (match receiver with
      | some r => .callSwitch n r
      | none => .callBlock n))
  | .callSwitch n r =>
    if direct then
      if M.blocked r then
        some (((M.setBlocked r false).setBlocked tid true).setPc tid (.callWoken n))
      else none
    else some ((M.setBlocked r false).setPc tid (.callBlock n))
  | .callBlock n => some ((M.setBlocked tid true).setPc tid (.callWoken n))
  | .callWoken n => some ((M.clearTimeout tid false).setPc tid (.callTake n))
  | .callTake n =>
    some ({ M with replySlots := update M.replySlots tid none }.setPc tid
      (.callError n (((M.replySlots tid).map ReplySlot.bytesWritten).getD 0)))
  | .callError n bytes =>
    let M' := { M with wakeupErrors := update M.wakeupErrors tid none }
    match M.wakeupErrors tid with
    | some e => some (M'.setPc tid (.callClean n e))
    | none => some (M'.finish tid (.ok bytes))
  | .callClean _ e =>
    some ({ M with channel := M.channel.clearPending tid }.finish tid (.error e))
  | .recvArm deadline => some ((M.armTimeout tid deadline).setPc tid .recvBlock)
  | .recvBlock => some ((M.setBlocked tid true).setPc tid .recvWoken)
  | .recvWoken => some ((M.clearTimeout tid false).setPc tid .recvClear)
  | .recvClear => some ({ M with channel := M.channel.clearWaiting tid }.setPc tid .recvError)
  | .recvError =>
    let M' := { M with wakeupErrors := update M.wakeupErrors tid none }
    match M.wakeupErrors tid with
    | some e => some (M'.finish tid (.error e))
    | none => some (M'.setPc tid .recvRetry)
  | .recvRetry =>
    match M.channel.ring.pop with
    | some (msg, ring) =>
      some ({ M with channel := { M.channel with ring := ring }, request := some msg }.finish tid
        (.ok msg.raw.data.length))
    | none => some (M.finish tid (.error .eagain))
  | .replyDeliver caller buf => some (M.deliver tid caller buf)
  | .waking [] => some (M.finish tid (.ok 0))
  | .waking (op :: ops) => some ((M.wake busy op).setPc tid (.waking ops))

end Machine

inductive Act
  | tick
  | checkTimeouts (cpu : ℕ)
  | irq (cpu : ℕ) (busy : Bool)
  | call (tid : ThreadId) (buf : List UInt8) (bufLen ticks : ℕ) (busy : Bool)
  | send (tid : ThreadId) (buf : List UInt8)
  | cancel (tid : ThreadId)
  | recv (ticks : ℕ)
  | reply (buf : List UInt8)
  | run (tid : ThreadId) (busy direct : Bool)

/-- The step of an action, `none` when it is not enabled. -/
def Machine.next (srv : ThreadId) (M : Machine) : Act → Option Machine
  | .tick => some { M with tick := M.tick + 1 }
  | .checkTimeouts cpu => if M.irq cpu = [] then some (M.checkTimeouts cpu) else none
  | .irq cpu busy =>
    match M.irq cpu with
    | [] => none
    | op :: ops => some { M.wake busy op with irq := update M.irq cpu ops }
  | .call tid buf bufLen ticks busy =>
    if tid ≠ srv ∧ M.pc tid = .idle then some (M.call tid buf bufLen ticks busy) else none
  | .send tid buf => if tid ≠ srv ∧ M.pc tid = .idle then some (M.send tid buf) else none
  | .cancel tid => if tid ≠ srv ∧ M.pc tid = .idle then some (M.cancel tid) else none
  | .recv ticks => if M.pc srv = .idle ∧ M.request = none then some (M.recv srv ticks) else none
  | .reply buf =>
    if M.pc srv = .idle ∧ M.request.isSome then some (M.reply srv buf) else none
  | .run tid busy direct => if M.blocked tid then none else M.run tid busy direct

end Aios.Ipc
