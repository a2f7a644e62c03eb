import Aios.Ipc.Machine

/-!
Receivers and their wakes, on any number of channels.

Any thread may call, send, receive, reply and cancel on any channel; the channels stay alive. As in
`Ipc.Machine`, one step is one section that runs under a lock, `block_current` or an `unblock`, and
an `unblock` that finds its thread not blocked is lost. A sender takes the receiver off the channel
in one section and unblocks it in a later one. The reply slots, which no section reads here, and the
select records of threads, which a receiver does not have, are left out.
-/

namespace Aios.Ipc.Wakeup

open Aios.Lib Function

inductive Pc
  | idle
  -- ipc_call
  | callArm (channel : ChannelId) (deadline : Option ℕ) (receiver : Option ThreadId)
  | callSwitch (channel : ChannelId) (receiver : ThreadId)
  | callBlock (channel : ChannelId)
  | callWoken (channel : ChannelId)
  | callError (channel : ChannelId)
  | callClean (channel : ChannelId) (error : IpcError)
  -- ipc_send
  | sendClear (receiver : ThreadId)
  | sendUnblock (receiver : ThreadId)
  -- ipc_recv
  | recvArm (channel : ChannelId) (deadline : Option ℕ)
  | recvBlock (channel : ChannelId)
  | recvWoken (channel : ChannelId)
  | recvClear (channel : ChannelId)
  | recvError (channel : ChannelId)
  | recvRetry (channel : ChannelId)
  -- the wakes at the end of ipc_reply and ipc_cancel
  | waking (ops : List WakeOp)
  deriving DecidableEq

structure Sys where
  channels : ChannelId → Channel RawMessage
  timeouts : ThreadId → Option TimeoutEntry
  wakeupErrors : ThreadId → Option IpcError
  blocked : ThreadId → Bool
  pc : ThreadId → Pc
  /-- The wakes that the timer interrupt of a CPU still has to make. -/
  irq : ℕ → List WakeOp
  tick : ℕ

namespace Sys

/-- New channels, and every thread outside the operations. -/
def init : Sys where
  channels c := Channel.new c 0
  timeouts _ := none
  wakeupErrors _ := none
  blocked _ := false
  pc _ := .idle
  irq _ := []
  tick := 0

def setPc (s : Sys) (tid : ThreadId) (p : Pc) : Sys :=
  { s with pc := update s.pc tid p }

def setChannel (s : Sys) (c : ChannelId) (ch : Channel RawMessage) : Sys :=
  { s with channels := update s.channels c ch }

def armTimeout (s : Sys) (tid : ThreadId) (deadline : Option ℕ) : Sys :=
  match deadline with
  | some d => { s with timeouts := update s.timeouts tid (some ⟨d, .etimedout⟩) }
  | none => s

/-- `clear_timeout`, which does nothing when the queue is locked. -/
def clearTimeout (s : Sys) (tid : ThreadId) (busy : Bool) : Sys :=
  if busy then s else { s with timeouts := update s.timeouts tid none }

def setBlocked (s : Sys) (tid : ThreadId) (b : Bool) : Sys :=
  { s with blocked := update s.blocked tid b }

def wake (s : Sys) (busy : Bool) : WakeOp → Sys
  | .setError tid e => { s with wakeupErrors := update s.wakeupErrors tid (some e) }
  | .clearTimeout tid => s.clearTimeout tid busy
  | .unblock tid => s.setBlocked tid false

/-- The locked section of `check_timeouts`: take the expired entries and note their wakes. -/
def checkTimeouts (s : Sys) (cpu : ℕ) : Sys :=
  let expired := (List.range maxThreads).filter fun tid =>
    (s.timeouts tid).any fun te => decide (te.wakeAtTick ≤ s.tick)
  { s with
    timeouts := fun tid => if tid ∈ expired then none else s.timeouts tid
    irq := update s.irq cpu (expired.flatMap fun tid =>
      match s.timeouts tid with
      | some te => wakeWithError tid te.errorCode
      | none => []) }

/-- The first section of `ipc_call`. A waiting receiver's timeout is cleared in it. -/
def call (s : Sys) (tid : ThreadId) (c : ChannelId) (buf : List UInt8) (ticks : ℕ) (busy : Bool) :
    Sys :=
  if maxMessageSize < buf.length then s
  else
    match (s.channels c).call tid ⟨tid, buf⟩ with
    | .error _ => s
    | .ok (receiver, ch) =>
      let deadline := if ticks = 0 then none else Machine.deadlineAfter s.tick ticks
      let s' := match receiver with
        | some r => (s.setChannel c ch).clearTimeout r busy
        | none => s.setChannel c ch
      s'.setPc tid (.callArm c deadline receiver)

def send (s : Sys) (tid : ThreadId) (c : ChannelId) (buf : List UInt8) : Sys :=
  if maxMessageSize < buf.length then s
  else
    match (s.channels c).send ⟨tid, buf⟩ with
    | .error _ => s
    | .ok (none, ch) => s.setChannel c ch
    | .ok (some r, ch) => (s.setChannel c ch).setPc tid (.sendClear r)

/-- The first section of `ipc_recv`; 0 ticks is a poll. -/
def recv (s : Sys) (tid : ThreadId) (c : ChannelId) (ticks : ℕ) : Sys :=
  match (s.channels c).recv tid (ticks == 0) with
  | .error _ => s
  | .ok (some _, ch) => s.setChannel c ch
  | .ok (none, ch) =>
    (s.setChannel c ch).setPc tid (.recvArm c (Machine.deadlineAfter s.tick ticks))

/-- The first section of `ipc_reply` and `ipc_cancel`: take the pending caller. -/
def takeCaller (s : Sys) (tid : ThreadId) (c : ChannelId) (ops : ThreadId → List WakeOp) : Sys :=
  match (s.channels c).pendingCaller with
  | none => s
  | some caller =>
    (s.setChannel c { s.channels c with pendingCaller := none }).setPc tid (.waking (ops caller))

def reply (s : Sys) (tid : ThreadId) (c : ChannelId) (buf : List UInt8) : Sys :=
  if maxMessageSize < buf.length then s
  else s.takeCaller tid c fun caller => [.clearTimeout caller, .unblock caller]

def cancel (s : Sys) (tid : ThreadId) (c : ChannelId) : Sys :=
  s.takeCaller tid c fun caller => wakeWithError caller .ecanceled

/-- The next section of a thread inside an operation. `direct` is the direct switch of `ipc_call`,
which needs its receiver blocked. -/
def run (s : Sys) (tid : ThreadId) (busy direct : Bool) : Option Sys :=
  match s.pc tid with
  | .idle => none
  | .callArm c deadline receiver =>
    some ((s.armTimeout tid deadline).setPc tid (match receiver with
      | some r => .callSwitch c r
      | none => .callBlock c))
  | .callSwitch c r =>
    if direct then
      if s.blocked r then
        some (((s.setBlocked r false).setBlocked tid true).setPc tid (.callWoken c))
      else none
    else some ((s.setBlocked r false).setPc tid (.callBlock c))
  | .callBlock c => some ((s.setBlocked tid true).setPc tid (.callWoken c))
  | .callWoken c => some ((s.clearTimeout tid false).setPc tid (.callError c))
  | .callError c =>
    let s' := { s with wakeupErrors := update s.wakeupErrors tid none }
    match s.wakeupErrors tid with
    | some e => some (s'.setPc tid (.callClean c e))
    | none => some (s'.setPc tid .idle)
  | .callClean c _ =>
    some ((s.setChannel c ((s.channels c).clearPending tid)).setPc tid .idle)
  | .sendClear r => some ((s.clearTimeout r busy).setPc tid (.sendUnblock r))
  | .sendUnblock r => some ((s.setBlocked r false).setPc tid .idle)
  | .recvArm c deadline => some ((s.armTimeout tid deadline).setPc tid (.recvBlock c))
  | .recvBlock c => some ((s.setBlocked tid true).setPc tid (.recvWoken c))
  | .recvWoken c => some ((s.clearTimeout tid false).setPc tid (.recvClear c))
  | .recvClear c =>
    some ((s.setChannel c ((s.channels c).clearWaiting tid)).setPc tid (.recvError c))
  | .recvError c =>
    let s' := { s with wakeupErrors := update s.wakeupErrors tid none }
    match s.wakeupErrors tid with
    | some _ => some (s'.setPc tid .idle)
    | none => some (s'.setPc tid (.recvRetry c))
  | .recvRetry c =>
    match (s.channels c).ring.pop with
    | some (_, ring) => some ((s.setChannel c { s.channels c with ring := ring }).setPc tid .idle)
    | none => some (s.setPc tid .idle)
  | .waking [] => some (s.setPc tid .idle)
  | .waking (op :: ops) => some ((s.wake busy op).setPc tid (.waking ops))

inductive Act
  | tick
  | checkTimeouts (cpu : ℕ)
  | irq (cpu : ℕ) (busy : Bool)
  | call (tid : ThreadId) (c : ChannelId) (buf : List UInt8) (ticks : ℕ) (busy : Bool)
  | send (tid : ThreadId) (c : ChannelId) (buf : List UInt8)
  | recv (tid : ThreadId) (c : ChannelId) (ticks : ℕ)
  | reply (tid : ThreadId) (c : ChannelId) (buf : List UInt8)
  | cancel (tid : ThreadId) (c : ChannelId)
  | run (tid : ThreadId) (busy direct : Bool)

/-- The step of an action, `none` when it is not enabled. -/
def next (s : Sys) : Act → Option Sys
  | .tick => some { s with tick := s.tick + 1 }
  | .checkTimeouts cpu => if s.irq cpu = [] then some (s.checkTimeouts cpu) else none
  | .irq cpu busy =>
    match s.irq cpu with
    | [] => none
    | op :: ops => some { s.wake busy op with irq := update s.irq cpu ops }
  | .call tid c buf ticks busy =>
    if s.pc tid = .idle then some (s.call tid c buf ticks busy) else none
  | .send tid c buf => if s.pc tid = .idle then some (s.send tid c buf) else none
  | .recv tid c ticks => if s.pc tid = .idle then some (s.recv tid c ticks) else none
  | .reply tid c buf => if s.pc tid = .idle then some (s.reply tid c buf) else none
  | .cancel tid c => if s.pc tid = .idle then some (s.cancel tid c) else none
  | .run tid busy direct => if s.blocked tid then none else s.run tid busy direct

abbrev Step (s : Sys) (a : Act) (s' : Sys) : Prop := s.next a = some s'

end Sys

/-! ### What the sections do to the waiting receiver -/

section Channel

variable {ch ch' : Channel RawMessage} {msg : RawMessage} {r : Option ThreadId} {t : ThreadId}
  {poll : Bool}

lemma call_receiver (h : ch.call t msg = .ok (r, ch')) :
    r = ch.waitingReceiver ∧ ch'.waitingReceiver = none := by
  unfold Channel.call at h
  split_ifs at h
  cases hp : ch.ring.push msg <;> rw [hp] at h <;> cases h
  exact ⟨rfl, rfl⟩

lemma send_receiver (h : ch.send msg = .ok (r, ch')) :
    r = ch.waitingReceiver ∧ ch'.waitingReceiver = none := by
  unfold Channel.send at h
  split_ifs at h
  cases hp : ch.ring.push msg <;> rw [hp] at h <;> cases h
  exact ⟨rfl, rfl⟩

lemma recv_receiver {m : Option RawMessage} (h : ch.recv t poll = .ok (m, ch')) :
    m.isSome = true ∧ ch'.waitingReceiver = ch.waitingReceiver ∨
      m = none ∧ ch.waitingReceiver = none ∧ ch'.waitingReceiver = some t := by
  unfold Channel.recv at h
  split_ifs at h with h1 h2 h3 <;> cases hp : ch.ring.pop <;> rw [hp] at h <;> cases h
  case neg.none => exact .inr ⟨rfl, by simpa using h3, rfl⟩
  all_goals exact .inl ⟨rfl, rfl⟩

lemma clearPending_receiver (ch : Channel RawMessage) (t : ThreadId) :
    (ch.clearPending t).waitingReceiver = ch.waitingReceiver := by
  unfold Channel.clearPending
  split <;> rfl

lemma clearWaiting_receiver {w : ThreadId} (h : ch.waitingReceiver = some w) (hw : w ≠ t) :
    (ch.clearWaiting t).waitingReceiver = some w := by
  unfold Channel.clearWaiting
  rw [if_neg (by rw [h]; simpa using hw), h]

end Channel

/-! ### The invariant -/

def Pc.wakes (p : Pc) (t : ThreadId) : Bool :=
  match p with
  | .callArm _ _ (some r) | .callSwitch _ r | .sendClear r | .sendUnblock r => r == t
  | _ => false

def Pc.onItsWay : Pc → Option ChannelId
  | .recvArm c _ | .recvBlock c => some c
  | _ => none

namespace Sys

variable {s s' s'' : Sys} {t r : ThreadId} {c : ChannelId} {x : Pc}

def waiting (s : Sys) (c : ChannelId) : Option ThreadId := (s.channels c).waitingReceiver

/-- The thread is in `ipc_recv` on the channel, has registered and has not been unblocked. -/
def Receiving (s : Sys) (t : ThreadId) (c : ChannelId) : Prop :=
  (∃ d, s.pc t = .recvArm c d) ∨ s.pc t = .recvBlock c ∨
    s.pc t = .recvWoken c ∧ s.blocked t = true

def Inv (s : Sys) : Prop :=
  ∀ t c, s.Receiving t c → s.waiting c = some t ∨ ∃ u, (s.pc u).wakes t = true

lemma inv_init : init.Inv := by
  rintro t c (⟨d, h⟩ | h | ⟨h, -⟩) <;> cases h

/-- The unblock of the receiver is not lost: the receiver is not on its way to `block_current`, or
it is still registered on the channel. -/
def Heard (s : Sys) (r : ThreadId) : Prop := ∀ c ∈ (s.pc r).onItsWay, s.waiting c = some r

/-- The condition on the next section of a thread: the unblock with which `ipc_send` and `ipc_call`
wake the receiver they have taken is not lost. -/
def OrderlyAt (s : Sys) : Pc → Prop
  | .sendUnblock r | .callSwitch _ r => s.Heard r
  | _ => True

def Orderly (s : Sys) : Act → Prop
  | .run tid _ _ => s.OrderlyAt (s.pc tid)
  | _ => True

instance (s : Sys) (r : ThreadId) : Decidable (s.Heard r) := by unfold Heard; infer_instance

instance (s : Sys) (p : Pc) : Decidable (s.OrderlyAt p) := by
  unfold OrderlyAt
  split <;> infer_instance

instance (s : Sys) (a : Act) : Decidable (s.Orderly a) := by
  unfold Orderly
  split <;> infer_instance

section Frame

variable (s : Sys) (busy : Bool) (d : Option ℕ)

@[simp] lemma clearTimeout_pc : (s.clearTimeout t busy).pc = s.pc := by
  unfold clearTimeout; split <;> rfl

@[simp] lemma clearTimeout_blocked : (s.clearTimeout t busy).blocked = s.blocked := by
  unfold clearTimeout; split <;> rfl

@[simp] lemma clearTimeout_channels : (s.clearTimeout t busy).channels = s.channels := by
  unfold clearTimeout; split <;> rfl

@[simp] lemma armTimeout_pc : (s.armTimeout t d).pc = s.pc := by cases d <;> rfl

@[simp] lemma armTimeout_blocked : (s.armTimeout t d).blocked = s.blocked := by cases d <;> rfl

@[simp] lemma armTimeout_channels : (s.armTimeout t d).channels = s.channels := by cases d <;> rfl

end Frame

lemma wake_frame (s : Sys) (busy : Bool) (op : WakeOp) :
    (s.wake busy op).pc = s.pc ∧ (s.wake busy op).channels = s.channels ∧
      ∀ x, (s.wake busy op).blocked x = true → s.blocked x = true := by
  cases op <;> simp +contextual [wake, setBlocked, update_apply]

/-! ### The steps -/

/-- A section changes the point and the state of its own thread and one registration, and it may
unblock a thread. What has to be shown is that a receiver still has its registration or its
waker. -/
lemma Inv.of_points (h : s.Inv)
    (hs : ∀ t c,
      (∀ d, s.pc t = .recvArm c d → s.waiting c = some t ∨ ∃ u, (s.pc u).wakes t = true) →
      (s.pc t = .recvBlock c → s.waiting c = some t ∨ ∃ u, (s.pc u).wakes t = true) →
      (s.pc t = .recvWoken c → s.blocked t = true →
        s.waiting c = some t ∨ ∃ u, (s.pc u).wakes t = true) →
      s'.Receiving t c → s'.waiting c = some t ∨ ∃ u, (s'.pc u).wakes t = true) : s'.Inv :=
  fun t c => hs t c (fun d e => h t c (.inl ⟨d, e⟩)) (fun e => h t c (.inr (.inl e)))
    fun e b => h t c (.inr (.inr ⟨e, b⟩))

lemma of_idle {p : Sys → Prop} (hs : (if s.pc t = .idle then some s'' else none) = some s')
    (h : s.pc t = .idle → p s'') : p s' := by
  split_ifs at hs with hidle
  exact Option.some.inj hs ▸ h hidle

lemma Inv.run (h : s.Inv) {busy direct : Bool} (hok : s.OrderlyAt (s.pc t))
    (hs : s.run t busy direct = some s') : s'.Inv := by
  have hpend := fun c => clearPending_receiver (s.channels c) t
  have hclear : ∀ c w, (s.channels c).waitingReceiver = some w → w ≠ t →
      ((s.channels c).clearWaiting t).waitingReceiver = some w := fun _ _ => clearWaiting_receiver
  refine h.of_points fun t' c' harm hblock hwoken hr => ?_
  unfold Sys.run at hs
  cases hpc : s.pc t <;>
    simp only [hpc, OrderlyAt, Heard, Option.some.injEq, reduceCtorEq] at hs hok
  case callSwitch c r =>
    split_ifs at hs <;> cases hs
    all_goals
      simp only [Receiving, waiting, setPc, setBlocked, update_apply] at *
      grind -ring -linarith [Pc.wakes, Pc.onItsWay]
  case waking ops =>
    cases ops with
    | nil =>
      cases hs
      simp only [Receiving, waiting, setPc, update_apply] at *
      grind -ring -linarith [Pc.wakes]
    | cons op ops =>
      cases hs
      obtain ⟨hpcs, hch, hbl⟩ := wake_frame s busy op
      simp only [Receiving, waiting, setPc, hpcs, hch, update_apply] at *
      grind -ring -linarith [Pc.wakes]
  all_goals
    try split at hs
    all_goals
      cases hs
      simp only [Receiving, waiting, setPc, setBlocked, setChannel, update_apply,
        clearTimeout_pc, clearTimeout_blocked, clearTimeout_channels, armTimeout_pc,
        armTimeout_blocked, armTimeout_channels] at *
      grind -ring -linarith [Pc.wakes, Pc.onItsWay]

section

variable (h : s.Inv) (hidle : s.pc t = .idle)
include h hidle

lemma Inv.call (buf : List UInt8) (ticks : ℕ) (busy : Bool) : (s.call t c buf ticks busy).Inv := by
  unfold Sys.call
  by_cases hlen : maxMessageSize < buf.length
  · rwa [if_pos hlen]
  · rw [if_neg hlen]
    cases hcall : (s.channels c).call t ⟨t, buf⟩ with
    | error e => exact h
    | ok r =>
      obtain ⟨receiver, ch⟩ := r
      obtain ⟨hr, hnone⟩ := call_receiver hcall
      refine h.of_points fun t' c' harm hblock hwoken hrec => ?_
      cases receiver <;>
        simp only [Receiving, waiting, setPc, setChannel, update_apply, clearTimeout_pc,
          clearTimeout_blocked, clearTimeout_channels] at * <;>
        grind -ring -linarith [Pc.wakes]

lemma Inv.send (buf : List UInt8) : (s.send t c buf).Inv := by
  unfold Sys.send
  split_ifs
  · exact h
  · cases hsend : (s.channels c).send ⟨t, buf⟩ with
    | error e => exact h
    | ok r =>
      obtain ⟨receiver, ch⟩ := r
      obtain ⟨hr, hnone⟩ := send_receiver hsend
      refine h.of_points fun t' c' harm hblock hwoken hrec => ?_
      cases receiver <;>
        simp only [Receiving, waiting, setPc, setChannel, update_apply] at * <;>
        grind -ring -linarith [Pc.wakes]

lemma Inv.recv (ticks : ℕ) : (s.recv t c ticks).Inv := by
  unfold Sys.recv
  cases hrecv : (s.channels c).recv t (ticks == 0) with
  | error e => exact h
  | ok r =>
    obtain ⟨m, ch⟩ := r
    have hr := recv_receiver hrecv
    refine h.of_points fun t' c' harm hblock hwoken hrec => ?_
    cases m <;> simp only [Receiving, waiting, setPc, setChannel, update_apply] at * <;>
      grind -ring -linarith [Pc.wakes]

lemma Inv.takeCaller (ops : ThreadId → List WakeOp) : (s.takeCaller t c ops).Inv := by
  unfold Sys.takeCaller
  split
  · exact h
  · refine h.of_points fun t' c' harm hblock hwoken hrec => ?_
    simp only [Receiving, waiting, setPc, setChannel, update_apply] at *
    grind -ring -linarith [Pc.wakes]

end

lemma Inv.next (h : s.Inv) {a : Act} (hok : s.Orderly a) (hs : s.next a = some s') : s'.Inv := by
  cases a with
  | tick => cases hs; exact h
  | checkTimeouts cpu =>
    simp only [Sys.next] at hs
    split_ifs at hs
    cases hs
    exact h
  | irq cpu busy =>
    simp only [Sys.next] at hs
    split at hs <;> cases hs
    next op ops hops =>
    obtain ⟨hpc, hch, hbl⟩ := wake_frame s busy op
    refine h.of_points fun t c harm hblock hwoken hr => ?_
    simp only [Receiving, waiting, hpc, hch] at *
    grind -ring -linarith
  | run t busy direct =>
    simp only [Sys.next] at hs
    split_ifs at hs
    exact h.run hok hs
  | call t c buf ticks busy => exact of_idle hs fun hidle => h.call hidle buf ticks busy
  | send t c buf => exact of_idle hs fun hidle => h.send hidle buf
  | recv t c ticks => exact of_idle hs fun hidle => h.recv hidle ticks
  | reply t c buf =>
    refine of_idle hs fun hidle => ?_
    unfold Sys.reply
    split_ifs
    · exact h
    · exact h.takeCaller hidle _
  | cancel t c => exact of_idle hs fun hidle => h.takeCaller hidle _


def PendingWake (s : Sys) (u t : ThreadId) : Prop := u ≠ t ∧ (s.pc u).wakes t = true

/-- **No lost wakeup.** In every run whose unblocks are heard, by any threads on any channels and
with the timer running, a thread that is blocked in `ipc_recv` on a channel with a message in its
ring is the channel's waiting receiver, or another thread is about to unblock it. -/
theorem no_lost_wakeup (hrun : Runs Step Orderly init s) : ¬ ∃ t c, s.pc t = .recvWoken c ∧
    s.blocked t = true ∧ (s.channels c).ring.messages ≠ [] ∧
    (s.channels c).waitingReceiver ≠ some t ∧ ∀ u, ¬ s.PendingWake u t := by
  rintro ⟨t, c, hpc, hb, -, hwait, hno⟩
  have hinv : s.Inv := hrun.inv Inv inv_init fun _ _ _ hI hok hs => hI.next hok hs
  rcases hinv t c (.inr (.inr ⟨hpc, hb⟩)) with hw | ⟨u, hu⟩
  · exact hwait hw
  · refine hno u ⟨?_, hu⟩
    rintro rfl
    rw [hpc] at hu
    cases hu

def received : List Act :=
  [.recv 1 0 (2 ^ 64 - 1), .run 1 false false, .run 1 false false, .send 2 0 [7],
    .run 2 false false]

theorem no_lost_wakeup_received : ∃ s, Runs.exec Orderly next init received = some s ∧ s.pc 1 =
    .recvWoken 0 ∧ s.blocked 1 = true ∧ (s.channels 0).ring.len = 1 ∧
    (s.channels 0).waitingReceiver = none ∧ s.PendingWake 2 1 ∧ ¬ ∃ t c, s.pc t = .recvWoken c ∧
    s.blocked t = true ∧ (s.channels c).ring.messages ≠ [] ∧
    (s.channels c).waitingReceiver ≠ some t ∧ ∀ u, ¬ s.PendingWake u t := by
  obtain ⟨s, hs, h⟩ := (Option.any_eq_true _ _).mp
    (show ((Runs.exec Orderly next init received).any fun s =>
      decide (s.pc 1 = .recvWoken 0 ∧ s.blocked 1 = true ∧ (s.channels 0).ring.len = 1 ∧
        (s.channels 0).waitingReceiver = none ∧ (s.pc 2).wakes 1 = true)) = true by decide +kernel)
  obtain ⟨h1, h2, h3, h4, h5⟩ := of_decide_eq_true h
  exact ⟨s, hs, h1, h2, h3, h4, ⟨by decide, h5⟩, no_lost_wakeup (Runs.of_exec hs)⟩

def overtaken : List Act :=
  [.recv 1 0 (2 ^ 64 - 1), .send 2 0 [7], .run 2 false false, .run 2 false false,
    .run 1 false false, .run 1 false false]

/-- The message is in the ring and its receiver is blocked, and nobody will wake it. -/
theorem wakeup_lost : ∃ s, Runs Step (fun _ _ => True) init s ∧ ∃ t c, s.pc t = .recvWoken c ∧
    s.blocked t = true ∧ (s.channels c).ring.messages ≠ [] ∧
    (s.channels c).waitingReceiver ≠ some t ∧ ∀ u, ¬ s.PendingWake u t := by
  obtain ⟨s, hs, hidle⟩ : ∃ s, Runs.exec (fun _ _ => True) next init overtaken = some s ∧
      ∀ u, u ≠ 1 → s.pc u = .idle := by
    refine ⟨_, rfl, fun u hu => ?_⟩
    by_cases h2 : u = 2
    · subst h2
      rfl
    · show update (update (update (update (update
        (update (fun _ => Pc.idle) 1 _) 2 _) 2 _) 2 _) 1 _) 1 _ u = _
      simp [update_of_ne, hu, h2]
  have hstuck : ((Runs.exec (fun _ _ => True) next init overtaken).any fun s =>
      decide (s.pc 1 = .recvWoken 0 ∧ s.blocked 1 = true ∧ (s.channels 0).ring.len = 1 ∧
        (s.channels 0).waitingReceiver = none)) = true := by decide +kernel
  rw [hs] at hstuck
  obtain ⟨hpc, hb, hlen, hwait⟩ := of_decide_eq_true hstuck
  refine ⟨s, Runs.of_exec hs, 1, 0, hpc, hb, fun hnil => ?_, by simp [hwait], fun u hu => ?_⟩
  · have hmsgs := (s.channels 0).ring.length_messages
    rw [hnil, hlen] at hmsgs
    cases hmsgs
  · obtain ⟨hne, hw⟩ := hu
    rw [hidle u hne] at hw
    cases hw

end Sys

end Aios.Ipc.Wakeup
