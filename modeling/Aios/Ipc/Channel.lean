import Aios.Types
import Aios.Lib.Ring

/-!
The message ring and the channel record, `kernel/src/ipc/mod.rs`, and what the operations of
`kernel/src/ipc/channel.rs` do to a channel while they hold the lock of the channel table.

The record is generic in the message type.
-/

namespace Aios.Ipc

open Aios.Lib

variable {μ : Type}

/-- `MessageRing`. The indices are in range and the tail stands `len` slots behind the head. -/
structure MessageRing (μ : Type) where
  entries : Fin ringCapacity → μ
  head : ℕ
  tail : ℕ
  len : ℕ
  head_lt : head < ringCapacity
  tail_eq : tail = (head + len) % ringCapacity
  len_le : len ≤ ringCapacity

namespace MessageRing

/-- `MessageRing::new`, every entry holding the empty message. -/
def new [Inhabited μ] : MessageRing μ := ⟨fun _ => default, 0, 0, 0, by decide, rfl, by decide⟩

/-- `push`; `none` stands for the answer `false` of a full ring. -/
def push (r : MessageRing μ) (msg : μ) : Option (MessageRing μ) :=
  if h : r.len < ringCapacity then
    some
      { entries := Function.update r.entries (Fin.ofNat ringCapacity r.tail) msg
        head := r.head
        tail := (r.tail + 1) % ringCapacity
        len := r.len + 1
        head_lt := r.head_lt
        tail_eq := by rw [r.tail_eq, Nat.mod_add_mod, Nat.add_assoc]
        len_le := h }
  else none

def pop (r : MessageRing μ) : Option (μ × MessageRing μ) :=
  if h : r.len = 0 then none
  else
    some (r.entries (Fin.ofNat ringCapacity r.head),
      { entries := r.entries
        head := (r.head + 1) % ringCapacity
        tail := r.tail
        len := r.len - 1
        head_lt := Nat.mod_lt _ (by decide)
        tail_eq := by
          rw [r.tail_eq, Nat.mod_add_mod]
          congr 1
          omega
        len_le := le_trans (Nat.sub_le _ _) r.len_le })

def messages (r : MessageRing μ) : List μ := Ring.window r.entries r.head r.len

@[simp] lemma messages_new [Inhabited μ] : (new : MessageRing μ).messages = [] := rfl

lemma length_messages (r : MessageRing μ) : r.messages.length = r.len := Ring.length_window _ _ _

lemma push_some {r r' : MessageRing μ} {msg : μ} (h : r.push msg = some r') :
    r.messages.length < ringCapacity ∧ r'.messages = r.messages ++ [msg] := by
  unfold push at h
  split at h
  · rename_i hlt
    cases h
    refine ⟨by rw [length_messages]; exact hlt, ?_⟩
    have ht : Fin.ofNat ringCapacity r.tail = Fin.ofNat ringCapacity (r.head + r.len) := by
      rw [r.tail_eq]
      exact Ring.ofNat_mod (r.head + r.len) 0
    show Ring.window (Function.update r.entries (Fin.ofNat ringCapacity r.tail) msg) r.head
      (r.len + 1) = _
    rw [ht, Ring.window_push r.entries r.head hlt msg, messages]
  · simp at h

lemma pop_some {r r' : MessageRing μ} {msg : μ} (h : r.pop = some (msg, r')) :
    r.messages = msg :: r'.messages := by
  unfold pop at h
  split at h
  · simp at h
  · rename_i hne
    cases h
    obtain ⟨k, hk⟩ := Nat.exists_eq_succ_of_ne_zero hne
    show Ring.window r.entries r.head r.len = r.entries (Fin.ofNat ringCapacity r.head) ::
      Ring.window r.entries ((r.head + 1) % ringCapacity) (r.len - 1)
    rw [hk, Ring.window_succ, Ring.window_mod, Nat.succ_sub_one]

end MessageRing

inductive EndpointState
  | active | dead
  deriving DecidableEq, Repr

/-- `RawMessage`: the sender and the `len` bytes of payload in use. -/
structure RawMessage where
  sender : ThreadId
  data : List UInt8
  deriving DecidableEq, Repr

instance : Inhabited RawMessage := ⟨⟨0, []⟩⟩

structure Channel (μ : Type) where
  id : ChannelId
  stateA : EndpointState
  stateB : EndpointState
  ownerA : ProcessId
  ownerB : Option ProcessId
  ring : MessageRing μ
  waitingReceiver : Option ThreadId
  pendingCaller : Option ThreadId
  creationCap : Option CapabilityTokenId

namespace Channel

def new [Inhabited μ] (id : ChannelId) (ownerA : ProcessId) : Channel μ where
  id := id
  stateA := .active
  stateB := .active
  ownerA := ownerA
  ownerB := none
  ring := .new
  waitingReceiver := none
  pendingCaller := none
  creationCap := none

def isDead (ch : Channel μ) : Bool := ch.stateA == .dead || ch.stateB == .dead

/-- The locked section of `ipc_call`: queue the request, register the caller for the reply
and take the waiting receiver, which the call then wakes. -/
def call (ch : Channel μ) (caller : ThreadId) (msg : μ) :
    Except IpcError (Option ThreadId × Channel μ) :=
  if ch.isDead then .error .epipe
  else if ch.pendingCaller.isSome then .error .eagain
  else
    match ch.ring.push msg with
    | none => .error .enospc
    | some ring =>
      .ok (ch.waitingReceiver,
        { ch with ring := ring, pendingCaller := some caller, waitingReceiver := none })

/-- The locked section of `ipc_send`. -/
def send (ch : Channel μ) (msg : μ) : Except IpcError (Option ThreadId × Channel μ) :=
  if ch.isDead then .error .epipe
  else
    match ch.ring.push msg with
    | none => .error .eagain
    | some ring => .ok (ch.waitingReceiver, { ch with ring := ring, waitingReceiver := none })

/-- The first locked section of `ipc_recv`: take a message, or register to wait for one
(`none`); a poll does not wait. -/
def recv (ch : Channel μ) (receiver : ThreadId) (poll : Bool) :
    Except IpcError (Option μ × Channel μ) :=
  if ch.isDead then .error .epipe
  else
    match ch.ring.pop with
    | some (msg, ring) => .ok (some msg, { ch with ring := ring })
    | none =>
      if poll then .error .eagain
      else if ch.waitingReceiver.isSome then .error .eagain
      else .ok (none, { ch with waitingReceiver := some receiver })

def clearWaiting (ch : Channel μ) (receiver : ThreadId) : Channel μ :=
  if ch.waitingReceiver = some receiver then { ch with waitingReceiver := none } else ch

def clearPending (ch : Channel μ) (caller : ThreadId) : Channel μ :=
  if ch.pendingCaller = some caller then { ch with pendingCaller := none } else ch

/-- `process_exit` on a channel with an endpoint of the process. -/
def markDead (ch : Channel μ) : Channel μ :=
  { ch with stateA := .dead, stateB := .dead, waitingReceiver := none, pendingCaller := none }

/-! ### What the sections do to the ring and the pending caller -/

variable {ch ch' : Channel μ} {msg : μ} {r : Option ThreadId} {t : ThreadId} {poll : Bool}

lemma call_ok (h : ch.call t msg = .ok (r, ch')) :
    ch'.ring.messages = ch.ring.messages ++ [msg] ∧ ch'.pendingCaller = some t := by
  unfold call at h
  split_ifs at h
  cases hp : ch.ring.push msg with
  | none => simp [hp] at h
  | some ring =>
    simp only [hp, Except.ok.injEq, Prod.mk.injEq] at h
    obtain ⟨-, rfl⟩ := h
    exact ⟨(MessageRing.push_some hp).2, rfl⟩

lemma send_ok (h : ch.send msg = .ok (r, ch')) :
    ch'.ring.messages = ch.ring.messages ++ [msg] ∧ ch'.pendingCaller = ch.pendingCaller := by
  unfold send at h
  split_ifs at h
  cases hp : ch.ring.push msg with
  | none => simp [hp] at h
  | some ring =>
    simp only [hp, Except.ok.injEq, Prod.mk.injEq] at h
    obtain ⟨-, rfl⟩ := h
    exact ⟨(MessageRing.push_some hp).2, rfl⟩

lemma recv_some (h : ch.recv t poll = .ok (some msg, ch')) :
    ch.ring.messages = msg :: ch'.ring.messages ∧ ch'.pendingCaller = ch.pendingCaller := by
  cases hp : ch.ring.pop with
  | none =>
    simp only [recv, hp] at h
    split_ifs at h
    simp at h
  | some mr =>
    obtain ⟨m, ring⟩ := mr
    simp only [recv, hp] at h
    split_ifs at h
    simp only [Except.ok.injEq, Prod.mk.injEq, Option.some.injEq] at h
    obtain ⟨rfl, rfl⟩ := h
    exact ⟨MessageRing.pop_some hp, rfl⟩

lemma recv_none (h : ch.recv t poll = .ok (none, ch')) :
    ch'.ring = ch.ring ∧ ch'.pendingCaller = ch.pendingCaller := by
  cases hp : ch.ring.pop with
  | none =>
    simp only [recv, hp] at h
    split_ifs at h
    simp only [Except.ok.injEq, Prod.mk.injEq, true_and] at h
    rw [← h]; exact ⟨rfl, rfl⟩
  | some mr =>
    simp only [recv, hp] at h
    split_ifs at h
    simp at h

lemma clearWaiting_eq (ch : Channel μ) (t : ThreadId) :
    (ch.clearWaiting t).ring = ch.ring ∧ (ch.clearWaiting t).pendingCaller = ch.pendingCaller := by
  unfold clearWaiting
  split <;> exact ⟨rfl, rfl⟩

lemma clearPending_eq (ch : Channel μ) (t : ThreadId) : (ch.clearPending t).ring = ch.ring ∧
    ∀ c, (ch.clearPending t).pendingCaller = some c → ch.pendingCaller = some c := by
  unfold clearPending
  split
  · exact ⟨rfl, fun c h => by simp at h⟩
  · exact ⟨rfl, fun c h => h⟩

end Channel

end Aios.Ipc
