import Aios.Lib.Runs
import Aios.Ipc.Channel

/-!
What comes out of a channel is what went in.

Any number of threads call, send, receive, reply and cancel on one channel. Every section that
holds the lock of the channel table is one step; between the sections of a thread the others
run, and a blocked thread is woken at any time, with an error or without one. The history
keeps the messages the ring accepted and the pairs of sender and payload that `ipc_recv`
returned, in the order of the pops.
-/

namespace Aios.Ipc

open Aios.Lib List Option Function

namespace Delivery

inductive Phase
  | idle
  -- ipc_call, with its request queued
  | called
  -- ipc_recv, registered as the waiting receiver
  | waiting (bufLen : ℕ)
  -- ipc_recv, woken and no longer registered
  | woken (bufLen : ℕ)
  deriving DecidableEq

structure Port where
  channel : Channel RawMessage
  phase : ThreadId → Phase
  /-- The messages `ring.push` accepted, oldest first. -/
  accepted : List RawMessage
  /-- What `ipc_recv` returned, oldest first. -/
  received : List (ThreadId × List UInt8)

/-- A section of an operation; `error` says whether the thread was woken with an error. -/
inductive Act
  | call (tid : ThreadId) (buf : List UInt8)
  | callEnd (tid : ThreadId) (error : Bool)
  | send (tid : ThreadId) (buf : List UInt8)
  | recv (tid : ThreadId) (bufLen : ℕ) (poll : Bool)
  | recvWoken (tid : ThreadId)
  | recvEnd (tid : ThreadId) (error : Bool)
  | reply (tid : ThreadId)
  | cancel (tid : ThreadId)
  deriving DecidableEq

/-- What `ipc_recv` returns of a message: the sender and what fits into the buffer. -/
def copyOut (bufLen : ℕ) (msg : RawMessage) : ThreadId × List UInt8 :=
  (msg.sender, msg.data.take (min msg.data.length bufLen))

namespace Port

def setPhase (s : Port) (tid : ThreadId) (p : Phase) : Port :=
  { s with phase := update s.phase tid p }

def take (s : Port) (bufLen : ℕ) (msg : RawMessage) (ch : Channel RawMessage) : Port :=
  { s with channel := ch, received := s.received ++ [copyOut bufLen msg] }

/-- The locked section of `ipc_call`; the thread then waits for its reply. -/
def call (s : Port) (tid : ThreadId) (buf : List UInt8) : Port :=
  if maxMessageSize < buf.length then s
  else
    match s.channel.call tid ⟨tid, buf⟩ with
    | .error _ => s
    | .ok (_, ch) =>
      setPhase { s with channel := ch, accepted := s.accepted ++ [RawMessage.mk tid buf] } tid .called

def send (s : Port) (tid : ThreadId) (buf : List UInt8) : Port :=
  if maxMessageSize < buf.length then s
  else
    match s.channel.send ⟨tid, buf⟩ with
    | .error _ => s
    | .ok (_, ch) => { s with channel := ch, accepted := s.accepted ++ [RawMessage.mk tid buf] }

/-- The first locked section of `ipc_recv`. -/
def recv (s : Port) (tid : ThreadId) (bufLen : ℕ) (poll : Bool) : Port :=
  match s.channel.recv tid poll with
  | .error _ => s
  | .ok (some msg, ch) => s.take bufLen msg ch
  | .ok (none, ch) => { s with channel := ch }.setPhase tid (.waiting bufLen)

/-- The last locked section of an `ipc_recv` that was woken without an error. -/
def retry (s : Port) (bufLen : ℕ) : Port :=
  match s.channel.ring.pop with
  | none => s
  | some (msg, ring) => s.take bufLen msg { s.channel with ring := ring }

/-- One section, `none` when the thread is not at it. -/
def next (s : Port) : Act → Option Port
  | .call tid buf => if s.phase tid = .idle then some (s.call tid buf) else none
  | .callEnd tid error =>
    if s.phase tid = .called then
      some ((if error then { s with channel := s.channel.clearPending tid } else s).setPhase
        tid .idle)
    else none
  | .send tid buf => if s.phase tid = .idle then some (s.send tid buf) else none
  | .recv tid bufLen poll =>
    if s.phase tid = .idle then some (s.recv tid bufLen poll) else none
  | .recvWoken tid =>
    match s.phase tid with
    | .waiting bufLen =>
      some ({ s with channel := s.channel.clearWaiting tid }.setPhase tid (.woken bufLen))
    | _ => none
  | .recvEnd tid error =>
    match s.phase tid with
    | .woken bufLen => some ((if error then s else s.retry bufLen).setPhase tid .idle)
    | _ => none
  | .reply tid =>
    if s.phase tid = .idle then
      some { s with channel := { s.channel with pendingCaller := none } }
    else none
  | .cancel tid =>
    if s.phase tid = .idle then
      some { s with channel := { s.channel with pendingCaller := none } }
    else none

def start (id : ChannelId) (ownerA : ProcessId) : Port :=
  ⟨Channel.new id ownerA, fun _ => .idle, [], []⟩

end Port

def FullBuffers (_ : Port) : Act → Prop
  | .recv _ bufLen _ => maxMessageSize ≤ bufLen
  | _ => True

instance (s : Port) (a : Act) : Decidable (FullBuffers s a) := by
  cases a <;> unfold FullBuffers <;> infer_instance

/-! ### What a section does to the ring and the history -/

variable {s s' : Port} {a : Act}

inductive Flow (s s' : Port) : Prop
  | quiet (hring : s'.channel.ring = s.channel.ring) (hacc : s'.accepted = s.accepted)
    (hrec : s'.received = s.received)
  | pushed (msg : RawMessage) (hlen : msg.data.length ≤ maxMessageSize)
    (hring : s'.channel.ring.messages = s.channel.ring.messages ++ [msg])
    (hacc : s'.accepted = s.accepted ++ [msg]) (hrec : s'.received = s.received)
  | popped (msg : RawMessage) (bufLen : ℕ) (hbuf : maxMessageSize ≤ bufLen)
    (hring : s.channel.ring.messages = msg :: s'.channel.ring.messages)
    (hacc : s'.accepted = s.accepted) (hrec : s'.received = s.received ++ [copyOut bufLen msg])

def Waits (s : Port) : Prop :=
  ∀ tid n, s.phase tid = .waiting n ∨ s.phase tid = .woken n → maxMessageSize ≤ n

structure FlowInv (s : Port) : Prop where
  waits : Waits s
  short : ∀ msg ∈ s.channel.ring.messages, msg.data.length ≤ maxMessageSize
  balance : s.accepted.map (fun msg => (msg.sender, msg.data)) =
    s.received ++ s.channel.ring.messages.map fun msg => (msg.sender, msg.data)

lemma Waits.setPhase (h : Waits s) {tid : ThreadId} {p : Phase}
    (hp : ∀ n, p = .waiting n ∨ p = .woken n → maxMessageSize ≤ n) : Waits (s.setPhase tid p) := by
  intro t n ht
  by_cases htid : t = tid
  · subst htid
    simp only [Port.setPhase, update_self] at ht
    exact hp n ht
  · simp only [Port.setPhase, update_of_ne htid] at ht
    exact h t n ht

/-- **What a section can do.** -/
lemma flow_of_next (h : s.next a = some s') (ha : FullBuffers s a) (hw : Waits s) :
    Flow s s' ∧ Waits s' := by
  have hidle : ∀ n, (Phase.idle = .waiting n ∨ Phase.idle = .woken n) → maxMessageSize ≤ n :=
    fun n hn => by rcases hn with hn | hn <;> cases hn
  have hcalled : ∀ n, (Phase.called = .waiting n ∨ Phase.called = .woken n) →
      maxMessageSize ≤ n := fun n hn => by rcases hn with hn | hn <;> cases hn
  cases a with
  | call tid buf =>
    simp only [Port.next, ite_none_right_eq_some, Option.some.injEq] at h
    obtain ⟨-, rfl⟩ := h
    unfold Port.call
    split_ifs with hlong
    · exact ⟨.quiet rfl rfl rfl, hw⟩
    · cases hc : s.channel.call tid ⟨tid, buf⟩ with
      | error e => exact ⟨.quiet rfl rfl rfl, hw⟩
      | ok r =>
        exact ⟨.pushed ⟨tid, buf⟩ (not_lt.mp hlong) (Channel.call_ok hc).1 rfl rfl,
          Waits.setPhase hw hcalled⟩
  | callEnd tid error =>
    simp only [Port.next, ite_none_right_eq_some, Option.some.injEq] at h
    obtain ⟨-, rfl⟩ := h
    cases error with
    | false => exact ⟨.quiet rfl rfl rfl, hw.setPhase hidle⟩
    | true =>
      exact ⟨.quiet (Channel.clearPending_eq s.channel tid).1 rfl rfl, Waits.setPhase hw hidle⟩
  | send tid buf =>
    simp only [Port.next, ite_none_right_eq_some, Option.some.injEq] at h
    obtain ⟨-, rfl⟩ := h
    unfold Port.send
    split_ifs with hlong
    · exact ⟨.quiet rfl rfl rfl, hw⟩
    · cases hc : s.channel.send ⟨tid, buf⟩ with
      | error e => exact ⟨.quiet rfl rfl rfl, hw⟩
      | ok r =>
        exact ⟨.pushed ⟨tid, buf⟩ (not_lt.mp hlong) (Channel.send_ok hc).1 rfl rfl, hw⟩
  | recv tid bufLen poll =>
    simp only [Port.next, ite_none_right_eq_some, Option.some.injEq] at h
    obtain ⟨-, rfl⟩ := h
    unfold Port.recv
    cases hc : s.channel.recv tid poll with
    | error e => exact ⟨.quiet rfl rfl rfl, hw⟩
    | ok r =>
      obtain ⟨msg, ch⟩ := r
      cases msg with
      | some msg => exact ⟨.popped msg bufLen ha (Channel.recv_some hc).1 rfl rfl, hw⟩
      | none =>
        refine ⟨.quiet (Channel.recv_none hc).1 rfl rfl, Waits.setPhase hw fun n hn => ?_⟩
        rcases hn with hn | hn <;> cases hn
        exact ha
  | recvWoken tid =>
    simp only [Port.next] at h
    split at h
    · rename_i n hphase
      cases h
      refine ⟨.quiet (Channel.clearWaiting_eq s.channel tid).1 rfl rfl,
        Waits.setPhase hw fun n' hn => ?_⟩
      rcases hn with hn | hn <;> cases hn
      exact hw tid n (.inl hphase)
    · cases h
  | recvEnd tid error =>
    simp only [Port.next] at h
    split at h
    · rename_i n hphase
      cases h
      have hbuf := hw tid n (.inr hphase)
      cases error with
      | true => exact ⟨.quiet rfl rfl rfl, hw.setPhase hidle⟩
      | false =>
        unfold Port.retry
        cases hp : s.channel.ring.pop with
        | none => exact ⟨.quiet rfl rfl rfl, hw.setPhase hidle⟩
        | some mr =>
          exact ⟨.popped mr.1 n hbuf (MessageRing.pop_some hp) rfl rfl, Waits.setPhase hw hidle⟩
    · cases h
  | reply tid =>
    simp only [Port.next, ite_none_right_eq_some, Option.some.injEq] at h
    obtain ⟨-, rfl⟩ := h
    exact ⟨.quiet rfl rfl rfl, hw⟩
  | cancel tid =>
    simp only [Port.next, ite_none_right_eq_some, Option.some.injEq] at h
    obtain ⟨-, rfl⟩ := h
    exact ⟨.quiet rfl rfl rfl, hw⟩

lemma copyOut_full {msg : RawMessage} {bufLen : ℕ} (hlen : msg.data.length ≤ maxMessageSize)
    (hbuf : maxMessageSize ≤ bufLen) : copyOut bufLen msg = (msg.sender, msg.data) := by
  rw [copyOut, min_eq_left (le_trans hlen hbuf), take_length]

lemma FlowInv.next (h : FlowInv s) (ha : FullBuffers s a) (hs : s.next a = some s') :
    FlowInv s' := by
  obtain ⟨hflow, hw⟩ := flow_of_next hs ha h.waits
  cases hflow with
  | quiet hring hacc hrec =>
    exact ⟨hw, hring ▸ h.short, by rw [hacc, hrec, hring]; exact h.balance⟩
  | pushed msg hlen hring hacc hrec =>
    refine ⟨hw, fun m hm => ?_, ?_⟩
    · rw [hring] at hm
      rcases mem_append.mp hm with hm | hm
      · exact h.short m hm
      · exact mem_singleton.mp hm ▸ hlen
    · rw [hacc, hrec, hring, map_append, map_append, h.balance, append_assoc]
  | popped msg bufLen hbuf hring hacc hrec =>
    have hmsg := h.short msg (hring ▸ mem_cons_self)
    refine ⟨hw, fun m hm => h.short m (hring ▸ mem_cons_of_mem msg hm), ?_⟩
    rw [hacc, hrec, copyOut_full hmsg hbuf, h.balance, hring, map_cons, append_assoc]
    rfl

lemma FlowInv.start (id : ChannelId) (ownerA : ProcessId) : FlowInv (Port.start id ownerA) := by
  refine ⟨fun tid n hn => ?_, fun msg hm => ?_, rfl⟩
  · rcases hn with hn | hn <;> cases hn
  · cases hm

/-- **Channel delivery.** Whatever the interleaving, what `ipc_recv` has returned and what is
still in the ring are together exactly what the ring accepted, in order; so nothing is lost,
duplicated, reordered or altered, and the ring is never over its capacity. -/
theorem Port.delivered_in_order {id : ChannelId} {ownerA : ProcessId} {s : Port}
    (h : Runs (fun a i b => a.next i = some b) FullBuffers (Port.start id ownerA) s) :
    s.received <+: s.accepted.map (fun msg => (msg.sender, msg.data)) ∧
      s.accepted.map (fun msg => (msg.sender, msg.data)) =
        s.received ++ s.channel.ring.messages.map (fun msg => (msg.sender, msg.data)) ∧
      s.channel.ring.messages.length ≤ ringCapacity := by
  have hinv : FlowInv s := Runs.inv FlowInv (.start id ownerA)
    (fun _ _ _ hI ha hs => hI.next ha hs) h
  refine ⟨?_, hinv.balance, ?_⟩
  · rw [hinv.balance]
    exact prefix_append _ _
  · rw [MessageRing.length_messages]
    exact s.channel.ring.len_le

/-- A receiver waits, a call and a send are queued, the receiver is woken and takes the first,
the call fails with a timeout, and another receiver takes the second. -/
def crossedRun : List Act :=
  [.recv 3 256 false, .call 1 [10, 11], .send 2 [20], .recvWoken 3, .recvEnd 3 false,
    .callEnd 1 true, .recv 4 256 true]

theorem Port.delivered_in_order_crossed : ∃ s,
    Runs.exec FullBuffers Port.next (Port.start 0 0) crossedRun = some s ∧
      s.received = [(1, [10, 11]), (2, [20])] ∧
      s.received <+: s.accepted.map (fun msg => (msg.sender, msg.data)) := by
  obtain ⟨s, hs, hrec⟩ := (any_eq_true _ _).mp
    (show ((Runs.exec FullBuffers Port.next (Port.start 0 0) crossedRun).any fun s =>
      s.received == [(1, [10, 11]), (2, [20])]) = true by decide)
  exact ⟨s, hs, eq_of_beq hrec, (Port.delivered_in_order (Runs.of_exec hs)).1⟩

end Delivery

end Aios.Ipc
