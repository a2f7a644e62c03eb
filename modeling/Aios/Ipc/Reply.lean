import Aios.Ipc.Machine

/-!
Which call a reply answers.

`ipc_reply` answers the pending caller of the channel, not the sender of the request that was
received. The two are the same as long as no call is queued while the request of an earlier
call is still in the ring or with the server, whose reply has not taken the caller yet; a call
that timed out or was cancelled leaves its request behind, and then the next caller gets the reply
to it.
-/

namespace Aios.Ipc

open Aios.Lib Function

variable {srv : ThreadId} {M M' : Machine}

def Delivery.Matches (d : Delivery) : Prop :=
  ∀ n, d.request.origin = some n → d.caller = d.request.raw.sender ∧ d.slot.call = n

def RepliesMatch (M : Machine) : Prop := ∀ d ∈ M.deliveries, d.Matches

def Pc.delivers : Pc → Option ThreadId
  | .replyDeliver c _ => some c
  | _ => none

/-- The requests of calls for which the server has not taken the caller yet. -/
def Machine.outstanding (srv : ThreadId) (M : Machine) : List Message :=
  (M.channel.ring.messages ++ if (M.pc srv).delivers = none then M.request.toList else []).filter
    fun m => m.origin.isSome

def Act.queues (M : Machine) : Act → Option ThreadId
  | .call tid buf _ _ _ =>
    if (M.channel.call tid ⟨⟨tid, buf⟩, some M.nextCall⟩).toBool then some tid else none
  | _ => none

/-- A call is queued only when no request of an earlier call is outstanding, and not by the thread
that a reply to a call is about to be delivered to. -/
def Exclusive (srv : ThreadId) (M : Machine) (a : Act) : Prop :=
  ∀ t ∈ a.queues M, M.outstanding srv = [] ∧
    ∀ m ∈ M.request, m.origin.isSome = true → (M.pc srv).delivers ≠ some t

instance (M : Machine) (a : Act) : Decidable (Exclusive srv M a) := by
  unfold Exclusive
  infer_instance

def Pc.awaiting : Pc → Option ℕ
  | .callRegister n _ _ _ => some n
  | .callArm n _ _ => some n
  | .callSwitch n _ => some n
  | .callBlock n => some n
  | .callWoken n => some n
  | .callTake n => some n
  | _ => none

/-- Inside `ipc_recv`, or in `ipc_reply` about to deliver. -/
def Pc.serving : Pc → Bool
  | .recvArm _ | .recvBlock | .recvWoken | .recvClear | .recvError | .recvRetry => true
  | .replyDeliver _ _ => true
  | _ => false

structure Routed (srv : ThreadId) (M : Machine) : Prop where
  slots : ∀ t s, M.replySlots t = some s → (M.pc t).awaiting = some s.call
  single : ∀ m ∈ M.outstanding srv, ∀ m' ∈ M.outstanding srv, m = m'
  pending : ∀ m ∈ M.outstanding srv, ∀ c, M.channel.pendingCaller = some c → c = m.raw.sender
  current : ∀ m ∈ M.outstanding srv, ∀ n, (M.pc m.raw.sender).awaiting = some n → m.origin = some n
  serving : ∀ t, (M.pc t).serving = true → t = srv
  deliver : ∀ c, (M.pc srv).delivers = some c → ∀ m, M.request = some m → m.origin.isSome = true →
    c = m.raw.sender ∧ ∀ n, (M.pc c).awaiting = some n → m.origin = some n
  matched : RepliesMatch M

lemma routed_init : Routed srv Machine.init where
  slots t s h := by simp [Machine.init] at h
  single m h := by simp [Machine.outstanding, Machine.init, Channel.new, Pc.delivers] at h
  pending m h := by simp [Machine.outstanding, Machine.init, Channel.new, Pc.delivers] at h
  current m h := by simp [Machine.outstanding, Machine.init, Channel.new, Pc.delivers] at h
  serving t h := by simp [Machine.init, Pc.serving] at h
  deliver c h := by simp [Machine.init, Pc.delivers] at h
  matched d h := by simp [Machine.init] at h

lemma mem_outstanding {m : Message} : m ∈ M.outstanding srv ↔
    (m ∈ M.channel.ring.messages ∨ (M.pc srv).delivers = none ∧ M.request = some m) ∧
      m.origin.isSome = true := by
  unfold Machine.outstanding
  split_ifs with h <;> simp [List.mem_filter, h, or_and_right]

/-- Apart from program counters and reply slots, what the invariant is about is the same,
except that requests and the pending caller may have gone. -/
structure Same (M M' : Machine) : Prop where
  ring : ∀ m ∈ M'.channel.ring.messages, m.origin.isSome = true → m ∈ M.channel.ring.messages
  pending : ∀ c, M'.channel.pendingCaller = some c → M.channel.pendingCaller = some c
  request : ∀ m, M'.request = some m → M.request = some m
  deliveries : M'.deliveries = M.deliveries

lemma same_of_eq (hc : M'.channel = M.channel) (hr : M'.request = M.request)
    (hd : M'.deliveries = M.deliveries) : Same M M' where
  ring m hm _ := by rwa [hc] at hm
  pending c h := by rwa [hc] at h
  request m h := by rwa [hr] at h
  deliveries := hd

lemma Same.out (hs : Same M M')
    (hd : (M'.pc srv).delivers = none → (M.pc srv).delivers = none ∨ M'.request = none)
    {m : Message} (hm : m ∈ M'.outstanding srv) : m ∈ M.outstanding srv := by
  have hring := hs.ring m
  have hreq := hs.request m
  rw [mem_outstanding] at hm ⊢
  grind

variable {t : ThreadId} {buf : List UInt8} {msg : Message} {p : Pc}

section

variable (h : Routed srv M) (hs : Same M M')
include h hs

lemma Routed.advance (hpc : M'.pc = update M.pc t p)
    (haw : p.awaiting = none ∨ p.awaiting = (M.pc t).awaiting)
    (hserve : p.serving = true → t = srv) (hdel : p.delivers = none)
    (hnot : (M.pc t).delivers = none ∨ M'.request = none)
    (hslots : ∀ u s, M'.replySlots u = some s → (M'.pc u).awaiting = some s.call) :
    Routed srv M' := by
  have hpcs : ∀ u, M'.pc u = if u = t then p else M.pc u := fun u => by
    rw [hpc, update_apply]
  have hout : ∀ m ∈ M'.outstanding srv, m ∈ M.outstanding srv := fun m => hs.out (by grind)
  obtain ⟨-, hsingle, hpending, hcurrent, hserving, hdeliver, hmatched⟩ := h
  obtain ⟨-, hpend, hreq, hdels⟩ := hs
  constructor <;> grind [RepliesMatch]

lemma Routed.move (hpc : M'.pc = update M.pc t p) (hsl : M'.replySlots = M.replySlots)
    (haw : p.awaiting = (M.pc t).awaiting) (hserve : p.serving = true → t = srv)
    (hdel : p.delivers = none) (hnot : (M.pc t).delivers = none ∨ M'.request = none) :
    Routed srv M' := by
  refine h.advance hs hpc (.inr haw) hserve hdel hnot fun u s hu => ?_
  have := h.slots u s (hsl ▸ hu)
  rw [hpc, update_apply]
  split_ifs with hut
  · rw [haw, ← hut, this]
  · exact this

lemma Routed.leave (hidle : M.pc t = .idle) (hpc : M'.pc = update M.pc t p)
    (hsl : M'.replySlots = M.replySlots) (haw : p.awaiting = none)
    (hserve : p.serving = true → t = srv) (hdel : p.delivers = none) : Routed srv M' :=
  h.move hs hpc hsl (by rw [haw, hidle]; rfl) hserve hdel (.inl (by rw [hidle]; rfl))

lemma Routed.still (hpc : M'.pc = M.pc) (hsl : M'.replySlots = M.replySlots) : Routed srv M' := by
  have hout : ∀ {m}, m ∈ M'.outstanding srv → m ∈ M.outstanding srv :=
    hs.out fun hd => .inl (hpc ▸ hd)
  exact {
    slots := fun t s ht => hpc ▸ h.slots t s (hsl ▸ ht)
    single := fun m hm m' hm' => h.single m (hout hm) m' (hout hm')
    pending := fun m hm c hc => h.pending m (hout hm) c (hs.pending c hc)
    current := fun m hm n hn => h.current m (hout hm) n (hpc ▸ hn)
    serving := fun t ht => h.serving t (hpc ▸ ht)
    deliver := fun c ht m hm => hpc ▸ h.deliver c (hpc ▸ ht) m (hs.request m hm)
    matched := fun d hd => h.matched d (hs.deliveries ▸ hd) }

end

/-! ### The sections -/

lemma Routed.queued {N : Machine} (h : Routed srv M) {n : ℕ} (hidle : M.pc t = .idle)
    (hempty : M.outstanding srv = [])
    (hother : ∀ m, M.request = some m → m.origin.isSome = true → (M.pc srv).delivers ≠ some t)
    (hring : N.channel.ring.messages = M.channel.ring.messages ++ [msg])
    (hpend : N.channel.pendingCaller = some t) (hsender : msg.raw.sender = t)
    (horig : msg.origin = some n) (hreq : N.request = M.request) (hpc : N.pc = update M.pc t p)
    (hdelv : p.delivers = none) (haw : p.awaiting = some n) (hserve : p.serving = false)
    (hsl : N.replySlots = M.replySlots)
    (hdel : N.deliveries = M.deliveries) : Routed srv N := by
  have hpcs : ∀ u, N.pc u = if u = t then p else M.pc u := fun u => by
    rw [hpc, update_apply]
  -- the new request is the only one outstanding
  have hout : ∀ m ∈ N.outstanding srv, m = msg := by
    intro m hm
    have hno : m ∉ M.outstanding srv := by simp [hempty]
    rw [mem_outstanding] at hm hno
    grind [Pc.delivers]
  obtain ⟨hslots, -, -, -, hserving, hdeliver, hmatched⟩ := h
  constructor <;> grind [RepliesMatch, Pc.awaiting]

lemma Routed.call (h : Routed srv M) {bufLen ticks : ℕ} {busy : Bool} (hidle : M.pc t = .idle)
    (hok : Exclusive srv M (.call t buf bufLen ticks busy)) :
    Routed srv (M.call t buf bufLen ticks busy) := by
  have hfail : ∀ e, Routed srv (M.finish t (.error e)) := fun e =>
    h.leave (same_of_eq rfl rfl rfl) hidle rfl rfl rfl nofun rfl
  unfold Machine.call
  split
  · exact hfail _
  · cases hc : M.channel.call t ⟨⟨t, buf⟩, some M.nextCall⟩ with
    | error e => exact hfail e
    | ok rc =>
      obtain ⟨r, ch⟩ := rc
      obtain ⟨hring, hpend⟩ := Channel.call_ok hc
      obtain ⟨hempty, hother⟩ := hok t (by rw [Act.queues, hc]; rfl)
      cases r <;> cases busy <;>
        exact h.queued hidle hempty hother hring hpend rfl rfl rfl rfl rfl rfl rfl rfl rfl

lemma same_send {ch : Channel Message} (ho : msg.origin = none)
    (hring : ch.ring.messages = M.channel.ring.messages ++ [msg])
    (hpend : ch.pendingCaller = M.channel.pendingCaller) : Same M { M with channel := ch } where
  ring m hm hm' := by grind
  pending c hc := by rwa [hpend] at hc
  request _ hm := hm
  deliveries := rfl

lemma Routed.send (h : Routed srv M) (hidle : M.pc t = .idle) : Routed srv (M.send t buf) := by
  unfold Machine.send
  split
  · exact h.leave (same_of_eq rfl rfl rfl) hidle rfl rfl rfl nofun rfl
  · cases hc : M.channel.send ⟨⟨t, buf⟩, none⟩ with
    | error e => exact h.leave (same_of_eq rfl rfl rfl) hidle rfl rfl rfl nofun rfl
    | ok rc =>
      obtain ⟨r, ch⟩ := rc
      obtain ⟨hring, hpend⟩ := Channel.send_ok hc
      obtain ⟨ho, hp, hr, hd⟩ := same_send (M := M) rfl hring hpend
      cases r <;> exact h.leave ⟨ho, hp, hr, hd⟩ hidle rfl rfl rfl nofun rfl

lemma Routed.cancel (h : Routed srv M) (hidle : M.pc t = .idle) : Routed srv (M.cancel t) := by
  unfold Machine.cancel
  cases M.channel.pendingCaller with
  | none => exact h.leave (same_of_eq rfl rfl rfl) hidle rfl rfl rfl nofun rfl
  | some c =>
    exact h.leave ⟨fun _ hm _ => hm, nofun, fun _ hm => hm, rfl⟩ hidle rfl rfl rfl nofun rfl

lemma Routed.received {N : Machine} (h : Routed srv M) (hnone : (M.pc t).awaiting = none)
    (hsrv : (M.pc srv).delivers = none)
    (hring : M.channel.ring.messages = msg :: N.channel.ring.messages)
    (hpend : N.channel.pendingCaller = M.channel.pendingCaller) (hreq : N.request = some msg)
    (hpc : N.pc = update M.pc t .idle) (hsl : N.replySlots = M.replySlots)
    (hdel : N.deliveries = M.deliveries) : Routed srv N := by
  have hout : ∀ m ∈ N.outstanding srv, m ∈ M.outstanding srv := fun m => by
    rw [mem_outstanding, mem_outstanding]
    grind
  have hpcs : ∀ u, N.pc u = if u = t then .idle else M.pc u := fun u => by
    rw [hpc, update_apply]
  obtain ⟨hslots, hsingle, hpending, hcurrent, hserving, -, hmatched⟩ := h
  constructor <;> grind [RepliesMatch, Pc.awaiting, Pc.serving, Pc.delivers]

lemma Routed.recv (h : Routed srv M) {ticks : ℕ} (hidle : M.pc srv = .idle) :
    Routed srv (M.recv srv ticks) := by
  unfold Machine.recv
  cases hc : M.channel.recv srv (ticks == 0) with
  | error e => exact h.leave (same_of_eq rfl rfl rfl) hidle rfl rfl rfl nofun rfl
  | ok mc =>
    obtain ⟨m, ch⟩ := mc
    cases m with
    | none =>
      obtain ⟨hring, hpend⟩ := Channel.recv_none hc
      exact h.leave ⟨fun m hm _ => hring ▸ hm, fun c hcal => hpend ▸ hcal, fun m hm => hm, rfl⟩
        hidle rfl rfl rfl (fun _ => rfl) rfl
    | some msg =>
      obtain ⟨hring, hpend⟩ := Channel.recv_some hc
      exact h.received (by rw [hidle]; rfl) (by rw [hidle]; rfl) hring hpend rfl rfl rfl rfl

lemma same_drop : Same M { M with request := none } where
  ring _ hm _ := hm
  pending _ hc := hc
  request m hm := by cases hm
  deliveries := rfl

lemma Routed.reply (h : Routed srv M) (hidle : M.pc srv = .idle) :
    Routed srv (M.reply srv buf) := by
  have hnot : (M.pc srv).delivers = none := by rw [hidle]; rfl
  have hdrop := same_drop (M := M)
  unfold Machine.reply
  split
  · exact h.leave ⟨hdrop.ring, hdrop.pending, hdrop.request, rfl⟩ hidle rfl rfl rfl nofun rfl
  · cases hp : M.channel.pendingCaller with
    | none =>
      exact h.leave ⟨hdrop.ring, hdrop.pending, hdrop.request, rfl⟩ hidle rfl rfl rfl nofun rfl
    | some c =>
      -- the caller taken is the sender of the request, if that is a call's
      have hsame : ∀ m, M.request = some m → m.origin.isSome = true → c = m.raw.sender :=
        fun m hm ho => h.pending m (mem_outstanding.mpr ⟨.inr ⟨hnot, hm⟩, ho⟩) c hp
      obtain ⟨hslots, hsingle, -, hcurrent, hserving, -, hmatched⟩ := h
      refine ⟨?_, ?_, nofun, ?_, ?_, ?_, hmatched⟩ <;>
        simp only [Machine.setPc, update_apply, mem_outstanding] at hsingle hcurrent ⊢ <;>
        grind [Pc.awaiting, Pc.serving, Pc.delivers]

lemma Routed.delivered (h : Routed srv M) {c : ThreadId} (hpc : M.pc t = .replyDeliver c buf) :
    Routed srv (M.deliver t c buf) := by
  have hmatch : ∀ req s, M.request = some req → M.replySlots c = some s →
      Delivery.Matches ⟨req, c, s⟩ := by
    intro req s hreq hs n ho
    obtain rfl : t = srv := h.serving t (by rw [hpc]; rfl)
    obtain ⟨hc, hcall⟩ := h.deliver c (by rw [hpc]; rfl) req hreq (by rw [ho]; rfl)
    have := hcall s.call (h.slots c s hs)
    exact ⟨hc, by simp_all⟩
  -- first the machine with the request dropped and the thread moved on
  have hbase : Routed srv (Machine.setPc { M with request := none } t
      (.waking [.clearTimeout c, .unblock c])) := by
    obtain ⟨ho, hp, hr, hd⟩ := same_drop (M := M)
    exact h.move ⟨ho, hp, hr, hd⟩ rfl rfl (by rw [hpc]; rfl) nofun rfl (.inr rfl)
  unfold Machine.deliver
  cases hs : M.replySlots c with
  | none => exact hbase
  | some slot =>
    cases hreq : M.request with
    | none => exact hbase
    | some req =>
      have hslots := hbase.slots
      refine ⟨?_, hbase.single, hbase.pending, hbase.current, hbase.serving, hbase.deliver, ?_⟩
      · simp only [Machine.setPc, update_apply] at hslots ⊢
        grind
      · intro d hd
        rcases List.mem_cons.mp hd with rfl | hd'
        · exact hmatch req slot hreq hs
        · exact h.matched d hd'

lemma Routed.run (h : Routed srv M) {busy direct : Bool} (hrun : M.run t busy direct = some M') :
    Routed srv M' := by
  -- most sections touch neither the channel nor the reply slots
  have hmove : ∀ {N : Machine} {p q : Pc}, M.pc t = q → Same M N → N.pc = update M.pc t p →
      N.replySlots = M.replySlots → p.awaiting = q.awaiting →
      (p.serving = true → q.serving = true) → p.delivers = none → q.delivers = none →
      Routed srv N := by
    rintro N p q rfl hs hpc hsl haw hsv hdel hnot
    exact h.move hs hpc hsl haw (h.serving t ∘ hsv) hdel (.inl hnot)
  unfold Machine.run at hrun
  cases hpc : M.pc t with
  | idle => simp [hpc] at hrun
  | callRegister n bufLen d r =>
    simp only [hpc, Option.some.injEq] at hrun
    subst hrun
    refine h.advance (same_of_eq rfl rfl rfl) rfl (.inr (by rw [hpc]; rfl)) nofun rfl
      (.inl (by rw [hpc]; rfl)) ?_
    have hslots := h.slots
    simp only [Machine.setPc, update_apply]
    grind [Pc.awaiting]
  | callTake n =>
    -- the call gives up its slot and is no longer waiting
    simp only [hpc, Option.some.injEq] at hrun
    subst hrun
    refine h.advance (same_of_eq rfl rfl rfl) rfl (.inl rfl) nofun rfl (.inl (by rw [hpc]; rfl)) ?_
    have hslots := h.slots
    simp only [Machine.setPc, update_apply]
    grind
  | callClean n e =>
    simp only [hpc, Option.some.injEq] at hrun
    subst hrun
    obtain ⟨hring, hpend⟩ := M.channel.clearPending_eq t
    exact hmove hpc ⟨fun m hm _ => hring ▸ hm, hpend, fun m hm => hm, rfl⟩ rfl rfl rfl nofun rfl rfl
  | recvClear =>
    simp only [hpc, Option.some.injEq] at hrun
    subst hrun
    obtain ⟨hring, hpend⟩ := M.channel.clearWaiting_eq t
    exact hmove hpc ⟨fun m hm _ => hring ▸ hm, fun c hc => hpend ▸ hc, fun m hm => hm, rfl⟩ rfl rfl
      rfl (fun _ => rfl) rfl rfl
  | recvRetry =>
    simp only [hpc] at hrun
    cases hp : M.channel.ring.pop with
    | none =>
      simp only [hp, Option.some.injEq] at hrun
      subst hrun
      exact hmove hpc (same_of_eq rfl rfl rfl) rfl rfl rfl nofun rfl rfl
    | some mr =>
      simp only [hp, Option.some.injEq] at hrun
      subst hrun
      obtain rfl : t = srv := h.serving t (by rw [hpc]; rfl)
      exact h.received (by rw [hpc]; rfl) (by rw [hpc]; rfl) (MessageRing.pop_some hp) rfl rfl rfl
        rfl rfl
  | replyDeliver c buf =>
    simp only [hpc, Option.some.injEq] at hrun
    subst hrun
    exact h.delivered hpc
  | callArm n d r =>
    simp only [hpc, Option.some.injEq] at hrun
    subst hrun
    cases d <;> cases r <;>
      exact hmove hpc (same_of_eq rfl rfl rfl) rfl rfl rfl nofun rfl rfl
  | recvArm d =>
    simp only [hpc, Option.some.injEq] at hrun
    subst hrun
    cases d <;> exact hmove hpc (same_of_eq rfl rfl rfl) rfl rfl rfl (fun _ => rfl) rfl rfl
  | waking ops =>
    rcases ops with - | ⟨op, ops⟩
    · simp only [hpc, Option.some.injEq] at hrun
      subst hrun
      exact hmove hpc (same_of_eq rfl rfl rfl) rfl rfl rfl nofun rfl rfl
    · simp only [hpc, Option.some.injEq] at hrun
      subst hrun
      cases op <;> cases busy <;>
        exact hmove hpc (same_of_eq rfl rfl rfl) rfl rfl rfl nofun rfl rfl
  | _ =>
    simp only [hpc] at hrun
    (repeat' split at hrun) <;> cases hrun <;>
      exact hmove hpc (same_of_eq rfl rfl rfl) rfl rfl rfl (by simp [Pc.serving]) rfl rfl

lemma routed_step {a : Act} (h : Routed srv M) (hok : Exclusive srv M a)
    (hs : M.next srv a = some M') : Routed srv M' := by
  cases a <;> simp only [Machine.next] at hs
  case tick =>
    cases hs
    exact h.still (same_of_eq rfl rfl rfl) rfl rfl
  case irq cpu busy =>
    split at hs <;> cases hs
    rename_i op _ _
    cases op <;> cases busy <;> exact h.still (same_of_eq rfl rfl rfl) rfl rfl
  all_goals split at hs
  case run => cases hs
  case run => exact h.run hs
  all_goals rename_i hen; cases hs
  · exact h.still (same_of_eq rfl rfl rfl) rfl rfl
  · exact h.call hen.2 hok
  · exact h.send hen.2
  · exact h.cancel hen.2
  · exact h.recv hen.1
  · exact h.reply hen.1

/-- **Reply matching, while calls do not overlap.** In every interleaving in which a call is
queued only when no request of an earlier call is in the ring or waits for the server's reply to
take its caller, and not by the caller that it took, every reply to the request of a call is
delivered to the thread that made the call, into the slot of that very call. -/
theorem replies_match {M : Machine}
    (h : Runs (fun M a M' => M.next srv a = some M') (Exclusive srv) Machine.init M) :
    RepliesMatch M :=
  (Runs.inv (Routed srv) routed_init (fun _ _ _ hr hok hs => routed_step hr hok hs) h).matched

/-- Thread 1 calls with a deadline at tick 1, which passes; the call returns `ETIMEDOUT` and
its request stays in the ring. -/
def timedOutCall : List Act :=
  [.call 1 [] 0 1 false, .run 1 false false, .run 1 false false, .run 1 false false,
   .tick, .checkTimeouts 0, .irq 0 false, .irq 0 false, .irq 0 false,
   .run 1 false false, .run 1 false false, .run 1 false false, .run 1 false false]

def serve : List Act := [.recv 0, .reply [7], .run 0 false false]

/-- **A misrouted reply.** Thread 2 calls after the timeout of thread 1, and is sent the reply
to the request of thread 1. -/
theorem reply_goes_to_next_caller :
    ∃ M, Runs (fun M a M' => M.next 0 a = some M') (fun _ _ => True) Machine.init M ∧
      (∃ d ∈ M.deliveries, d.request.raw.sender = 1 ∧ d.request.origin = some 0 ∧ d.caller = 2 ∧
        d.slot.call = 1) ∧ ¬ RepliesMatch M := by
  have hsome : (Runs.exec (fun _ _ => True) (Machine.next 0) Machine.init
      (timedOutCall ++ [.call 2 [] 8 0 false, .run 2 false false] ++ serve)).isSome = true := by
    decide +kernel
  obtain ⟨M, hM⟩ := Option.isSome_iff_exists.mp hsome
  have hall : ∀ M ∈ Runs.exec (fun _ _ => True) (Machine.next 0) Machine.init
      (timedOutCall ++ [.call 2 [] 8 0 false, .run 2 false false] ++ serve),
      ∃ d ∈ M.deliveries, d.request.raw.sender = 1 ∧ d.request.origin = some 0 ∧ d.caller = 2 ∧
        d.slot.call = 1 := by decide +kernel
  have hd := hall M hM
  refine ⟨M, Runs.of_exec hM, hd, fun hmatch => ?_⟩
  obtain ⟨d, hmem, hsend, horig, hcall, -⟩ := hd
  have := (hmatch d hmem 0 horig).1
  rw [hcall, hsend] at this
  simp at this

theorem replies_match_one_call :
    ∃ M, Runs (fun M a M' => M.next 0 a = some M') (Exclusive 0) Machine.init M ∧
      M.deliveries ≠ [] ∧ RepliesMatch M := by
  have hall : ∀ M ∈ Runs.exec (Exclusive 0) (Machine.next 0) Machine.init
      ([.call 1 [] 8 0 false, .run 1 false false] ++ serve), M.deliveries.isEmpty = false := by
    decide +kernel
  have hsome : (Runs.exec (Exclusive 0) (Machine.next 0) Machine.init
      ([.call 1 [] 8 0 false, .run 1 false false] ++ serve)).isSome = true := by
    decide +kernel
  obtain ⟨M, hM⟩ := Option.isSome_iff_exists.mp hsome
  refine ⟨M, Runs.of_exec hM, fun hnil => ?_, replies_match (Runs.of_exec hM)⟩
  have := hall M hM
  rw [hnil] at this
  simp at this

end Aios.Ipc
