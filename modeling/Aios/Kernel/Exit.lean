import Aios.Kernel.State

/-!
Whom `process_exit` wakes.

The scan of the channel table takes the registered threads off every channel with an endpoint
of the process and collects them in an array of 16 places; the wakes are made from the array
after the scan. A thread that finds no place has lost its registration and is not woken.
-/

namespace Aios

open Aios.Lib Aios.Ipc List

variable {μ : Type}

def epipeCapacity : ℕ := 16

def Ipc.Channel.ownedBy (ch : Channel μ) (pid : ProcessId) : Bool :=
  ch.ownerA == pid || ch.ownerB == some pid

def Ipc.Channel.registered (ch : Channel μ) : List ThreadId :=
  ch.waitingReceiver.toList ++ ch.pendingCaller.toList

def noteWakeup (ws : List ThreadId) (tid : ThreadId) : List ThreadId :=
  if ws.length < epipeCapacity then ws ++ [tid] else ws

def scanChannel (pid : ProcessId) (ws : List ThreadId) (ch : Channel μ) : List ThreadId :=
  if ch.ownedBy pid then ch.registered.foldl noteWakeup ws else ws

def epipeWakeups (channels : Slots maxChannels (Channel μ)) (pid : ProcessId) : List ThreadId :=
  channels.items.foldl (scanChannel pid) []

def Kernel.exitWakes (K : Kernel) (pid : ProcessId) : List (ThreadId × IpcError) :=
  if pid < maxProcesses then (epipeWakeups K.channels pid).map (·, .epipe) else []

def peersOf (channels : Slots maxChannels (Channel μ)) (pid : ProcessId) : List ThreadId :=
  (channels.items.filter (·.ownedBy pid)).flatMap (·.registered)

lemma foldl_noteWakeup (ws l : List ThreadId) (hws : ws.length ≤ epipeCapacity) :
    l.foldl noteWakeup ws = (ws ++ l).take epipeCapacity := by
  induction l generalizing ws with
  | nil => rw [foldl_nil, append_nil, take_of_length_le hws]
  | cons tid l ih =>
    rw [foldl_cons, noteWakeup]
    split_ifs with hroom
    · rw [ih (ws ++ [tid]) (by rw [length_append]; exact hroom), append_assoc]
      rfl
    · -- no place left
      have hfull : ws.length = epipeCapacity := by omega
      rw [ih ws hws, take_append_of_le_length hfull.ge, take_append_of_le_length hfull.ge]

lemma foldl_scanChannel (pid : ProcessId) (ws : List ThreadId) (chs : List (Channel μ))
    (hws : ws.length ≤ epipeCapacity) : chs.foldl (scanChannel pid) ws =
    (ws ++ (chs.filter (·.ownedBy pid)).flatMap (·.registered)).take epipeCapacity := by
  let own (ch : Channel μ) : Bool := ch.ownedBy pid
  induction chs generalizing ws with
  | nil => simp [take_of_length_le hws]
  | cons ch chs ih =>
    rw [foldl_cons, scanChannel]
    by_cases hown : ch.ownedBy pid = true
    · rw [if_pos hown, foldl_noteWakeup ws _ hws, ih _ (length_take_le _ _),
        filter_cons_of_pos (p := own) hown, flatMap_cons, ← append_assoc]
      -- what was cut off once is cut off again
      by_cases hlen : (ws ++ ch.registered).length ≤ epipeCapacity
      · rw [take_of_length_le hlen]
      · have hle : epipeCapacity ≤ (ws ++ ch.registered).length := by omega
        rw [take_append_of_le_length (by rw [length_take, min_eq_left hle]),
          take_append_of_le_length hle, take_take, min_self]
    · rw [if_neg hown, ih ws hws, filter_cons_of_neg (p := own) hown]

lemma epipeWakeups_eq (channels : Slots maxChannels (Channel μ)) (pid : ProcessId) :
    epipeWakeups channels pid = (peersOf channels pid).take epipeCapacity :=
  foldl_scanChannel pid [] channels.items (Nat.zero_le _)

lemma mem_peersOf {channels : Slots maxChannels (Channel μ)} {pid : ProcessId} {tid : ThreadId} :
    tid ∈ peersOf channels pid ↔ ∃ i ch, channels i = some ch ∧ ch.ownedBy pid = true ∧
      (ch.waitingReceiver = some tid ∨ ch.pendingCaller = some tid) := by
  simp only [peersOf, mem_flatMap, mem_filter, Slots.mem_items, Channel.registered, mem_append,
    Option.mem_toList]
  exact ⟨fun ⟨ch, ⟨⟨i, hch⟩, hown⟩, htid⟩ => ⟨i, ch, hch, hown, htid⟩,
    fun ⟨i, ch, hch, hown, htid⟩ => ⟨ch, ⟨⟨i, hch⟩, hown⟩, htid⟩⟩

namespace Kernel

lemma refused_of_dead {K : Kernel} {i : Fin maxChannels} {ch : Channel RawMessage}
    (hch : K.channels i = some ch) (hdead : ch.isDead = true) (tid : ThreadId) (buf : List UInt8)
    (poll : Bool) (n : ℕ) : (K.ipcCall tid i buf).1 ≠ .ok n ∧ (K.ipcSend tid i buf).1 ≠ .ok n ∧
    (K.ipcRecv tid i poll).1 ≠ .ok n := by
  have hon : ∀ f : Channel RawMessage → Except IpcError (Option (Channel RawMessage)),
      f ch = .error .epipe → (K.withAccess tid i (K.onChannel i f)).1 ≠ .ok n := by
    intro f hf
    unfold withAccess
    cases K.owner tid with
    | none => simp
    | some pid =>
      dsimp only
      cases K.checkChannelAccess pid i with
      | error e => simp
      | ok _ => simp [onChannel, hch, hf]
  refine ⟨?_, ?_, ?_⟩
  · unfold ipcCall
    split_ifs
    · simp
    · exact hon _ (by simp [Channel.call, hdead, Except.map])
  · unfold ipcSend
    split_ifs
    · simp
    · exact hon _ (by simp [Channel.send, hdead, Except.map])
  · exact hon _ (by simp [Channel.recv, hdead, Except.map])

/-- **Process exit wakes every peer.** The exit of a process calls `wake_with_error` with `EPIPE`
for every thread registered on its channels exactly when each of them is among the first 16
registrations in table order; and none of the channels takes a call, a send or a receive any
more. -/
theorem exit_wakes_peers (K : Kernel) {pid : ProcessId} (hpid : pid < maxProcesses) :
    ((∀ i ch, K.channels i = some ch → ch.ownedBy pid = true →
        ∀ tid, ch.waitingReceiver = some tid ∨ ch.pendingCaller = some tid →
          (tid, .epipe) ∈ K.exitWakes pid) ↔
      ∀ tid ∈ peersOf K.channels pid, tid ∈ (peersOf K.channels pid).take epipeCapacity) ∧
    ∀ i ch, K.channels i = some ch → ch.ownedBy pid = true →
      ∀ tid buf poll n, ((K.processExit pid).ipcCall tid i buf).1 ≠ .ok n ∧
        ((K.processExit pid).ipcSend tid i buf).1 ≠ .ok n ∧
        ((K.processExit pid).ipcRecv tid i poll).1 ≠ .ok n := by
  have hwakes : ∀ tid, (tid, .epipe) ∈ K.exitWakes pid ↔
      tid ∈ (peersOf K.channels pid).take epipeCapacity := by
    intro tid
    rw [exitWakes, if_pos hpid, epipeWakeups_eq]
    simp only [mem_map, Prod.mk.injEq, and_true, exists_eq_right]
  refine ⟨⟨fun h tid htid => ?_, fun h i ch hch hown tid htid => ?_⟩,
    fun i ch hch hown tid buf poll n => ?_⟩
  · obtain ⟨i, ch, hch, hown, hreg⟩ := mem_peersOf.mp htid
    exact (hwakes tid).mp (h i ch hch hown tid hreg)
  · exact (hwakes tid).mpr (h tid (mem_peersOf.mpr ⟨i, ch, hch, hown, htid⟩))
  · have hown' : ch.ownerA = pid ∨ ch.ownerB = some pid := by
      simpa [Channel.ownedBy] using hown
    have hdead : (K.processExit pid).channels i = some ch.markDead := by
      simp only [processExit, if_pos hpid, hch, Option.map_some, if_pos hown']
    exact refused_of_dead hdead rfl tid buf poll n

/-- Process 1 has the first `n` channels, with a receiver waiting on each. -/
def serverOf (n : ℕ) : Kernel where
  procs := Slots.empty
  owner _ := none
  channels i :=
    if i.val < n then some { Channel.new i 1 with waitingReceiver := some (i + 10) } else none
  regions := Slots.empty
  nextTokenId := 0
  tick := 0

theorem exit_wakes_peers_two : (serverOf 2).exitWakes 1 = [(10, .epipe), (11, .epipe)] ∧
    (11, .epipe) ∈ (serverOf 2).exitWakes 1 := by
  have hch : (serverOf 2).channels 1
      = some { Channel.new 1 1 with waitingReceiver := some 11 } := rfl
  exact ⟨by decide, (exit_wakes_peers (serverOf 2) (by decide)).1.mpr (by decide) 1 _ hch rfl 11
    (.inl rfl)⟩

/-- **The seventeenth peer is forgotten.** -/
theorem exit_forgets_peer : ∃ ch, (serverOf 17).channels 16 = some ch ∧ ch.ownedBy 1 = true ∧
    ch.waitingReceiver = some 26 ∧ (26, .epipe) ∉ (serverOf 17).exitWakes 1 :=
  ⟨_, rfl, by decide, rfl, by decide⟩

end Kernel

end Aios
