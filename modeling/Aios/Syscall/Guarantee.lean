import Aios.Syscall.Dispatch

/-!
What the other threads do to the tables while a thread runs a syscall.

`Rely` bounds what can happen to the entries of a thread: its registrations, the bits stored for
it, its record in `ipc_select`, and the exit codes. Every section of every syscall of another thread
keeps to it, and so does a whole syscall, with what still others do in between.
-/

namespace Aios.Syscall

open Aios.Lib Aios.Lib.Shared Aios.Lib.Fallible Aios.Ipc Function List Slots
open Aios.Ipc.Notify (Tid Word NotificationId NotificationObject Waiter maxNotifications
  maxSelectEntries)

/-! ### What the others may do -/

def Registered (k : Tables) (i : Tid) (mask : Word) : Prop :=
  ∃ id n s, k.notifications id = some n ∧ n.waiters s = some ⟨i, mask⟩

def Deliverable (k : Tables) (i : Tid) (bits : Word) : Prop :=
  bits ∈ k.inFlight i ∨ ∃ mask word, Registered k i mask ∧ bits = word &&& mask

/-- The bits are stored for the thread, or may come to be. -/
def Owed (k : Tables) (i : Tid) (bits : Word) : Prop :=
  k.results i = some bits ∨ Deliverable k i bits

/-- What other threads and the timer do while a thread runs a syscall. They register themselves
only, so that the registrations of the thread do not become more; they store for it only what they
have taken by one of its masks; they mark one of its own entries as ready, or take its record away;
and a process exits with a code of its own. -/
structure Rely (tid : Option Tid) (codes : ProcessId → Set (BitVec 32)) (s t : Tables) : Prop where
  registered : ∀ i ∈ tid, ∀ mask, Registered t i mask → Registered s i mask
  inFlight : ∀ i ∈ tid, ∀ bits ∈ t.inFlight i, Deliverable s i bits
  results : ∀ i ∈ tid, ∀ bits, t.results i = some bits → Owed s i bits
  select : ∀ i ∈ tid, ∀ sw, t.selects i = some sw → ∃ sw', s.selects i = some sw' ∧
    sw.entries = sw'.entries ∧
      (sw.ready = sw'.ready ∨ ∃ r, sw.ready = some r ∧ r.1 < sw.entries.length)
  exitCodes : ∀ pid, t.exitCodes pid = s.exitCodes pid ∨ t.exitCodes pid ∈ codes pid

namespace Rely

variable {tid : Option Tid} {codes : ProcessId → Set (BitVec 32)} {s t u : Tables} {i : Tid}
  {bits : Word}

lemma deliverable (h : Rely tid codes s t) (hi : i ∈ tid) (hb : Deliverable t i bits) :
    Deliverable s i bits := by
  rcases hb with hb | ⟨mask, word, hreg, hb⟩
  · exact h.inFlight i hi bits hb
  · exact .inr ⟨mask, word, h.registered i hi mask hreg, hb⟩

lemma owed (h : Rely tid codes s t) (hi : i ∈ tid) (hb : Owed t i bits) : Owed s i bits := by
  rcases hb with hb | hb
  · exact h.results i hi bits hb
  · exact .inr (h.deliverable hi hb)

@[grind ←] lemma refl (s : Tables) : Rely tid codes s s where
  registered _ _ _ h := h
  inFlight _ _ _ h := .inl h
  results _ _ _ h := .inl h
  select _ _ sw h := ⟨sw, h, rfl, .inl rfl⟩
  exitCodes _ := .inl rfl

lemma trans (h : Rely tid codes s t) (h' : Rely tid codes t u) : Rely tid codes s u where
  registered i hi mask hreg := h.registered i hi mask (h'.registered i hi mask hreg)
  inFlight i hi bits hb := h.deliverable hi (h'.inFlight i hi bits hb)
  results i hi bits hb := h.owed hi (h'.results i hi bits hb)
  select i hi sw hsw := by
    obtain ⟨sw', hsw', hentries, hready⟩ := h'.select i hi sw hsw
    obtain ⟨sw'', hsw'', hentries', hready'⟩ := h.select i hi sw' hsw'
    refine ⟨sw'', hsw'', hentries.trans hentries', ?_⟩
    rcases hready with hready | hready
    · rw [hready, hentries]
      exact hready'
    · exact .inr hready
  exitCodes pid := by
    rcases h'.exitCodes pid with h1 | h1
    · rw [h1]
      exact h.exitCodes pid
    · exact .inr h1

end Rely

/-! ### Steps that leave the entries of every thread alone -/

/-- The parts of the tables that `Rely` is about are the same. -/
structure SameEntries (s t : Tables) : Prop where
  notifications : t.notifications = s.notifications
  inFlight : t.inFlight = s.inFlight
  results : t.results = s.results
  selects : t.selects = s.selects
  exitCodes : t.exitCodes = s.exitCodes

namespace SameEntries

variable {s t u : Tables}

lemma same (h : (t.notifications, t.inFlight, t.results, t.selects, t.exitCodes) =
    (s.notifications, s.inFlight, s.results, s.selects, s.exitCodes)) : SameEntries s t := by
  simp only [Prod.mk.injEq] at h
  exact ⟨h.1, h.2.1, h.2.2.1, h.2.2.2.1, h.2.2.2.2⟩

attribute [grind ←] SameEntries.mk
attribute [grind] Tables.setThread Tables.setTimeout Tables.setReplySlot Tables.setKernel
  Tables.onKernel Tables.onMemory Tables.tidyChannel

@[grind ←] lemma refl (s : Tables) : SameEntries s s := .same rfl

lemma trans (h : SameEntries s t) (h' : SameEntries t u) : SameEntries s u :=
  ⟨h'.1.trans h.1, h'.2.trans h.2, h'.3.trans h.3, h'.4.trans h.4, h'.5.trans h.5⟩

@[grind ←] lemma rely {tid : Option Tid} {codes : ProcessId → Set (BitVec 32)} (h : SameEntries s t) :
    Rely tid codes s t where
  registered i _ mask hreg := by
    obtain ⟨id, n, slot, hn, hs⟩ := hreg
    exact ⟨id, n, slot, h.notifications ▸ hn, hs⟩
  inFlight i _ bits hb := .inl (h.inFlight ▸ hb)
  results i _ bits hb := .inl (h.results ▸ hb)
  select i _ sw hsw := ⟨sw, h.selects ▸ hsw, rfl, .inl rfl⟩
  exitCodes pid := .inl (congrFun h.exitCodes pid)

@[grind ←] lemma clearTimeout (tid : ThreadId)
  (k : Tables) : SameEntries k (k.clearTimeout tid) := by
  unfold Tables.clearTimeout
  split_ifs <;> exact .same rfl

@[grind ←] lemma armTimeout (tid : ThreadId) (deadline : Option ℕ) (k : Tables) :
    SameEntries k (k.armTimeout tid deadline) := by
  cases deadline <;> exact .same rfl

@[grind ←] lemma unblock (tid : ThreadId) (k : Tables) : SameEntries k (k.unblock tid) := by
  unfold Tables.unblock
  split_ifs <;> exact .same rfl

@[grind ←] lemma wakeWithError (e : IpcError) (tid : ThreadId) (k : Tables) :
    SameEntries k (k.wakeWithError e tid) := by
  have herr : SameEntries k
      { k with wakeupErrors := update k.wakeupErrors tid (some e) } :=
    ⟨rfl, rfl, rfl, rfl, rfl⟩
  exact (herr.trans (.clearTimeout tid _)).trans (.unblock tid _)

@[grind ←] lemma withChannel {α : Type} (channel : ChannelId)
    (f : Channel RawMessage → Except IpcError (α × Channel RawMessage)) (k : Tables) :
    SameEntries k (k.withChannel channel f).2 := by
  unfold Tables.withChannel
  repeat' split
  all_goals exact .same rfl

@[grind ←] lemma destroySection (channel : ChannelId) (k : Tables) :
    SameEntries k (Syscall.destroySection channel k).2 := by
  unfold Syscall.destroySection
  repeat' split
  all_goals exact .same rfl

@[grind ←] lemma tryDirectSwitch (sender receiver : ThreadId) (k : Tables) :
    SameEntries k (k.tryDirectSwitch sender receiver).2 := by
  unfold Tables.tryDirectSwitch
  split_ifs <;> exact .same rfl

@[grind ←] lemma tryReplySwitch (replier caller : ThreadId) (k : Tables) :
    SameEntries k (k.tryReplySwitch replier caller).2 := by
  unfold Tables.tryReplySwitch
  split_ifs <;> exact .same rfl

@[grind ←] lemma fillReplySlot (caller : ThreadId) (buf : List UInt8) (k : Tables) :
    SameEntries k (Syscall.fillReplySlot caller buf k) := by
  unfold Syscall.fillReplySlot
  split <;> exact .same rfl

@[grind ←] lemma revokeInTable (pid : ProcessId) (id : CapabilityTokenId) (k : Tables) :
    SameEntries k (Syscall.revokeInTable pid id k) := by
  unfold Syscall.revokeInTable
  split <;> exact .same rfl

@[grind ←] lemma wakeProcessWaiter (pid : ProcessId) (k : Tables) :
    SameEntries k (Syscall.wakeProcessWaiter pid k) := by
  unfold Syscall.wakeProcessWaiter
  split
  · have hw : SameEntries k
        { k with processWaiters := update k.processWaiters pid none } :=
      ⟨rfl, rfl, rfl, rfl, rfl⟩
    exact hw.trans (.unblock _ _)
  · exact .refl k

end SameEntries

/-! ### Steps that touch the entries -/

section Steps

variable {tid : Option Tid} {codes : ProcessId → Set (BitVec 32)} {k : Tables}

variable {n : NotificationObject} {id : NotificationId} {wakes : List (Tid × Word)}

lemma rely_setNotification
    (hn : ∀ i ∈ tid, ∀ s mask, n.waiters s = some ⟨i, mask⟩ → Registered k i mask) :
    Rely tid codes k (k.setNotification id n) := by
  refine { Rely.refl k with registered := ?_ }
  rintro i hi mask ⟨id', n', slot, hn', hs⟩
  rcases update_eq_some.mp hn' with ⟨-, hn''⟩ | ⟨-, hn''⟩
  · cases hn''
    exact hn i hi slot mask hs
  · exact ⟨id', n', slot, hn'', hs⟩

lemma rely_onNotification (id : ℕ) {f : NotificationObject → NotificationObject}
    (hf : ∀ n, ∀ i ∈ tid, ∀ s mask, (f n).waiters s = some ⟨i, mask⟩ →
      ∃ s', n.waiters s' = some ⟨i, mask⟩) : Rely tid codes k (k.onNotification id f) := by
  unfold Tables.onNotification
  split_ifs with hid
  · split
    · next n hn =>
      refine rely_setNotification fun i hi s mask hs => ?_
      obtain ⟨s', hs'⟩ := hf n i hi s mask hs
      exact ⟨⟨id, hid⟩, n, s', hn, hs'⟩
    · exact .refl k
  · exact .refl k

lemma rely_takeBits (mask : Word) (hn : k.notifications id = some n) :
    Rely tid codes k (takeBits id n mask k) := by
  unfold takeBits
  split_ifs
  · exact .refl k
  · exact rely_setNotification fun i _ s m hs => ⟨id, n, s, hn, hs⟩

lemma waiters_update {j : Tid} (hj : j ∉ tid) {slot : Fin Notify.maxWaitersPerNotification}
    {w : Option Waiter} (hw : ∀ x ∈ w, x.tid = j) : ∀ i ∈ tid, ∀ s mask, update n.waiters slot w s =
    some ⟨i, mask⟩ → n.waiters s = some ⟨i, mask⟩ := by
  intro i hi s mask hs
  rcases update_eq_some.mp hs with ⟨-, hs'⟩ | ⟨-, hs'⟩
  · have : i = j := hw ⟨i, mask⟩ hs'
    exact absurd (this ▸ hi) hj
  · exact hs'

@[grind ←] lemma rely_cleanupWaiter {j : Tid} (hj : j ∉ tid) (id : ℕ) :
    Rely tid codes k (cleanupWaiter id j k) := by
  refine rely_onNotification id fun n i hi s mask hs => ⟨s, ?_⟩
  unfold Notify.Sys.dropWaiter at hs
  split at hs
  · exact waiters_update hj (fun x hx => by cases hx) i hi s mask hs
  · exact hs

lemma rely_addWaiter {j : Tid} (hj : j ∉ tid) (id : ℕ) (mask : Word) :
    Rely tid codes k (k.onNotification id (addWaiter j mask)) := by
  refine rely_onNotification id fun n i hi s m hs => ⟨s, ?_⟩
  unfold addWaiter at hs
  split at hs
  · exact waiters_update hj (fun x hx => by cases hx; rfl) i hi s m hs
  · exact hs

@[grind ←] lemma rely_firstLook (id : NotificationId) (mask : Word) :
    Rely tid codes k (firstLook id mask k).2 := by
  unfold firstLook
  split
  · exact .refl k
  · next n hn => exact rely_takeBits mask hn

@[grind ←] lemma rely_secondLook {j : Tid} (hj : j ∉ tid) (id : NotificationId) (mask : Word) :
    Rely tid codes k (secondLook j id mask k).2 := by
  unfold secondLook
  split
  · exact .refl k
  · next n hn =>
    split_ifs
    · split
      · exact .refl k
      · refine rely_setNotification fun i hi s m hs => ⟨id, n, s, hn, ?_⟩
        exact waiters_update hj (fun x hx => by cases hx; rfl) i hi s m hs
    · exact rely_takeBits mask hn

@[grind ←] lemma rely_scanEntry (entry : SelectKind) : Rely tid codes k (scanEntry entry k).2 := by
  cases entry with
  | channel id => exact .refl k
  | notification id mask =>
    simp only [scanEntry]
    split_ifs with hid
    · split
      · exact .refl k
      · next n hn => exact rely_takeBits mask hn
    · exact .refl k

@[grind ←] lemma rely_notificationCreate : Rely tid codes k (notificationCreate k).2 := by
  unfold notificationCreate
  split
  · exact .refl k
  · exact rely_setNotification fun i _ s mask hs => by cases hs

/-- What the loop of `notification_signal` has kept and taken, after some of the slots. -/
structure Signalled (n : NotificationObject) (acc : NotificationObject × List (Tid × Word)) :
    Prop where
  kept : ∀ s w, acc.1.waiters s = some w → n.waiters s = some w
  taken : ∀ p ∈ acc.2, ∃ s mask word, n.waiters s = some ⟨p.1, mask⟩ ∧ p.2 = word &&& mask

lemma Signalled.slot {acc : NotificationObject × List (Tid × Word)} (h : Signalled n acc)
    (slot : Fin Notify.maxWaitersPerNotification) :
    Signalled n (Notify.Sys.signalSlot acc slot) := by
  unfold Notify.Sys.signalSlot
  cases hw : acc.1.waiters slot with
  | none => exact h
  | some w =>
    dsimp only
    split_ifs
    · exact h
    · constructor
      · intro s w' hs
        rcases update_eq_some.mp hs with ⟨-, hs'⟩ | ⟨-, hs'⟩
        · cases hs'
        · exact h.kept s w' hs'
      · intro p hp
        rcases mem_append.mp hp with hp | hp
        · exact h.taken p hp
        · rw [mem_singleton.mp hp]
          exact ⟨slot, w.mask, acc.1.word, h.kept slot w hw, rfl⟩

lemma signalled_signalObject (n : NotificationObject) (bits : Word) :
    Signalled n (Notify.Sys.signalObject n bits) := by
  have hstart : Signalled n ({ n with word := n.word ||| bits }, []) :=
    ⟨fun s w hs => hs, fun p hp => absurd hp not_mem_nil⟩
  exact List.foldlRecOn _ _ hstart fun acc h slot _ => h.slot slot

lemma mem_bitsFor {i : Tid} {bits : Word} : bits ∈ bitsFor wakes i ↔ (i, bits) ∈ wakes := by
  unfold bitsFor
  simp only [mem_map, mem_filter, beq_iff_eq]
  constructor
  · rintro ⟨w, ⟨hw, hi⟩, rfl⟩
    rwa [← Fin.ext hi]
  · exact fun h => ⟨(i, bits), ⟨h, rfl⟩, rfl⟩

lemma deliverable_signal {bits word : Word} {i : Tid} (hn : k.notifications id = some n)
    (hw : (i, word) ∈ (Notify.Sys.signalObject n bits).2) : Deliverable k i word := by
  obtain ⟨s, mask, v, hs, heq⟩ := (signalled_signalObject n bits).taken _ hw
  exact .inr ⟨mask, v, ⟨id, n, s, hn, hs⟩, heq⟩

lemma rely_signalSection (id : NotificationId) (bits : Word) :
    Rely tid codes k (signalSection id bits k).2 := by
  unfold signalSection
  split
  · exact .refl k
  · next n hn =>
    have hset : Rely tid codes k (k.setNotification id (Notify.Sys.signalObject n bits).1) :=
      rely_setNotification fun i _ s mask hs =>
        ⟨id, n, s, hn, (signalled_signalObject n bits).kept s _ hs⟩
    refine ⟨hset.registered, fun i hi b hb => ?_, hset.results, hset.select, hset.exitCodes⟩
    rcases mem_append.mp hb with hb | hb
    · exact .inl hb
    · exact deliverable_signal hn (mem_bitsFor.mp hb)

lemma foldl_results (wakes : List (Tid × Word)) (r : ThreadId → Option Word) {i : Tid} {bits : Word}
    (h : wakes.foldl (fun (r : ThreadId → Option Word) w => update r w.1 (some w.2)) r i =
      some bits) :
    r i = some bits ∨ (i, bits) ∈ wakes := by
  induction wakes generalizing r with
  | nil => exact .inl h
  | cons w wakes ih =>
    rcases ih _ h with hr | hmem
    · rcases update_eq_some.mp hr with ⟨hw, hr'⟩ | ⟨-, hr'⟩
      · cases hr'
        rw [Fin.ext hw]
        exact .inr mem_cons_self
      · exact .inl hr'
    · exact .inr (mem_cons_of_mem w hmem)

lemma Rely.storeResults {k₀ : Tables} (h : Rely tid codes k₀ k)
    (hw : ∀ i ∈ tid, ∀ bits, (i, bits) ∈ wakes → Deliverable k₀ i bits) :
    Rely tid codes k₀ (storeResults wakes k) where
  registered := h.registered
  inFlight i hi bits hb := h.inFlight i hi bits (diff_subset _ _ hb)
  results i hi bits hb := by
    rcases foldl_results wakes k.results hb with hr | hmem
    · exact h.results i hi bits hr
    · exact .inr (hw i hi bits hmem)
  select := h.select
  exitCodes := h.exitCodes

@[grind ←] lemma rely_takeResult {j : Tid} (hj : j ∉ tid) : Rely tid codes k (takeResult j k).2 := by
  refine { Rely.refl k with results := fun i hi bits hb => ?_ }
  change update k.results j none i = some bits at hb
  have hne : (i : ThreadId) ≠ j := fun heq => hj (Fin.ext heq ▸ hi)
  rw [update_of_ne hne] at hb
  exact .inl hb

lemma rely_setSelect {r : ThreadId} {new : Option SelectWaiter}
    (hnew : ∀ i ∈ tid, (i : ThreadId) = r → ∀ sw, new = some sw →
      ∃ sw', k.selects i = some sw' ∧ sw.entries = sw'.entries ∧
        (sw.ready = sw'.ready ∨ ∃ r, sw.ready = some r ∧ r.1 < sw.entries.length)) :
    Rely tid codes k (k.setSelect r new) := by
  refine { Rely.refl k with select := fun i hi sw hsw => ?_ }
  rcases update_eq_some.mp hsw with ⟨hr, hsw'⟩ | ⟨-, hsw'⟩
  · exact hnew i hi hr sw hsw'
  · exact ⟨sw, hsw', rfl, .inl rfl⟩

@[grind ←] lemma rely_setSelect_own {j : Tid} (hj : j ∉ tid) (new : Option SelectWaiter) :
    Rely tid codes k (k.setSelect j new) :=
  rely_setSelect fun _ hi heq => absurd (Fin.ext heq ▸ hi) hj

lemma rely_markReady {r : ThreadId} {source : SelectKind} {bits : Word} {sw : SelectWaiter}
    (h : k.markReady r source bits = some sw) : Rely tid codes k (k.setSelect r (some sw)) := by
  refine rely_setSelect fun i _ hr sw' hsw' => ?_
  cases hsw'
  obtain ⟨old, hold, hmark⟩ := Option.bind_eq_some_iff.mp h
  obtain ⟨idx, hidx, heq⟩ := Option.map_eq_some_iff.mp hmark
  rw [← heq]
  refine ⟨old, hr ▸ hold, rfl, .inr ⟨(idx, bits), rfl, ?_⟩⟩
  exact (findIdx?_eq_some_iff_getElem.mp hidx).1

lemma rely_setSelectReady (r : ThreadId) (source : SelectKind) (bits : Word) :
    Rely tid codes k (k.setSelectReady r source bits) := by
  unfold Tables.setSelectReady
  split
  · next sw h => exact rely_markReady h
  · exact .refl k

@[grind ←] lemma rely_wakeSelectOrUnblock (r : ThreadId) (source : SelectKind) (bits : Word) :
    Rely tid codes k (k.wakeSelectOrUnblock r source bits) := by
  unfold Tables.wakeSelectOrUnblock
  split_ifs
  · split
    · next sw h => exact (rely_markReady h).trans (SameEntries.unblock r _).rely
    · exact (SameEntries.unblock r _).rely
  · exact (SameEntries.unblock r _).rely

@[grind ←] lemma rely_storeExitCode {pid : ProcessId} {code : BitVec 32} (h : code ∈ codes pid) :
    Rely tid codes k (storeExitCode pid code k) := by
  refine { (Rely.refl k : Rely tid codes k k) with exitCodes := fun pid' => ?_ }
  show update k.exitCodes pid code pid' = _ ∨ update k.exitCodes pid code pid' ∈ _
  by_cases hpid : pid' = pid
  · rw [hpid, update_self]
    exact .inr h
  · rw [update_of_ne hpid]
    exact .inl rfl

@[grind ←] lemma rely_callSection (t : ThreadId) (channel : ChannelId) (buf : List UInt8)
  (timeout : ℕ) :
    Rely tid codes k (callSection t channel buf timeout k).2 := by
  have hch := SameEntries.withChannel channel (·.call t ⟨t, buf⟩) k
  unfold callSection
  split
  · next k' heq =>
    rw [heq] at hch
    exact hch.rely
  · next receiver k' heq =>
    rw [heq] at hch
    cases receiver with
    | none => exact hch.rely
    | some r =>
      exact ((hch.trans (.clearTimeout r k')).rely).trans (rely_setSelectReady r _ _)

@[grind ←] lemma rely_recvSection (t : ThreadId) (channel : ChannelId) (timeout : ℕ) :
    Rely tid codes k (recvSection t channel timeout k).2 := by
  have hch := SameEntries.withChannel channel (·.recv t (decide (timeout = 0))) k
  unfold recvSection
  split
  · next k' heq =>
    rw [heq] at hch
    exact hch.rely
  · next msg k' heq =>
    rw [heq] at hch
    exact hch.rely

@[grind ←] lemma rely_registerOn {j : Tid} (hj : j ∉ tid) (entry : SelectKind) :
    Rely tid codes k (registerOn j entry k) := by
  cases entry with
  | channel id => exact (SameEntries.withChannel id _ k).rely
  | notification id mask => exact rely_addWaiter hj id mask

@[grind ←] lemma rely_unregisterFrom {j : Tid} (hj : j ∉ tid) (entry : SelectKind) :
    Rely tid codes k (unregisterFrom j entry k) := by
  cases entry with
  | channel id => exact (SameEntries.withChannel id _ k).rely
  | notification id mask => exact rely_cleanupWaiter hj id

end Steps

/-! ### The operations of another thread -/

section Operations

variable {α : Type} {tid : Option Tid} {codes : ProcessId → Set (BitVec 32)} {k₀ : Tables} {j : Tid}

/-- The thread `j` acts, and so far everything has kept to the relation since `k₀`. -/
def Acting (tid : Option Tid) (codes : ProcessId → Set (BitVec 32)) (k₀ : Tables) (j : Tid) :
    Shared Tables Thread → Prop :=
  Under (Rely tid codes) fun t k => t.tid = some j ∧ Rely tid codes k₀ k

@[grind ←] lemma acts_locked {f : Tables → Except IpcError α × Tables}
    (hf : ∀ k, Rely tid codes k (f k).2) : Keeps (Acting tid codes k₀ j) (locked f) :=
  keeps_locked (fun _ _ hst h => h.trans hst) fun k h => h.trans (hf k)

@[grind ←] lemma acts_update {g : Tables → Tables} (hg : ∀ k, Rely tid codes k (g k)) :
    Keeps (Acting tid codes k₀ j) (update g : OpM Unit) := acts_locked hg

@[grind ←] lemma acts_load (g : Tables → α) : Keeps (Acting tid codes k₀ j) (load g : OpM α) :=
  acts_locked fun k => .refl k

lemma acts_asThread {e : IpcError} {f : Tid → OpM α} (hf : Keeps (Acting tid codes k₀ j) (f j)) :
    Keeps (Acting tid codes k₀ j) (currentThread e >>= f) := by
  intro w hw
  have hrun : currentThread e w = .ok j w := by
    unfold currentThread
    rw [hw.1.1]
  rw [bind_eq hrun]
  exact hf w hw

@[grind ←] lemma acts_currentThread (e : IpcError) :
    Keeps (Acting tid codes k₀ j) (currentThread e) := by
  intro w hw
  unfold currentThread
  rw [hw.1.1]
  exact hw

@[grind ←] lemma acts_processOfThread (t : ThreadId) :
    Keeps (Acting tid codes k₀ j) (processOfThread t) := by
  intro w hw
  unfold processOfThread
  cases w.state.kernel.owner t with
  | none => exact hw
  | some pid => exact hw

@[grind ←] lemma acts_currentProcess : Keeps (Acting tid codes k₀ j) currentProcess :=
  .bind (acts_currentThread _) fun _ => acts_processOfThread _

@[grind ←] lemma acts_park : Keeps (Acting tid codes k₀ j) park := Spec.modify fun _ hw => hw

@[grind ←] lemma acts_blockCurrent (t : ThreadId) (st : Sched.ThreadState) :
    Keeps (Acting tid codes k₀ j) (blockCurrent t st) :=
  .bind (acts_update fun _ => SameEntries.rely (.same rfl)) fun _ => acts_park

@[grind ←] lemma acts_checkChannelAccess (pid : ProcessId) (channel : ChannelId) :
    Keeps (Acting tid codes k₀ j) (checkChannelAccess pid channel) := acts_locked fun k => .refl k

@[grind ←] lemma acts_callSwitch (t : ThreadId) (channel : ChannelId) (receiver : Option ThreadId) :
    Keeps (Acting tid codes k₀ j) (callSwitch t channel receiver) := by
  unfold callSwitch
  grind

section

variable (channel : ChannelId)
include channel

@[grind ←] lemma acts_ipcCall (sendBuf : List UInt8) (recvLen timeout : ℕ) :
    Keeps (Acting tid codes k₀ j) (ipcCall channel sendBuf recvLen timeout) := by
  unfold ipcCall getWakeupError
  repeat' first | with_reducible refine .bind ?_ fun _ => ?_ | split
  all_goals grind -order -ring -linarith

@[grind ←] lemma acts_ipcRecv (recvLen timeout : ℕ) :
    Keeps (Acting tid codes k₀ j) (ipcRecv channel recvLen timeout) := by
  unfold ipcRecv getWakeupError
  repeat' first | with_reducible refine .bind ?_ fun _ => ?_ | split
  all_goals grind -order -ring -linarith [retrySection]

@[grind ←] lemma acts_ipcReply (replyBuf : List UInt8) :
    Keeps (Acting tid codes k₀ j) (ipcReply channel replyBuf) := by
  unfold ipcReply
  repeat' first | with_reducible refine .bind ?_ fun _ => ?_ | split
  all_goals grind -order -ring -linarith [takePending]

@[grind ←] lemma acts_ipcSend (sendBuf : List UInt8) :
    Keeps (Acting tid codes k₀ j) (ipcSend channel sendBuf) := by
  unfold ipcSend
  repeat' first | with_reducible refine .bind ?_ fun _ => ?_ | split
  all_goals grind -order -ring -linarith

@[grind ←] lemma acts_ipcCancel : Keeps (Acting tid codes k₀ j) (ipcCancel channel) := by
  unfold ipcCancel
  grind [takePending]

end

@[grind ←] lemma acts_wakeEpipe (tids : List ThreadId) :
    Keeps (Acting tid codes k₀ j) (wakeEpipe tids) := by
  unfold wakeEpipe
  grind

@[grind ←] lemma acts_channelDestroy (channel : ChannelId) :
    Keeps (Acting tid codes k₀ j) (channelDestroy channel) := by
  unfold channelDestroy
  grind

@[grind ←] lemma acts_revokeInProcess (pid : ProcessId) (id : CapabilityTokenId) :
    Keeps (Acting tid codes k₀ j) (revokeInProcess pid id) := by
  unfold revokeInProcess revokeChannelsForCap
  repeat' first | with_reducible refine .bind ?_ fun _ => ?_ | split
  all_goals grind -order -ring -linarith

lemma acts_processExit {pid : ProcessId} {code : BitVec 32} (hcode : code ∈ codes pid) :
    Keeps (Acting tid codes k₀ j) (processExit pid code) := by
  unfold processExit updateIf
  split
  · repeat' first | with_reducible refine .bind ?_ fun _ => ?_ | split
    all_goals grind -order -ring -linarith [markThreads, scanChannels]
  · exact .pure _

@[grind ←] lemma acts_processWait (parent : ThreadId) (pid : ProcessId) :
    Keeps (Acting tid codes k₀ j) (processWait parent pid) := by
  unfold processWait
  grind

@[grind ←] lemma acts_sleepTicks (ticks : ℕ) :
    Keeps (Acting tid codes k₀ j) (sleepTicks ticks) := by
  intro w hw
  unfold sleepTicks
  cases w.own.tid with
  | none => exact hw
  | some t =>
    dsimp only
    split_ifs
    · exact hw
    · have hsleep : Keeps (Acting tid codes k₀ j) (update (fun k : Tables =>
          k.setTimeout t (some ⟨(k.deadlineFromNow ticks).getD (2 ^ 64 - 1), none⟩)) >>=
            fun _ => blockCurrent t (.blockedIpc (2 ^ 64 - 1)) : OpM Unit) :=
        .bind (acts_update fun _ => SameEntries.rely (.same rfl)) fun _ => acts_blockCurrent _ _
      exact hsleep w hw

@[grind ←] lemma acts_scanEntries (entries : List SelectKind) (start : ℕ) :
    Keeps (Acting tid codes k₀ j) (scanEntries start entries) := by
  induction entries generalizing start with
  | nil => exact .pure _
  | cons entry entries ih =>
    refine .bind (acts_locked fun k => rely_scanEntry entry) fun ready => ?_
    cases ready with
    | some bits => exact .pure _
    | none => exact ih (start + 1)

lemma spec_signalSection (id : NotificationId) (bits : Word) :
    Spec (Acting tid codes k₀ j) (locked (signalSection id bits))
      (fun wakes w => (∀ i ∈ tid, ∀ b, (i, b) ∈ wakes → Deliverable k₀ i b) ∧
        Acting tid codes k₀ j w) (Acting tid codes k₀ j) := by
  intro w hw
  have hkeep := (acts_locked fun k => rely_signalSection id bits) w hw
  obtain ⟨⟨-, hrely⟩, -⟩ := hw.interfere fun t s s' hst h => ⟨h.1, h.2.trans hst⟩
  unfold locked at hkeep ⊢
  unfold signalSection at hkeep ⊢
  cases hn : w.interfere.state.notifications id with
  | none =>
    rw [hn] at hkeep
    exact hkeep
  | some n =>
    rw [hn] at hkeep
    exact ⟨fun i hi b hb => hrely.deliverable hi (deliverable_signal hn hb), hkeep⟩

lemma acts_storeResults {wakes : List (Tid × Word)}
    (hw : ∀ i ∈ tid, ∀ b, (i, b) ∈ wakes → Deliverable k₀ i b) :
    Keeps (Acting tid codes k₀ j) (update (storeResults wakes) : OpM Unit) :=
  keeps_locked (fun _ _ hst h => h.trans hst) fun _ h => h.storeResults hw

@[grind ←] lemma acts_notificationSignal (id : ℕ) (bits : Word) :
    Keeps (Acting tid codes k₀ j) (notificationSignal id bits) := by
  unfold notificationSignal
  split_ifs with hid
  · refine Spec.bind (spec_signalSection _ _) fun wakes => Spec.assume fun hwakes => ?_
    refine Keeps.ite (.pure _) (.bind (acts_storeResults hwakes) fun _ => ?_)
    exact Keeps.forM_list fun w _ => acts_update fun k => rely_wakeSelectOrUnblock _ _ _
  · exact .throw

variable (hj : j ∉ tid)

include hj

@[grind ←] lemma acts_notificationWait (id : ℕ) (mask : Word) (timeout : ℕ) :
    Keeps (Acting tid codes k₀ j) (notificationWait id mask timeout) := by
  unfold notificationWait
  split_ifs with hid
  · refine acts_asThread ?_
    repeat' first | with_reducible refine .bind ?_ fun _ => ?_ | split
    all_goals grind -order -ring -linarith [setThreadDeadline]
  · exact .throw

@[grind ←] lemma acts_ipcSelect (entries : List SelectKind) (timeout : ℕ) :
    Keeps (Acting tid codes k₀ j) (ipcSelect entries timeout) := by
  refine acts_asThread ?_
  unfold checkChannelEntries
  repeat' first | with_reducible refine .bind ?_ fun _ => ?_ | split
  all_goals grind -order -ring -linarith [setThreadDeadline, takeSelect]

end Operations

/-! ### The syscalls of another thread -/

section Syscalls

variable {α : Type} {tid : Option Tid} {codes : ProcessId → Set (BitVec 32)} {k₀ : Tables} {j : Tid}

/-- `Acting` for a handler. -/
def Handling (tid : Option Tid) (codes : ProcessId → Set (BitVec 32)) (k₀ : Tables) (j : Tid) :
    Shared Tables Cpu → Prop :=
  Under (Rely tid codes) fun c k => c.thread.tid = some j ∧ Rely tid codes k₀ k

@[grind ←] lemma handles_op {m : OpM α} (hm : Keeps (Acting tid codes k₀ j) m) :
    Keeps (Handling tid codes k₀ j) (op m) :=
  keeps_zoom (O := fun t : Thread => t.tid = some j) (I := Rely tid codes k₀) (fun _ _ => rfl) hm

@[grind ←] lemma handles_setX1 (v : Word) : Keeps (Handling tid codes k₀ j) (setX1 v) :=
  Spec.modify fun _ hw => hw

@[grind ←] lemma handles_copyFromUser (src len : ℕ) :
    Keeps (Handling tid codes k₀ j) (copyFromUser src len) := by
  intro w hw
  unfold copyFromUser
  by_cases hv : validateUserVa src len = true
  · rw [if_pos hv]
    exact hw
  · rw [if_neg hv]
    exact hw

@[grind ←] lemma handles_copyToUser (dst : ℕ) (src : List UInt8) :
    Keeps (Handling tid codes k₀ j) (copyToUser dst src) := by
  intro w hw
  unfold copyToUser
  by_cases hv : validateUserVa dst src.length = true
  · rw [if_pos hv]
    have huser : SameEntries w.state { w.state with user := w.state.user.write dst src } :=
      ⟨rfl, rfl, rfl, rfl, rfl⟩
    exact ⟨⟨hw.1.1, hw.1.2.trans huser.rely⟩, hw.2⟩
  · rw [if_neg hv]
    exact hw

@[grind ←] lemma handles_copyIds (ids : List CapabilityTokenId) (ptr : ℕ) :
    Keeps (Handling tid codes k₀ j) (copyIds ptr ids) := by
  induction ids generalizing ptr with
  | nil => exact .pure _
  | cons id ids ih => exact .bind (handles_copyToUser _ _) fun _ => ih _

lemma handles_sysProcessExit {x : Frame} {w : Shared Tables Cpu}
    (hcode : ∀ pid, w.state.kernel.owner j = some pid → (x 0).setWidth 32 ∈ codes pid)
    (hw : Handling tid codes k₀ j w) :
    Handling tid codes k₀ j (Fallible.state (sysProcessExit x w)) := by
  unfold sysProcessExit
  rcases op_currentProcess w with h | ⟨t, pid, ht, hpid, h⟩
  · rw [bind_eq_error h]
    exact hw
  · rw [bind_eq h]
    have htj : t = j := Option.some.inj (ht.symm.trans hw.1.1)
    rw [htj] at hpid
    have hexit : Keeps (Handling tid codes k₀ j)
        (op (processExit pid ((x 0).setWidth 32)) >>= fun _ => pure (0 : Word)) :=
      .bind (handles_op (acts_processExit (hcode pid hpid))) fun _ => .pure _
    exact hexit.state (fun _ _ h => h) hw

lemma handles_handle (hj : j ∉ tid) (c : Trap) (hnr : (c.x 8).toNat ≠ 24) :
    Keeps (Handling tid codes k₀ j) (handle c) := by
  unfold handle sysIpcCall sysIpcSend sysIpcRecv sysIpcReply sysIpcCancel sysIpcSelect
    sysChannelCreate sysChannelDestroy sysNotificationCreate sysNotificationSignal
    sysNotificationWait sysCapabilityAttenuate sysCapabilityRevoke sysCapabilityList sysMemoryMap
    sysMemoryUnmap sysSharedMemoryCreate sysSharedMemoryMap sysSharedMemoryShare sysProcessWait
    sysTimeSleep sysAuditLog sysDebugPrint
  split
  case h_20 h => exact absurd h hnr
  all_goals
    clear * - hj
    repeat' first | with_reducible refine .bind ?_ fun _ => ?_ | split
    all_goals grind -order -ring -linarith [tokenOf, listSection, auditLog, debugPrint]

/-- **Other threads keep to the relation.** A whole syscall of a thread, with what still others do
in between, changes the entries of another thread as `Rely` says. -/
theorem dispatch_rely (c : Trap) (k : Tables) {others : List (Tables → Tables)}
    (hothers : ∀ f ∈ others, ∀ s, Rely tid codes s (f s)) (hc : c.tid = some j) (hj : j ∉ tid)
    (hexit : (c.x 8).toNat = 24 → ∀ pid, k.kernel.owner j = some pid →
      (c.x 0).setWidth 32 ∈ codes pid) :
    Rely tid codes k (syscallDispatch c k others).state := by
  have hstart : Handling tid codes k j ⟨c.enter, k, others⟩ := ⟨⟨hc, .refl k⟩, hothers⟩
  have hend : Handling tid codes k j (Fallible.state (run c k others)) := by
    by_cases hnr : (c.x 8).toNat = 24
    · have hh : handle c = sysProcessExit c.x := by simp only [handle, hnr]
      rw [run, hh]
      exact handles_sysProcessExit (hexit hnr) hstart
    · exact (handles_handle hj c hnr).state (fun _ _ h => h) hstart
  unfold syscallDispatch
  cases hrun : run c k others with
  | ok v w =>
    rw [hrun] at hend
    exact hend.1.2
  | error e w =>
    rw [hrun] at hend
    exact hend.1.2

def waitingThread : Tables :=
  { Tables.init.setNotification 0 ⟨0, fun i => if i.val = 0 then some ⟨0, 3⟩ else none⟩ with
    threads := update Tables.init.threads 0 (some (.blockedNotification 0)) }

/-- Thread 1 signals bits 0 and 2; bit 0 is stored for thread 0, which is woken. -/
theorem dispatch_rely_signal :
    let t := (syscallDispatch ⟨fun i => if i = 8 then 11 else if i = 1 then 5 else 0, some 1, none,
      0, 1⟩ waitingThread []).state
    t.results 0 = some 1 ∧ t.threads 0 = some .runnable ∧
      Rely (some 0) (fun _ => ∅) waitingThread t :=
  ⟨by decide +kernel, by decide +kernel,
    dispatch_rely _ _ (fun _ hf => nomatch hf) rfl (by decide) (fun h => by cases h)⟩

end Syscalls

end Aios.Syscall
