import Aios.Ipc.Select
import Aios.Ipc.BitsConserved

/-!
What one step of a thread leaves as it was for the others.
-/

namespace Aios.Ipc.Notify

open Aios.Lib Function

lemma Sys.blocked_unblock (s : Sys) (t x : Tid) :
    (s.setBlocked t none).blocked x = s.blocked x ∨ (s.setBlocked t none).blocked x = none := by
  by_cases hx : x = t
  · subst hx
    exact .inr (update_self _ _ _)
  · exact .inl (update_of_ne hx _ _)

/-- A step of the thread `u`: the timer and the other threads keep their places, the threads their
deadlines and their registrations, none of them is blocked by it, and no bit is set. -/
structure Elsewhere (u : Tid) (s s' : Sys) : Prop where
  timer : s'.timer = s.timer
  pc : ∀ t, t ≠ u → s'.pc t = s.pc t
  deadlines : ∀ t, t ≠ u → s'.deadlines t = s.deadlines t
  blocked : ∀ t, t ≠ u → s'.blocked t = s.blocked t ∨ s'.blocked t = none
  gone : ∀ i, s.table i = none → s'.table i = none
  kept : ∀ i n, s.table i = some n → ∃ n', s'.table i = some n' ∧
    (∀ mask, n.word &&& mask = 0 → n'.word &&& mask = 0) ∧
    ∀ k w, n.waiters k = some w → w.tid ≠ u → n'.waiters k = some w

namespace Elsewhere

variable {u : Tid} {s s' s'' : Sys}

@[grind ←] lemma refl (u : Tid) (s : Sys) : Elsewhere u s s :=
  ⟨rfl, fun _ _ => rfl, fun _ _ => rfl, fun _ _ => .inl rfl, fun _ h => h,
    fun _ n h => ⟨n, h, fun _ h => h, fun _ _ h _ => h⟩⟩

section

variable (h : Elsewhere u s s')
include h

lemma own (htimer : s''.timer = s'.timer) (htable : s''.table = s'.table)
    (hpc : ∀ t, t ≠ u → s''.pc t = s'.pc t) (hd : ∀ t, t ≠ u → s''.deadlines t = s'.deadlines t)
    (hb : ∀ t, t ≠ u → s''.blocked t = s'.blocked t ∨ s''.blocked t = none) : Elsewhere u s s'' := by
  obtain ⟨ht, hp, hdl, hbl, hg, hk⟩ := h
  exact ⟨htimer.trans ht, by grind, by grind, by grind, by rwa [htable], by rwa [htable]⟩

@[grind ←] lemma setPc (p : Pc) : Elsewhere u s (s'.setPc u p) :=
  h.own rfl rfl (fun _ ht => update_of_ne ht _ _) (fun _ _ => rfl) fun _ _ => .inl rfl

@[grind ←] lemma fail : Elsewhere u s (s'.fail u) :=
  h.own rfl rfl (fun _ ht => update_of_ne ht _ _) (fun _ _ => rfl) fun _ _ => .inl rfl

@[grind ←] lemma answer (i : NotificationId) (bits : Word) : Elsewhere u s (s'.answer u i bits) :=
  h.own rfl rfl (fun _ ht => update_of_ne ht _ _) (fun _ _ => rfl) fun _ _ => .inl rfl

@[grind ←] lemma unblock (t : Tid) : Elsewhere u s (s'.setBlocked t none) :=
  h.own rfl rfl (fun _ _ => rfl) (fun _ _ => rfl) fun x _ => s'.blocked_unblock t x

@[grind ←] lemma block (b : Option Block) : Elsewhere u s (s'.setBlocked u b) :=
  h.own rfl rfl (fun _ _ => rfl) (fun _ _ => rfl) fun _ ht => .inl (update_of_ne ht _ _)

@[grind ←] lemma slots (results : Tid → Option Word) (selects : Tid → Option SelectWaiter) :
    Elsewhere u s { s' with results := results, selects := selects } :=
  h.own rfl rfl (fun _ _ => rfl) (fun _ _ => rfl) fun _ _ => .inl rfl

@[grind ←] lemma arm (timed : Bool) :
    Elsewhere u s { s' with deadlines := update s'.deadlines u timed } :=
  h.own rfl rfl (fun _ _ => rfl) (fun _ ht => update_of_ne ht _ _) fun _ _ => .inl rfl

end

variable {n : NotificationObject}

lemma setObject {i : NotificationId} {n' : NotificationObject} (hn : s.table i = some n)
    (hword : ∀ mask, n.word &&& mask = 0 → n'.word &&& mask = 0)
    (hw : ∀ k w, n.waiters k = some w → w.tid ≠ u → n'.waiters k = some w) :
    Elsewhere u s (s.setObject i n') := by
  refine ⟨rfl, fun _ _ => rfl, fun _ _ => rfl, fun _ _ => .inl rfl, fun j hj => ?_,
    fun j m hm => ?_⟩ <;> simp only [Sys.setObject, update_apply] <;> grind

@[grind ←] lemma takeBits {i : NotificationId} {hit : Word} (hn : s.table i = some n) :
    Elsewhere u s (s.setObject i { n with word := n.word &&& ~~~hit }) := by
  refine setObject hn (fun mask hm => ?_) fun k w hk _ => hk
  rw [BitVec.and_assoc, BitVec.and_comm (~~~hit), ← BitVec.and_assoc, hm]
  simp

@[grind ←] lemma register {i : NotificationId} {k : Fin maxWaitersPerNotification}
    (hn : s.table i = some n) (hk : n.waiters.firstFree = some k) (w : Waiter) :
    Elsewhere u s (s.setObject i { n with waiters := update n.waiters k (some w) }) := by
  have hfree := Slots.firstFree_some hk
  refine setObject hn (fun _ h => h) fun j v hj _ => ?_
  exact (update_of_ne (by grind) _ _).trans hj

@[grind ←] lemma dropWaiterAt (s : Sys) (i : NotificationId) (u : Tid) :
    Elsewhere u s (s.dropWaiterAt i u) := by
  unfold Sys.dropWaiterAt
  cases hn : s.table i with
  | none => exact refl u s
  | some n =>
    refine setObject hn ?_ ?_
    · intro mask hm
      unfold Sys.dropWaiter
      split <;> exact hm
    · intro k w hk hw
      unfold Sys.dropWaiter
      split
      · rename_i j hj
        have hfound := Slots.find?_finRange hj
        refine (update_of_ne ?_ _ _).trans hk
        rintro rfl
        simp only [hk, Option.any_some, beq_iff_eq] at hfound
        exact hw hfound.1
      · exact hk

@[grind ←] lemma wakeSelect (s : Sys) (u t : Tid) (i : NotificationId) (bits : Word) :
    Elsewhere u s (s.wakeSelect i t bits) := by
  unfold Sys.wakeSelect
  grind

end Elsewhere

namespace Sys

variable {s s' : Sys} {u t : Tid} {i : NotificationId}

lemma elsewhere_run {ready : Bool} (h : s.run u ready = some s') : Elsewhere u s s' := by
  unfold run waitRegister selScan selRegister selUnregister selReturn takeBits at h
  split at h <;> grind

lemma wakeSelect_eq (s : Sys) (i : NotificationId) (t : Tid) (bits : Word) :
    ∃ r, s.wakeSelect i t bits = { s with selects := r } := by
  unfold wakeSelect
  split
  · exact ⟨s.selects, rfl⟩
  · split
    · exact ⟨s.selects, rfl⟩
    · exact ⟨_, rfl⟩

lemma runTimer_cases {locked : Bool} (h : s.runTimer locked = some s') :
    (∃ t, s.timer = .expired t ∧ (s.blocked t = none ∨ locked = false) ∧
      s' = { s with timer := .idle }) ∨
    (∃ t b, s.timer = .expired t ∧ s.blocked t = some b ∧ s' = { s with timer := .cleanup t b }) ∨
    (∃ t b, s.timer = .cleanup t b ∧ s'.timer = .unblock t ∧ s'.pc = s.pc ∧
      s'.blocked = s.blocked ∧ s'.deadlines = s.deadlines ∧ s'.results = s.results ∧
      (∀ x, s'.selects x = s.selects x ∨ s'.selects x = none) ∧
      Elsewhere t { s with timer := .unblock t } s') ∨
    ∃ t, s.timer = .unblock t ∧ s' = { s.setBlocked t none with timer := .idle } := by
  unfold runTimer at h
  cases ht : s.timer with
  | idle =>
    rw [ht] at h
    cases h
  | expired t =>
    rw [ht] at h
    dsimp only at h
    cases hb : s.blocked t with
    | none =>
      rw [hb] at h
      cases h
      exact .inl ⟨t, rfl, .inl hb, rfl⟩
    | some b =>
      rw [hb] at h
      cases locked with
      | true =>
        cases h
        exact .inr (.inl ⟨t, b, rfl, hb, rfl⟩)
      | false =>
        cases h
        exact .inl ⟨t, rfl, .inr rfl, rfl⟩
  | cleanup t b =>
    rw [ht] at h
    dsimp only at h
    right; right; left
    refine ⟨t, b, rfl, ?_⟩
    cases locked with
    | false =>
      have hs' : s' = { s with timer := .unblock t } := by
        cases b <;> exact (Option.some.inj h).symm
      rw [hs']
      exact ⟨rfl, rfl, rfl, rfl, rfl, fun _ => .inl rfl, Elsewhere.refl _ _⟩
    | true =>
      cases b with
      | notification i =>
        cases h
        have he := Elsewhere.dropWaiterAt { s with timer := .unblock t } i t
        obtain ⟨tab, htab⟩ := dropWaiterAt_eq { s with timer := .unblock t } i t
        rw [htab] at he ⊢
        exact ⟨rfl, rfl, rfl, rfl, rfl, fun _ => .inl rfl, he⟩
      | select =>
        cases h
        refine ⟨rfl, rfl, rfl, rfl, rfl, fun x => ?_, (Elsewhere.refl _ _).slots _ _⟩
        by_cases hx : x = t
        · subst hx
          exact .inr (update_self _ _ _)
        · exact .inl (update_of_ne hx _ _)
  | unblock t =>
    rw [ht] at h
    cases h
    exact .inr (.inr (.inr ⟨t, rfl, rfl⟩))

end Sys

end Aios.Ipc.Notify

namespace Aios.Ipc.Select

open Aios.Lib Notify

/-- A step of an operation on a channel, or a wake from elsewhere: the threads and the timer keep
their places; a thread may be unblocked, and its record may name a channel. -/
structure Outside (s s' : Sys) : Prop where
  timer : s'.base.timer = s.base.timer
  pc : s'.base.pc = s.base.pc
  deadlines : s'.base.deadlines = s.base.deadlines
  table : s'.base.table = s.base.table
  results : s'.base.results = s.base.results
  blocked : ∀ t, s'.base.blocked t = s.base.blocked t ∨ s'.base.blocked t = none
  selects : ∀ t, s'.base.selects t = s.base.selects t ∨ ∃ sw k c, s.base.selects t = some sw ∧
    sw.entries[k]? = some (.channel c) ∧ s'.base.selects t = some { sw with ready := some (k, 0) }
  call : s'.call = s.call
  timed : s'.timed = s.timed
  number : s'.number = s.number
  armedBy : s'.armedBy = s.armedBy
  cleared : s'.cleared = s.cleared

namespace Outside

variable {s s' s'' : Sys}

lemma of_base (hb : s'.base = s.base) (hc : s'.call = s.call) (ht : s'.timed = s.timed)
    (hn : s'.number = s.number) (ha : s'.armedBy = s.armedBy) (hl : s'.cleared = s.cleared) :
    Outside s s' :=
  ⟨by rw [hb], by rw [hb], by rw [hb], by rw [hb], by rw [hb], fun _ => .inl (by rw [hb]),
    fun _ => .inl (by rw [hb]), hc, ht, hn, ha, hl⟩

@[grind ←] lemma refl (s : Sys) : Outside s s := of_base rfl rfl rfl rfl rfl rfl

@[grind ←] lemma setOp (h : Outside s s') (tid : Tid) (p : Op) : Outside s (s'.setOp tid p) :=
  ⟨h.timer, h.pc, h.deadlines, h.table, h.results, h.blocked, h.selects, h.call, h.timed, h.number,
    h.armedBy, h.cleared⟩

@[grind ←] lemma setChannel (h : Outside s s') (c : ChannelId) (ch : Channel RawMessage) :
    Outside s (s'.setChannel c ch) :=
  ⟨h.timer, h.pc, h.deadlines, h.table, h.results, h.blocked, h.selects, h.call, h.timed, h.number,
    h.armedBy, h.cleared⟩

@[grind ←] lemma blockIpc (h : Outside s s') (tid : Tid) : Outside s (s'.blockIpc tid) :=
  ⟨h.timer, h.pc, h.deadlines, h.table, h.results, h.blocked, h.selects, h.call, h.timed, h.number,
    h.armedBy, h.cleared⟩

@[grind ←] lemma unblock (s : Sys) (t : Tid) : Outside s (s.unblock t) :=
  ⟨rfl, rfl, rfl, rfl, rfl, s.base.blocked_unblock t, fun _ => .inl rfl, rfl, rfl, rfl, rfl, rfl⟩

@[grind ←] lemma mark (s : Sys) (c : ChannelId) (t : Tid) :
    Outside s { s with base := Sys.markChannel s.base c t } := by
  have hsame : Outside s { s with base := s.base } := refl s
  unfold Sys.markChannel
  cases hsw : s.base.selects t with
  | none => exact hsame
  | some sw =>
    dsimp only
    cases hk : sw.entries.findIdx? (·.isForChannel c) with
    | none => exact hsame
    | some k =>
      refine ⟨rfl, rfl, rfl, rfl, rfl, fun _ => .inl rfl, fun x => ?_, rfl, rfl, rfl, rfl, rfl⟩
      by_cases hx : x = t
      · subst hx
        obtain ⟨hlt, hfor, -⟩ := List.findIdx?_eq_some_iff_getElem.mp hk
        refine .inr ⟨sw, k, c, hsw, ?_, Function.update_self _ _ _⟩
        rw [List.getElem?_eq_getElem hlt]
        cases he : sw.entries[k] with
        | channel d =>
          rw [he] at hfor
          rw [beq_iff_eq.mp hfor]
        | notification i m =>
          rw [he] at hfor
          cases hfor
      · exact .inl (Function.update_of_ne hx _ _)

lemma send (s : Sys) (tid : Tid) (c : ChannelId) (buf : List UInt8) :
    Outside s (s.send tid c buf) := by
  unfold Sys.send
  grind

lemma callOn (s : Sys) (tid : Tid) (c : ChannelId) (buf : List UInt8) :
    Outside s (s.callOn tid c buf) := by
  unfold Sys.callOn
  grind

lemma recv (s : Sys) (tid : Tid) (c : ChannelId) (poll : Bool) : Outside s (s.recv tid c poll) := by
  unfold Sys.recv
  grind

lemma takeCaller (s : Sys) (c : ChannelId) : Outside s (s.takeCaller c) := by
  unfold Sys.takeCaller
  grind

lemma runOp {tid : Tid} {direct error : Bool} (h : s.runOp tid direct error = some s') :
    Outside s s' := by
  unfold Sys.runOp at h
  split at h <;> grind

end Outside

/-! ### The steps of the notifications -/

section steps

variable {s s' : Sys} {u : Tid}

lemma step_signal {i : NotificationId} {bits : Word} (h : s.Step (.signal u i bits) s') :
    s.op u = .none ∧ s.base.pc u = .idle ∧ s' = { s with
      base := s.base.signal u i bits
      cleared := Notify.Sys.hand i s.cleared (s.taken i bits) } := by
  simp only [Sys.Step, Sys.next, Notify.Sys.next] at h
  split_ifs at h with hop hpc
  · exact ⟨hop, hpc, (Option.some.inj h).symm⟩
  · cases h

lemma step_wait {i : NotificationId} {mask : Word} {timed : Bool}
    (h : s.Step (.wait u i mask timed) s') : s.op u = .none ∧ s.base.pc u = .idle ∧ s' =
    { s.begin u (.wait i mask) timed with base := s.base.wait u i mask timed } := by
  simp only [Sys.Step, Sys.next, Notify.Sys.next] at h
  split_ifs at h with hop hpc
  · exact ⟨hop, hpc, (Option.some.inj h).symm⟩
  · cases h

lemma step_select {entries : List SelectKind} {timed : Bool}
    (h : s.Step (.select u entries timed) s') :
    s.op u = .none ∧ s.base.pc u = .idle ∧ s' = { s.begin u (.select entries) timed with
      base := s.base.setPc u (.selScan entries 0 timed) } := by
  simp only [Sys.Step, Sys.next, Notify.Sys.next] at h
  split_ifs at h with hop hpc
  · exact ⟨hop, hpc.1, (Option.some.inj h).symm⟩
  · cases h

lemma step_run {direct error : Bool} (h : s.Step (.run u direct error) s') :
    (s.op u = .none ∧ ∃ b, s.base.run u (s.scanReady u) = some b ∧ s' = s.afterRun u b) ∨
      s.op u ≠ .none ∧ s.runOp u direct error = some s' := by
  simp only [Sys.Step, Sys.next, Sys.run] at h
  by_cases hop : s.op u = .none
  · rw [if_pos hop] at h
    obtain ⟨b, hb, rfl⟩ := Option.map_eq_some_iff.mp h
    exact .inl ⟨hop, b, hb, rfl⟩
  · rw [if_neg hop] at h
    exact .inr ⟨hop, h⟩

lemma step_expire (h : s.Step (.expire u) s') :
    s.base.timer = .idle ∧ s.base.deadlines u = true ∧ s' = { s with base := { s.base with
      deadlines := Function.update s.base.deadlines u false
      timer := .expired u } } := by
  simp only [Sys.Step, Sys.next, Notify.Sys.next] at h
  split_ifs at h with ht
  · exact ⟨ht.1, ht.2, (Option.some.inj h).symm⟩
  · cases h

lemma step_timer {locked : Bool} (h : s.Step (.timer locked) s') :
    ∃ b, s.base.runTimer locked = some b ∧ s' = { s with
      base := b
      ipc := Sys.release s.ipc (Sys.timerUnblocks s.base.timer) } := by
  obtain ⟨b, hb, rfl⟩ := Option.map_eq_some_iff.mp h
  exact ⟨b, hb, rfl⟩

end steps

end Aios.Ipc.Select
