import Aios.Ipc.Bits

/-!
The hand-over of notification bits: the invariant, and the steps of the signaller.

`Orderly` is the condition on a step under which bits are handed over safely. The signaller takes
the waiters out of the notification in one section and tells them in later ones; in between it
owes each of them a wake, and no one else may wake that thread or take its record.
-/

namespace Aios.Ipc.Notify

open Aios.Lib Function List

/-! ### One thread -/

namespace View

variable {v : View} {i : NotificationId}

lemma Free.of_notification (h : v.Free) (hb : v.blocked = some (.notification i)) :
    v.pc = .waitTake i ∧ v.handed = [] := by
  unfold Free at h
  cases hp : v.pc <;> simp_all

lemma Free.of_select (h : v.Free) (hb : v.blocked = some .select) : ∃ es, v.pc = .selTake es ∧
    v.handed = [] ∧ (v.select = none ∨ v.select = some ⟨es, none⟩) := by
  unfold Free at h
  cases hp : v.pc <;> simp_all

lemma Awaits.takes (h : v.Awaits i) : v.pc = .waitTake i ∨ ∃ es, v.pc = .selTake es := by
  rcases h with ⟨hp, -⟩ | ⟨es, hp, -⟩
  · exact .inl hp
  · exact .inr ⟨es, hp⟩

lemma Informed.takes {w : Word} (h : v.Informed i w) :
    v.pc = .waitTake i ∨ ∃ es, v.pc = .selTake es := by
  rcases h with ⟨hp, -⟩ | ⟨es, r, hp, -⟩
  · exact .inl hp
  · exact .inr ⟨es, hp⟩

lemma Informed.free {w : Word} (h : v.Informed i w) (hh : v.handed = [(i, w)])
    (hb : v.blocked = none) : v.Free := by
  unfold Free
  rcases h with ⟨hp, hr⟩ | ⟨es, r, hp, hs, hr⟩
  · simp only [hp]
    exact .inr (.inr ⟨hb, w, hh, hr⟩)
  · simp only [hp]
    exact .inr ⟨hb, i, w, hh, .inr ⟨es, r, hp, hs, hr⟩⟩

end View

lemma Due.Ok.takes {d : Due} {v : View} (h : d.Ok v) :
    v.pc = .waitTake d.id ∨ ∃ es, v.pc = .selTake es := by
  obtain ⟨-, -, h⟩ := h
  cases hs : d.stage with
  | store => rw [hs] at h; exact View.Awaits.takes h
  | wake => rw [hs] at h; exact View.Awaits.takes h.1
  | select => rw [hs] at h; exact View.Awaits.takes h.1
  | unblock => rw [hs] at h; exact View.Informed.takes h

namespace Sys

variable {s s' : Sys} {tid u : Tid} {i : NotificationId}

/-! ### The invariant -/

structure Inv (s : Sys) : Prop where
  balanced : s.Balanced
  nodup : ∀ u, (s.pc u).inFlight.Nodup
  apart : ∀ u v t, t ∈ (s.pc u).inFlight → t ∈ (s.pc v).inFlight → u = v
  due : ∀ u, ∀ d ∈ (s.pc u).dues, d.Ok (s.view d.tid)
  free : ∀ t, (∀ u, t ∉ (s.pc u).inFlight) → (s.view t).Free

lemma Inv.takes (h : s.Inv) (ht : tid ∈ (s.pc u).inFlight) :
    s.blocked tid ≠ none ∧ ((∃ i, s.pc tid = .waitTake i) ∨ ∃ es, s.pc tid = .selTake es) := by
  obtain ⟨d, hd, rfl⟩ := mem_map.mp ht
  have hok := h.due u d hd
  refine ⟨hok.2.1, ?_⟩
  rcases hok.takes with hp | hp
  · exact .inl ⟨_, hp⟩
  · exact .inr hp

lemma Inv.not_inFlight_of_blocked (h : s.Inv) (hb : s.blocked tid = none) :
    ∀ u, tid ∉ (s.pc u).inFlight := fun _ ht => (h.takes ht).1 hb

lemma Inv.not_inFlight (h : s.Inv) (hw : ∀ i, s.pc tid ≠ .waitTake i)
    (hs : ∀ es, s.pc tid ≠ .selTake es) : ∀ u, tid ∉ (s.pc u).inFlight := by
  intro u ht
  rcases (h.takes ht).2 with ⟨i, hp⟩ | ⟨es, hp⟩
  · exact hw i hp
  · exact hs es hp

variable {wakes : List (Tid × Word)} {t : Tid} {w : Word} {n : NotificationObject} {p : Pc}

lemma mem_inFlight {d : Due} (h : d ∈ p.dues) : d.tid ∈ p.inFlight :=
  mem_map_of_mem h

lemma Inv.own (h : s.Inv) (ht : ∀ u, tid ∉ (s.pc u).inFlight) (hd : (s.pc tid).dues = [])
    (hb : s'.Balanced) (hfree : (s'.view tid).Free)
    (hd' : (s'.pc tid).dues = []) (hview : ∀ t, t ≠ tid → s'.view t = s.view t) : s'.Inv := by
  have hpc : ∀ t, t ≠ tid → s'.pc t = s.pc t := fun t hne => congrArg View.pc (hview t hne)
  have hdues : ∀ u, (s'.pc u).dues = (s.pc u).dues := by grind
  have hfl : ∀ u, (s'.pc u).inFlight = (s.pc u).inFlight := fun u => by
    rw [Pc.inFlight, hdues u]; rfl
  obtain ⟨-, hnodup, hapart, hdue, hfree'⟩ := h
  refine ⟨hb, ?_, ?_, ?_, ?_⟩ <;> grind [mem_inFlight]

lemma Inv.signaller (h : s.Inv) (hu : ∀ v, u ∉ (s.pc v).inFlight)
    (hpc : ∀ t, t ≠ u → s'.pc t = s.pc t)
    (hview : ∀ t, t ≠ u → t ∉ (s.pc u).inFlight → s'.view t = s.view t)
    (hnd : (s'.pc u).inFlight.Nodup) (hsub : ∀ t, t ∈ (s'.pc u).inFlight → t ∈ (s.pc u).inFlight)
    (hdue : ∀ d ∈ (s'.pc u).dues, d.Ok (s'.view d.tid))
    (hdone : ∀ t, t ∈ (s.pc u).inFlight → t ∉ (s'.pc u).inFlight → (s'.view t).Free)
    (hfree : (s'.view u).Free) (hb : s'.Balanced) : s'.Inv := by
  -- no other signaller's thread is touched
  obtain ⟨-, hnodup, hapart, hdue', hfree'⟩ := h
  refine ⟨hb, ?_, ?_, ?_, ?_⟩ <;> grind [mem_inFlight]

lemma Inv.owe (h : s.Inv) (hd : (s.pc u).dues = []) (hu : ∀ v, u ∉ (s.pc v).inFlight)
    (hpc : ∀ t, t ≠ u → s'.pc t = s.pc t)
    (hview : ∀ t, t ≠ u → t ∉ (s'.pc u).inFlight → s'.view t = s.view t)
    (hnd : (s'.pc u).inFlight.Nodup)
    (hnew : ∀ t, t ∈ (s'.pc u).inFlight → ∀ v, t ∉ (s.pc v).inFlight)
    (hdue : ∀ d ∈ (s'.pc u).dues, d.Ok (s'.view d.tid))
    (hfree : (s'.view u).Free) (hb : s'.Balanced) : s'.Inv := by
  have hnone : (s.pc u).inFlight = [] := by rw [Pc.inFlight, hd]; rfl
  obtain ⟨-, hnodup, hapart, hdue', hfree'⟩ := h
  refine ⟨hb, ?_, ?_, ?_, ?_⟩ <;> grind [mem_inFlight]

/-! ### The condition -/

/-- Can a signal on the notification hand bits to the thread? It is blocked in
`notification_wait` on it, or in `ipc_select` with an entry for it and no source that has fired;
and no signaller owes it a wake already. -/
def CanTake (s : Sys) (i : NotificationId) (t : Tid) : Prop :=
  (s.blocked t = some (.notification i) ∨ s.blocked t = some .select ∧
    (s.selects t).any (fun sw => sw.ready.isNone && sw.entries.any (·.isFor i)) = true) ∧
  ∀ u, t ∉ (s.pc u).inFlight

/-- The timer takes the record of a thread in `ipc_select`, and unblocks a thread, only when no
signaller owes that thread a wake, and a thread in `notification_wait` only when no result is
stored for it. -/
def TimerOrderly (s : Sys) (locked : Bool) : Prop :=
  match s.timer with
  | .cleanup tid .select => locked = true → s.blocked tid = some .select ∧
      ∀ u, tid ∉ (s.pc u).inFlight
  | .unblock tid => s.blocked tid ≠ none → (∀ u, tid ∉ (s.pc u).inFlight) ∧
      (s.blocked tid ≠ some .select → s.results tid = none)
  | _ => True

/-- The steps that hand bits over safely: a signal meets only waiters that can take its bits,
each of them once. -/
def Orderly (s : Sys) : Act → Prop
  | .signal _ i bits => ∀ n ∈ s.table i, ((signalObject n bits).2.map (·.1)).Nodup ∧
      ∀ w ∈ (signalObject n bits).2, s.CanTake i w.1
  | .timer locked => s.TimerOrderly locked
  | _ => True

instance (s : Sys) (i : NotificationId) (t : Tid) : Decidable (s.CanTake i t) := by
  unfold CanTake
  infer_instance

instance (s : Sys) (locked : Bool) : Decidable (s.TimerOrderly locked) := by
  unfold TimerOrderly
  split <;> infer_instance

instance (s : Sys) (a : Act) : Decidable (s.Orderly a) := by
  cases a with
  | signal u i bits =>
    -- run through the waiters, not through all threads and words
    have hwaiters (n : NotificationObject) :
        Decidable (∀ w ∈ (signalObject n bits).2, s.CanTake i w.1) := List.decidableBAll _ _
    unfold Orderly
    infer_instance
  | _ => unfold Orderly; infer_instance

/-! ### The signaller -/

lemma storeResults_of_not_mem (r : Tid → Option Word) (h : t ∉ wakes.map (·.1)) :
    storeResults r wakes t = r t := by
  induction wakes generalizing r with
  | nil => rfl
  | cons x wakes ih =>
    rw [map_cons, mem_cons, not_or] at h
    rw [storeResults, foldl_cons]
    exact (ih _ h.2).trans (update_of_ne h.1 _ _)

lemma storeResults_of_mem (hnd : (wakes.map (·.1)).Nodup) (r : Tid → Option Word)
    (h : (t, w) ∈ wakes) : storeResults r wakes t = some w := by
  induction wakes generalizing r with
  | nil => cases h
  | cons x wakes ih =>
    obtain ⟨hx, hnd'⟩ := nodup_cons.mp hnd
    rw [storeResults, foldl_cons]
    rcases mem_cons.mp h with rfl | hmem
    · -- nothing later overwrites it
      exact (storeResults_of_not_mem _ hx).trans (update_self _ _ _)
    · exact ih hnd' _ hmem

lemma hand_of_mem (hnd : (wakes.map (·.1)).Nodup) (handed : Tid → BitLog) (h : (t, w) ∈ wakes) :
    hand i handed wakes t = handed t ++ [(i, w)] := by
  have hfilter : wakes.filter (fun x => x.1 == t) = [(t, w)] := by
    induction wakes with
    | nil => cases h
    | cons x wakes ih =>
      obtain ⟨hx, hnd'⟩ := nodup_cons.mp hnd
      rcases mem_cons.mp h with rfl | hmem
      · rw [filter_cons_of_pos (by simp), filter_eq_nil_iff.mpr]
        rintro ⟨t', w'⟩ hmem' heq
        have ht : t' = t := by simpa using heq
        exact hx (mem_map.mpr ⟨(t', w'), hmem', ht⟩)
      · have hne : x.1 ≠ t := fun he => hx (mem_map.mpr ⟨(t, w), hmem, he.symm⟩)
        rw [filter_cons_of_neg (by simpa using hne), ih hnd' hmem]
  simp [hand, hfilter]

lemma hand_of_not_mem (handed : Tid → BitLog) (h : t ∉ wakes.map (·.1)) :
    hand i handed wakes t = handed t := by
  have hfilter : wakes.filter (fun x => x.1 == t) = [] := by
    rw [filter_eq_nil_iff]
    rintro ⟨t', w'⟩ hmem heq
    have ht : t' = t := by simpa using heq
    exact h (mem_map.mpr ⟨(t', w'), hmem, ht⟩)
  simp [hand, hfilter]

lemma Inv.canTake (h : s.Inv) (ht : s.CanTake i tid) :
    (s.view tid).Awaits i ∧ s.handed tid = [] := by
  have hfree := h.free tid ht.2
  rcases ht.1 with hb | ⟨hb, hs⟩
  · obtain ⟨hp, hh⟩ := hfree.of_notification hb
    exact ⟨.inl ⟨hp, hb⟩, hh⟩
  · obtain ⟨es, hp, hh, hsel⟩ := hfree.of_select hb
    refine ⟨.inr ⟨es, hp, hb, ?_⟩, hh⟩
    rcases hsel with hnone | hsome
    · rw [show s.selects tid = none from hnone] at hs
      cases hs
    · rw [show s.selects tid = some ⟨es, none⟩ from hsome] at hs
      exact ⟨hsome, by simpa using hs⟩

lemma inFlight_sigStore (i : NotificationId) (wakes : List (Tid × Word)) :
    (Pc.sigStore i wakes).inFlight = wakes.map (·.1) := by
  simp [Pc.inFlight, Pc.dues, comp_def]

lemma inFlight_sigWake (i : NotificationId) (wakes : List (Tid × Word)) :
    (Pc.sigWake i wakes).inFlight = wakes.map (·.1) := by
  simp [Pc.inFlight, Pc.dues, comp_def]

lemma inFlight_sigSelect (i : NotificationId) (t : Tid) (w : Word) (wakes : List (Tid × Word)) :
    (Pc.sigSelect i t w wakes).inFlight = t :: wakes.map (·.1) := by
  simp [Pc.inFlight, Pc.dues, comp_def]

lemma inFlight_sigUnblock (i : NotificationId) (t : Tid) (w : Word) (wakes : List (Tid × Word)) :
    (Pc.sigUnblock i t w wakes).inFlight = t :: wakes.map (·.1) := by
  simp [Pc.inFlight, Pc.dues, comp_def]

lemma view_signal (hn : s.table i = some n) (bits : Word) (t : Tid) :
    (s.signal u i bits).view t = { s.view t with
      pc := if t = u then (if (signalObject n bits).2 = [] then .idle
        else .sigStore i (signalObject n bits).2) else s.pc t
      handed := hand i s.handed (signalObject n bits).2 t } := by
  simp [Sys.signal, hn, view, setPc, setObject, update_apply]

lemma dues_signal (hn : s.table i = some n) (bits : Word) :
    ((s.signal u i bits).pc u).dues = (Pc.sigStore i (signalObject n bits).2).dues := by
  rw [show (s.signal u i bits).pc u = ((s.signal u i bits).view u).pc from rfl, view_signal hn]
  simp only [if_true]
  split_ifs with hw
  · rw [hw]; rfl
  · rfl

section

variable (h : s.Inv)
include h

lemma Inv.signal {bits : Word} (hpc : s.pc u = .idle)
    (hok : s.Orderly (.signal u i bits)) : (s.signal u i bits).Inv := by
  cases hn : s.table i with
  | none => simpa [Sys.signal, hn] using h
  | some n =>
    obtain ⟨hnd, htake⟩ := hok n hn
    have hview := view_signal (u := u) hn bits
    have hdues := dues_signal (u := u) hn bits
    set wakes := (signalObject n bits).2
    have hfl : ((s.signal u i bits).pc u).inFlight = wakes.map (·.1) := by
      rw [Pc.inFlight, hdues, ← inFlight_sigStore i]; rfl
    have hnew : ∀ t, t ∈ wakes.map (·.1) → ∀ v, t ∉ (s.pc v).inFlight := by
      intro t ht
      obtain ⟨w, hw, rfl⟩ := mem_map.mp ht
      exact (htake w hw).2
    have hawait : ∀ w ∈ wakes, w.1 ≠ u := by
      intro w hw he
      rcases (h.canTake (htake w hw)).1.takes with hp | ⟨es, hp⟩ <;>
        simp [view, he, hpc] at hp
    have hu : ∀ v, u ∉ (s.pc v).inFlight := h.not_inFlight (by simp [hpc]) (by simp [hpc])
    refine h.owe (by rw [hpc]; rfl) hu (fun t ht => ?_) (fun t ht hno => ?_) ?_ ?_ (fun d hd => ?_)
      ?_ (h.balanced.signal u bits)
    · exact (congrArg View.pc (hview t)).trans (if_neg ht)
    · rw [hfl] at hno
      rw [hview t, if_neg ht, hand_of_not_mem s.handed hno]; rfl
    · rw [hfl]; exact hnd
    · rw [hfl]; exact hnew
    · rw [hdues] at hd
      obtain ⟨w, hw, rfl⟩ := mem_map.mp hd
      obtain ⟨hwait, hh⟩ := h.canTake (htake w hw)
      rw [hview w.1, if_neg (hawait w hw), hand_of_mem hnd s.handed hw, hh]
      refine ⟨rfl, ?_, hwait⟩
      rcases hwait with ⟨-, hb⟩ | ⟨es, -, hb, -⟩ <;> exact fun hc => by cases hb.symm.trans hc
    · have hfree : (s.view u).Free := h.free u hu
      have hnot : u ∉ wakes.map (·.1) := by
        rintro hm
        obtain ⟨w, hw, he⟩ := mem_map.mp hm
        exact hawait w hw he
      rw [hview u, if_pos rfl, hand_of_not_mem s.handed hnot]
      simp only [View.Free, view, hpc] at hfree ⊢
      split_ifs <;> exact hfree

lemma Inv.at_signal (hpc : ∃ i wakes, s.pc u = .sigStore i wakes ∨
    s.pc u = .sigWake i wakes ∨ ∃ t w, s.pc u = .sigSelect i t w wakes ∨
      s.pc u = .sigUnblock i t w wakes) :
    (∀ v, u ∉ (s.pc v).inFlight) ∧ s.blocked u = none ∧ s.handed u = [] := by
  have hu : ∀ v, u ∉ (s.pc v).inFlight := by
    apply h.not_inFlight <;> intro x hx <;> simp [hx] at hpc
  refine ⟨hu, ?_⟩
  have hfree := h.free u hu
  obtain ⟨i, wakes, hp | hp | ⟨t, w, hp | hp⟩⟩ := hpc <;>
    simpa only [View.Free, view, hp] using hfree

lemma Inv.sigStore (hpc : s.pc u = .sigStore i wakes) :
    ({ s with results := storeResults s.results wakes }.setPc u (.sigWake i wakes)).Inv := by
  obtain ⟨hu, hb, hh⟩ := h.at_signal ⟨i, wakes, .inl hpc⟩
  have hnd : (wakes.map (·.1)).Nodup := by
    have := h.nodup u
    rwa [hpc, inFlight_sigStore] at this
  have hpcu : ({ s with results := storeResults s.results wakes }.setPc u (.sigWake i wakes)).pc u
      = .sigWake i wakes := update_self _ _ _
  refine h.signaller hu (fun t ht => update_of_ne ht _ _) (fun t ht hno => ?_) ?_ ?_
    (fun d hd => ?_) ?_ ?_ (h.balanced.congr (fun _ _ => rfl) rfl)
  · rw [hpc, inFlight_sigStore] at hno
    simp [view, setPc, update_of_ne ht, storeResults_of_not_mem _ hno]
  · rwa [hpcu, inFlight_sigWake]
  · rw [hpcu, hpc, inFlight_sigWake, inFlight_sigStore]; exact fun _ ht => ht
  · rw [hpcu] at hd
    obtain ⟨w, hw, rfl⟩ := mem_map.mp hd
    have hmem : w.1 ∈ (s.pc u).inFlight := by
      rw [hpc, inFlight_sigStore]; exact mem_map_of_mem hw
    have hne : w.1 ≠ u := fun he => hu u (he ▸ hmem)
    obtain ⟨hh', hb', hwait⟩ := h.due u ⟨.store, i, w.1, w.2⟩ (by rw [hpc]; exact mem_map_of_mem hw)
    refine ⟨hh', hb', ?_, fun _ => storeResults_of_mem hnd _ hw⟩
    simp only [View.Awaits, view, setPc, update_of_ne hne] at hwait ⊢
    exact hwait
  · rw [hpcu, hpc, inFlight_sigWake, inFlight_sigStore]
    exact fun t ht hno => absurd ht hno
  · simp only [View.Free, view, hpcu]
    exact ⟨hb, hh⟩

lemma Inv.sigMove (hu : ∀ v, u ∉ (s.pc v).inFlight)
    (hfl : p.inFlight = (s.pc u).inFlight) (hdue : ∀ d ∈ p.dues, d.Ok (s.view d.tid))
    (hfree : ({ s.view u with pc := p } : View).Free) : (s.setPc u p).Inv := by
  have hpcu : (s.setPc u p).pc u = p := update_self _ _ _
  have hview : ∀ t, t ≠ u → (s.setPc u p).view t = s.view t := fun t ht => by
    simp [view, setPc, update_of_ne ht]
  refine h.signaller hu (fun t ht => update_of_ne ht _ _) (fun t ht _ => hview t ht) ?_ ?_
    (fun d hd => ?_) ?_ ?_ (h.balanced.congr (fun _ _ => rfl) rfl)
  · rw [hpcu, hfl]; exact h.nodup u
  · rw [hpcu, hfl]; exact fun _ ht => ht
  · rw [hpcu] at hd
    have hne : d.tid ≠ u := by
      intro he
      exact hu u (hfl ▸ he ▸ mem_map_of_mem hd)
    rw [hview d.tid hne]
    exact hdue d hd
  · rw [hpcu, hfl]; exact fun t ht hno => absurd ht hno
  · simpa [view, setPc] using hfree

lemma Inv.sigDone (hpc : s.pc u = .sigWake i []) : (s.setPc u .idle).Inv := by
  obtain ⟨hu, hb, hh⟩ := h.at_signal ⟨i, [], .inr (.inl hpc)⟩
  exact h.sigMove hu (by rw [hpc]; rfl) (fun d hd => by cases hd) ⟨hb, hh⟩

lemma Inv.sigWake (hpc : s.pc u = .sigWake i ((t, w) :: wakes)) :
    (s.setPc u (if s.blocked t = some .select then .sigSelect i t w wakes
      else .sigUnblock i t w wakes)).Inv := by
  obtain ⟨hu, hb, hh⟩ := h.at_signal ⟨i, _, .inr (.inl hpc)⟩
  have hdues : ∀ d ∈ (Pc.sigWake i ((t, w) :: wakes)).dues, d.Ok (s.view d.tid) := by
    rw [← hpc]; exact h.due u
  obtain ⟨hfirst, hrest⟩ := forall_mem_cons.mp hdues
  obtain ⟨hht, hbt, hwait, hres⟩ := hfirst
  split_ifs with hsel
  · refine h.sigMove hu ?_ (forall_mem_cons.mpr ⟨⟨hht, hbt, hwait, hsel⟩, hrest⟩) ⟨hb, hh⟩
    rw [hpc, inFlight_sigWake, inFlight_sigSelect]; rfl
  · refine h.sigMove hu ?_ (forall_mem_cons.mpr ⟨⟨hht, hbt, ?_⟩, hrest⟩) ⟨hb, hh⟩
    · rw [hpc, inFlight_sigWake, inFlight_sigUnblock]; rfl
    · rcases hwait with ⟨hp, -⟩ | ⟨es, -, hb', -⟩
      · exact .inl ⟨hp, hres hsel⟩
      · exact absurd hb' hsel

lemma Inv.sigFirst {rest : List Tid} (hu : ∀ v, u ∉ (s.pc v).inFlight)
    (hfl : (s.pc u).inFlight = t :: rest) (hpcu : s'.pc u = p)
    (hpc : ∀ v, v ≠ u → s'.pc v = s.pc v) (hview : ∀ v, v ≠ u → v ≠ t → s'.view v = s.view v)
    (hcase : p.inFlight = t :: rest ∨ p.inFlight = rest ∧ (s'.view t).Free)
    (hdue : ∀ d ∈ p.dues, d.tid = t → d.Ok (s'.view d.tid))
    (hrest : ∀ d ∈ p.dues, d.tid ≠ t → d ∈ (s.pc u).dues) (hfree : (s'.view u).Free)
    (hb : s'.Balanced) : s'.Inv := by
  have hnd := h.nodup u
  have hdue' := h.due u
  refine h.signaller hu hpc ?_ ?_ ?_ ?_ ?_ hfree hb <;> grind [mem_inFlight, nodup_cons]

end

lemma findIdx_isFor {es : List SelectKind} (h : es.any (·.isFor i) = true) :
    ∃ index mask, es.findIdx? (·.isFor i) = some index ∧
      es[index]? = some (.notification i mask) := by
  obtain ⟨e, he, hfor⟩ := any_eq_true.mp h
  cases hf : es.findIdx? (·.isFor i) with
  | none => simp [findIdx?_eq_none_iff.mp hf e he] at hfor
  | some index =>
    obtain ⟨hlt, hat, -⟩ := findIdx?_eq_some_iff_getElem.mp hf
    have hget : es[index]? = some es[index] := getElem?_eq_getElem hlt
    cases hk : es[index] with
    | channel c => rw [hk] at hat; cases hat
    | notification j mask =>
      rw [hk] at hat hget
      have hj : j = i := by simpa [SelectKind.isFor] using hat
      exact ⟨index, mask, rfl, hj ▸ hget⟩

lemma Inv.sigSelect (h : s.Inv) (hpc : s.pc u = .sigSelect i t w wakes) :
    ((s.wakeSelect i t w).setPc u (.sigUnblock i t w wakes)).Inv := by
  obtain ⟨hu, hb, hh⟩ := h.at_signal ⟨i, wakes, .inr (.inr ⟨t, w, .inl hpc⟩)⟩
  have hfl : (s.pc u).inFlight = t :: wakes.map (·.1) := by rw [hpc, inFlight_sigSelect]
  have htu : t ≠ u := fun he => hu u (by rw [hfl, he]; exact mem_cons_self)
  have hnd := h.nodup u
  rw [hfl] at hnd
  obtain ⟨hht, hbt, hwait, hsel⟩ := h.due u ⟨.select, i, t, w⟩ (by rw [hpc]; exact mem_cons_self)
  rcases hwait with ⟨-, hb'⟩ | ⟨es, hp, -, hs, hany⟩
  · cases hsel.symm.trans hb'
  obtain ⟨index, mask, hidx, hent⟩ := findIdx_isFor hany
  have hwake : s.wakeSelect i t w = { s with
      selects := Function.update s.selects t (some ⟨es, some (index, w)⟩) } := by
    unfold wakeSelect
    rw [show s.selects t = some ⟨es, none⟩ from hs]
    simp only [hidx]
  rw [hwake]
  refine h.sigFirst hu hfl (update_self _ _ _)
    (fun v hv => update_of_ne hv _ _) (fun v hv hvt => ?_)
    (.inl (inFlight_sigUnblock i t w wakes)) (fun d hd ht => ?_) (fun d hd ht => ?_) ?_
    (h.balanced.congr (fun _ _ => rfl) rfl)
  · simp [view, setPc, update_of_ne hv, update_of_ne hvt]
  · rcases mem_cons.mp hd with rfl | hd
    · refine ⟨hht, hbt, .inr ⟨es, some (index, w), ?_, ?_, index, mask, rfl, hent⟩⟩
      · exact (update_of_ne htu _ _).trans hp
      · exact update_self _ _ _
    · -- the thread is owed one wake only
      obtain ⟨x, hx, rfl⟩ := mem_map.mp hd
      exact absurd (mem_map.mpr ⟨x, hx, ht⟩) (nodup_cons.mp hnd).1
  · rcases mem_cons.mp hd with rfl | hd
    · exact absurd rfl ht
    · rw [hpc]; exact mem_cons_of_mem _ hd
  · simp only [View.Free, view, setPc, update_self]
    exact ⟨hb, hh⟩

lemma Inv.sigUnblock (h : s.Inv) (hpc : s.pc u = .sigUnblock i t w wakes) :
    ((s.setBlocked t none).setPc u (.sigWake i wakes)).Inv := by
  obtain ⟨hu, hb, hh⟩ := h.at_signal ⟨i, wakes, .inr (.inr ⟨t, w, .inr hpc⟩)⟩
  have hfl : (s.pc u).inFlight = t :: wakes.map (·.1) := by rw [hpc, inFlight_sigUnblock]
  have htu : t ≠ u := fun he => hu u (by rw [hfl, he]; exact mem_cons_self)
  have hnd := h.nodup u
  rw [hfl] at hnd
  obtain ⟨hht, -, hinf⟩ := h.due u ⟨.unblock, i, t, w⟩ (by rw [hpc]; exact mem_cons_self)
  have hfree : (((s.setBlocked t none).setPc u (.sigWake i wakes)).view t).Free := by
    refine View.Informed.free (i := i) (w := w) ?_ hht (update_self _ _ _)
    simp only [View.Informed, view, setPc, setBlocked, update_of_ne htu] at hinf ⊢
    exact hinf
  refine h.sigFirst hu hfl (update_self _ _ _)
    (fun v hv => update_of_ne hv _ _) (fun v hv hvt => ?_)
    (.inr ⟨inFlight_sigWake i wakes, hfree⟩) (fun d hd ht => ?_) (fun d hd ht => ?_) ?_
    (h.balanced.congr (fun _ _ => rfl) rfl)
  · simp [view, setPc, setBlocked, update_of_ne hv, update_of_ne hvt]
  · obtain ⟨x, hx, rfl⟩ := mem_map.mp hd
    exact absurd (mem_map.mpr ⟨x, hx, ht⟩) (nodup_cons.mp hnd).1
  · rw [hpc]; exact mem_cons_of_mem _ hd
  · simp only [View.Free, view, setPc, setBlocked, update_self, update_of_ne (Ne.symm htu)]
    exact ⟨hb, hh⟩

end Sys

end Aios.Ipc.Notify
