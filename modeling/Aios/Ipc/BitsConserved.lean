import Aios.Ipc.Handover

/-!
Notification bits are conserved along every run whose steps hand bits over safely.

The signaller's steps are in `Handover`; here are those of the waiting and the selecting thread
and of the timer, and the runs. Without the condition bits get lost and are returned twice.
-/

namespace Aios.Ipc.Notify

open Aios.Lib Function Option

def Pc.calls : Pc → Bool
  | .idle | .waitRegister .. | .waitDeadline .. | .waitBlock .. | .waitCleanup ..
  | .selScan .. | .selRecord .. => true
  | _ => false

namespace Sys

variable {s s' : Sys} {tid u : Tid} {i : NotificationId}

/-! ### The waiting thread -/

lemma Inv.congr (h : s.Inv) (hview : ∀ t, s'.view t = s.view t) (hb : s'.Balanced) : s'.Inv := by
  have hpc : ∀ t, s'.pc t = s.pc t := fun t => congrArg View.pc (hview t)
  refine ⟨hb, fun u => ?_, fun u v t => ?_, fun u d => ?_, fun t => ?_⟩
  · rw [hpc u]; exact h.nodup u
  · rw [hpc u, hpc v]; exact h.apart u v t
  · rw [hpc u, hview]; exact h.due u d
  · simp only [hpc, hview]; exact h.free t

lemma dropWaiterAt_eq (s : Sys) (j : NotificationId) (tid : Tid) :
    ∃ t, s.dropWaiterAt j tid = { s with table := t } := by
  unfold dropWaiterAt
  cases s.table j with
  | none => exact ⟨s.table, rfl⟩
  | some n => exact ⟨_, rfl⟩

lemma pendingBit_dropWaiterAt (s : Sys) (j : NotificationId) (tid : Tid) (i : NotificationId)
    (b : ℕ) : (s.dropWaiterAt j tid).pendingBit i b = s.pendingBit i b := by
  unfold dropWaiterAt
  cases hn : s.table j with
  | none => rfl
  | some n =>
    have hword : (dropWaiter n tid).word = n.word := by
      unfold dropWaiter
      split <;> rfl
    dsimp only
    rw [pendingBit_setObject, hword]
    split_ifs with hj
    · subst hj; exact (pendingBit_of hn b).symm
    · rfl

lemma Inv.setDeadlines (h : s.Inv) (d : Tid → Bool) : ({ s with deadlines := d } : Sys).Inv :=
  h.congr (fun _ => rfl) (h.balanced.congr (fun _ _ => rfl) rfl)

lemma Inv.dropWaiterAt (h : s.Inv) (j : NotificationId) (tid : Tid) :
    (s.dropWaiterAt j tid).Inv := by
  have hp := pendingBit_dropWaiterAt s j tid
  obtain ⟨t, heq⟩ := s.dropWaiterAt_eq j tid
  rw [heq] at hp ⊢
  exact h.congr (fun _ => rfl) (h.balanced.congr hp rfl)

variable {n : NotificationObject} {mask : Word} {p : Pc}

lemma Inv.setWaiters (h : s.Inv) (hn : s.table i = some n)
    (ws : Slots maxWaitersPerNotification Waiter) :
    (s.setObject i { n with waiters := ws }).Inv := by
  refine h.congr (fun _ => rfl) (h.balanced.congr (fun j b => ?_) rfl)
  rw [pendingBit_setObject]
  split_ifs with hij
  · subst hij; exact (pendingBit_of hn b).symm
  · rfl

lemma Inv.moveTo (h : s.Inv) (ht : ∀ u, tid ∉ (s.pc u).inFlight) (hd : (s.pc tid).dues = [])
    (hd' : p.dues = []) (hfree : ({ s.view tid with pc := p } : View).Free) : (s.setPc tid p).Inv :=
  h.own ht hd (h.balanced.congr (fun _ _ => rfl) rfl) (by simpa [view, setPc] using hfree)
    (by simpa [setPc] using hd') fun t hne => by simp [view, setPc, hne]

structure Calling (s : Sys) (tid : Tid) : Prop where
  apart : ∀ u, tid ∉ (s.pc u).inFlight
  dues : (s.pc tid).dues = []
  running : s.blocked tid = none
  handed : s.handed tid = []

section

variable (h : s.Inv)
include h

lemma Inv.calling (hpc : s.pc tid = p) (hp : p.calls = true) : s.Calling tid := by
  subst hpc
  have ht : ∀ u, tid ∉ (s.pc u).inFlight :=
    h.not_inFlight (fun i hi => by simp [hi, Pc.calls] at hp)
      fun es hes => by simp [hes, Pc.calls] at hp
  have hfree := h.free tid ht
  unfold View.Free at hfree
  constructor <;> cases hpc : s.pc tid <;> simp_all [view, Pc.dues, Pc.calls]

lemma Inv.fail (hc : s.Calling tid) : (s.fail tid).Inv :=
  h.own hc.apart hc.dues (h.balanced.fail hc.handed)
    (by simp [View.Free, view, Sys.fail, hc.running]) (by simp [Sys.fail, Pc.dues])
    fun t hne => by simp [view, Sys.fail, hne]

lemma Inv.takeBits (hn : s.table i = some n) (hc : s.Calling tid)
    (hs : s.takeBits tid i n mask = some s') : s'.Inv := by
  have hbal := h.balanced.takeBits hn hc.handed hs
  simp only [Sys.takeBits] at hs
  split_ifs at hs
  cases hs
  exact h.own hc.apart hc.dues hbal
    (by simp [View.Free, view, Sys.answer, Sys.fail, setObject, hc.running])
    (by simp [Sys.answer, Sys.fail, Pc.dues])
    fun t hne => by simp [view, Sys.answer, Sys.fail, setObject, hne]

lemma Inv.look (hn : s.table i = some n) (hc : s.Calling tid) (honward : s'.Inv) :
    ((s.takeBits tid i n mask).getD s').Inv := by
  cases hs : s.takeBits tid i n mask with
  | none => exact honward
  | some s1 => exact h.takeBits hn hc hs

lemma Inv.goOn (hc : s.Calling tid) (hp : p.calls = true) : (s.setPc tid p).Inv :=
  h.moveTo hc.apart hc.dues (by cases p <;> simp_all [Pc.calls, Pc.dues])
    (by cases p <;> simp_all [Pc.calls, View.Free, view, hc.running, hc.handed])

lemma Inv.wait {timed : Bool} (hpc : s.pc tid = .idle) : (s.wait tid i mask timed).Inv := by
  have hc := h.calling hpc rfl
  unfold Sys.wait
  cases hn : s.table i with
  | none => exact h
  | some n => exact h.look hn hc (h.goOn hc rfl)

lemma Inv.waitRegister {timed : Bool} (hpc : s.pc tid = .waitRegister i mask timed) :
    (s.waitRegister tid i mask timed).Inv := by
  have hc := h.calling hpc rfl
  unfold Sys.waitRegister
  cases hn : s.table i with
  | none => exact h.fail hc
  | some n =>
    refine h.look hn hc ?_
    cases n.waiters.firstFree with
    | none => exact h.fail hc
    | some k => exact (h.setWaiters hn _).moveTo hc.apart hc.dues rfl ⟨hc.running, hc.handed⟩

lemma Inv.waitTake {ready : Bool} (hpc : s.pc tid = .waitTake i)
    (hb : s.blocked tid = none) (hs : s.run tid ready = some s') : s'.Inv := by
  have hd : (s.pc tid).dues = [] := by rw [hpc]; rfl
  have ht := h.not_inFlight_of_blocked hb
  have hfree := h.free tid ht
  simp only [View.Free, view, hpc, hb, reduceCtorEq, false_and, false_or, true_and] at hfree
  simp only [Sys.run, hpc, hb, if_true] at hs
  rcases hfree with ⟨hh, hr⟩ | ⟨w, hh, hr⟩
  · simp only [hr] at hs
    cases hs
    exact h.own ht hd (h.balanced.congr (fun _ _ => rfl) rfl)
      (by simp [View.Free, view, setPc, hb, hh])
      (by simp [setPc, Pc.dues]) fun t hne => by simp [view, setPc, hne]
  · simp only [hr] at hs
    cases hs
    have hbal := h.balanced.answer hh
    exact h.own ht hd (hbal.congr (fun _ _ => rfl) rfl)
      (by simp [View.Free, view, Sys.answer, Sys.fail, hb])
      (by simp [Sys.answer, Sys.fail, Pc.dues]) fun t hne => by simp [view, Sys.answer, Sys.fail, hne]

end

/-! ### The selecting thread -/

section Select

variable {es : List SelectKind} {k : ℕ} {timed ready : Bool}

section

variable (h : s.Inv)
include h

lemma Inv.selScan (hpc : s.pc tid = .selScan es k timed) :
    (s.selScan tid es k timed ready).Inv := by
  have hc := h.calling hpc rfl
  have honward : (s.setPc tid (.selScan es (k + 1) timed)).Inv := h.goOn hc rfl
  unfold Sys.selScan
  cases es[k]? with
  | none => exact h.goOn hc rfl
  | some e =>
    cases e with
    | channel c =>
      cases ready with
      | true => exact h.fail hc
      | false => exact honward
    | notification j mask =>
      dsimp only
      cases hn : s.table j with
      | none => exact honward
      | some n => exact h.look hn hc honward

lemma Inv.selRecord (hpc : s.pc tid = .selRecord es timed) :
    ({ s with selects := update s.selects tid (some ⟨es, none⟩) }.setPc tid
      (.selRegister es 0 timed)).Inv := by
  have hc := h.calling hpc rfl
  exact h.own hc.apart hc.dues (h.balanced.congr (fun _ _ => rfl) rfl)
    (by simp [View.Free, view, setPc, hc.running, hc.handed]) (by simp [setPc, Pc.dues])
    fun t hne => by simp [view, setPc, hne]

lemma Inv.at_register (hpc : (∃ k timed, s.pc tid = .selRegister es k timed) ∨
    (∃ timed, s.pc tid = .selDeadline es timed) ∨ s.pc tid = .selBlock es) :
    (s.pc tid).dues = [] ∧ (∀ u, tid ∉ (s.pc u).inFlight) ∧
      s.blocked tid = none ∧ s.handed tid = [] ∧ s.selects tid = some ⟨es, none⟩ := by
  have ht : ∀ u, tid ∉ (s.pc u).inFlight := by
    apply h.not_inFlight <;> intro x hx <;> simp [hx] at hpc
  have hfree := h.free tid ht
  rcases hpc with ⟨k, timed, hp⟩ | ⟨timed, hp⟩ | hp <;>
    simp only [View.Free, view, hp] at hfree <;>
    exact ⟨by rw [hp]; rfl, ht, hfree⟩

lemma Inv.selRegister (hpc : s.pc tid = .selRegister es k timed) :
    (s.selRegister tid es k timed).Inv := by
  obtain ⟨hd, ht, hfree⟩ := h.at_register (.inl ⟨k, timed, hpc⟩)
  have honward : (s.setPc tid (.selRegister es (k + 1) timed)).Inv := h.moveTo ht hd rfl hfree
  unfold Sys.selRegister
  cases es[k]? with
  | none => exact h.moveTo ht hd rfl hfree
  | some e =>
    cases e with
    | channel c => exact honward
    | notification j mask =>
      dsimp only
      cases hn : s.table j with
      | none => exact honward
      | some n =>
        dsimp only
        cases n.waiters.firstFree with
        | none => exact honward
        | some k' => exact (h.setWaiters hn _).moveTo ht hd rfl hfree

lemma Inv.selBlock (hpc : s.pc tid = .selBlock es) :
    ((s.setBlocked tid (some .select)).setPc tid (.selTake es)).Inv := by
  obtain ⟨hd, ht, -, hh, hs⟩ := h.at_register (.inr (.inr hpc))
  exact h.own ht hd (h.balanced.congr (fun _ _ => rfl) rfl)
    (by simp [View.Free, view, setPc, setBlocked, hs, hh]) (by simp [setPc, Pc.dues])
    fun t hne => by simp [view, setPc, setBlocked, hne]

lemma Inv.selTake (hpc : s.pc tid = .selTake es) (hb : s.blocked tid = none) :
    ({ s with selects := update s.selects tid none }.setPc tid
      (.selUnregister es 0 ((s.selects tid).bind (·.ready)))).Inv := by
  have hd : (s.pc tid).dues = [] := by rw [hpc]; rfl
  have ht := h.not_inFlight_of_blocked hb
  have hfree := h.free tid ht
  simp only [View.Free, view, hpc] at hfree
  refine h.own ht hd (h.balanced.congr (fun _ _ => rfl) rfl) ?_ (by simp [setPc, Pc.dues])
    fun t hne => by simp [view, setPc, hne]
  simp only [View.Free, view, setPc, update_self]
  refine ⟨hb, ?_⟩
  rcases hfree with ⟨-, hh, hs | hs⟩ | ⟨-, i, w, hh, hinf⟩
  · exact .inl ⟨hh, by rw [hs]; rfl⟩
  · exact .inl ⟨hh, by rw [hs]; rfl⟩
  · rcases hinf with ⟨hp, -⟩ | ⟨es', r, hp, hs, hready⟩
    · cases hp
    · cases hp
      exact .inr ⟨i, w, hh, by rw [show s.selects tid = some ⟨es, r⟩ from hs]; exact hready⟩

lemma Inv.selUnregister {r : Option (ℕ × Word)}
    (hpc : s.pc tid = .selUnregister es k r) : (s.selUnregister tid es k r).Inv := by
  have hd : (s.pc tid).dues = [] := by rw [hpc]; rfl
  have ht : ∀ u, tid ∉ (s.pc u).inFlight := h.not_inFlight (by simp [hpc]) (by simp [hpc])
  have hfree := h.free tid ht
  simp only [View.Free, view, hpc] at hfree
  unfold Sys.selUnregister
  cases es[k]? with
  | none =>
    obtain ⟨hb, ⟨hh, rfl⟩ | ⟨i, w, hh, index, mask, rfl, hent⟩⟩ := hfree
    · exact h.fail ⟨ht, hd, hb, hh⟩
    · simp only [selReturn, hent]
      exact h.own ht hd (h.balanced.answer hh)
        (by simp [View.Free, view, Sys.answer, Sys.fail, hb])
        (by simp [Sys.answer, Sys.fail, Pc.dues]) fun t hne => by simp [view, Sys.answer, Sys.fail,
          hne]
  | some e =>
    cases e with
    | channel c => exact h.moveTo ht hd rfl hfree
    | notification j mask =>
      have hinv := h.dropWaiterAt j tid
      dsimp only
      obtain ⟨t, heq⟩ := s.dropWaiterAt_eq j tid
      rw [heq] at hinv ⊢
      exact hinv.moveTo ht hd rfl hfree

end

end Select

lemma Inv.run (h : s.Inv) {ready : Bool} (hs : s.run tid ready = some s') : s'.Inv := by
  cases hpc : s.pc tid with
  | waitTake i =>
    have hb : s.blocked tid = none := by
      by_contra hb
      simp [Sys.run, hpc, hb] at hs
    exact h.waitTake hpc hb hs
  | idle => simp [Sys.run, hpc] at hs
  | sigWake i wakes =>
    cases wakes with
    | nil => simp only [Sys.run, hpc] at hs; cases hs; exact h.sigDone hpc
    | cons x wakes => simp only [Sys.run, hpc] at hs; cases hs; exact h.sigWake hpc
  | waitDeadline i timed =>
    have hc := h.calling hpc rfl
    simp only [Sys.run, hpc] at hs
    split_ifs at hs
    cases hs
    exact (h.setDeadlines _).moveTo hc.apart hc.dues rfl ⟨hc.running, hc.handed⟩
  | selDeadline es timed =>
    obtain ⟨hd, ht, hfree⟩ := h.at_register (.inr (.inl ⟨timed, hpc⟩))
    simp only [Sys.run, hpc] at hs
    split_ifs at hs
    cases hs
    exact (h.setDeadlines _).moveTo ht hd rfl hfree
  | waitBlock i =>
    have hc := h.calling hpc rfl
    simp only [Sys.run, hpc] at hs
    cases hs
    exact h.own hc.apart hc.dues (h.balanced.congr (fun _ _ => rfl) rfl)
      (by simp [View.Free, view, setPc, setBlocked, hc.handed]) (by simp [setPc, Pc.dues])
      fun t hne => by simp [view, setPc, setBlocked, hne]
  | waitCleanup i =>
    have hc := h.calling hpc rfl
    simp only [Sys.run, hpc] at hs
    cases hs
    have hinv := h.dropWaiterAt i tid
    obtain ⟨t, heq⟩ := s.dropWaiterAt_eq i tid
    rw [heq] at hinv ⊢
    exact hinv.fail ⟨hc.apart, hc.dues, hc.running, hc.handed⟩
  | selTake es =>
    simp only [Sys.run, hpc] at hs
    split_ifs at hs with hb
    cases hs
    exact h.selTake hpc hb
  | sigStore i wakes => simp only [Sys.run, hpc] at hs; cases hs; exact h.sigStore hpc
  | sigSelect i t w wakes => simp only [Sys.run, hpc] at hs; cases hs; exact h.sigSelect hpc
  | sigUnblock i t w wakes => simp only [Sys.run, hpc] at hs; cases hs; exact h.sigUnblock hpc
  | waitRegister i mask timed => simp only [Sys.run, hpc] at hs; cases hs; exact h.waitRegister hpc
  | selScan es k timed => simp only [Sys.run, hpc] at hs; cases hs; exact h.selScan hpc
  | selRecord es timed => simp only [Sys.run, hpc] at hs; cases hs; exact h.selRecord hpc
  | selRegister es k timed => simp only [Sys.run, hpc] at hs; cases hs; exact h.selRegister hpc
  | selBlock es => simp only [Sys.run, hpc] at hs; cases hs; exact h.selBlock hpc
  | selUnregister es k r => simp only [Sys.run, hpc] at hs; cases hs; exact h.selUnregister hpc

/-! ### The timer -/

lemma Inv.setTimer (h : s.Inv) (t : TimerPc) : ({ s with timer := t } : Sys).Inv :=
  h.congr (fun _ => rfl) (h.balanced.congr (fun _ _ => rfl) rfl)

lemma Inv.timerSelect (h : s.Inv) (hb : s.blocked tid = some .select)
    (ht : ∀ u, tid ∉ (s.pc u).inFlight) :
    ({ s with selects := update s.selects tid none } : Sys).Inv := by
  obtain ⟨es, hp, hh, -⟩ := (h.free tid ht).of_select hb
  have hpc : s.pc tid = .selTake es := hp
  have hd : (s.pc tid).dues = [] := by rw [hpc]; rfl
  refine h.own ht hd (h.balanced.congr (fun _ _ => rfl) rfl) ?_ hd fun t hne => by simp [view, hne]
  simp only [View.Free, view, hpc, update_self]
  exact .inl ⟨.inl hb, hh, .inl trivial⟩

lemma Inv.timerUnblock (h : s.Inv) (hb : s.blocked tid ≠ none) (ht : ∀ u, tid ∉ (s.pc u).inFlight)
    (hr : s.blocked tid ≠ some .select → s.results tid = none) : (s.setBlocked tid none).Inv := by
  have hfree := h.free tid ht
  obtain ⟨b, hb'⟩ := ne_none_iff_exists'.mp hb
  cases b with
  | notification i =>
    obtain ⟨hp, hh⟩ := hfree.of_notification hb'
    have hpc : s.pc tid = .waitTake i := hp
    have hd : (s.pc tid).dues = [] := by rw [hpc]; rfl
    refine h.own ht hd (h.balanced.congr (fun _ _ => rfl) rfl) ?_ hd
      fun t hne => by simp [view, setBlocked, hne]
    have hres : s.results tid = none := hr (by simp [hb'])
    simp only [View.Free, view, setBlocked, hpc, update_self]
    exact .inr (.inl ⟨trivial, hh, hres⟩)
  | select =>
    obtain ⟨es, hp, hh, hs⟩ := hfree.of_select hb'
    have hpc : s.pc tid = .selTake es := hp
    have hd : (s.pc tid).dues = [] := by rw [hpc]; rfl
    refine h.own ht hd (h.balanced.congr (fun _ _ => rfl) rfl) ?_ hd
      fun t hne => by simp [view, setBlocked, hne]
    simp only [View.Free, view, setBlocked, hpc, update_self]
    exact .inl ⟨.inr trivial, hh, hs⟩

lemma Inv.runTimer (h : s.Inv) {locked : Bool} (hok : s.TimerOrderly locked)
    (hs : s.runTimer locked = some s') : s'.Inv := by
  unfold Sys.runTimer at hs
  unfold TimerOrderly at hok
  cases htm : s.timer with
  | idle => simp [htm] at hs
  | expired tid =>
    rw [htm] at hs
    dsimp only at hs
    split at hs <;> cases hs <;> exact h.setTimer _
  | cleanup tid b =>
    rw [htm] at hs hok
    cases locked with
    | false =>
      cases b <;> cases hs <;> exact h.setTimer _
    | true =>
      cases b with
      | notification i => cases hs; exact (h.setTimer _).dropWaiterAt i tid
      | select =>
        obtain ⟨hb, ht⟩ := hok rfl
        cases hs
        exact (h.timerSelect hb ht).setTimer _
  | unblock tid =>
    rw [htm] at hs hok
    cases hs
    by_cases hb : s.blocked tid = none
    · have hsame : s.setBlocked tid none = s := by
        unfold setBlocked
        rw [← hb, update_eq_self]
      rw [hsame]
      exact h.setTimer _
    · obtain ⟨ht, hr⟩ := hok hb
      exact (h.timerUnblock hb ht hr).setTimer _

/-! ### Every run -/

structure Start (s : Sys) : Prop where
  word : ∀ i, ∀ n ∈ s.table i, n.word = 0
  idle : ∀ t, s.pc t = .idle
  running : ∀ t, s.blocked t = none
  raised : s.raised = []
  handed : ∀ t, s.handed t = []
  returned : s.returned = []

lemma Start.inv (h : s.Start) : s.Inv := by
  have hno : ∀ u, (s.pc u).inFlight = [] := fun u => by rw [h.idle u]; rfl
  refine ⟨fun i b => ?_, fun u => ?_, fun u v t hu => ?_, fun u d hd => ?_, fun t _ => ?_⟩
  · have hp : s.pendingBit i b = 0 := by
      cases hn : s.table i with
      | none => simp [pendingBit, pending, hn]
      | some n => rw [pendingBit_of hn, h.word i n hn]; simp [bit]
    simp [h.raised, h.returned, hp, onTheWay, h.handed]
  · rw [hno u]; exact List.nodup_nil
  · rw [hno u] at hu; cases hu
  · rw [h.idle u] at hd; cases hd
  · simp only [View.Free, view, h.idle t]
    exact ⟨h.running t, h.handed t⟩

lemma Inv.next (h : s.Inv) {a : Act} (hok : s.Orderly a) (hs : s.next a = some s') : s'.Inv := by
  cases a with
  | signal u i bits =>
    simp only [Sys.next] at hs
    split_ifs at hs with hpc
    cases hs
    exact h.signal hpc hok
  | wait tid i mask timed =>
    simp only [Sys.next] at hs
    split_ifs at hs with hpc
    cases hs
    exact h.wait hpc
  | select tid es timed =>
    simp only [Sys.next] at hs
    split_ifs at hs with hpc
    cases hs
    exact h.goOn (h.calling hpc.1 rfl) rfl
  | run tid ready => exact h.run hs
  | expire tid =>
    simp only [Sys.next] at hs
    split_ifs at hs
    cases hs
    exact h.congr (fun _ => rfl) (h.balanced.congr (fun _ _ => rfl) rfl)
  | timer locked => exact h.runTimer hok hs

lemma Inv.handed_idle (h : s.Inv) (hpc : s.pc tid = .idle) : s.handed tid = [] :=
  (h.calling hpc rfl).handed

/-- **Notification bits are conserved.** However the lock-held sections of the operations of all
threads and of the timer interleave, as long as they hand bits over safely: each raised bit is
pending in its word, on its way to one thread that is inside its call, or returned. Nothing is on
its way to a thread that is in no call; when no thread is in one, a raised bit is pending or was
returned, exactly once. -/
theorem bits_conserved {t : Sys} (hs : s.Start)
    (hrun : Runs (fun a i b => a.next i = some b) Orderly s t) :
    (∀ i b, count t.raised i b
      = (t.pending i b).toNat + t.onTheWay i b + count t.returned i b) ∧
    (∀ tid, t.pc tid = .idle → t.handed tid = []) ∧
    ((∀ tid, t.pc tid = .idle) →
      ∀ i b, count t.raised i b = (t.pending i b).toNat + count t.returned i b) := by
  have hinv : t.Inv := hrun.inv Inv hs.inv fun _ _ _ h hok hstep => h.next hok hstep
  have hidle : ∀ tid, t.pc tid = .idle → t.handed tid = [] := fun tid => hinv.handed_idle
  refine ⟨hinv.balanced, hidle, fun hall i b => ?_⟩
  have hway : t.onTheWay i b = 0 := by
    simp [onTheWay, hidle _ (hall _)]
  have hbal := hinv.balanced i b
  rw [hway, add_zero] at hbal
  exact hbal

def twoNotifications : Sys where
  table i := if i = 0 ∨ i = 1 then some ⟨0, fun _ => none⟩ else none
  results _ := none
  selects _ := none
  deadlines _ := false
  blocked _ := none
  pc _ := .idle
  timer := .idle
  raised := []
  handed _ := []
  returned := []

lemma twoNotifications_start : twoNotifications.Start := by
  refine ⟨fun i n hn => ?_, fun _ => rfl, fun _ => rfl, rfl, fun _ => rfl, rfl⟩
  by_cases hi : i = 0 ∨ i = 1
  · simp only [twoNotifications, hi, if_true] at hn
    cases hn
    rfl
  · simp [twoNotifications, hi] at hn

def selectBoth : List Act :=
  .select 0 [.notification 0 1, .notification 1 1] false :: List.replicate 9 (.run 0 false)

def signalled : List Act :=
  selectBoth ++ .signal 1 0 1 :: List.replicate 5 (.run 1 false) ++ List.replicate 4 (.run 0 false)

theorem bits_conserved_select : ∃ t,
    Runs.exec Orderly next twoNotifications signalled = some t ∧ t.returned = [(0, 1)] ∧
    count t.raised 0 0 = (t.pending 0 0).toNat + t.onTheWay 0 0 + count t.returned 0 0 := by
  obtain ⟨t, ht, h⟩ := (any_eq_true _ _).mp
    (show ((Runs.exec Orderly next twoNotifications signalled).any fun t =>
      t.returned == [(0, 1)]) = true by decide +kernel)
  exact ⟨t, ht, beq_iff_eq.mp h, (bits_conserved twoNotifications_start (Runs.of_exec ht)).1 0 0⟩

def bothSignalled : List Act :=
  selectBoth ++ [.signal 1 0 1, .signal 2 1 1] ++ List.replicate 5 (.run 1 false) ++
    List.replicate 4 (.run 2 false) ++ List.replicate 4 (.run 0 false)

def waitAfterSelect : List Act :=
  signalled ++ .wait 0 0 2 true :: List.replicate 3 (.run 0 false) ++
    [.expire 0, .timer true, .timer true, .timer true, .run 0 false]

/-- **Bits get lost, and are returned twice.** When both sources of a selecting thread fire before
it is woken, the bit of the second is in no word and was not returned. And the result that a
signal stores for a selecting thread stays behind, so that its next wait, which times out, returns
a bit that `ipc_select` has returned before and that the wait did not ask for. -/
theorem bits_not_conserved :
    (∃ t, Runs (fun a i b => a.next i = some b) (fun _ _ => True) twoNotifications t ∧
      (∀ tid, t.pc tid = .idle) ∧ count t.raised 1 0 = 1 ∧ t.pending 1 0 = false ∧
      count t.returned 1 0 = 0) ∧
    ∃ t, Runs (fun a i b => a.next i = some b) (fun _ _ => True) twoNotifications t ∧
      (∀ tid, t.pc tid = .idle) ∧ count t.raised 0 0 = 1 ∧ count t.returned 0 0 = 2 := by
  constructor
  · obtain ⟨t, ht, h⟩ := (any_eq_true _ _).mp
      (show ((Runs.exec (fun _ _ => True) next twoNotifications bothSignalled).any fun t =>
        decide ((∀ tid, t.pc tid = .idle) ∧ count t.raised 1 0 = 1 ∧ t.pending 1 0 = false ∧
          count t.returned 1 0 = 0)) = true by decide +kernel)
    exact ⟨t, Runs.of_exec ht, of_decide_eq_true h⟩
  · obtain ⟨t, ht, h⟩ := (any_eq_true _ _).mp
      (show ((Runs.exec (fun _ _ => True) next twoNotifications waitAfterSelect).any fun t =>
        decide ((∀ tid, t.pc tid = .idle) ∧ count t.raised 0 0 = 1 ∧
          count t.returned 0 0 = 2)) = true by decide +kernel)
    exact ⟨t, Runs.of_exec ht, of_decide_eq_true h⟩

end Sys

end Aios.Ipc.Notify
