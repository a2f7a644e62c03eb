import Aios.Ipc.Errors
import Aios.Lib.Slots

/-!
Errors that belong to the wait they end.

A `wake_with_error` takes a thread's registration or its timeout in one section and stores the code
in a later one; in between the wait may end otherwise, and the code then waits in the slot for the
thread's next wait. A wait that is woken without an error leaves its registration in the channel,
and a later `ipc_cancel` or `channel_destroy` aims at it. As long as nothing of that kind is left
when a wait begins, every wake of the thread is aimed at the wait it is in.
-/

namespace Aios.Ipc.Errors

open Aios.Lib Function Option

namespace Pc

def inWait : Pc → Bool
  | callArm _ _ _ | callSwitch _ _ | callBlock _ | callWoken _ | callError _
  | recvArm _ _ | recvBlock _ | recvWoken _ | recvClear _ | recvError _ => true
  | _ => false

def armed : Pc → Bool
  | callSwitch _ _ | callBlock _ | callWoken _ | recvBlock _ | recvWoken _ => true
  | _ => false

def wakes : Pc → List WakeStep
  | waking steps => steps
  | _ => []

end Pc

def names (t : Tid) (o : Option ThreadId) : Prop := o.map (Fin.ofNat maxThreads) = some t

instance (t : Tid) (o : Option ThreadId) : Decidable (names t o) :=
  inferInstanceAs (Decidable (_ = _))

def WakeStep.stores (t : Tid) : WakeStep → Bool
  | store x _ _ => x == t
  | _ => false

namespace Sys

/-! ### The condition -/

/-- Nothing of an earlier wait of the thread is left: no error in its slot, no `wake_with_error`
with its store still to come, and no registration in a channel. -/
def Unused (s : Sys) (t : Tid) : Prop :=
  s.wakeupErrors t = none ∧ (∀ u, ∀ w ∈ (s.pc u).wakes, w.stores t = false) ∧
    (∀ cpu, ∀ w ∈ s.irq cpu, w.stores t = false) ∧
    ∀ c, ∀ ch ∈ s.channels c, ¬ names t ch.waitingReceiver ∧ ¬ names t ch.pendingCaller

instance (s : Sys) (t : Tid) : Decidable (s.Unused t) :=
  inferInstanceAs (Decidable (_ ∧ _ ∧ _ ∧ _))

/-- `ipc_call` and `ipc_recv` begin only when nothing of an earlier wait is left. -/
def Settled (s : Sys) : Act → Prop
  | .call t _ _ _ _ | .recv t _ _ => s.Unused t
  | _ => True

instance (s : Sys) (a : Act) : Decidable (s.Settled a) := by
  unfold Settled
  split <;> infer_instance

/-! ### What the steps keep -/

/-- Something can end a wait of the thread with an error, and is aimed at this wait: an error in the
slot, a store that is going to be made, a registration or a timeout. -/
def Aim (s : Sys) (t : Tid) (aim : ℕ) : Prop :=
  s.wakeupErrors t ≠ none ∧ s.errorWait t = aim ∨
  (∃ u e, .store t e aim ∈ (s.pc u).wakes) ∨ (∃ cpu e, .store t e aim ∈ s.irq cpu) ∨
  (∃ c ch, s.channels c = some ch ∧ names t ch.waitingReceiver ∧ s.receiverWait c = aim) ∨
  (∃ c ch, s.channels c = some ch ∧ names t ch.pendingCaller ∧ s.callerWait c = aim) ∨
  s.timeouts t ≠ none ∧ s.timeoutWait t = aim

structure Aimed (s : Sys) (t : Tid) : Prop where
  wait : (s.pc t).inWait = true → ∀ aim, s.Aim t aim → aim = s.wait t
  armed : s.timeouts t ≠ none → (s.pc t).armed = true

structure Frame (t : Tid) (s s' : Sys) : Prop where
  wait : s'.wait t = s.wait t
  aims : ∀ aim, s'.Aim t aim → s.Aim t aim ∨ aim = s.wait t

variable {s s' : Sys} {t u : Tid} {c : Cid}

lemma Frame.trans {s'' : Sys} (h : Frame t s s') (h' : Frame t s' s'') : Frame t s s'' := by
  refine ⟨h'.wait.trans h.wait, fun aim ha => ?_⟩
  rcases h'.aims aim ha with ha | ha
  · exact h.aims aim ha
  · exact .inr (ha.trans h.wait)

lemma Aimed.keep (h : s.Aimed t) (hf : Frame t s s')
    (hin : (s'.pc t).inWait = true → (s.pc t).inWait = true)
    (harm : s'.timeouts t ≠ none → (s'.pc t).armed = true) : s'.Aimed t := by
  refine ⟨fun hw aim ha => ?_, harm⟩
  rw [hf.wait]
  rcases hf.aims aim ha with ha | ha
  · exact h.wait (hin hw) aim ha
  · exact ha

lemma Aimed.stay (h : s.Aimed t) (hf : Frame t s s') (hpc : s'.pc t = s.pc t)
    (ht : s'.timeouts t = s.timeouts t ∨ s'.timeouts t = none) : s'.Aimed t := by
  have := h.armed
  exact h.keep hf (by grind) (by grind)

variable {ch' : Option (Channel RawMessage)} {direct busy : Bool} {ch : Channel RawMessage} {p : Pc}

lemma frame_setPc (s : Sys) {u : Tid} (hp : ∀ w ∈ p.wakes, w ∈ (s.pc u).wakes) (t : Tid) :
    Frame t s (s.setPc u p) := by
  refine ⟨rfl, ?_⟩
  simp only [Aim, setPc, update_apply]
  grind

lemma frame_setBlocked (s : Sys) (u : Tid) (b : Bool) (t : Tid) : Frame t s (s.setBlocked u b) :=
  ⟨rfl, fun _ => .inl⟩

lemma frame_armTimeout (s : Sys) (u : Tid) (deadline : Option ℕ) (t : Tid) :
    Frame t s (s.armTimeout u deadline) := by
  cases deadline with
  | none => exact ⟨rfl, fun _ => .inl⟩
  | some d =>
    refine ⟨rfl, ?_⟩
    simp only [Aim, armTimeout, update_apply]
    grind

lemma frame_clearTimeout (s : Sys) (x : Tid) (busy : Bool) (t : Tid) :
    Frame t s (s.clearTimeout x busy) := by
  cases busy with
  | true => exact ⟨rfl, fun _ => .inl⟩
  | false =>
    refine ⟨rfl, ?_⟩
    simp only [Aim, clearTimeout]
    grind

lemma frame_takeError (s : Sys) (u t : Tid) :
    Frame t s { s with wakeupErrors := update s.wakeupErrors u none } := by
  refine ⟨rfl, ?_⟩
  simp only [Aim, update_apply]
  grind

lemma frame_setChannel
    (hr : ∀ n, ch' = some n → ∀ t, names t n.waitingReceiver → ∃ ch, s.channels c = some ch ∧
      names t ch.waitingReceiver)
    (hc : ∀ n, ch' = some n → ∀ t, names t n.pendingCaller → ∃ ch, s.channels c = some ch ∧
      names t ch.pendingCaller)
    (t : Tid) : Frame t s (s.setChannel c ch') := by
  refine ⟨rfl, ?_⟩
  simp only [Aim, setChannel, update_apply]
  grind

lemma frame_wake (s : Sys) (busy : Bool) {w : WakeStep}
    (hw : (∃ u, w ∈ (s.pc u).wakes) ∨ ∃ cpu, w ∈ s.irq cpu) (t : Tid) :
    Frame t s (s.wake busy w) := by
  cases w with
  | clearTimeout x => exact frame_clearTimeout s x busy t
  | unblock x => exact frame_setBlocked s x false t
  | store x e aim =>
    refine ⟨rfl, ?_⟩
    simp only [Aim, wake, update_apply]
    grind

@[simp, grind =] lemma mem_wakeWithError {x : Tid} {e e' : IpcError} {aim aim' : ℕ} :
    .store t e aim ∈ wakeWithError x e' aim' ↔ t = x ∧ e = e' ∧ aim = aim' := by
  simp [wakeWithError]

lemma frame_checkTimeouts (s : Sys) (cpu : Cpu) (t : Tid) : Frame t s (s.checkTimeouts cpu) := by
  refine ⟨rfl, ?_⟩
  simp only [Aim, checkTimeouts, update_apply]
  grind

lemma clearTimeout_pc (s : Sys) (x : Tid) (busy : Bool) : (s.clearTimeout x busy).pc = s.pc := by
  cases busy <;> rfl

lemma clearTimeout_timeouts (s : Sys) (x : Tid) (busy : Bool) (v : Tid) :
    (s.clearTimeout x busy).timeouts v = s.timeouts v ∨
      (s.clearTimeout x busy).timeouts v = none := by
  cases busy <;> simp only [clearTimeout] <;> grind

lemma clearTimeout_self (s : Sys) (x : Tid) : (s.clearTimeout x false).timeouts x = none :=
  update_self ..

lemma armTimeout_other (s : Sys) {v : Tid} (hv : v ≠ u) (deadline : Option ℕ) :
    (s.armTimeout u deadline).timeouts v = s.timeouts v := by
  cases deadline with
  | none => rfl
  | some d => exact update_of_ne hv _ _

lemma armTimeout_pc (s : Sys) (u : Tid) (deadline : Option ℕ) :
    (s.armTimeout u deadline).pc = s.pc := by
  cases deadline <;> rfl

lemma wake_timeouts (s : Sys) (busy : Bool) (w : WakeStep) (v : Tid) :
    (s.wake busy w).timeouts v = s.timeouts v ∨ (s.wake busy w).timeouts v = none := by
  cases w with
  | clearTimeout x => exact clearTimeout_timeouts s x busy v
  | _ => exact .inl rfl

lemma wake_pc (s : Sys) (busy : Bool) (w : WakeStep) : (s.wake busy w).pc = s.pc := by
  cases w <;> cases busy <;> rfl

lemma wake_irq (s : Sys) (busy : Bool) (w : WakeStep) : (s.wake busy w).irq = s.irq := by
  cases w <;> cases busy <;> rfl

/-! ### The sections of a thread -/

lemma names_none : ¬ names t none := by simp [names]

lemma frame_run (hs : s.run u busy direct = some s') (t : Tid) : Frame t s s' := by
  have hclear := fun (s : Sys) x b => frame_clearTimeout s x b t
  have harm := fun (s : Sys) d => frame_armTimeout s u d t
  have hblock := fun (s : Sys) x b => frame_setBlocked s x b t
  have herror := frame_takeError s u t
  have hmove : ∀ (s : Sys) (p : Pc), p.wakes = [] → Frame t s (s.setPc u p) :=
    fun s p hp => frame_setPc s (by simp [hp]) t
  have hchan : ∀ f : Channel RawMessage → Channel RawMessage,
      (∀ ch, (f ch).waitingReceiver = none ∨ (f ch).waitingReceiver = ch.waitingReceiver) →
      (∀ ch, (f ch).pendingCaller = none ∨ (f ch).pendingCaller = ch.pendingCaller) →
      ∀ c, Frame t s (s.setChannel c ((s.channels c).map f)) := by
    refine fun f hr hc c => frame_setChannel (fun n hn x hx => ?_) (fun n hn x hx => ?_) t
    all_goals
      obtain ⟨ch, hch, rfl⟩ := map_eq_some_iff.mp hn
      grind [names_none]
  unfold Sys.run at hs
  split at hs
  case h_7 =>
    cases hs
    exact (hchan _ (by grind [Channel.clearPending]) (by grind [Channel.clearPending]) _).trans
      (hmove _ _ rfl)
  case h_13 =>
    cases hs
    exact (hchan _ (by grind [Channel.clearWaiting]) (by grind [Channel.clearWaiting]) _).trans
      (hmove _ _ rfl)
  case h_15 c hpc =>
    split at hs
    · rename_i ch' hpop
      cases hs
      obtain ⟨ch, hch, hpop⟩ := bind_eq_some_iff.mp hpop
      obtain ⟨x, -, rfl⟩ := map_eq_some_iff.mp hpop
      exact (frame_setChannel (by grind) (by grind) t).trans (hmove _ _ rfl)
    · cases hs
      exact hmove _ _ rfl
  case h_17 w steps hpc =>
    cases hs
    have hw : w ∈ (s.pc u).wakes := by simp [hpc, Pc.wakes]
    refine (frame_wake s busy (.inl ⟨u, hw⟩) t).trans (frame_setPc _ (fun x hx => ?_) t)
    rw [wake_pc, hpc]
    exact List.mem_cons_of_mem w hx
  case h_2 =>
    cases hs
    exact (harm s _).trans (hmove _ _ (by grind [Pc.wakes]))
  all_goals grind [Frame.trans, Pc.wakes]

lemma run_moves (hs : s.run u busy direct = some s')
    (harm : s.timeouts u ≠ none → (s.pc u).armed = true) :
    (∀ v, v ≠ u → s'.pc v = s.pc v ∧ (s'.timeouts v = s.timeouts v ∨ s'.timeouts v = none)) ∧
      ((s'.pc u).inWait = true → (s.pc u).inWait = true) ∧
      (s'.timeouts u ≠ none → (s'.pc u).armed = true) := by
  have hclear := clearTimeout_timeouts s
  have hself := clearTimeout_self s u
  have harmed := fun v (hv : v ≠ u) => s.armTimeout_other hv
  have hwake := wake_timeouts s busy
  unfold Sys.run at hs
  split at hs <;> (try split_ifs at hs) <;> (try split at hs) <;> cases hs
  all_goals
    simp only [setPc, setBlocked, setChannel, update_apply, clearTimeout_pc, wake_pc, armTimeout_pc]
    grind -ring -linarith [Pc.armed, Pc.inWait]

lemma Aimed.run (h : ∀ t, s.Aimed t) (hs : s.run u busy direct = some s') (t : Tid) :
    s'.Aimed t := by
  obtain ⟨hother, hin, harm⟩ := run_moves hs (h u).armed
  have := (h t).armed
  exact (h t).keep (frame_run hs t) (by grind) (by grind)

/-! ### The beginning of a wait -/

lemma names_val : names t (some u.val) ↔ t = u := by
  simp [names, eq_comm]

lemma Aimed.begins (h : ∀ t, s.Aimed t) (hu : s.Unused u) (hidle : s.pc u = .idle)
    {ch' : Channel RawMessage} (hch : s.channels c = some ch) {rw cw : Cid → ℕ}
    (hrw : ∀ d, d ≠ c → rw d = s.receiverWait d) (hcw : ∀ d, d ≠ c → cw d = s.callerWait d)
    (hr : ∀ x, names x ch'.waitingReceiver → names x ch.waitingReceiver ∧ rw c = s.receiverWait c ∨
      x = u ∧ rw c = s.wait u + 1)
    (hc : ∀ x, names x ch'.pendingCaller → names x ch.pendingCaller ∧ cw c = s.callerWait c ∨
      x = u ∧ cw c = s.wait u + 1)
    (hp : p.wakes = []) (t : Tid) :
    ({ s.setChannel c (some ch') with
        wait := update s.wait u (s.wait u + 1)
        receiverWait := rw
        callerWait := cw }.setPc u p).Aimed t := by
  have hnone : s.timeouts u = none := by
    have := (h u).armed
    grind [Pc.armed]
  obtain ⟨herr, hpc, hirq, hreg⟩ := hu
  refine ⟨fun hw aim haim => ?_, ?_⟩
  · simp only [Aim, setPc, setChannel, update_apply] at haim ⊢
    by_cases htu : t = u
    · -- nothing is left of the earlier waits
      subst htu
      grind [WakeStep.stores]
    · have hold : s.Aim t aim := by
        simp only [Aim]
        grind
      have := (h t).wait (by simpa [setPc, setChannel, htu] using hw) aim hold
      grind
  · have := (h t).armed
    simp only [setPc, setChannel, update_apply] at this ⊢
    grind

lemma Aimed.clear (h : s.Aimed t) (x : Tid) (busy : Bool) : (s.clearTimeout x busy).Aimed t :=
  h.stay (frame_clearTimeout s x busy t) (congrFun (clearTimeout_pc s x busy) t)
    (clearTimeout_timeouts s x busy t)

section

variable (h : ∀ t, s.Aimed t)
include h

lemma Aimed.call (hu : s.Unused u) (hidle : s.pc u = .idle) (c : Cid) (buf : List UInt8) (ticks : ℕ)
    (busy : Bool) (t : Tid) : (s.call u c buf ticks busy).Aimed t := by
  unfold Sys.call
  by_cases hlen : maxMessageSize < buf.length
  · rw [if_pos hlen]
    exact h t
  · rw [if_neg hlen]
    cases hch : s.channels c with
    | none => exact h t
    | some ch =>
      cases hcall : ch.call u ⟨u, buf⟩ with
      | error e => simpa only [hcall] using h t
      | ok x =>
        obtain ⟨receiver, ch'⟩ := x
        have hregs : ch'.waitingReceiver = none ∧ ch'.pendingCaller = some u.val := by
          grind [Channel.call]
        have hbegins : ∀ p : Pc, p.wakes = [] → ∀ t,
            ({ s.setChannel c (some ch') with
              wait := update s.wait u (s.wait u + 1)
              callerWait := update s.callerWait c (s.wait u + 1) }.setPc u p).Aimed t := by
          intro p hp
          refine Aimed.begins h hu hidle hch (fun _ _ => rfl)
            (fun d hd => update_of_ne hd _ _) ?_ ?_ hp
          · grind [names_none]
          · grind [names_val]
        simp only [hcall]
        cases receiver with
        | none => exact hbegins _ rfl t
        | some r =>
          cases busy with
          | true => exact (hbegins _ rfl t).clear (Fin.ofNat maxThreads r) true
          | false => exact (hbegins _ rfl t).clear (Fin.ofNat maxThreads r) false

lemma Aimed.recv (hu : s.Unused u) (hidle : s.pc u = .idle) (c : Cid)
    (ticks : ℕ) (t : Tid) : (s.recv u c ticks).Aimed t := by
  unfold Sys.recv
  cases hch : s.channels c with
  | none => exact h t
  | some ch =>
    cases hrecv : ch.recv u (ticks == 0) with
    | error e => simpa only [hrecv] using h t
    | ok x =>
      obtain ⟨msg, ch'⟩ := x
      have hregs : ch'.pendingCaller = ch.pendingCaller ∧
          (msg ≠ none → ch'.waitingReceiver = ch.waitingReceiver) ∧
          (msg = none → ch'.waitingReceiver = some u.val) := by
        grind [Channel.recv]
      simp only [hrecv]
      cases msg with
      | some m =>
        exact (h t).stay (frame_setChannel (by grind) (by grind) t) rfl (.inl rfl)
      | none =>
        refine Aimed.begins h hu hidle hch (fun d hd => update_of_ne hd _ _)
          (fun _ _ => rfl) ?_ ?_ rfl t
        · grind [names_val]
        · grind

section

variable (hidle : s.pc u = .idle)
include hidle

lemma Aimed.take (hch : s.channels c = some ch)
    (hreg : ∀ n, ch' = some n → (n.waitingReceiver = none ∨
      n.waitingReceiver = ch.waitingReceiver) ∧ (n.pendingCaller = none ∨
        n.pendingCaller = ch.pendingCaller))
    (hin : p.inWait = false)
    (hp : ∀ x e aim, .store x e aim ∈ p.wakes → names x ch.waitingReceiver ∧
      s.receiverWait c = aim ∨ names x ch.pendingCaller ∧ s.callerWait c = aim)
    (t : Tid) : ((s.setChannel c ch').setPc u p).Aimed t := by
  have hold : ∀ aim, ((s.setChannel c ch').setPc u p).Aim t aim → s.Aim t aim := by
    simp only [Aim, setPc, setChannel, update_apply]
    grind [names_none]
  have ht := h t
  refine ⟨fun hw aim ha => ?_, fun hne => ?_⟩
  · refine ht.wait ?_ aim (hold aim ha)
    simp only [setPc, setChannel, update_apply] at hw
    grind
  · have harm := ht.armed hne
    simp only [setPc, setChannel, update_apply]
    grind [Pc.armed]

lemma Aimed.takeCaller (c : Cid) {steps : Tid → ℕ → List WakeStep}
    (hsteps : ∀ r x e aim aim', .store x e aim ∈ steps r aim' → x = r ∧ aim = aim') (t : Tid) :
    (s.takeCaller u c steps).Aimed t := by
  unfold Sys.takeCaller
  cases hch : s.channels c with
  | none => exact h t
  | some ch =>
    cases hcaller : ch.pendingCaller with
    | none => simpa only [hcaller] using h t
    | some caller =>
      simp only [hcaller]
      refine Aimed.take h hidle hch (by grind) rfl (fun x e aim hx => ?_) t
      obtain ⟨rfl, rfl⟩ := hsteps _ x e aim _ hx
      exact .inr ⟨congrArg _ hcaller, rfl⟩

lemma Aimed.destroy (c : Cid) (t : Tid) : (s.destroy u c).Aimed t := by
  unfold Sys.destroy
  cases hch : s.channels c with
  | none => exact h t
  | some ch =>
    have hepipe : ∀ x e aim aim' o, .store x e aim ∈ epipe aim' o → names x o ∧ aim' = aim := by
      intro x e aim aim' o hx
      cases o <;> grind [epipe, names]
    refine Aimed.take h hidle hch (by simp) rfl (fun x e aim hx => ?_) t
    rcases List.mem_append.mp hx with hx | hx
    · exact .inl (hepipe _ _ _ _ _ hx)
    · exact .inr (hepipe _ _ _ _ _ hx)

lemma Aimed.send (c : Cid) (buf : List UInt8) (t : Tid) : (s.send u c buf).Aimed t := by
  unfold Sys.send
  by_cases hlen : maxMessageSize < buf.length
  · rw [if_pos hlen]
    exact h t
  · rw [if_neg hlen]
    cases hch : s.channels c with
    | none => exact h t
    | some ch =>
      cases hsend : ch.send ⟨u, buf⟩ with
      | error e => simpa only [hsend] using h t
      | ok x =>
        obtain ⟨r, ch'⟩ := x
        have hregs : ch'.pendingCaller = ch.pendingCaller ∧
            (ch'.waitingReceiver = none ∨ ch'.waitingReceiver = ch.waitingReceiver) := by
          grind [Channel.send]
        simp only [hsend]
        cases r with
        | none =>
          refine (h t).stay (frame_setChannel ?_ ?_ t) rfl (.inl rfl) <;> grind [names_none]
        | some r => exact Aimed.take h hidle hch (by grind) rfl (by simp [Pc.wakes]) t

end

lemma Aimed.next {a : Act} (hok : s.Settled a) (hs : s.Step a s') (t : Tid) : s'.Aimed t := by
  cases a with
  | tick =>
    cases hs
    exact (h t).stay ⟨rfl, fun _ => .inl⟩ rfl (.inl rfl)
  | checkTimeouts cpu =>
    obtain ⟨-, hs⟩ := ite_none_right_eq_some.mp hs
    cases hs
    exact (h t).stay (frame_checkTimeouts s cpu t) rfl (by grind [checkTimeouts])
  | irq cpu busy =>
    cases hirq : s.irq cpu with
    | nil => simp [Step, Sys.next, hirq] at hs
    | cons w steps =>
      simp only [Step, Sys.next, hirq, Option.some.injEq] at hs
      subst hs
      have hframe := frame_wake s busy (.inr ⟨cpu, hirq ▸ List.mem_cons_self⟩) t
      refine (h t).stay (hframe.trans ⟨rfl, fun aim ha => ?_⟩) (by simp [wake_pc])
        (wake_timeouts s busy w t)
      simp only [Aim, update_apply, wake_irq] at ha ⊢
      grind
  | call u c buf ticks busy =>
    obtain ⟨hidle, hs⟩ := ite_none_right_eq_some.mp hs
    cases hs
    exact Aimed.call h hok hidle c buf ticks busy t
  | send u c buf =>
    obtain ⟨hidle, hs⟩ := ite_none_right_eq_some.mp hs
    cases hs
    exact Aimed.send h hidle c buf t
  | recv u c ticks =>
    obtain ⟨hidle, hs⟩ := ite_none_right_eq_some.mp hs
    cases hs
    exact Aimed.recv h hok hidle c ticks t
  | reply u c buf =>
    obtain ⟨hidle, hs⟩ := ite_none_right_eq_some.mp hs
    cases hs
    unfold Sys.reply
    split_ifs
    · exact h t
    · exact Aimed.takeCaller h hidle c (by simp) t
  | cancel u c =>
    obtain ⟨hidle, hs⟩ := ite_none_right_eq_some.mp hs
    cases hs
    exact Aimed.takeCaller h hidle c (by grind) t
  | create c owner =>
    obtain ⟨-, hs⟩ := ite_none_right_eq_some.mp hs
    cases hs
    refine (h t).stay (frame_setChannel ?_ ?_ t) rfl (.inl rfl) <;> grind [Channel.new, names_none]
  | destroy u c =>
    obtain ⟨hidle, hs⟩ := ite_none_right_eq_some.mp hs
    cases hs
    exact Aimed.destroy h hidle c t
  | run u busy direct =>
    simp only [Step, Sys.next] at hs
    split_ifs at hs
    exact Aimed.run h hs t

end

end Sys

/-- **Errors of their own wait.** The error that a call is about to return was stored by a
`wake_with_error` for the wait that this call has registered. -/
theorem error_aimed {rings : Cid → Option (MessageRing RawMessage)} {s : Sys}
    (h : Runs Sys.Step Sys.Settled (.boot rings) s) {t : Tid} {e : IpcError}
    (he : s.takes t = some e) : s.errorWait t = s.wait t := by
  have haimed : ∀ t, s.Aimed t := by
    refine h.inv (fun s => ∀ t, s.Aimed t) (fun t => ⟨fun hw => ?_, fun hne => ?_⟩)
      fun a i b ha hok hs => Sys.Aimed.next ha hok hs
    · cases hw
    · exact absurd rfl hne
  have hin : (s.pc t).inWait = true ∧ s.wakeupErrors t = some e := by
    unfold Sys.takes at he
    split at he
    · rename_i c hpc
      exact ⟨by rw [hpc]; rfl, he⟩
    · rename_i c hpc
      exact ⟨by rw [hpc]; rfl, he⟩
    · cases he
  exact (haimed t).wait hin.1 _ (.inl ⟨by simp [hin.2], rfl⟩)

def quiet : Sys := .boot fun _ => some .new

def sectionOf (t : Tid) : Sys.Act := .run t false false

def blockedCall (c : Cid) (ticks : ℕ) : List Sys.Act :=
  .call 1 c [] ticks false :: List.replicate 2 (sectionOf 1)

def replied (c : Cid) : List Sys.Act := .reply 2 c [] :: List.replicate 3 (sectionOf 2)

def timer : List Sys.Act := [.tick, .checkTimeouts 0]

def timedOut : List Sys.Act :=
  blockedCall 0 1 ++ timer ++ List.replicate 3 (.irq 0 false) ++ [sectionOf 1]

theorem error_aimed_timedOut : ∃ s, Runs Sys.Step Sys.Settled quiet s ∧
    s.takes 1 = some .etimedout ∧ s.errorWait 1 = s.wait 1 := by
  have hsome : (Runs.exec Sys.Settled Sys.next quiet timedOut).isSome = true := by decide +kernel
  obtain ⟨s, hs⟩ := isSome_iff_exists.mp hsome
  have hend : ∀ s ∈ Runs.exec Sys.Settled Sys.next quiet timedOut,
      s.takes 1 = some .etimedout := by decide +kernel
  exact ⟨s, Runs.of_exec hs, hend s hs, error_aimed (Runs.of_exec hs) (hend s hs)⟩

/-- The reply comes when the timer has taken the entry, and the timer stores its error after the
call has returned; the next call of the thread finds it. -/
def errorLeft : List Sys.Act :=
  blockedCall 0 1 ++ timer ++ replied 0 ++ List.replicate 2 (sectionOf 1) ++
    List.replicate 3 (.irq 0 false) ++ blockedCall 0 0 ++ replied 0 ++ [sectionOf 1]

def lateStore : List Sys.Act :=
  blockedCall 0 1 ++ timer ++ replied 0 ++ List.replicate 2 (sectionOf 1) ++ blockedCall 0 0 ++
    List.replicate 3 (.irq 0 false) ++ [sectionOf 1]

/-- `ipc_send` wakes thread 1 when its `ipc_recv` has timed out and it waits in a call on channel 1.
The call returns and leaves its registration behind, and `ipc_cancel` on channel 1 ends the thread's
call on channel 2. -/
def callerLeft : List Sys.Act :=
  .recv 1 0 1 :: List.replicate 2 (sectionOf 1) ++ .send 2 0 [] :: timer ++
    List.replicate 3 (.irq 0 false) ++ List.replicate 3 (sectionOf 1) ++ blockedCall 1 0 ++
    List.replicate 2 (sectionOf 2) ++ List.replicate 2 (sectionOf 1) ++ blockedCall 2 0 ++
    .cancel 2 1 :: List.replicate 3 (sectionOf 2) ++ [sectionOf 1]

lemma exists_misaimed {e : IpcError} {caller : Option ThreadId} {l : List Sys.Act}
    (hsome : (Runs.exec (fun _ _ => True) Sys.next quiet l).isSome = true)
    (hend : ∀ s ∈ Runs.exec (fun _ _ => True) Sys.next quiet l,
      s.takes 1 = some e ∧ s.errorWait 1 < s.wait 1 ∧
        (s.channels 0).bind (·.pendingCaller) = caller) :
    ∃ s, Runs Sys.Step (fun _ _ => True) quiet s ∧ s.takes 1 = some e ∧
      s.errorWait 1 < s.wait 1 ∧ (s.channels 0).bind (·.pendingCaller) = caller := by
  obtain ⟨s, hs⟩ := isSome_iff_exists.mp hsome
  exact ⟨s, Runs.of_exec hs, hend s hs⟩

-- in the first run the call has its reply, in the second one nobody has replied to it
theorem error_misaimed :
    (∃ s, Runs Sys.Step (fun _ _ => True) quiet s ∧ s.takes 1 = some .etimedout ∧
      s.errorWait 1 < s.wait 1 ∧ (s.channels 0).bind (·.pendingCaller) = none) ∧
    (∃ s, Runs Sys.Step (fun _ _ => True) quiet s ∧ s.takes 1 = some .etimedout ∧
      s.errorWait 1 < s.wait 1 ∧ (s.channels 0).bind (·.pendingCaller) = some 1) ∧
    ∃ s, Runs Sys.Step (fun _ _ => True) quiet s ∧ s.takes 1 = some .ecanceled ∧
      s.errorWait 1 < s.wait 1 ∧ (s.channels 0).bind (·.pendingCaller) = none := by
  refine ⟨exists_misaimed (l := errorLeft) ?_ ?_, exists_misaimed (l := lateStore) ?_ ?_,
    exists_misaimed (l := callerLeft) ?_ ?_⟩
  · decide +kernel
  · decide +kernel
  · decide +kernel
  · decide +kernel
  · decide +kernel
  · decide +kernel

end Aios.Ipc.Errors
