import Aios.Syscall.Buffers
import Aios.Syscall.Guarantee

/-!
When the sign of `x0` tells a success from a failure.

A syscall answers with one register: the value of a success, or the negative code of an error.
Lengths, ids, handles and addresses are small. `NotificationWait` returns a whole word of bits and
`ProcessWait` a whole `i32`, so what they return is told from an error only as long as no word with
bit 63 and no negative exit code can reach the caller. What can reach it while it waits is up to
the others: `Rely` says what they may do.
-/

namespace Aios.Syscall

open Aios.Lib Aios.Lib.Shared Aios.Lib.Fallible Aios.Ipc Function List
open Aios.Ipc.Notify (Tid Word NotificationId NotificationObject Waiter maxNotifications
  maxSelectEntries)

/-! ### Small answers -/

lemma asResult_msb {n : ℕ} (h : n < 2 ^ 63) : (asResult n).msb = false := by
  unfold asResult
  rw [BitVec.msb_eq_decide, decide_eq_false_iff_not, BitVec.toNat_ofNat]
  omega

lemma signExtend_msb (code : BitVec 32) : (code.signExtend 64).msb = code.msb := by
  rw [BitVec.msb_signExtend]
  simp

section Returns

variable {α : Type}

variable {V : α → Prop} {flags : VmFlags} {m' m : Memory} {id : ℕ} {base : Option ℕ}

lemma returns_op {m : OpM α} (hm : Returns m V) : Returns (op m) V := by
  intro w _
  have hrun := hm ⟨w.own.thread, w.state, w.others⟩ trivial
  unfold op zoom
  cases hv : m ⟨w.own.thread, w.state, w.others⟩ with
  | ok a v =>
    rw [hv] at hrun
    exact hrun
  | error e v => trivial

lemma returns_onKernel {f : Kernel → Except IpcError α × Kernel}
    (h : ∀ K a K', f K = (.ok a, K') → V a) : Returns (locked (Tables.onKernel f) : OpM α) V := by
  refine returns_locked fun k a k' hk => ?_
  have hfst : (f k.kernel).1 = .ok a := congrArg Prod.fst hk
  exact h k.kernel a (f k.kernel).2 (Prod.ext hfst rfl)

lemma returns_onMemory {f : Memory → Except IpcError α × Memory}
    (h : ∀ m a m', f m = (.ok a, m') → V a) : Returns (locked (Tables.onMemory f) : OpM α) V := by
  refine returns_locked fun k a k' hk => ?_
  have hfst : (f k.memory).1 = .ok a := congrArg Prod.fst hk
  exact h k.memory a (f k.memory).2 (Prod.ext hfst rfl)

lemma channelCreate_lt {K K' : Kernel} {tid : ThreadId} (h : K.channelCreate tid = (.ok id, K')) :
    id < maxChannels := by
  unfold Kernel.channelCreate at h
  split at h
  · cases h
  · split at h
    · cases h
    · split at h
      · cases h
      · cases h
        exact Fin.isLt _

lemma attenuateSection_lt {pid : ProcessId} {handle newHandle : CapabilityHandle}
    {newCap : Cap.Capability} {expiry : Option ℕ} {K K' : Kernel}
    (h : attenuateSection pid handle newCap expiry K = (.ok newHandle, K')) :
    newHandle < Cap.maxCapsPerProcess := by
  unfold attenuateSection at h
  split at h
  · cases h
  · next T _ =>
    have hok : (T.attenuate handle newCap expiry pid K.nextTokenId).1 = .ok newHandle :=
      congrArg Prod.fst h
    unfold Cap.CapabilityTable.attenuate at hok
    split at hok
    · cases hok
    · split_ifs at hok
      unfold Cap.CapabilityTable.grant at hok
      split at hok
      · cases hok
        exact Fin.isLt _
      · cases hok

lemma memoryMap_lt {pid size va : ℕ} (h : m.memoryMap pid size flags base = (.ok va, m')) :
    va < 2 ^ 63 := by
  unfold Memory.memoryMap at h
  split_ifs at h
  · cases h
  · cases h
  · split at h
    · cases h
    · dsimp only at h
      split at h
      · next i _ =>
        have hva : privateVaBase + i * privateVaStride = va :=
          Except.ok.inj (congrArg Prod.fst h)
        have hi : i.val < 64 := i.isLt
        rw [← hva]
        simp only [privateVaBase, privateVaStride, maxPrivatePages, shmVaBase, maxSharedRegions,
          shmVaStride, maxSharedRegionPages, pageSize]
        omega
      · cases h

lemma sharedMemoryCreate_lt {pid size : ℕ}
    (h : m.sharedMemoryCreate pid size flags base = (.ok id, m')) : id < maxSharedRegions := by
  have hok : (m.kernel.sharedMemoryCreate pid size flags base).1 = .ok id := congrArg Prod.fst h
  unfold Kernel.sharedMemoryCreate at hok
  dsimp only at hok
  split_ifs at hok
  split at hok
  · cases hok
  · split at hok
    · cases hok
    · split at hok
      · cases hok
      · cases hok
        exact Fin.isLt _

lemma sharedMemoryMap_lt {pid va : ℕ} (h : m.sharedMemoryMap pid id flags = (.ok va, m')) :
    va < 2 ^ 63 := by
  have hok : (m.kernel.sharedMemoryMap pid id flags).1 = .ok va := congrArg Prod.fst h
  unfold Kernel.sharedMemoryMap at hok
  split_ifs at hok with hid
  split at hok
  · cases hok
  · split at hok
    · cases hok
    · split at hok
      · cases hok
      · have hlt : id < 64 := hid
        rw [← Except.ok.inj hok]
        simp only [shmVaBase, shmVaStride, maxSharedRegionPages, pageSize]
        omega

lemma returns_zero {m : SysM α} {f : α → SysM Word} (hf : ∀ a, f a = pure 0) :
    Returns (m >>= f) fun v => v.msb = false := by
  refine .after fun a => ?_
  rw [hf]
  exact .pure rfl

lemma returns_small {m : OpM ℕ} {bound : ℕ} (hm : Returns m (· < bound)) (hb : bound ≤ 2 ^ 63) :
    Returns (op m >>= fun n => pure (asResult n)) fun v => v.msb = false :=
  .bind (returns_op hm) fun _ hn => .pure (asResult_msb (by omega))

lemma returns_sysIpcCall (x : Frame) : Returns (sysIpcCall x) fun v => v.msb = false := by
  refine .after fun channel => .failIf_bind fun hlen => .failIf_bind fun _ => ?_
  refine .after fun sendBuf => .after fun reply => .after fun _ => .pure (asResult_msb ?_)
  have htake : (reply.take (x 4).toNat).length ≤ (x 4).toNat := length_take_le _ _
  simp only [maxMessageSize] at hlen
  omega

lemma returns_sysIpcRecv (x : Frame) : Returns (sysIpcRecv x) fun v => v.msb = false := by
  refine .after fun channel => .failIf_bind fun hlen => .failIf_bind fun _ => ?_
  refine .bind (returns_op (returns_ipcRecv _ _ _)) fun r hr => ?_
  refine .after fun _ => .after fun _ => .pure (asResult_msb ?_)
  simp only [maxMessageSize] at hlen
  omega

lemma returns_sysCapabilityList (x : Frame) :
    Returns (sysCapabilityList x) fun v => v.msb = false := by
  refine .failIf_bind fun _ => .after fun pid => ?_
  refine .bind (returns_op (returns_listSection _ _)) fun ids hids => ?_
  refine .after fun _ => .pure (asResult_msb ?_)
  simp only [Cap.maxCapsPerProcess] at hids
  omega

lemma returns_notificationCreate :
    Returns (op (locked notificationCreate) >>= fun id => pure (asResult id)) fun v =>
      v.msb = false :=
  .after fun id => .pure (asResult_msb (lt_trans id.isLt (by decide)))

lemma returns_handle {c : Trap} (hnr : (c.x 8).toNat ∉ [5, 12, 25, 26]) :
    Returns (handle c) fun v => v.msb = false := by
  simp only [mem_cons, not_mem_nil, or_false, not_or] at hnr
  obtain ⟨h5, h12, h25, h26⟩ := hnr
  unfold handle
  split
  · exact returns_sysIpcCall _
  · exact .after fun _ => .failIf_bind fun _ => .after fun _ => returns_zero fun _ => rfl
  · exact returns_sysIpcRecv _
  · exact .after fun _ => .failIf_bind fun _ => .after fun _ => returns_zero fun _ => rfl
  · exact .after fun _ => returns_zero fun _ => rfl
  next h => exact absurd h h5
  · exact .after fun _ =>
      returns_small (returns_onKernel fun K a K' => channelCreate_lt) (by decide)
  · exact .after fun _ => returns_zero fun _ => rfl
  · exact .after fun _ => returns_notificationCreate
  · exact .after fun _ => returns_zero fun _ => rfl
  next h => exact absurd h h12
  · exact .after fun _ => .after fun _ => .after fun _ =>
      returns_small (returns_onKernel fun K a K' => attenuateSection_lt) (by decide)
  · exact .after fun _ => .after fun _ => .after fun _ => returns_zero fun _ => rfl
  · exact returns_sysCapabilityList _
  · exact .after fun _ => .after fun _ =>
      returns_small (returns_onMemory fun m a m' => memoryMap_lt) (le_refl _)
  · exact .after fun _ => returns_zero fun _ => rfl
  · exact .after fun _ => .after fun _ =>
      returns_small (returns_onMemory fun m a m' => sharedMemoryCreate_lt) (by decide)
  · exact .after fun _ => .after fun _ => .after fun _ =>
      returns_small (returns_onMemory fun m a m' => sharedMemoryMap_lt) (le_refl _)
  · exact .after fun _ => .after fun _ => .after fun _ => returns_zero fun _ => rfl
  · exact .after fun _ => returns_zero fun _ => rfl
  next h => exact absurd h h25
  next h => exact absurd h h26
  · exact .ite (fun _ => .pure rfl) fun _ => returns_zero fun _ => rfl
  · exact .failIf_bind fun _ => .after fun _ => .after fun _ => returns_zero fun _ => rfl
  · exact .failIf_bind fun _ => .after fun _ => returns_zero fun _ => rfl
  · exact .throw

end Returns

/-! ### Parts of the operations that wait -/

section Parts

variable {tid : Option Tid} {R : Tables → Tables → Prop} {P : Thread → Tables → Prop} {i : Tid}

lemma spec_currentThread (e : IpcError) (hP : ∀ t k, P t k → t.tid = tid) :
    Spec (Under R P) (currentThread e) (fun i w => tid = some i ∧ Under R P w) fun _ => True := by
  intro w hw
  unfold currentThread
  cases hi : w.own.tid with
  | none => trivial
  | some i => exact ⟨(hP _ _ hw.1).symm.trans hi, hw⟩

lemma spec_processOfThread (tid : ThreadId) :
    Spec (Under R P) (processOfThread tid) (fun _ => Under R P) fun _ => True := by
  intro w hw
  unfold processOfThread
  cases w.state.kernel.owner tid with
  | none => trivial
  | some pid => exact hw

lemma spec_look {α : Type} {f : Tables → Except IpcError α} (hP : Stable R P) :
    Spec (Under R P) (locked fun k => (f k, k) : OpM α) (fun _ => Under R P) fun _ => True := by
  refine (spec_locked (V := fun _ => True) hP fun t k a k' h hlook => ?_).post fun _ _ h => h.2
  cases (congrArg Prod.snd hlook : k = k')
  exact ⟨trivial, h⟩

lemma spec_blockCurrent {st : Sched.ThreadState} (hP : Stable R P)
    (hset : ∀ t k, P t k → P { t with blocked := true } (k.setThread i st)) :
    Spec (Under R P) (blockCurrent i st) (fun _ => Under R P) fun _ => True := by
  have hset' : ∀ t k, P t k → (fun t k => P { t with blocked := true } k) t (k.setThread i st) :=
    hset
  exact .bind (spec_update hP hset') fun _ => spec_modifyOwn fun t k h => h

end Parts

/-! ### `NotificationWait` -/

section Wait

variable {tid : Option Tid} {codes : ProcessId → Set (BitVec 32)} {k : Tables} {i : Tid}

def NoTop (tid : Option Tid) (k : Tables) : Prop :=
  ∀ i ∈ tid, ∀ bits, Owed k i bits → bits.msb = false

def WaitInv (tid : Option Tid) (t : Thread) (k : Tables) : Prop := t.tid = tid ∧ NoTop tid k

lemma stable_waitInv : Stable (Rely tid codes) (WaitInv tid) :=
  fun _ _ _ hR h => ⟨h.1, fun i hi bits hb => h.2 i hi bits (hR.owed hi hb)⟩

variable {mask : Word} {n : NotificationObject} {id : NotificationId}

lemma NoTop.setNotification (h : NoTop tid k)
    (hn : ∀ i ∈ tid, ∀ s mask, n.waiters s = some ⟨i, mask⟩ → Registered k i mask ∨ mask.msb = false)
    : NoTop tid (k.setNotification id n) := by
  intro i hi bits hb
  rcases hb with hb | hb | ⟨mask, word, ⟨id', n', s, hn', hs⟩, hb⟩
  · exact h i hi bits (.inl hb)
  · exact h i hi bits (.inr (.inl hb))
  · have hreg : Registered k i mask ∨ mask.msb = false := by
      by_cases hid : id' = id
      · subst hid
        have heq : (k.setNotification id' n).notifications id' = some n := update_self ..
        rw [heq] at hn'
        cases hn'
        exact hn i hi s mask hs
      · have heq : (k.setNotification id n).notifications id' = k.notifications id' :=
          update_of_ne hid ..
        rw [heq] at hn'
        exact .inl ⟨id', n', s, hn', hs⟩
    rcases hreg with hreg | htop
    · exact h i hi bits (.inr (.inr ⟨mask, word, hreg, hb⟩))
    · rw [hb, BitVec.msb_and, htop, Bool.and_false]

lemma NoTop.takeBits (h : NoTop tid k) (hn : k.notifications id = some n) :
    NoTop tid (takeBits id n mask k) := by
  unfold Syscall.takeBits
  split_ifs
  · exact h
  · exact h.setNotification fun i _ s m hs => .inl ⟨id, n, s, hn, hs⟩

lemma spec_firstLook (id : NotificationId) (hmask : mask.msb = false) :
    Spec (Under (Rely tid codes) (WaitInv tid)) (locked (firstLook id mask))
      (fun hit w => hit.msb = false ∧ Under (Rely tid codes) (WaitInv tid) w) fun _ => True := by
  refine spec_locked stable_waitInv fun t k hit k' h hlook => ?_
  unfold firstLook at hlook
  cases hn : k.notifications id with
  | none =>
    rw [hn] at hlook
    cases hlook
  | some n =>
    rw [hn] at hlook
    cases hlook
    refine ⟨?_, h.1, h.2.takeBits hn⟩
    rw [BitVec.msb_and, hmask, Bool.and_false]

lemma spec_secondLook (id : NotificationId) (hmask : mask.msb = false) :
    Spec (Under (Rely tid codes) (WaitInv tid)) (locked (secondLook i id mask))
      (fun hit w => hit.msb = false ∧ Under (Rely tid codes) (WaitInv tid) w) fun _ => True := by
  refine spec_locked stable_waitInv fun t k hit k' h hlook => ?_
  unfold secondLook at hlook
  cases hn : k.notifications id with
  | none =>
    rw [hn] at hlook
    cases hlook
  | some n =>
    rw [hn] at hlook
    dsimp only at hlook
    split_ifs at hlook
    · split at hlook
      · cases hlook
      · next slot _ =>
        -- the registration has the mask of the call
        cases hlook
        refine ⟨rfl, h.1, h.2.setNotification fun j _ s m hs => ?_⟩
        change update n.waiters slot (some ⟨i, mask⟩) s = some ⟨j, m⟩ at hs
        by_cases hslot : s = slot
        · rw [hslot, update_self] at hs
          cases hs
          exact .inr hmask
        · rw [update_of_ne hslot] at hs
          exact .inl ⟨id, n, s, hn, hs⟩
    · cases hlook
      refine ⟨?_, h.1, h.2.takeBits hn⟩
      rw [BitVec.msb_and, hmask, Bool.and_false]

/-- What `notification_wait` returns has no bit 63, if the mask has not and nothing that the thread
is owed has. -/
lemma spec_notificationWait (id : ℕ) (timeout : ℕ) (hmask : ∀ i ∈ tid, mask.msb = false) :
    Spec (Under (Rely tid codes) (WaitInv tid)) (notificationWait id mask timeout)
      (fun bits _ => bits.msb = false) fun _ => True := by
  unfold notificationWait
  split_ifs with hid
  · refine .bind (spec_currentThread _ fun t k h => h.1) fun i => .assume fun hi => ?_
    have hmask := hmask i hi
    refine .bind (spec_firstLook _ hmask) fun hit => .assume fun hhit => ?_
    refine .ite (fun _ => .pure fun _ _ => hhit) fun _ => ?_
    refine .bind (spec_load (V := fun _ => True) stable_waitInv fun _ _ _ => trivial)
      fun deadline => .assume fun _ => ?_
    refine .bind (spec_secondLook _ hmask) fun hit => .assume fun hhit => ?_
    refine .ite (fun _ => .pure fun _ _ => hhit) fun _ => ?_
    refine .bind (spec_update (Q := WaitInv tid) stable_waitInv fun t k h => h) fun _ => ?_
    refine .bind (spec_blockCurrent stable_waitInv fun t k h => h) fun _ => ?_
    -- what is taken from the results was owed
    refine .bind (R := fun result _ => ∀ bits, result = some bits → bits.msb = false) ?_
      fun result => ?_
    · refine (spec_locked (Q := fun _ _ => True) stable_waitInv
        fun t k result k' h htake => ?_).post fun _ _ h => h.1
      cases htake
      exact ⟨fun bits hb => h.2 i hi bits (.inl hb), trivial⟩
    · cases result with
      | some bits => exact .pure fun _ h => h bits rfl
      | none =>
        exact fun _ _ => trivial
  · exact .throw fun _ _ => trivial

end Wait

/-! ### `ProcessWait` -/

section ProcessWait

variable {tid : Option Tid} {codes : ProcessId → Set (BitVec 32)} {pid : ProcessId}

def Unambiguous (code : BitVec 32) : Prop := code = i32Min ∨ code.msb = false

lemma stable_exitCode (hcodes : ∀ code ∈ codes pid, Unambiguous code) :
    Stable (Rely tid codes) fun (_ : Thread) k => Unambiguous (k.exitCodes pid) := by
  intro _ s t hR hs
  show Unambiguous (t.exitCodes pid)
  rcases hR.exitCodes pid with h | h
  · rw [h]
    exact hs
  · exact hcodes _ h

/-- What `process_wait` returns is not negative, if no code that is recorded for the process, or
may be, is. -/
lemma spec_processWait (parent : Tid) (hcodes : ∀ code ∈ codes pid, Unambiguous code) :
    Spec (Under (Rely tid codes) fun _ k => Unambiguous (k.exitCodes pid)) (processWait parent pid)
      (fun code _ => code.msb = false) fun _ => True := by
  have hstable : Stable (Rely tid codes) fun (_ : Thread) k => Unambiguous (k.exitCodes pid) :=
    stable_exitCode hcodes
  have hload : Spec (Under (Rely tid codes) fun _ k => Unambiguous (k.exitCodes pid))
      (load (·.exitCodes pid) : OpM _)
      (fun code w => Unambiguous code ∧
        Under (Rely tid codes) (fun _ k => Unambiguous (k.exitCodes pid)) w) fun _ => True :=
    spec_load hstable fun t k h => h
  refine .failIf_bind (fun _ _ => trivial) fun _ => ?_
  refine .bind hload fun code => .assume fun hcode => ?_
  refine .ite (fun hne => .pure fun _ _ => hcode.resolve_left hne) fun _ => ?_
  refine .bind (spec_look hstable) fun _ => ?_
  refine .bind (spec_update (Q := fun _ k => Unambiguous (k.exitCodes pid)) hstable
    fun t k h => h) fun _ => ?_
  refine .bind (spec_blockCurrent hstable fun t k h => h) fun _ => ?_
  refine .bind hload fun code => .assume fun hcode => ?_
  exact .ite (fun hne => .pure fun _ _ => hcode.resolve_left hne) fun _ => .throw fun _ _ => trivial

end ProcessWait

/-! ### `IpcSelect` -/

section Select

variable {tid : Option Tid} {codes : ProcessId → Set (BitVec 32)} {i : Tid}

/-- A ready entry is one of at most `MAX_SELECT_ENTRIES`. -/
def SelectInv (tid : Option Tid) (k : Tables) : Prop :=
  ∀ i ∈ tid, ∀ sw, k.selects i = some sw →
    sw.entries.length ≤ maxSelectEntries ∧ ∀ r, sw.ready = some r → r.1 < maxSelectEntries

lemma stable_selectInv : Stable (Rely tid codes) fun (_ : Thread) k => SelectInv tid k := by
  intro _ s t hR hs i hi sw hsw
  obtain ⟨sw', hsw', hentries, hready⟩ := hR.select i hi sw hsw
  obtain ⟨hlen, hbound⟩ := hs i hi sw' hsw'
  refine ⟨hentries ▸ hlen, fun r hr => ?_⟩
  rcases hready with h | ⟨r', h, hlt⟩
  · exact hbound r (h ▸ hr)
  · rw [h] at hr
    cases hr
    rw [hentries] at hlt
    omega

lemma selects_onNotification (id : ℕ) (f : NotificationObject → NotificationObject) (k : Tables) :
    (k.onNotification id f).selects = k.selects := by
  unfold Tables.onNotification
  split_ifs
  · split <;> rfl
  · rfl

lemma selects_registerOn (entry : SelectKind) (k : Tables) :
    (registerOn i entry k).selects = k.selects := by
  cases entry with
  | channel id => exact (SameEntries.withChannel id _ k).selects
  | notification id mask => exact selects_onNotification _ _ _

lemma spec_checkChannelEntries {R : Tables → Tables → Prop} {P : Thread → Tables → Prop}
    (hP : Stable R P) (entries : List SelectKind) :
    Spec (Under R P) (checkChannelEntries i entries) (fun _ => Under R P) fun _ => True := by
  refine .ite (fun _ => .pure fun _ h => h) fun _ => ?_
  exact .bind (spec_processOfThread _) fun pid => .forM_list _ fun channel _ => spec_look hP

lemma spec_scanEntries (entries : List SelectKind) (start : ℕ) :
    Spec (Under (Rely tid codes) fun t _ => t.tid = tid) (scanEntries start entries)
      (fun found w => (∀ r, found = some r → r.1 < start + entries.length) ∧
        Under (Rely tid codes) (fun t _ => t.tid = tid) w) fun _ => True := by
  induction entries generalizing start with
  | nil => exact .pure fun w hw => ⟨fun r hr => absurd hr (by simp), hw⟩
  | cons entry entries ih =>
    refine .bind (spec_locked (V := fun _ => True) (Q := fun t _ => t.tid = tid)
      (fun _ _ _ _ h => h) fun t k a k' h _ => ⟨trivial, h⟩) fun ready => .assume fun _ => ?_
    rw [length_cons]
    cases ready with
    | some bits =>
      refine .pure fun w hw => ⟨fun r hr => ?_, hw⟩
      cases hr
      show start < start + (entries.length + 1)
      omega
    | none =>
      refine (ih (start + 1)).post fun found w h => ⟨fun r hr => ?_, h.2⟩
      have := h.1 r hr
      omega

lemma spec_ipcSelect (entries : List SelectKind) (timeout : ℕ) :
    Spec (Under (Rely tid codes) fun t _ => t.tid = tid) (ipcSelect entries timeout)
      (fun r _ => r.1 < maxSelectEntries) fun _ => True := by
  refine .bind (spec_currentThread _ fun t k h => h) fun i => .assume fun hi => ?_
  refine .failIf_bind (fun _ _ => trivial) fun hlen => ?_
  refine .failIf_bind (fun _ _ => trivial) fun _ => ?_
  refine .bind (spec_checkChannelEntries (fun _ _ _ _ h => h) _) fun _ => ?_
  refine .bind (spec_scanEntries entries 0) fun found => .assume fun hfound => ?_
  cases found with
  | some r =>
    refine .pure fun _ _ => ?_
    have := hfound r rfl
    omega
  | none =>
    refine .bind (spec_load (V := fun _ => True) (fun _ _ _ _ h => h) fun _ _ _ => trivial)
      fun deadline => .assume fun _ => ?_
    refine .bind (spec_update (Q := fun _ k => SelectInv tid k) (fun _ _ _ _ h => h) ?_) fun _ => ?_
    · -- the record starts with nothing ready
      intro t k _ j hj sw hsw
      rw [hi] at hj
      cases hj
      have heq : (k.setSelect i (some ⟨entries, none⟩)).selects i = some ⟨entries, none⟩ :=
        update_self ..
      rw [heq] at hsw
      cases hsw
      exact ⟨by show entries.length ≤ maxSelectEntries; omega, fun r hr => by cases hr⟩
    refine .bind (.forM_list entries fun entry _ => spec_update stable_selectInv fun t k h => ?_)
      fun _ => ?_
    · show SelectInv tid (registerOn i entry k)
      unfold SelectInv
      rw [selects_registerOn]
      exact h
    refine .bind (spec_update (Q := fun _ k => SelectInv tid k) stable_selectInv
      fun t k h => h) fun _ => ?_
    refine .bind (spec_blockCurrent stable_selectInv fun t k h => h) fun _ => ?_
    refine .bind (R := fun ready _ => ∀ r, ready = some r → r.1 < maxSelectEntries) ?_
      fun ready => ?_
    · refine (spec_locked (Q := fun _ _ => True) stable_selectInv
        fun t k ready k' h htake => ?_).post fun _ _ h => h.1
      cases htake
      refine ⟨fun r hr => ?_, trivial⟩
      obtain ⟨sw, hsw, hready⟩ := Option.bind_eq_some_iff.mp hr
      exact (h i hi sw hsw).2 r hready
    · refine Returns.spec fun hready => .after fun _ => ?_
      cases ready with
      | some r => exact .pure (hready r rfl)
      | none => exact .throw

end Select

/-! ### The sign of `x0` -/

/-- Bit 63 cannot come back from `NotificationWait`, nor a negative code from `ProcessWait`: the
mask has not got bit 63, and nothing that the thread is owed from before has; and no exit code
that is recorded for the process, or that it may exit with, is negative. -/
structure Clear (c : Trap) (k : Tables) (codes : ProcessId → Set (BitVec 32)) : Prop where
  wait : (c.x 8).toNat = 12 → (c.x 0).toNat < maxNotifications → ∀ i ∈ c.tid,
    (c.x 1).msb = false ∧ ∀ bits, Owed k i bits → bits.msb = false
  processWait : (c.x 8).toNat = 25 → (c.x 0).toNat < maxProcesses → c.tid.isSome →
    Unambiguous (k.exitCodes (c.x 0).toNat) ∧ ∀ code ∈ codes (c.x 0).toNat, Unambiguous code

section Sufficient

variable {tid : Option Tid} {codes : ProcessId → Set (BitVec 32)} {x : Frame}

variable {I : Shared Tables Cpu → Prop}

lemma spec_idArg (reg : Word) :
    Spec I (idArg reg) (fun id w => id = reg.toNat ∧ I w) fun _ => True :=
  .ite (fun _ => .pure fun _ hw => ⟨rfl, hw⟩) fun _ => .throw fun _ _ => trivial

lemma spec_op_currentThread (e : IpcError) (hI : ∀ w, I w → w.own.thread.tid = tid) :
    Spec I (op (currentThread e)) (fun i w => tid = some i ∧ I w) fun _ => True := by
  intro w hw
  unfold op zoom currentThread
  cases hi : w.own.thread.tid with
  | none => trivial
  | some i => exact ⟨(hI w hw).symm.trans hi, hw⟩

lemma spec_sysNotificationWait (hmask : ∀ i ∈ tid, (x 1).msb = false) :
    Spec (Under (Rely tid codes) fun o => WaitInv tid o.thread) (sysNotificationWait x)
      (fun v _ => v.msb = false) fun _ => True :=
  .bind (spec_idArg _) fun id => .assume fun _ => spec_zoom (spec_notificationWait id _ hmask)

lemma returns_sysNotificationWait (hid : maxNotifications ≤ (x 0).toNat) :
    Returns (sysNotificationWait x) fun v => v.msb = false := by
  refine .bind (spec_idArg _ |>.post fun _ _ h => h.1) fun id heq => returns_op ?_
  unfold notificationWait
  rw [dif_neg (by omega)]
  exact .throw

lemma spec_sysProcessWait
    (hcodes : tid.isSome → ∀ code ∈ codes (x 0).toNat, Unambiguous code) :
    Spec (Under (Rely tid codes) fun o k =>
        o.thread.tid = tid ∧ (tid.isSome → Unambiguous (k.exitCodes (x 0).toNat)))
      (sysProcessWait x) (fun v _ => v.msb = false) fun _ => True := by
  refine .bind (spec_idArg _) fun pid => .assume fun heq => ?_
  refine .bind (spec_op_currentThread _ fun w hw => hw.1.1) fun i => .assume fun hi => ?_
  have hsome : tid.isSome := by rw [hi]; rfl
  rw [← heq] at hcodes ⊢
  refine .bind (R := fun code _ => code.msb = false) ?_ fun code => ?_
  · refine (spec_zoom (P := fun _ k => Unambiguous (k.exitCodes pid))
      (spec_processWait i (hcodes hsome))).weaken fun w hw => ⟨hw.1.2 hsome, hw.2⟩
  · exact Returns.spec fun hcode => .pure ((signExtend_msb code).trans hcode)

lemma returns_sysProcessWait (hpid : maxProcesses ≤ (x 0).toNat) :
    Returns (sysProcessWait x) fun v => v.msb = false := by
  refine .bind (spec_idArg _ |>.post fun _ _ h => h.1) fun pid heq => .after fun tid => ?_
  have hwait : Returns (processWait tid pid) fun _ => False :=
    .failIf_bind fun h => absurd (by omega) h
  exact .bind (returns_op hwait) fun code h => h.elim

lemma spec_sysIpcSelect :
    Spec (Under (Rely tid codes) fun o _ => o.thread.tid = tid) (sysIpcSelect x)
      (fun v _ => v.msb = false) fun _ => True := by
  refine .failIf_bind (fun _ _ => trivial) fun _ => ?_
  refine .bind (R := fun _ => Under (Rely tid codes) fun o _ => o.thread.tid = tid) ?_
    fun wire => ?_
  · intro w hw
    unfold copyFromUser
    by_cases hv : validateUserVa (x 0).toNat ((x 1).toNat * RawSelectEntry.size) = true
    · rw [if_pos hv]
      exact hw
    · rw [if_neg hv]
      trivial
  refine .bind (R := fun _ => Under (Rely tid codes) fun o _ => o.thread.tid = tid) ?_
    fun entries => ?_
  · cases decodeEntries wire (x 1).toNat with
    | ok entries => exact .pure fun w hw => hw
    | error e => exact .throw fun _ _ => trivial
  refine .bind (spec_zoom (spec_ipcSelect entries _)) fun r => Returns.spec fun hr => ?_
  exact .after fun _ => .pure (asResult_msb (lt_trans hr (by decide)))

end Sufficient

variable {c : Trap} {k : Tables} {codes : ProcessId → Set (BitVec 32)}

lemma Clear.success (h : Clear c k codes) (hnr : (c.x 8).toNat ≠ 26)
    {others : List (Tables → Tables)} (hR : ∀ f ∈ others, ∀ s, Rely c.tid codes s (f s)) {v : Word}
    {w : Shared Tables Cpu} (hrun : run c k others = .ok v w) : v.msb = false := by
  by_cases hmem : (c.x 8).toNat ∈ [5, 12, 25, 26]
  · simp only [mem_cons, not_mem_nil, or_false] at hmem
    rcases hmem with h5 | h12 | h25 | h26
    · have hh : handle c = sysIpcSelect c.x := by simp only [handle, h5]
      rw [run, hh] at hrun
      have hspec : Spec (Under (Rely c.tid codes) fun o _ => o.thread.tid = c.tid)
          (sysIpcSelect c.x) (fun v _ => v.msb = false) fun _ => True := spec_sysIpcSelect
      exact hspec.ok ⟨rfl, hR⟩ hrun
    · have hh : handle c = sysNotificationWait c.x := by simp only [handle, h12]
      rw [run, hh] at hrun
      by_cases hid : (c.x 0).toNat < maxNotifications
      · have hclear := h.wait h12 hid
        exact (spec_sysNotificationWait fun i hi => (hclear i hi).1).ok
          ⟨⟨rfl, fun i hi => (hclear i hi).2⟩, hR⟩ hrun
      · exact (returns_sysNotificationWait (not_lt.mp hid)).ok trivial hrun
    · have hh : handle c = sysProcessWait c.x := by simp only [handle, h25]
      rw [run, hh] at hrun
      by_cases hpid : (c.x 0).toNat < maxProcesses
      · have hclear := h.processWait h25 hpid
        exact (spec_sysProcessWait fun hs => (hclear hs).2).ok
          ⟨⟨rfl, fun hs => (hclear hs).1⟩, hR⟩ hrun
      · exact (returns_sysProcessWait (not_lt.mp hpid)).ok trivial hrun
    · exact absurd h26 hnr
  · exact (returns_handle hmem).ok trivial hrun

/-! ### What the others can do to a call that is not clear -/

section Necessary

variable {tid : Option Tid} {i : Tid} {bits : Word}

def renew (id : NotificationId) (word : Word) (s : Tables) : Tables :=
  s.setNotification id ⟨word, Slots.empty⟩

lemma rely_renew (id : NotificationId) (word : Word) (s : Tables) :
    Rely tid codes s (renew id word s) :=
  rely_setNotification fun _ _ _ _ hs => by cases hs

def deliver (i : Tid) (bits : Word) (s : Tables) : Tables :=
  { s with results := update s.results i (some bits) }

variable {g : Tables → Tables} {s : Tables} {t : Thread}

lemma rely_deliver (h : Owed s i bits) : Rely tid codes s (deliver i bits s) where
  registered _ _ _ h := h
  inFlight _ _ _ h := .inl h
  results := by
    intro j _ b hb
    change update s.results i (some bits) j = some b at hb
    by_cases hj : (j : ThreadId) = i
    · rw [hj, update_self] at hb
      cases hb
      rw [Fin.ext hj]
      exact h
    · rw [update_of_ne hj] at hb
      exact .inl hb
  select _ _ sw h := ⟨sw, h, rfl, .inl rfl⟩
  exitCodes _ := .inl rfl

lemma notificationWait_hit {id : ℕ} (hid : id < maxNotifications) {n : NotificationObject}
    {mask : Word} (timeout : ℕ) (ht : t.tid = some i)
    (hn : (g s).notifications ⟨id, hid⟩ = some n) (hhit : n.word &&& mask ≠ 0) :
    answer (notificationWait id mask timeout ⟨t, s, [g]⟩) = some (n.word &&& mask) := by
  have hthread : currentThread .einval ⟨t, s, [g]⟩ = .ok i ⟨t, s, [g]⟩ := by
    simp only [currentThread, ht]
  have hlook : firstLook ⟨id, hid⟩ mask (g s) =
      (.ok (n.word &&& mask), takeBits ⟨id, hid⟩ n mask (g s)) := by
    simp only [firstLook, hn]
  unfold notificationWait
  rw [dif_pos hid, bind_eq hthread, bind_eq ((locked_others g).trans (locked_ok hlook)),
    if_pos hhit]
  rfl

lemma notificationWait_stored {id : ℕ} (hid : id < maxNotifications) (mask : Word) (timeout : ℕ)
    (ht : t.tid = some i) (hn : (g s).notifications ⟨id, hid⟩ = some ⟨0, Slots.empty⟩)
    (hbits : (g s).results i = some bits) :
    answer (notificationWait id mask timeout ⟨t, s, [g]⟩) = some bits := by
  have hthread : currentThread .einval ⟨t, s, [g]⟩ = .ok i ⟨t, s, [g]⟩ := by
    simp only [currentThread, ht]
  have hzero : (0 : Word) &&& mask = 0 := BitVec.zero_and
  have hfirst : firstLook ⟨id, hid⟩ mask (g s) = (.ok 0, g s) := by
    simp only [firstLook, hn, takeBits, hzero, if_true]
  have hsecond : ∃ k', secondLook i ⟨id, hid⟩ mask (g s) = (.ok 0, k') ∧
      k'.results = (g s).results := by
    have hfree : (Slots.empty : Slots Notify.maxWaitersPerNotification Waiter).firstFree =
        some ⟨0, by decide⟩ := by decide
    simp only [secondLook, hn, hzero, if_true, hfree]
    exact ⟨_, rfl, rfl⟩
  obtain ⟨k', hsecond, hk'⟩ := hsecond
  unfold notificationWait
  rw [dif_pos hid, bind_eq hthread, bind_eq ((locked_others g).trans (locked_ok hfirst)),
    if_neg (by simp), bind_eq (load_alone _), bind_eq (locked_ok hsecond), if_neg (by simp),
    bind_eq (update_alone _)]
  have hblock : ∀ k, blockCurrent i (.blockedNotification id) ⟨t, k, []⟩ =
      .ok () ⟨{ t with blocked := true }, k.setThread i (.blockedNotification id), []⟩ :=
    fun _ => rfl
  rw [bind_eq (hblock _)]
  have htake : ∀ k : Tables, k.results i = some bits →
      takeResult i k =
        (.ok (some bits), { k with results := update k.results i none }) := by
    intro k hk
    simp only [takeResult, hk]
  rw [bind_eq (locked_ok (htake _ ?_))]
  · rfl
  · show k'.results i = some bits
    rw [hk']
    exact hbits

lemma processWait_exited {pid : ProcessId} (parent : ThreadId) (hpid : pid < maxProcesses)
    (hcode : (g s).exitCodes pid ≠ i32Min) :
    answer (processWait parent pid ⟨t, s, [g]⟩) = some ((g s).exitCodes pid) := by
  have hcheck : failIf (maxProcesses ≤ pid) IpcError.einval (⟨t, s, [g]⟩ : Shared Tables Thread) =
      .ok () ⟨t, s, [g]⟩ := by
    rw [failIf, if_neg (not_le.mpr hpid)]
    rfl
  have hload : (load (·.exitCodes pid) : OpM _) ⟨t, s, [g]⟩ =
      .ok ((g s).exitCodes pid) ⟨t, g s, []⟩ := rfl
  unfold processWait
  rw [bind_eq hcheck, bind_eq hload, if_pos hcode]
  rfl

end Necessary

/-! ### The answers of the two handlers -/

section Answers

variable {others : List (Tables → Tables)}

lemma answer_op {α : Type} (m : OpM α) (w : Shared Tables Cpu) :
    answer (op m w) = answer (m ⟨w.own.thread, w.state, w.others⟩) := by
  unfold op zoom
  cases m ⟨w.own.thread, w.state, w.others⟩ <;> rfl

lemma idArg_ok {reg : Word} (h : reg.toNat < 2 ^ 32) (w : Shared Tables Cpu) :
    idArg reg w = .ok reg.toNat w := by
  rw [idArg, if_pos h]
  rfl

lemma answer_wait (hnr : (c.x 8).toNat = 12) (hid : (c.x 0).toNat < maxNotifications) :
    answer (run c k others) = answer (notificationWait (c.x 0).toNat (c.x 1) (c.x 2).toNat
      ⟨⟨c.tid, false⟩, k, others⟩) := by
  have hlt : (c.x 0).toNat < 2 ^ 32 := lt_trans hid (by decide)
  have hh : handle c = sysNotificationWait c.x := by simp only [handle, hnr]
  rw [run, hh, sysNotificationWait, bind_eq (idArg_ok hlt _), answer_op]
  rfl

lemma answer_processWait {i : Tid} (hnr : (c.x 8).toNat = 25) (hpid : (c.x 0).toNat < maxProcesses)
    (hi : c.tid = some i) {code : BitVec 32}
    (h : answer (processWait i (c.x 0).toNat ⟨⟨c.tid, false⟩, k, others⟩) = some code) :
    answer (run c k others) = some (code.signExtend 64) := by
  have hlt : (c.x 0).toNat < 2 ^ 32 := lt_trans hpid (by decide)
  have hh : handle c = sysProcessWait c.x := by simp only [handle, hnr]
  have hthread : op (currentThread .eperm) ⟨c.enter, k, others⟩ = .ok i ⟨c.enter, k, others⟩ := by
    simp only [op, zoom, currentThread, Trap.enter, hi]
  rw [run, hh, sysProcessWait, bind_eq (idArg_ok hlt _), bind_eq hthread]
  have hop := (answer_op (processWait i (c.x 0).toNat) ⟨c.enter, k, others⟩).trans h
  rw [bind_eq (eq_ok_state hop)]
  rfl

lemma sign_iff (c : Trap) (k : Tables) (others : List (Tables → Tables)) :
    (((syscallDispatch c k others).own.x 0).toInt < 0 ↔ isOk (run c k others) = false) ↔
      ∀ v, answer (run c k others) = some v → v.msb = false := by
  unfold syscallDispatch
  cases hrun : run c k others with
  | ok v w =>
    simp only [setX0_x0, isOk, answer, Option.some.injEq, forall_eq', BitVec.msb_eq_toInt]
    simp
  | error e w =>
    simp only [setX0_x0, isOk, answer]
    simpa using errno_neg e

end Answers

section Necessary

variable (h : ∀ others, (∀ f ∈ others, ∀ s, Rely c.tid codes s (f s)) →
  ∀ v, answer (run c k others) = some v → v.msb = false)

include h

variable {g : Tables → Tables}

lemma answer_of_one (hg : ∀ s, Rely c.tid codes s (g s)) {v : Word}
    (hv : answer (run c k [g]) = some v) : v.msb = false := by
  refine h [g] (fun f hf s => ?_) v hv
  rw [mem_singleton.mp hf]
  exact hg s

lemma mask_of_sign {i : Tid} (hnr : (c.x 8).toNat = 12) (hid : (c.x 0).toNat < maxNotifications)
    (hi : c.tid = some i) : (c.x 1).msb = false := by
  have hmsb : (BitVec.intMin 64 &&& c.x 1).msb = (c.x 1).msb := by
    rw [BitVec.msb_and, show (BitVec.intMin 64).msb = true by decide, Bool.true_and]
  by_cases hzero : BitVec.intMin 64 &&& c.x 1 = 0
  · rw [← hmsb, hzero]
    rfl
  · let g := renew ⟨(c.x 0).toNat, hid⟩ (BitVec.intMin 64)
    have hn : (g k).notifications ⟨(c.x 0).toNat, hid⟩ = some ⟨BitVec.intMin 64, Slots.empty⟩ :=
      update_self ..
    have hrun := notificationWait_hit hid (c.x 2).toNat hi hn hzero (t := ⟨c.tid, false⟩)
    rw [← hmsb]
    exact answer_of_one h (fun s => rely_renew _ _ s) ((answer_wait hnr hid).trans hrun)

lemma owed_of_sign {i : Tid} {bits : Word} (hnr : (c.x 8).toNat = 12)
    (hid : (c.x 0).toNat < maxNotifications) (hi : c.tid = some i) (hbits : Owed k i bits) :
    bits.msb = false := by
  classical
  let g : Tables → Tables := fun s =>
    if Owed s i bits then renew ⟨(c.x 0).toNat, hid⟩ 0 (deliver i bits s) else s
  have hgk : g k = renew ⟨(c.x 0).toNat, hid⟩ 0 (deliver i bits k) := if_pos hbits
  have hg : ∀ s, Rely c.tid codes s (g s) := by
    intro s
    by_cases howed : Owed s i bits
    · rw [show g s = _ from if_pos howed]
      exact (rely_deliver howed).trans (rely_renew _ _ _)
    · rw [show g s = _ from if_neg howed]
      exact .refl s
  have hn : (g k).notifications ⟨(c.x 0).toNat, hid⟩ = some ⟨0, Slots.empty⟩ := by
    rw [hgk]
    exact update_self ..
  have hres : (g k).results i = some bits := by
    rw [hgk]
    exact update_self ..
  have hrun := notificationWait_stored hid (c.x 1) (c.x 2).toNat hi hn hres (t := ⟨c.tid, false⟩)
  exact answer_of_one h hg ((answer_wait hnr hid).trans hrun)

lemma exit_of_sign {i : Tid} (hnr : (c.x 8).toNat = 25) (hpid : (c.x 0).toNat < maxProcesses)
    (hi : c.tid = some i) (hg : ∀ s, Rely c.tid codes s (g s)) :
    Unambiguous ((g k).exitCodes (c.x 0).toNat) := by
  by_cases hmin : (g k).exitCodes (c.x 0).toNat = i32Min
  · exact .inl hmin
  · have hrun := processWait_exited i hpid hmin (t := ⟨c.tid, false⟩)
    have hmsb := answer_of_one h hg (answer_processWait hnr hpid hi hrun)
    rw [signExtend_msb] at hmsb
    exact .inr hmsb

end Necessary

/-- **The sign of `x0`.** For every syscall but `TimeGet`, every trap frame and all tables: `x0` is
negative exactly when the operation failed, whatever the others do in the meantime, if and only if
the call is clear. -/
theorem result_sign (c : Trap) (k : Tables) (codes : ProcessId → Set (BitVec 32))
    (hnr : (c.x 8).toNat ≠ 26) :
    (∀ others, (∀ f ∈ others, ∀ s, Rely c.tid codes s (f s)) →
      (((syscallDispatch c k others).own.x 0).toInt < 0 ↔ isOk (run c k others) = false)) ↔
      Clear c k codes := by
  simp only [sign_iff]
  constructor
  · intro h
    refine ⟨fun h12 hid i hi => ⟨mask_of_sign h h12 hid hi, fun bits hbits => ?_⟩,
      fun h25 hpid hsome => ?_⟩
    · exact owed_of_sign h h12 hid hi hbits
    · obtain ⟨i, hi⟩ := Option.isSome_iff_exists.mp hsome
      refine ⟨exit_of_sign h h25 hpid hi fun s => Rely.refl s, fun code hcode => ?_⟩
      have hun := exit_of_sign h h25 hpid hi fun s => rely_storeExitCode (k := s) hcode
      have heq : (storeExitCode (c.x 0).toNat code k).exitCodes (c.x 0).toNat = code :=
        update_self ..
      rwa [heq] at hun
  · intro h others hR v hv
    exact h.success hnr hR (eq_ok_state hv)

/-! ### The two calls whose success looks like a failure -/

/-- `NotificationWait` on notification 0 with a mask. -/
def waitFor (mask : Word) : Trap where
  x := fun i => if i = 1 then mask else if i = 8 then 12 else 0
  tid := some 0
  base := none
  ticks := 0
  freq := 0

/-- `ProcessWait` for process 3. -/
def waitForChild : Trap where
  x := fun i => if i = 0 then 3 else if i = 8 then 25 else 0
  tid := some 0
  base := none
  ticks := 0
  freq := 0

def signalled : Tables :=
  storeExitCode 3 (-1) (renew 0 (BitVec.intMin 64) Tables.init)

theorem result_sign_lost :
    (isOk (run (waitFor (BitVec.intMin 64)) signalled []) = true ∧
      ((syscallDispatch (waitFor (BitVec.intMin 64)) signalled []).own.x 0).toInt < 0) ∧
    isOk (run waitForChild signalled []) = true ∧
      ((syscallDispatch waitForChild signalled []).own.x 0).toInt = -1 := by
  decide +kernel

theorem result_sign_waitFor :
    ((waitFor 1).x 8).toNat ≠ 26 ∧
      ∀ others, (∀ f ∈ others, ∀ s, Rely (waitFor 1).tid (fun _ => {0}) s (f s)) →
        (((syscallDispatch (waitFor 1) Tables.init others).own.x 0).toInt < 0 ↔
          isOk (run (waitFor 1) Tables.init others) = false) := by
  have hnr : ((waitFor 1).x 8).toNat ≠ 26 := by decide
  refine ⟨hnr, (result_sign (waitFor 1) Tables.init (fun _ => {0}) hnr).mpr ⟨?_, ?_⟩⟩
  · intro _ _ i _
    refine ⟨by decide, fun bits hbits => ?_⟩
    rcases hbits with h | h | ⟨mask, word, ⟨id, n, s, hn, _⟩, _⟩
    · cases h
    · cases h
    · cases hn
  · intro h25
    exact absurd h25 (by decide)

end Aios.Syscall
