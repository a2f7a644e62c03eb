import Aios.Cap.Lineage
import Aios.Kernel.State

/-!
Where the tokens, channels and regions of the kernel's tables come from.

Whatever a call does, a live token found afterwards in a process's table was there before or
is the one this call gives to the process; an occupied slot of the channel or region table
was occupied before or is the one this call created.
-/

namespace Aios.Kernel

open Aios.Lib Aios.Cap Aios.Ipc Function Slots Option

variable {K K' : Kernel} {pid q : ProcessId} {x : CapabilityToken} {T : CapabilityTable} {op : Op}

def Holds (K : Kernel) (pid : ProcessId) (x : CapabilityToken) : Prop :=
  ∃ T i, K.processRef pid = .ok T ∧ T.tokens i = some x

lemma processRef_congr (h : K'.procs = K.procs) (pid : ProcessId) :
    K'.processRef pid = K.processRef pid := by
  unfold processRef
  rw [h]

lemma processRef_ok (h : K.processRef pid = .ok T) :
    ∃ hp : pid < maxProcesses, K.procs ⟨pid, hp⟩ = some T := by
  grind [processRef]

lemma processRef_setTable {T' : CapabilityTable} (h : K.processRef pid = .ok T) (q : ProcessId) :
    (K.setTable pid T').processRef q = if q = pid then .ok T' else K.processRef q := by
  obtain ⟨hp, -⟩ := processRef_ok h
  unfold setTable processRef
  by_cases hq : q = pid
  · subst hq
    simp [hp]
  · have hne : ∀ hlt : q < maxProcesses, (⟨q, hlt⟩ : Fin maxProcesses) ≠ ⟨pid, hp⟩ := by
      intro hlt he
      exact hq (congrArg Fin.val he)
    simp only [hp, dif_pos, hq, if_false]
    split
    · rename_i hlt
      rw [update_of_ne (hne hlt)]
    · rfl

lemma setTable_procs (h : K'.procs = K.procs) :
    (K'.setTable pid T).procs = (K.setTable pid T).procs := by
  grind [setTable]

@[simp] lemma setTable_channels (T : CapabilityTable) :
    (K.setTable pid T).channels = K.channels := by
  unfold setTable; split <;> rfl

@[simp] lemma setTable_regions (T : CapabilityTable) : (K.setTable pid T).regions = K.regions := by
  unfold setTable; split <;> rfl

@[simp] lemma setTable_tick (T : CapabilityTable) : (K.setTable pid T).tick = K.tick := by
  unfold setTable; split <;> rfl

/-- The call gives the token to the process: a grant, an attenuation of a live token of the
process, the creator's access to a new region, or a share. -/
def Gives (K : Kernel) (call : Call) (result : Except IpcError ℕ) (pid : ProcessId)
    (x : CapabilityToken) : Prop :=
  match call with
  | .grantToProcess p cap _ => p = pid ∧ x.capability = cap ∧ ∃ h, result = .ok h
  | .attenuate tid x0 x1 _ x3 =>
    K.owner tid = some pid ∧ attenuateCap x1 x3 = .ok x.capability ∧ x.id = K.nextTokenId ∧
      (∃ T parent, K.processRef pid = .ok T ∧ T.get x0 = some parent ∧
        parent.capability.canAttenuateTo x.capability) ∧ ∃ h, result = .ok h
  | .sharedMemoryCreate p _ _ _ =>
    p = pid ∧ ∃ k, result = .ok k ∧ x.capability = .sharedMemoryAccess k
  | .sharedMemoryShare _ id target =>
    target = pid ∧ x.capability = .sharedMemoryAccess id ∧ ∃ h, result = .ok h
  | _ => False

def Opens (K : Kernel) (call : Call) (result : Except IpcError ℕ) (k : Fin maxChannels)
    (ch : Channel RawMessage) : Prop :=
  ∃ tid, call = .channelCreate tid ∧ K.channels.firstFree = some k ∧ result = .ok k ∧
    ∃ pid T i x, K.owner tid = some pid ∧ K.processRef pid = .ok T ∧
      T.authorizingSlot .channelCreate K.tick = some i ∧ T.tokens i = some x ∧
      ch.ownerA = pid ∧ ch.creationCap = some x.id

def Places (K : Kernel) (call : Call) (result : Except IpcError ℕ) (k : Fin maxSharedRegions)
    (r : SharedMemoryRegion) : Prop :=
  ∃ size flags base, call = .sharedMemoryCreate r.creator size flags base ∧
    K.regions.firstFree = some k ∧ result = .ok k

def Performs (K K' : Kernel) (pid : ProcessId) (op : Op) : Prop :=
  ∃ T, K.processRef pid = .ok T ∧ K'.procs = (K.setTable pid (op.apply T)).procs

lemma Performs.congr (h : Performs K K' pid op) {L : Kernel} (hL : L.procs = K.procs) :
    Performs L K' pid op := by
  obtain ⟨T, hT, hp⟩ := h
  exact ⟨T, by rw [processRef_congr hL, hT], by rw [hp, setTable_procs hL]⟩

def SameCharge (ch ch' : Channel RawMessage) : Prop :=
  ch'.ownerA = ch.ownerA ∧ ch'.creationCap = ch.creationCap

/-! ### What a call can do -/

/-- One operation on one table of the process table, whose new token is given; with a revocation
the channels of the token go. Otherwise channels keep their charge and regions their creator, except
for those that are opened and placed. -/
structure Changes (K K' : Kernel) (gives : ProcessId → CapabilityToken → Prop)
    (opens : Fin maxChannels → Channel RawMessage → Prop)
    (places : Fin maxSharedRegions → SharedMemoryRegion → Prop) : Prop where
  tick : K.tick ≤ K'.tick
  procs : K'.procs = K.procs ∨ ∃ pid op, op.Rooted ∧ Performs K K' pid op ∧
    (∀ id, op = .revoke id → ∀ k ch, K'.channels k = some ch → ch.creationCap ≠ some id) ∧
    ∀ T i x, K.processRef pid = .ok T → (op.apply T).tokens i = some x → x.revoked = false →
      T.tokens i = some x ∨ gives pid x
  channel : ∀ k ch', K'.channels k = some ch' →
    (∃ ch, K.channels k = some ch ∧ SameCharge ch ch') ∨ opens k ch'
  region : ∀ k r', K'.regions k = some r' →
    (∃ r, K.regions k = some r ∧ r.creator = r'.creator) ∨ places k r'

section Changes

variable {gives : ProcessId → CapabilityToken → Prop}
  {opens : Fin maxChannels → Channel RawMessage → Prop}
  {places : Fin maxSharedRegions → SharedMemoryRegion → Prop}

@[grind ←] lemma Changes.refl : Changes K K gives opens places where
  tick := le_rfl
  procs := .inl rfl
  channel _ ch' h := .inl ⟨ch', h, rfl, rfl⟩
  region _ r' h := .inl ⟨r', h, rfl⟩

@[grind ←] lemma Changes.of_channels {channels : Slots maxChannels (Channel RawMessage)}
    (h : ∀ k ch', channels k = some ch' →
      (∃ ch, K.channels k = some ch ∧ SameCharge ch ch') ∨ opens k ch') :
    Changes K { K with channels := channels } gives opens places :=
  ⟨le_rfl, .inl rfl, h, fun _ r' h => .inl ⟨r', h, rfl⟩⟩

lemma Changes.of_regions {regions : Slots maxSharedRegions SharedMemoryRegion}
    (h : ∀ k r', regions k = some r' →
      (∃ r, K.regions k = some r ∧ r.creator = r'.creator) ∨ places k r') :
    Changes K { K with regions := regions } gives opens places :=
  ⟨le_rfl, .inl rfl, fun _ ch' h => .inl ⟨ch', h, rfl, rfl⟩, h⟩

lemma Changes.of_table (op : Op) (hT : K.processRef pid = .ok T) (hop : op.Rooted)
    (hno : ∀ id, op ≠ .revoke id)
    (h : ∀ i x, (op.apply T).tokens i = some x → T.tokens i = some x ∨ gives pid x) :
    Changes K (K.setTable pid (op.apply T)).bumpTokenId gives opens places where
  tick := by simp [bumpTokenId]
  procs := by
    refine .inr ⟨pid, op, hop, ⟨T, hT, rfl⟩, fun id hid => absurd hid (hno id), ?_⟩
    intro U i x hU hi _
    rw [hT] at hU
    cases hU
    exact h i x hi
  channel k ch' h := .inl ⟨ch', by simpa [bumpTokenId] using h, rfl, rfl⟩
  region k r' h := .inl ⟨r', by simpa [bumpTokenId] using h, rfl⟩

variable {i : Fin maxCapsPerProcess} {id : CapabilityTokenId} {tok : CapabilityToken}
  {channel : ChannelId}

lemma put_cases {n : ℕ} (hg : gives pid tok) {j : Fin maxCapsPerProcess} {x : CapabilityToken}
    (h : (⟨update T.tokens i (some tok), n⟩ : CapabilityTable).tokens j = some x) :
    T.tokens j = some x ∨ gives pid x := by
  rcases update_eq_some.mp h with ⟨-, h⟩ | ⟨-, h⟩
  · cases h
    exact .inr hg
  · exact .inl h

lemma grant_changes (hT : K.processRef pid = .ok T) (hroot : (Op.grant tok).Rooted)
    (hg : (∃ h, (T.grant tok).1 = .ok h) → gives pid tok) :
    Changes K (K.setTable pid (T.grant tok).2).bumpTokenId gives opens places := by
  refine Changes.of_table (.grant tok) hT hroot (by simp) fun i x hi => ?_
  simp only [Op.apply] at hi
  rcases grant_cases T tok with he | ⟨j, -, he⟩ <;> rw [he] at hi hg
  · exact .inl hi
  · exact put_cases (hg ⟨_, rfl⟩) hi

lemma grantToProcess_changes (pid : ProcessId) (cap : Capability) (d : Bool)
    (hg : ∀ x, x.capability = cap → (∃ h, (K.grantToProcess pid cap d).1 = .ok h) → gives pid x) :
    Changes K (K.grantToProcess pid cap d).2 gives opens places := by
  unfold grantToProcess at *
  cases hT : K.processRef pid with
  | error e => exact .refl
  | ok T =>
    simp only [hT] at hg ⊢
    exact grant_changes hT ⟨rfl, rfl⟩ (hg _ rfl)

lemma attenuate_changes {handle : CapabilityHandle} {cap : Capability} {expiry : Option ℕ}
    (hT : K.processRef pid = .ok T)
    (hg : ∀ x parent, x.id = K.nextTokenId → x.capability = cap → T.get handle = some parent →
      parent.capability.canAttenuateTo cap →
      (∃ h, (T.attenuate handle cap expiry pid K.nextTokenId).1 = .ok h) → gives pid x) :
    Changes K (K.setTable pid (T.attenuate handle cap expiry pid K.nextTokenId).2).bumpTokenId
      gives opens places := by
  refine Changes.of_table (.attenuate handle cap expiry pid K.nextTokenId) hT trivial (by simp) ?_
  intro i x hi
  simp only [Op.apply] at hi
  rcases attenuate_cases T handle cap expiry pid K.nextTokenId with
    ⟨e, he⟩ | ⟨j, parent, child, hget, hcan, -, hid, hcap, -, -, -, he⟩ <;> rw [he] at hi hg
  · exact .inl hi
  · exact put_cases (hg child parent hid hcap hget hcan ⟨_, rfl⟩) hi

lemma revoke_live (hi : (T.revoke id).tokens i = some x) (hl : x.revoked = false) :
    T.tokens i = some x := by
  cases hold : T.tokens i with
  | none =>
    rw [revoke_keeps T id (by simp [hold]), hold] at hi
    cases hi
  | some y =>
    rcases step_keeps (rfl : Step T (.revoke id) _) hold with h | h <;> cases h.symm.trans hi
    · rfl
    · cases hl

lemma revokeChannelsForCap_some {k : Fin maxChannels} {ch : Channel RawMessage}
    (h : (K.revokeChannelsForCap id).channels k = some ch) :
    K.channels k = some ch ∧ ch.creationCap ≠ some id := by
  obtain ⟨h1, h2⟩ := filter_eq_some_iff.mp h
  exact ⟨h1, by simpa using h2⟩

lemma revoke_changes (hT : K.processRef pid = .ok T) (id : CapabilityTokenId) :
    Changes K ((K.setTable pid (T.revoke id)).revokeChannelsForCap id) gives opens places where
  tick := by simp [revokeChannelsForCap]
  procs := by
    refine .inr ⟨pid, .revoke id, trivial, ⟨T, hT, rfl⟩, ?_, ?_⟩
    · intro i hi k ch hk
      cases hi
      exact (revokeChannelsForCap_some hk).2
    · intro U i x hU hi hl
      rw [hT] at hU
      cases hU
      exact .inl (revoke_live hi hl)
  channel k ch' h := .inl ⟨ch', by simpa using (revokeChannelsForCap_some h).1, rfl, rfl⟩
  region k r' h := .inl ⟨r', by simpa [revokeChannelsForCap] using h, rfl⟩

lemma onChannel_changes {f : Channel RawMessage → Except IpcError (Option (Channel RawMessage))}
    (hf : ∀ ch ch', f ch = .ok (some ch') → SameCharge ch ch') :
    Changes K (K.onChannel channel f).2 gives opens places := by
  grind [onChannel, update_eq_some, SameCharge]

lemma withAccess_changes {tid : ThreadId} {act : Except IpcError ℕ × Kernel}
    (h : Changes K act.2 gives opens places) :
    Changes K (K.withAccess tid channel act).2 gives opens places := by
  grind [withAccess]

end Changes

/-! ### The calls -/

variable {ch' ch : Channel RawMessage} {msg : RawMessage}

lemma call_charge {t : ThreadId} (h : (ch.call t msg).map (fun r => some r.2) = .ok (some ch')) :
    SameCharge ch ch' := by
  grind [Channel.call, Except.map, SameCharge]

lemma send_charge (h : (ch.send msg).map (fun r => some r.2) = .ok (some ch')) :
    SameCharge ch ch' := by
  grind [Channel.send, Except.map, SameCharge]

lemma recv_charge {t : ThreadId} {poll : Bool}
    (h : (ch.recv t poll).map (fun r => some r.2) = .ok (some ch')) : SameCharge ch ch' := by
  grind [Channel.recv, Except.map, SameCharge]

lemma channelCreate_cases (K : Kernel) (tid : ThreadId) :
    (∃ e, K.channelCreate tid = (.error e, K)) ∨
      ∃ (i : Fin maxChannels) (ch : Channel RawMessage), K.channels.firstFree = some i ∧
        K.channelCreate tid =
          (.ok i, { K with channels := update K.channels i (some ch) }) ∧
        Opens K (.channelCreate tid) (.ok i) i ch := by
  unfold channelCreate
  cases hown : K.owner tid with
  | none => exact .inl ⟨_, rfl⟩
  | some pid =>
    cases hc : K.checkChannelCreate pid with
    | error e => exact .inl ⟨e, by simp only [hc]⟩
    | ok token =>
      cases hf : K.channels.firstFree with
      | none => exact .inl ⟨.enospc, by simp only [hc]⟩
      | some i =>
        refine .inr ⟨i, { Channel.new i pid with creationCap := some token }, rfl,
          by simp only [hc], tid, rfl, hf, rfl, pid, ?_⟩
        -- the token comes from the first slot that authorizes
        cases hT : K.processRef pid with
        | error e => simp [checkChannelCreate, checkCreate, hT] at hc
        | ok T =>
          simp only [checkChannelCreate, checkCreate, hT, findAuthorizingToken_eq] at hc
          cases hs : T.authorizingSlot .channelCreate K.tick with
          | none => simp [hs] at hc
          | some j =>
            obtain ⟨⟨x, hx, -⟩, -⟩ := authorizingSlot_some hs
            simp only [hs, hx, bind_some, map_some, Except.ok.injEq] at hc
            exact ⟨T, j, x, hown, rfl, hs, hx, rfl, by rw [hc]⟩

lemma sharedMemoryCreate_cases (K : Kernel) (pid : ProcessId) (size : ℕ) (flags : VmFlags)
    (base : Option ℕ) :
    (∃ e, K.sharedMemoryCreate pid size flags base = (.error e, K)) ∨
      ∃ (i : Fin maxSharedRegions) (r : SharedMemoryRegion), K.regions.firstFree = some i ∧
        r.creator = pid ∧ K.sharedMemoryCreate pid size flags base =
          (.ok i, (grantToProcess { K with regions := update K.regions i (some r) } pid
            (.sharedMemoryAccess i) true).2) := by
  unfold sharedMemoryCreate
  simp only
  split_ifs with h1 h2
  · exact Or.inl ⟨_, rfl⟩
  · exact Or.inl ⟨_, rfl⟩
  · cases K.checkSharedMemoryCreate pid with
    | error e => exact Or.inl ⟨e, rfl⟩
    | ok token =>
      cases base with
      | none => exact Or.inl ⟨_, rfl⟩
      | some basePhys =>
        cases hf : K.regions.firstFree with
        | none => exact Or.inl ⟨_, rfl⟩
        | some i => exact Or.inr ⟨i, _, rfl, rfl, rfl⟩

lemma sharedMemoryShare_cases (K : Kernel) (pid : ProcessId) (id : SharedMemoryId)
    (target : ProcessId) :
    (∃ e, K.sharedMemoryShare pid id target = (.error e, K)) ∨
      ∃ (h : id < maxSharedRegions) (r : SharedMemoryRegion), K.regions ⟨id, h⟩ = some r ∧
        r.creator = pid ∧
        (K.sharedMemoryShare pid id target).2 =
          (K.grantToProcess target (.sharedMemoryAccess id) false).2 ∧
        ((∃ n, (K.sharedMemoryShare pid id target).1 = .ok n) ↔
          ∃ n, (K.grantToProcess target (.sharedMemoryAccess id) false).1 = .ok n) := by
  unfold sharedMemoryShare
  by_cases h : id < maxSharedRegions
  · by_cases ht : target < maxProcesses
    · simp only [h, ht, dif_pos, if_true]
      cases hr : K.regions ⟨id, h⟩ with
      | none => exact Or.inl ⟨_, rfl⟩
      | some r =>
        by_cases hc : r.creator = pid
        · refine Or.inr ⟨trivial, r, hr, hc, ?_⟩
          simp only [hc, if_true]
          split
          · rename_i heq; simp [heq]
          · rename_i heq; simp [heq]
        · exact Or.inl ⟨.eperm, by simp [hc]⟩
    · exact Or.inl ⟨.einval, by simp [h, ht]⟩
  · exact Or.inl ⟨.einval, by simp [h]⟩

lemma sharedMemoryCreate_changes (K : Kernel) (pid : ProcessId) (size : ℕ) (flags : VmFlags)
    (base : Option ℕ) {r : Except IpcError ℕ × Kernel}
    (hr : K.sharedMemoryCreate pid size flags base = r) :
    Changes K r.2 (Gives K (.sharedMemoryCreate pid size flags base) r.1) (fun _ _ => False)
      (Places K (.sharedMemoryCreate pid size flags base) r.1) := by
  rcases sharedMemoryCreate_cases K pid size flags base with ⟨e, he⟩ | ⟨i, r', hf, rfl, he⟩ <;>
    obtain rfl := hr.symm.trans he
  · exact .refl
  · have hg : Changes { K with regions := update K.regions i (some r') } _
        (Gives K (.sharedMemoryCreate r'.creator size flags base) (.ok (i : ℕ)))
        (fun _ _ => False) (fun _ _ => False) :=
      grantToProcess_changes r'.creator (.sharedMemoryAccess i) true fun _ hx _ => ⟨rfl, i, rfl, hx⟩
    refine ⟨hg.tick, ?_, hg.channel, ?_⟩
    · refine hg.procs.imp_right ?_
      rintro ⟨p, op, hop, hp, hno, htok⟩
      exact ⟨p, op, hop, hp.congr rfl, hno, htok⟩
    · intro k r hk
      obtain ⟨r1, hr1, hcr⟩ := (hg.region k r hk).resolve_right id
      rcases update_eq_some.mp hr1 with ⟨rfl, h⟩ | ⟨-, h⟩
      · cases h
        exact .inr ⟨size, flags, base, by rw [hcr], hf, rfl⟩
      · exact .inl ⟨r1, h, hcr⟩

/-- **What a call does to the tables.** -/
lemma exec_changes (K : Kernel) (call : Call) :
    Changes K (K.exec call).2 (Gives K call (K.exec call).1) (Opens K call (K.exec call).1)
      (Places K call (K.exec call).1) := by
  cases call with
  | tick =>
    exact ⟨Nat.le_succ _, .inl rfl, fun _ ch' h => .inl ⟨ch', h, rfl, rfl⟩,
      fun _ r' h => .inl ⟨r', h, rfl⟩⟩
  | grantToProcess p cap d => exact grantToProcess_changes _ _ _ fun _ hx hres => ⟨rfl, hx, hres⟩
  | attenuate tid x0 x1 x2 x3 =>
    simp only [exec, sysCapabilityAttenuate]
    split
    · split
      · exact .refl
      · rename_i pid hown
        split
        · exact .refl
        · rename_i cap hcap
          split
          · exact .refl
          · rename_i T hT
            refine attenuate_changes hT ?_
            rintro x parent hid rfl hget hcan hres
            exact ⟨hown, hcap, hid, ⟨T, parent, hT, hget, hcan⟩, hres⟩
    · exact .refl
  | revokeInProcess p id =>
    simp only [exec, revokeInProcess]
    repeat' split
    · exact .of_channels fun k ch h => .inl ⟨ch, (revokeChannelsForCap_some h).1, rfl, rfl⟩
    · exact revoke_changes (by assumption) id
    · exact .refl
  | channelCreate tid =>
    rcases channelCreate_cases K tid with ⟨e, he⟩ | ⟨i, ch, hf, he, hopen⟩ <;> rw [exec, he]
    · exact .refl
    · refine .of_channels fun k ch' hk => ?_
      rcases update_eq_some.mp hk with ⟨rfl, hk'⟩ | ⟨-, hk'⟩
      · cases hk'
        exact .inr hopen
      · exact .inl ⟨ch', hk', rfl, rfl⟩
  | channelDestroy tid k =>
    exact withAccess_changes (onChannel_changes fun _ _ h => by cases h)
  | ipcCall tid k buf =>
    simp only [exec, ipcCall]
    split
    · exact .refl
    · exact withAccess_changes (onChannel_changes fun _ _ => call_charge)
  | ipcSend tid k buf =>
    simp only [exec, ipcSend]
    split
    · exact .refl
    · exact withAccess_changes (onChannel_changes fun _ _ => send_charge)
  | ipcRecv tid k poll => exact withAccess_changes (onChannel_changes fun _ _ => recv_charge)
  | sharedMemoryCreate p size flags base =>
    obtain ⟨h1, h2, h3, h4⟩ := sharedMemoryCreate_changes K p size flags base rfl
    exact ⟨h1, h2, fun k ch h => (h3 k ch h).imp_right False.elim, h4⟩
  | sharedMemoryMap p id flags =>
    simp only [exec, sharedMemoryMap]
    repeat' split
    case h_2 r hr _ _ hadd =>
      refine .of_regions fun k r' hk => .inl ?_
      rcases update_eq_some.mp hk with ⟨rfl, hk'⟩ | ⟨-, hk'⟩
      · cases hk'
        exact ⟨r, hr, (SharedMemoryRegion.addMapping_creator hadd).symm⟩
      · exact ⟨r', hk', rfl⟩
    all_goals exact .refl
  | sharedMemoryUnmap p id =>
    simp only [exec, sharedMemoryUnmap]
    split
    · split
      · exact .refl
      · rename_i r hr
        split
        · exact .refl
        · rename_i hdrop
          refine .of_regions fun k r' hk => .inl ?_
          rcases update_eq_some.mp hk with ⟨rfl, rfl⟩ | ⟨-, hk'⟩
          · exact ⟨r, hr, (SharedMemoryRegion.dropMapping_creator hdrop).symm⟩
          · exact ⟨r', hk', rfl⟩
    · exact .refl
  | sharedMemoryShare p id target =>
    rcases sharedMemoryShare_cases K p id target with ⟨e, he⟩ | ⟨-, r, -, -, he, hok⟩
    · rw [exec, he]
      exact .refl
    · rw [show (K.exec (.sharedMemoryShare p id target)).2 = _ from he]
      exact grantToProcess_changes _ _ _ fun _ hx hres => ⟨rfl, hx, hok.mpr hres⟩
  | processExit p =>
    simp only [exec, processExit]
    split
    · refine ⟨le_rfl, .inl rfl, fun k ch' hk => .inl ?_, fun k r' hk => .inl ?_⟩
      · obtain ⟨ch, hch, rfl⟩ := map_eq_some_iff.mp hk
        refine ⟨ch, hch, ?_⟩
        split <;> exact ⟨rfl, rfl⟩
      · cases hr : K.regions k with
        | none => simp [hr] at hk
        | some r =>
          refine ⟨r, rfl, ?_⟩
          cases hd : r.dropMapping p with
          | none => rw [show r = r' by simpa [hr, hd] using hk]
          | some o =>
            obtain rfl : o = some r' := by simpa [hr, hd] using hk
            exact (SharedMemoryRegion.dropMapping_creator hd).symm
    · exact .refl

/-- **Origin of tokens.** A live token held after a call was held before it, or the call gave
it. -/
theorem exec_holds {call : Call} (hl : x.revoked = false) (hx : Holds (K.exec call).2 pid x) :
    Holds K pid x ∨ Gives K call (K.exec call).1 pid x := by
  obtain ⟨U, i, hU, hi⟩ := hx
  rcases (exec_changes K call).procs with hp | ⟨p, op, -, ⟨T, hT, hp⟩, -, htok⟩
  · exact .inl ⟨U, i, by rwa [processRef_congr hp] at hU, hi⟩
  · rw [processRef_congr hp, processRef_setTable hT] at hU
    split_ifs at hU with hq
    · subst hq
      cases hU
      exact (htok T i x hT hi hl).imp_left fun h => ⟨T, i, hT, h⟩
    · exact .inl ⟨U, i, hU, hi⟩

lemma exec_tick_le (K : Kernel) (call : Call) : K.tick ≤ (K.exec call).2.tick :=
  (exec_changes K call).tick

/-- **Origin of channels.** A slot occupied after a call was occupied before, or the call is
the `channel_create` that took it as the first free slot. -/
theorem exec_channel {call : Call} {k : Fin maxChannels} (h : ((K.exec call).2.channels k).isSome) :
    (K.channels k).isSome ∨ ∃ tid, call = .channelCreate tid ∧ K.channels.firstFree = some k ∧
    (K.exec call).1 = .ok k := by
  obtain ⟨ch', hch'⟩ := isSome_iff_exists.mp h
  rcases (exec_changes K call).channel k ch' hch' with ⟨ch, hch, -⟩ | ⟨tid, hc, hf, hres, -⟩
  · exact .inl (by rw [hch]; rfl)
  · exact .inr ⟨tid, hc, hf, hres⟩

/-- **Origin of regions.** A region found after a call was there before, with the same
creator, or the call is the `shared_memory_create` that put it in the first free slot. -/
theorem exec_region {call : Call} {k : Fin maxSharedRegions} {r' : SharedMemoryRegion}
    (h : (K.exec call).2.regions k = some r') :
    (∃ r, K.regions k = some r ∧ r.creator = r'.creator) ∨
      ∃ size flags base, call = .sharedMemoryCreate r'.creator size flags base ∧
        K.regions.firstFree = some k ∧ (K.exec call).1 = .ok k :=
  (exec_changes K call).region k r' h

end Aios.Kernel
