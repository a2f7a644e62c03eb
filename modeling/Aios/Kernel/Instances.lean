import Aios.Kernel.Origin

/-!
Authority over a channel or a region, and the instance it was given for.

Channel and region ids are slots of a table, and a slot is used again as soon as it is free.
Access tokens name the id only and stay in the tables of the processes. The history of a run
tells whether the authority a process has over the instance now in a slot was given to it
after that instance was created.
-/

namespace Aios.Kernel

open Aios.Lib Aios.Cap Aios.Ipc List Slots Runs

structure Entry where
  before : Kernel
  call : Call
  result : Except IpcError ℕ

structure History where
  kernel : Kernel
  entries : List Entry

namespace History

def make (S : History) (call : Call) : History :=
  ⟨(S.kernel.exec call).2, ⟨S.kernel, call, (S.kernel.exec call).1⟩ :: S.entries⟩

def Step (S : History) (call : Call) (S' : History) : Prop := S' = S.make call

structure Boot (S : History) : Prop where
  entries : S.entries = []
  channels : ∀ k, S.kernel.channels k = none
  regions : ∀ k, S.kernel.regions k = none
  tokens : ∀ pid x, ¬ Holds S.kernel pid x

end History

variable {pid : ProcessId} {call : Call} {x : CapabilityToken} {k : Fin maxSharedRegions}
  {S : History} {K : Kernel} {r : SharedMemoryRegion} {cap : Capability}

lemma checkAccess_ok :
    K.checkAccess cap pid = .ok () ↔ ∃ x, Holds K pid x ∧ x.authorizes cap K.tick := by
  unfold checkAccess Holds
  cases hT : K.processRef pid with
  | error e => simp
  | ok T =>
    have hcap : T.hasCapability cap K.tick = true ↔
        ∃ x, (∃ i, T.tokens i = some x) ∧ x.authorizes cap K.tick := by
      simp only [CapabilityTable.hasCapability, CapabilityTable.findAuthorizingToken,
        Option.isSome_map, find?_isSome, mem_items]
    by_cases h : T.hasCapability cap K.tick
    · simp only [h, if_true, true_iff]
      obtain ⟨x, ⟨i, hi⟩, hx⟩ := hcap.mp h
      exact ⟨x, ⟨T, i, rfl, hi⟩, hx⟩
    · simp only [h, Bool.false_eq_true, if_false, reduceCtorEq, false_iff]
      rintro ⟨x, ⟨U, i, hU, hi⟩, hx⟩
      cases hU
      exact h (hcap.mpr ⟨x, ⟨i, hi⟩, hx⟩)

/-! ### Channels -/

def Entry.createsChannel (k : ChannelId) (e : Entry) : Bool :=
  match e.call, e.result with
  | .channelCreate _, .ok j => j == k
  | _, _ => false

/-- The calls made since the channel now in slot `k` was created. -/
def History.sinceChannel (S : History) (k : ChannelId) : List Entry :=
  S.entries.takeWhile fun e => !e.createsChannel k

def Entry.grants (e : Entry) (pid : ProcessId) (cap : Capability) : Prop :=
  match e.call with
  | .grantToProcess p c _ => p = pid ∧ c = cap ∧ ∃ h, e.result = .ok h
  | .attenuate tid _ x1 _ x3 =>
    e.before.owner tid = some pid ∧ attenuateCap x1 x3 = .ok cap ∧ ∃ h, e.result = .ok h
  | _ => False

/-- Whoever passes `check_channel_access` for a live channel was granted access after the
channel was created. -/
def ChannelAuthority (S : History) : Prop :=
  ∀ pid (k : Fin maxChannels), (S.kernel.channels k).isSome →
    S.kernel.checkChannelAccess pid k = .ok () →
    ∃ e ∈ S.sinceChannel k, e.grants pid (.channelAccess k)

def Call.channelSlot (K : Kernel) : Call → Option (Fin maxChannels)
  | .channelCreate _ => K.channels.firstFree
  | _ => none

def FreshChannel (S : History) (call : Call) : Prop :=
  ∀ k ∈ call.channelSlot S.kernel, ∀ p : Fin maxProcesses,
    (S.kernel.checkChannelAccess p k).toBool = false

instance (S : History) (call : Call) : Decidable (FreshChannel S call) :=
  inferInstanceAs (Decidable (∀ k ∈ call.channelSlot S.kernel, ∀ p : Fin maxProcesses,
    (S.kernel.checkChannelAccess p k).toBool = false))

lemma checkChannelAccess_ok {k : Fin maxChannels} : K.checkChannelAccess pid k = .ok () ↔
    ∃ x, Holds K pid x ∧ x.authorizes (.channelAccess k) K.tick := by
  rw [← checkAccess_ok, checkChannelAccess, if_pos k.isLt]

lemma holds_lt (h : Holds K pid x) : pid < maxProcesses := by
  obtain ⟨T, -, hT, -⟩ := h
  exact (processRef_ok hT).1

lemma authorizes_before (h : x.authorizes cap (K.exec call).2.tick) : x.authorizes cap K.tick := by
  obtain ⟨hl, hne, hcap⟩ := CapabilityToken.authorizes_iff.mp h
  refine CapabilityToken.authorizes_iff.mpr ⟨hl, ?_, hcap⟩
  by_contra he
  have := CapabilityToken.expired_mono (exec_tick_le K call) (by simpa using he)
  rw [this] at hne; simp at hne

lemma Gives.grants {res : Except IpcError ℕ} {k : ChannelId} (h : Gives K call res pid x)
    (hcap : x.capability = .channelAccess k) :
    Entry.grants ⟨K, call, res⟩ pid (.channelAccess k) := by
  cases call with
  | grantToProcess p c d => exact ⟨h.1, h.2.1.symm.trans hcap, h.2.2⟩
  | attenuate tid x0 x1 x2 x3 =>
    obtain ⟨hown, hc, -, -, hres⟩ := h
    exact ⟨hown, by rw [hc, hcap], hres⟩
  | sharedMemoryCreate p size flags base =>
    obtain ⟨-, j, -, hc⟩ := h
    rw [hcap] at hc; simp at hc
  | sharedMemoryShare p id target =>
    obtain ⟨-, hc, -⟩ := h
    rw [hcap] at hc; simp at hc
  | _ => exact h.elim

lemma sinceChannel_make {k : Fin maxChannels} (hk : (S.kernel.channels k).isSome) :
    (S.make call).sinceChannel k =
      ⟨S.kernel, call, (S.kernel.exec call).1⟩ :: S.sinceChannel k := by
  have hnot : Entry.createsChannel k ⟨S.kernel, call, (S.kernel.exec call).1⟩ = false := by
    unfold Entry.createsChannel
    cases call with
    | channelCreate tid =>
      rcases channelCreate_cases S.kernel tid with ⟨e, he⟩ | ⟨i, ch, hf, he, -⟩
      · simp [exec, he]
      · have hne : i ≠ k := by
          rintro rfl
          rw [firstFree_some hf] at hk; simp at hk
        simpa [exec, he, Fin.val_inj] using hne
    | _ => rfl
  simp [History.sinceChannel, History.make, hnot]

lemma channelAuthority_make (h : ChannelAuthority S) (hok : FreshChannel S call) :
    ChannelAuthority (S.make call) := by
  intro pid k hk hacc
  obtain ⟨x, hx, hauth⟩ := checkChannelAccess_ok.mp hacc
  obtain ⟨hl, -, hcap⟩ := CapabilityToken.authorizes_iff.mp hauth
  have hold : Holds S.kernel pid x → S.kernel.checkChannelAccess pid k = .ok () :=
    fun hh => checkChannelAccess_ok.mpr ⟨x, hh, authorizes_before hauth⟩
  rcases exec_channel hk with hlive | ⟨tid, rfl, hfree, -⟩
  · rw [sinceChannel_make hlive]
    rcases exec_holds hl hx with hh | hg
    · obtain ⟨e, he, hgr⟩ := h pid k hlive (hold hh)
      exact ⟨e, mem_cons_of_mem _ he, hgr⟩
    · exact ⟨_, mem_cons_self, hg.grants hcap⟩
  · -- the channel is new: the token was held already, against the condition on the create
    rcases exec_holds hl hx with hh | hg
    · have hno := hok k hfree ⟨pid, holds_lt hh⟩
      rw [hold hh] at hno; simp [Except.toBool] at hno
    · exact hg.elim

/-- **Channel authority is per instance, while no stale token is left.** In a run in which
every `channel_create` takes a slot that no process has access to, whoever passes the check
for a live channel was granted access after that channel was created. -/
theorem channel_authority_since_creation {S₀ S : History} (h₀ : S₀.Boot)
    (h : Runs History.Step FreshChannel S₀ S) : ChannelAuthority S := by
  refine Runs.inv ChannelAuthority ?_ (fun S call S' hS hok hs => ?_) h
  · intro pid k hk
    rw [h₀.channels k] at hk; simp at hk
  · rw [hs]
    exact channelAuthority_make hS hok

def start : Kernel where
  procs p := if p.val < 3 then some CapabilityTable.new else none
  owner tid := if tid < 3 then some tid else none
  channels := Slots.empty
  regions := Slots.empty
  nextTokenId := 1
  tick := 0

lemma boot_start : History.Boot ⟨start, []⟩ where
  entries := rfl
  channels _ := rfl
  regions _ := rfl
  tokens := by
    rintro pid x ⟨T, i, hT, hi⟩
    obtain ⟨hp, hT'⟩ := processRef_ok hT
    simp only [start] at hT'
    split at hT'
    · cases hT'
      simp [CapabilityTable.new] at hi
    · simp at hT'

def openChannel : List Call :=
  [.grantToProcess 0 .channelCreate true, .channelCreate 0,
   .grantToProcess 0 (.channelAccess 0) true, .grantToProcess 1 (.channelAccess 0) true]

def reopenChannel : List Call := openChannel ++ [.channelDestroy 0 0, .channelCreate 0]

/-- **A stale channel token.** Process 1 passes the check for the second channel, which
nobody was granted access to. -/
theorem channel_token_outlives_channel :
    ∃ S, Runs History.Step (fun _ _ => True) ⟨start, []⟩ S ∧ (S.kernel.channels 0).isSome ∧
      S.kernel.checkChannelAccess 1 0 = .ok () ∧ S.sinceChannel 0 = [] ∧ ¬ ChannelAuthority S := by
  have hrun : Runs History.Step (fun _ _ => True) ⟨start, []⟩
      (reopenChannel.foldl History.make ⟨start, []⟩) :=
    of_foldl (fun _ _ _ => rfl) (by decide +kernel)
  have hlive : ((reopenChannel.foldl History.make ⟨start, []⟩).kernel.channels 0).isSome = true := by
    decide +kernel
  have hacc : ((reopenChannel.foldl History.make ⟨start, []⟩).kernel.checkChannelAccess 1 0).toBool =
      true := by decide +kernel
  have hacc' : (reopenChannel.foldl History.make ⟨start, []⟩).kernel.checkChannelAccess 1 0 =
      .ok () := by
    cases h : (reopenChannel.foldl History.make ⟨start, []⟩).kernel.checkChannelAccess 1 0 with
    | error e => rw [h] at hacc; simp [Except.toBool] at hacc
    | ok u => rfl
  have hnil : (reopenChannel.foldl History.make ⟨start, []⟩).sinceChannel 0 = [] :=
    isEmpty_iff.mp (by decide +kernel)
  refine ⟨_, hrun, hlive, hacc', hnil, fun hv => ?_⟩
  obtain ⟨e, he, -⟩ := hv 1 0 hlive hacc'
  rw [show ((0 : Fin maxChannels) : ℕ) = 0 from rfl, hnil] at he
  simp at he

theorem channel_authority_openChannel :
    ChannelAuthority (openChannel.foldl History.make ⟨start, []⟩) :=
  channel_authority_since_creation boot_start (of_foldl (fun _ _ _ => rfl) (by decide +kernel))

/-! ### Regions -/

def Entry.createsRegion (k : SharedMemoryId) (e : Entry) : Bool :=
  match e.call, e.result with
  | .sharedMemoryCreate _ _ _ _, .ok j => j == k
  | _, _ => false

/-- The calls made since the region now in slot `k` was created. -/
def History.sinceRegion (S : History) (k : SharedMemoryId) : List Entry :=
  S.entries.takeWhile fun e => !e.createsRegion k

/-- The process attenuated the token `parent` to access to region `k` and got the token `id`. -/
def Entry.attenuatedTo (e : Entry) (pid : ProcessId) (k : SharedMemoryId)
    (parent : CapabilityToken) (id : CapabilityTokenId) : Prop :=
  match e.call with
  | .attenuate tid x0 x1 _ x3 =>
    e.before.owner tid = some pid ∧ attenuateCap x1 x3 = .ok (.sharedMemoryAccess k) ∧
      (∃ T, e.before.processRef pid = .ok T ∧ T.get x0 = some parent) ∧
      id = e.before.nextTokenId ∧ ∃ h, e.result = .ok h
  | _ => False

/-- The token came by attenuation from a `SharedMemoryCreate` token of the process, in one or
more steps, all among the given calls. -/
inductive FromCreate (es : List Entry) (pid : ProcessId) (k : SharedMemoryId) :
    CapabilityTokenId → Prop
  | base {e parent id} (he : e ∈ es) (hatt : Entry.attenuatedTo e pid k parent id)
      (hp : parent.capability = .sharedMemoryCreate) : FromCreate es pid k id
  | step {e parent id} (he : e ∈ es) (hatt : Entry.attenuatedTo e pid k parent id)
      (hp : FromCreate es pid k parent.id) : FromCreate es pid k id

lemma FromCreate.cons {es : List Entry} {k : SharedMemoryId} {id : CapabilityTokenId}
    (h : FromCreate es pid k id) (e : Entry) : FromCreate (e :: es) pid k id := by
  induction h with
  | base he hatt hp => exact .base (mem_cons_of_mem _ he) hatt hp
  | step he hatt _ ih => exact .step (mem_cons_of_mem _ he) hatt ih

/-- The creator of the region in slot `k` has shared it with the process since. -/
def SharedWith (es : List Entry) (creator pid : ProcessId) (k : SharedMemoryId) : Prop :=
  ∃ e ∈ es, e.call = .sharedMemoryShare creator k pid ∧ ∃ h, e.result = .ok h

/-- Whoever maps a region created it, was named in a share by its creator after it was
created, or holds a token attenuated from `SharedMemoryCreate` since. -/
def RegionAuthority (S : History) : Prop :=
  ∀ pid (k : Fin maxSharedRegions) flags va, (S.kernel.sharedMemoryMap pid k flags).1 = .ok va →
    ∃ r, S.kernel.regions k = some r ∧ (r.creator = pid ∨
      SharedWith (S.sinceRegion k) r.creator pid k ∨
      ∃ x, Holds S.kernel pid x ∧ x.authorizes (.sharedMemoryAccess k) S.kernel.tick ∧
        FromCreate (S.sinceRegion k) pid k x.id)

def Call.regionSlot (K : Kernel) (call : Call) : Option (ProcessId × ℕ) :=
  match call, (K.exec call).1 with
  | .sharedMemoryCreate pid _ _ _, .ok k => some (pid, k)
  | _, _ => none

/-- When the call creates a region, no other process has an unrevoked access token for the slot. -/
def FreshRegion (S : History) (call : Call) : Prop :=
  ∀ c ∈ call.regionSlot S.kernel, ∀ p : Fin maxProcesses, p ≠ c.1 →
    ∀ T ∈ S.kernel.procs p, ∀ i, ∀ x ∈ T.tokens i,
      x.revoked = false → x.capability ≠ .sharedMemoryAccess c.2

/-- The call hands out an access token past `shared_memory_create` and `shared_memory_share`. -/
def Call.grantsRegion : Call → Bool
  | .grantToProcess _ (.sharedMemoryAccess _) _ => true
  | _ => false

instance (S : History) (call : Call) : Decidable (FreshRegion S call) := by
  unfold FreshRegion
  infer_instance

def Justified (S : History) (k : Fin maxSharedRegions) (creator pid : ProcessId)
    (x : CapabilityToken) : Prop :=
  creator = pid ∨ SharedWith (S.sinceRegion k) creator pid k ∨
    FromCreate (S.sinceRegion k) pid k x.id

def RegionTokens (S : History) : Prop :=
  ∀ pid (k : Fin maxSharedRegions) r x, S.kernel.regions k = some r → Holds S.kernel pid x →
    x.revoked = false → x.capability = .sharedMemoryAccess k → Justified S k r.creator pid x

lemma sinceRegion_make (hk : S.kernel.regions k = some r) : (S.make call).sinceRegion k =
    ⟨S.kernel, call, (S.kernel.exec call).1⟩ :: S.sinceRegion k := by
  have hnot : Entry.createsRegion k ⟨S.kernel, call, (S.kernel.exec call).1⟩ = false := by
    unfold Entry.createsRegion
    cases call with
    | sharedMemoryCreate p size flags base =>
      rcases sharedMemoryCreate_cases S.kernel p size flags base with ⟨e, he⟩ | ⟨i, r', hf, -, he⟩
      · simp [exec, he]
      · have hne : i ≠ k := by
          rintro rfl
          rw [firstFree_some hf] at hk; simp at hk
        simpa [exec, he, Fin.val_inj] using hne
    | _ => rfl
  simp [History.sinceRegion, History.make, hnot]

lemma Justified.make (hk : S.kernel.regions k = some r) (h : Justified S k r.creator pid x) :
    Justified (S.make call) k r.creator pid x := by
  unfold Justified
  rw [sinceRegion_make hk]
  rcases h with h | ⟨e, he, hsh⟩ | h
  · exact Or.inl h
  · exact Or.inr (Or.inl ⟨e, mem_cons_of_mem _ he, hsh⟩)
  · exact Or.inr (Or.inr (h.cons _))

lemma canAttenuateTo_access {c : Capability} {k : SharedMemoryId}
    (h : c.canAttenuateTo (.sharedMemoryAccess k)) :
    c = .sharedMemoryCreate ∨ c = .sharedMemoryAccess k := by
  cases c <;> simp_all [Capability.canAttenuateTo, Capability.permits]

lemma Gives.justified (hS : RegionTokens S) (hd : call.grantsRegion = false)
    (hk : S.kernel.regions k = some r) (h : Gives S.kernel call (S.kernel.exec call).1 pid x)
    (hcap : x.capability = .sharedMemoryAccess k) : Justified (S.make call) k r.creator pid x := by
  cases call with
  | grantToProcess p c d =>
    rw [← h.2.1, hcap] at hd
    simp [Call.grantsRegion] at hd
  | attenuate tid x0 x1 x2 x3 =>
    obtain ⟨hown, hc, hid, ⟨T, parent, hT, hget, hcan⟩, hres⟩ := h
    rw [hcap] at hc hcan
    obtain ⟨i, hi, hpl⟩ := get_some hget
    have hatt : Entry.attenuatedTo ⟨S.kernel, .attenuate tid x0 x1 x2 x3, _⟩ pid k parent x.id :=
      ⟨hown, hc, ⟨T, hT, hget⟩, hid, hres⟩
    -- the parent is a create token, or an access token that is itself justified
    rcases canAttenuateTo_access hcan with hp | hp
    · refine Or.inr (Or.inr ?_)
      rw [sinceRegion_make hk]
      exact .base mem_cons_self hatt hp
    · rcases (hS pid k r parent hk ⟨T, i, hT, hi⟩ hpl hp).make hk with hj | hj | hj
      · exact Or.inl hj
      · exact Or.inr (Or.inl hj)
      · refine Or.inr (Or.inr ?_)
        rw [sinceRegion_make hk] at hj ⊢
        exact .step mem_cons_self hatt hj
  | sharedMemoryCreate p size flags base =>
    obtain ⟨-, j, hj, hc⟩ := h
    rcases sharedMemoryCreate_cases S.kernel p size flags base with ⟨e, he⟩ | ⟨i, r', hf, -, he⟩
    · rw [exec, he] at hj; simp at hj
    · rw [exec, he] at hj
      have hji : (i : ℕ) = j := by simpa using hj
      have hik : i = k := by
        rw [hcap] at hc
        apply Fin.ext
        rw [hji]
        exact (Capability.sharedMemoryAccess.inj hc).symm
      rw [hik] at hf
      rw [firstFree_some hf] at hk; simp at hk
  | sharedMemoryShare p id target =>
    obtain ⟨rfl, hc, hres⟩ := h
    have hid : id = k := by
      rw [hcap] at hc
      exact (Capability.sharedMemoryAccess.inj hc).symm
    subst hid
    refine Or.inr (Or.inl ?_)
    rw [sinceRegion_make hk]
    -- only the creator's share gets as far as the grant
    rcases sharedMemoryShare_cases S.kernel p k target with
      ⟨e, he⟩ | ⟨hlt, r', hr', rfl, -, -⟩
    · obtain ⟨n, hn⟩ := hres
      rw [exec, he] at hn; simp at hn
    · rw [hk] at hr'
      cases hr'
      exact ⟨_, mem_cons_self, rfl, hres⟩
  | _ => exact h.elim

lemma regionTokens_make (h : RegionTokens S) (hok : FreshRegion S call)
    (hd : call.grantsRegion = false) : RegionTokens (S.make call) := by
  intro pid k r x hr hx hl hcap
  rcases exec_region hr with ⟨r0, hr0, hcr⟩ | ⟨size, flags, base, rfl, -, hres⟩
  · rw [← hcr]
    rcases exec_holds hl hx with hh | hg
    · exact (h pid k r0 x hr0 hh hl hcap).make hr0
    · exact hg.justified h hd hr0 hcap
  · rcases exec_holds hl hx with ⟨T, i, hT, hi⟩ | ⟨hp, -⟩
    · by_cases hp : pid = r.creator
      · exact Or.inl hp.symm
      · obtain ⟨hlt, hproc⟩ := processRef_ok hT
        have hslot : (r.creator, k.val) ∈ Call.regionSlot S.kernel
            (.sharedMemoryCreate r.creator size flags base) := by
          simp only [Call.regionSlot, hres, Option.mem_def]
        exact absurd hcap (hok _ hslot _ hp T hproc i x hi hl)
    · exact Or.inl hp

lemma sharedMemoryMap_ok {flags : VmFlags} {va : ℕ}
    (h : (K.sharedMemoryMap pid k flags).1 = .ok va) :
    K.checkSharedMemoryAccess pid k = .ok () ∧ ∃ r, K.regions k = some r := by
  unfold sharedMemoryMap at h
  simp only [k.isLt, dif_pos] at h
  split_ifs at h
  cases hacc : K.checkSharedMemoryAccess pid k with
  | error e => simp [hacc] at h
  | ok u =>
    cases hr : K.regions k with
    | none => simp [hacc, hr] at h
    | some r => exact ⟨rfl, r, rfl⟩

/-- **Region authority is per instance, while no stale token is left.** In a run in which
every region is created in a slot for which no process but its creator holds an unrevoked access
token, whoever maps a region created it, was named in a share by its creator since, or holds
a token attenuated from `SharedMemoryCreate` since. -/
theorem region_authority_since_creation {S₀ S : History} (h₀ : S₀.Boot)
    (h : Runs History.Step (fun S call => FreshRegion S call ∧ call.grantsRegion = false) S₀ S) :
    RegionAuthority S := by
  have hinv : RegionTokens S := by
    refine Runs.inv RegionTokens ?_ (fun S call S' hS hok hs => ?_) h
    · intro pid k r x hr
      rw [h₀.regions k] at hr; simp at hr
    · rw [hs]
      exact regionTokens_make hS hok.1 hok.2
  intro pid k flags va hmap
  obtain ⟨hacc, r, hr⟩ := sharedMemoryMap_ok hmap
  obtain ⟨x, hx, hauth⟩ := checkAccess_ok.mp hacc
  obtain ⟨hl, -, hcap⟩ := CapabilityToken.authorizes_iff.mp hauth
  refine ⟨r, hr, ?_⟩
  rcases hinv pid k r x hr hx hl hcap with hj | hj | hj
  · exact Or.inl hj
  · exact Or.inr (Or.inl hj)
  · exact Or.inr (Or.inr ⟨x, hx, hauth, hj⟩)

def shareRegion : List Call :=
  [.grantToProcess 0 .sharedMemoryCreate true, .grantToProcess 2 .sharedMemoryCreate true,
   .sharedMemoryCreate 0 4096 .read (some 0), .sharedMemoryMap 0 0 .read,
   .sharedMemoryShare 0 0 1]

def recreateRegion : List Call :=
  shareRegion ++ [.sharedMemoryUnmap 0 0, .sharedMemoryCreate 2 4096 .read (some 4096)]

/-- **A stale region token.** Process 1 maps the region of process 2, which was shared with
nobody. -/
theorem region_token_outlives_region :
    ∃ S, Runs History.Step (fun _ call => call.grantsRegion = false) ⟨start, []⟩ S ∧
      (∃ va, (S.kernel.sharedMemoryMap 1 0 .read).1 = .ok va) ∧ ¬ RegionAuthority S := by
  have hrun : Runs History.Step (fun _ call => call.grantsRegion = false) ⟨start, []⟩
      (recreateRegion.foldl History.make ⟨start, []⟩) :=
    of_foldl (fun _ _ _ => rfl) (by decide +kernel)
  have hmap : ((recreateRegion.foldl History.make ⟨start, []⟩).kernel.sharedMemoryMap 1 0
      .read).1.toBool = true := by decide +kernel
  have hcreator : ∀ r ∈ (recreateRegion.foldl History.make ⟨start, []⟩).kernel.regions 0,
      r.creator = 2 := by decide +kernel
  have hnil : (recreateRegion.foldl History.make ⟨start, []⟩).sinceRegion 0 = [] :=
    isEmpty_iff.mp (by decide +kernel)
  obtain ⟨va, hva⟩ : ∃ va, ((recreateRegion.foldl History.make ⟨start, []⟩).kernel.sharedMemoryMap
      1 0 .read).1 = .ok va := by
    cases h : ((recreateRegion.foldl History.make ⟨start,
      []⟩).kernel.sharedMemoryMap 1 0 .read).1 with
    | error e => rw [h] at hmap; simp [Except.toBool] at hmap
    | ok va => exact ⟨va, rfl⟩
  refine ⟨_, hrun, ⟨va, hva⟩, fun hv => ?_⟩
  obtain ⟨r, hr, hcase⟩ := hv 1 0 .read va hva
  rw [show ((0 : Fin maxSharedRegions) : ℕ) = 0 from rfl, hnil] at hcase
  rcases hcase with h | ⟨e, he, -⟩ | ⟨x, -, -, hx⟩
  · rw [hcreator r hr] at h; simp at h
  · simp at he
  · cases hx with
    | base he => simp at he
    | step he => simp at he

theorem region_authority_shareRegion :
    RegionAuthority (shareRegion.foldl History.make ⟨start, []⟩) :=
  region_authority_since_creation boot_start (of_foldl (fun _ _ _ => rfl) (by decide +kernel))

end Aios.Kernel
