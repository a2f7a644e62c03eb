import Aios.Kernel.Origin

/-!
Channels and the tokens they were created under.

`revoke_in_process` destroys the channels whose `creation_cap` is the token it was called with, and
not those of the tokens the cascade marks below it. No channel is left behind, because a channel
is only ever charged to a token without a parent. `KernelCapabilitySystem` is the second way to the
same tables.
-/

namespace Aios.Kernel

open Aios.Lib Aios.Cap Aios.Ipc Option

/-! ### The capability kit -/

/-- The errors of `CapabilityError` that the kernel's implementation answers with. -/
inductive CapabilityError
  | notGranted (requested : Capability)
  | revoked (tokenId : CapabilityTokenId)
  | tableFull
  | invalidAttenuation (reason : String)
  | invalidHandle (handle : CapabilityHandle)
  deriving DecidableEq, Repr

/-- `KernelCapabilitySystem::grant`. -/
def kitGrant (K : Kernel) (holder : ProcessId) (cap : Capability) :
    Except CapabilityError CapabilityHandle × Kernel :=
  match K.processRef holder with
  | .error _ => (.error (.notGranted cap), K)
  | .ok T =>
    let r := T.grant ⟨K.nextTokenId, cap, holder, true, false, none, 0, K.tick, none⟩
    (r.1.mapError fun _ => .tableFull, (K.setTable holder r.2).bumpTokenId)

/-- The token `KernelCapabilitySystem::revoke` finds at a handle. -/
def kitToken (T : CapabilityTable) (handle : CapabilityHandle) :
    Except CapabilityError CapabilityTokenId :=
  if h : handle < maxCapsPerProcess then
    match T.tokens ⟨handle, h⟩ with
    | none => .error (.invalidHandle handle)
    | some x => if x.revoked then .error (.revoked x.id) else .ok x.id
  else .error (.invalidHandle handle)

/-- `KernelCapabilitySystem::revoke`. -/
def kitRevoke (K : Kernel) (holder : ProcessId) (handle : CapabilityHandle) :
    Except CapabilityError Unit × Kernel :=
  match K.processRef holder with
  | .error _ => (.error (.invalidHandle handle), K)
  | .ok T =>
    match kitToken T handle with
    | .error e => (.error e, K)
    | .ok id => (.ok (), (K.setTable holder (T.revoke id)).revokeChannelsForCap id)

/-- `KernelCapabilitySystem::attenuate`. -/
def kitAttenuate (K : Kernel) (holder : ProcessId) (handle : CapabilityHandle)
    (narrowed : Capability) : Except CapabilityError CapabilityHandle × Kernel :=
  match K.processRef holder with
  | .error _ => (.error (.invalidHandle handle), K)
  | .ok T =>
    let r := T.attenuate handle narrowed none holder K.nextTokenId
    (r.1.mapError fun _ =>
        .invalidAttenuation "parent does not permit narrowing to requested capability",
      (K.setTable holder r.2).bumpTokenId)

/-! ### Runs -/

inductive Act
  | call (c : Call)
  | kitGrant (holder : ProcessId) (cap : Capability)
  | kitRevoke (holder : ProcessId) (handle : CapabilityHandle)
  | kitAttenuate (holder : ProcessId) (handle : CapabilityHandle) (narrowed : Capability)

def act (K : Kernel) : Act → Kernel
  | .call c => (K.exec c).2
  | .kitGrant holder cap => (K.kitGrant holder cap).2
  | .kitRevoke holder handle => (K.kitRevoke holder handle).2
  | .kitAttenuate holder handle narrowed => (K.kitAttenuate holder handle narrowed).2

def authority (K : Kernel) : Act → Option (ProcessId × Fin maxCapsPerProcess)
  | .call (.channelCreate tid) => do
    let pid ← K.owner tid
    let T ← (K.processRef pid).toOption
    let i ← T.authorizingSlot .channelCreate K.tick
    pure (pid, i)
  | _ => none

def revoking (K : Kernel) : Act → Option (ProcessId × CapabilityTokenId)
  | .call (.revokeInProcess pid id) => some (pid, id)
  | .kitRevoke holder handle => do
    let T ← (K.processRef holder).toOption
    let id ← (kitToken T handle).toOption
    pure (holder, id)
  | _ => none

/-- The kernel, and for each channel the token it was created under: a process and a slot of its
table, which is never used again. -/
structure Charged where
  kernel : Kernel
  under : Fin maxChannels → Option (ProcessId × Fin maxCapsPerProcess)

namespace Charged

def next (S : Charged) (a : Act) : Charged where
  kernel := S.kernel.act a
  under k := if (S.kernel.channels k).isNone && ((S.kernel.act a).channels k).isSome
    then S.kernel.authority a else S.under k

abbrev Step (S : Charged) (a : Act) (S' : Charged) : Prop := S' = S.next a

structure Boot (S : Charged) : Prop where
  channels : ∀ k, S.kernel.channels k = none
  tokens : ∀ pid x, ¬ Holds S.kernel pid x

end Charged

/-! ### What an act does to the tables -/

variable {K : Kernel} {a : Act} {pid : ProcessId} {T : CapabilityTable} {k : Fin maxChannels}
  {ch' : Channel RawMessage}

def Charges (K : Kernel) (a : Act) (k : Fin maxChannels) (ch : Channel RawMessage) : Prop :=
  K.channels k = none ∧ ∃ pid T i x, K.authority a = some (pid, i) ∧ K.processRef pid = .ok T ∧
    T.authorizingSlot .channelCreate K.tick = some i ∧ T.tokens i = some x ∧
    ch.ownerA = pid ∧ ch.creationCap = some x.id

lemma Opens.charges {c : Call} {res : Except IpcError ℕ} (h : Opens K c res k ch') :
    Charges K (.call c) k ch' := by
  obtain ⟨tid, rfl, hf, -, pid, T, i, x, hown, hT, hs, hx, hrest⟩ := h
  refine ⟨Slots.firstFree_some hf, pid, T, i, x, ?_, hT, hs, hx, hrest⟩
  simp only [authority, hown, hT, Except.toOption, hs, bind_eq_bind, bind_some]
  rfl

lemma act_changes (K : Kernel) (a : Act) :
    Changes K (K.act a) (fun _ _ => True) (Charges K a) (fun _ _ => True) := by
  cases a with
  | call c =>
    obtain ⟨htick, hprocs, hchan, -⟩ := exec_changes K c
    refine ⟨htick, hprocs.imp_right ?_, fun k ch' h => (hchan k ch' h).imp_right Opens.charges,
      fun _ _ _ => .inr trivial⟩
    rintro ⟨pid, op, hop, hp, hswept, -⟩
    exact ⟨pid, op, hop, hp, hswept, fun _ _ _ _ _ _ => .inr trivial⟩
  | kitGrant holder cap =>
    simp only [act, kitGrant]
    split
    · exact .refl
    · exact grant_changes (by assumption) ⟨rfl, rfl⟩ fun _ => trivial
  | kitRevoke holder handle =>
    simp only [act, kitRevoke]
    split
    · exact .refl
    · split
      · exact .refl
      · exact revoke_changes (by assumption) _
  | kitAttenuate holder handle narrowed =>
    simp only [act, kitAttenuate]
    split
    · exact .refl
    · exact attenuate_changes (by assumption) fun _ _ _ _ _ _ _ => trivial

/-! ### The invariant -/

namespace Charged

variable {S S' : Charged}

/-- Every table is rooted, and every channel stands under a live token without a parent in the
table of the process that created it. -/
structure Backed (S : Charged) : Prop where
  rooted : ∀ pid T, S.kernel.processRef pid = .ok T → Rooted T
  backed : ∀ k ch, S.kernel.channels k = some ch →
    ∃ T i x, S.under k = some (ch.ownerA, i) ∧ S.kernel.processRef ch.ownerA = .ok T ∧
      T.tokens i = some x ∧ ch.creationCap = some x.id ∧ x.revoked = false ∧ x.parentToken = none

lemma Boot.backed (h : S.Boot) : S.Backed where
  rooted pid T hT := by
    refine rooted_of_empty fun i => ?_
    cases hi : T.tokens i with
    | none => rfl
    | some x => exact absurd ⟨T, i, hT, hi⟩ (h.tokens pid x)
  backed k ch hk := by rw [h.channels k] at hk; cases hk

lemma processRef_act {T' : CapabilityTable} (h : (K.act a).processRef pid = .ok T') :
    ∃ T, K.processRef pid = .ok T ∧ (T' = T ∨ ∃ op : Op, op.Rooted ∧ T' = op.apply T) := by
  rcases (act_changes K a).procs with hp | ⟨q, op, hop, ⟨T, hT, hp⟩, -⟩
  · exact ⟨T', by rwa [processRef_congr hp] at h, .inl rfl⟩
  · rw [processRef_congr hp, processRef_setTable hT] at h
    split_ifs at h with hq
    · cases h
      exact ⟨T, by rw [hq, hT], .inr ⟨op, hop, rfl⟩⟩
    · exact ⟨T', h, .inl rfl⟩

lemma root_survives {i : Fin maxCapsPerProcess} {x : CapabilityToken}
    (hT : K.processRef pid = .ok T) (hi : T.tokens i = some x) (hp : x.parentToken = none)
    (hk : (K.act a).channels k = some ch') (hc : ch'.creationCap = some x.id) :
    ∃ T', (K.act a).processRef pid = .ok T' ∧ T'.tokens i = some x := by
  rcases (act_changes K a).procs with hprocs | ⟨q, op, -, ⟨U, hU, hprocs⟩, hswept, -⟩
  · exact ⟨T, by rw [processRef_congr hprocs, hT], hi⟩
  · by_cases hq : pid = q
    · subst hq
      rw [hT] at hU
      cases hU
      refine ⟨op.apply T, ?_, apply_keeps_root hi hp fun t ht hid => ?_⟩
      · rw [processRef_congr hprocs, processRef_setTable hT, if_pos rfl]
      · exact hswept t ht k ch' hk (hid ▸ hc)
    · exact ⟨T, by rw [processRef_congr hprocs, processRef_setTable hU, if_neg hq, hT], hi⟩

lemma Backed.next (h : S.Backed) (a : Act) : (S.next a).Backed where
  rooted pid T' hT' := by
    obtain ⟨T, hT, rfl | ⟨op, hop, rfl⟩⟩ := processRef_act hT'
    · exact h.rooted pid _ hT
    · exact (h.rooted pid T hT).apply hop
  backed k ch' hk := by
    change (S.kernel.act a).channels k = some ch' at hk
    rcases (act_changes S.kernel a).channel k ch' hk with
      ⟨ch, hch, hown, hcap⟩ | ⟨hfree, pid, T, i, x, ha, hT, hs, hx, hown, hcap⟩
    · obtain ⟨T, i, x, hu, hT, hi, hc, hl, hp⟩ := h.backed k ch hch
      obtain ⟨T', hT', hi'⟩ := root_survives hT hi hp hk (hcap.trans hc)
      refine ⟨T', i, x, ?_, hown ▸ hT', hi', hcap.trans hc, hl, hp⟩
      simp [Charged.next, hch, hu, hown]
    · obtain ⟨y, hy, hl, hp⟩ := (h.rooted pid T hT).authorizing_root hs
      rw [hx] at hy
      cases hy
      obtain ⟨T', hT', hi'⟩ := root_survives hT hx hp hk hcap
      refine ⟨T', i, x, ?_, hown ▸ hT', hi', hcap, hl, hp⟩
      simp [Charged.next, hfree, hk, ha, hown]

lemma Backed.runs (h : S.Backed) (hrun : Runs Step (fun _ _ => True) S S') : S'.Backed := by
  refine hrun.inv Backed h ?_
  rintro R b _ hR - rfl
  exact hR.next b

lemma revoking_performs {t : CapabilityTokenId} (h : K.revoking a = some (pid, t))
    (hT : K.processRef pid = .ok T) : (K.act a).processRef pid = .ok (T.revoke t) ∧
    ∀ k ch, (K.act a).channels k = some ch → ch.creationCap ≠ some t := by
  have hdone : K.act a = (K.setTable pid (T.revoke t)).revokeChannelsForCap t := by
    unfold revoking at h
    split at h
    · cases h
      obtain ⟨hlt, -⟩ := processRef_ok hT
      simp only [act, exec, revokeInProcess, if_pos hlt, hT]
    · rename_i holder handle
      obtain ⟨U, hU, h⟩ := bind_eq_some_iff.mp h
      obtain ⟨id, hid, h⟩ := bind_eq_some_iff.mp h
      cases h
      have hUT : U = T := by rw [hT] at hU; exact (Option.some.inj hU).symm
      subst hUT
      cases hk : kitToken U handle with
      | error e => rw [hk] at hid; cases hid
      | ok i =>
        rw [hk] at hid
        cases hid
        simp only [act, kitRevoke, hT, hk]
    · cases h
  rw [hdone]
  refine ⟨?_, fun k ch hk => (revokeChannelsForCap_some hk).2⟩
  have hsweep : ((K.setTable pid (T.revoke t)).revokeChannelsForCap t).processRef pid =
      (K.setTable pid (T.revoke t)).processRef pid := processRef_congr rfl pid
  rw [hsweep, processRef_setTable hT, if_pos rfl]

/-- **No channel outlives its authority.** In every run from boot, the token a channel is charged to
is in the table of the process that created it and has not been revoked. A revocation leaves no
channel that was created under the revoked token or under a token linked to it. -/
theorem channels_backed (h : S.Boot) (hrun : Runs Step (fun _ _ => True) S S') :
    (∀ k ch t, S'.kernel.channels k = some ch → ch.creationCap = some t →
      ∃ T i x, S'.under k = some (ch.ownerA, i) ∧ S'.kernel.processRef ch.ownerA = .ok T ∧
        T.tokens i = some x ∧ x.id = t ∧ x.revoked = false) ∧
    ∀ a pid t T, S'.kernel.revoking a = some (pid, t) → S'.kernel.processRef pid = .ok T →
      ∀ k ch, (S'.next a).kernel.channels k = some ch →
        ch.creationCap ≠ some t ∧
        ∀ i x, (S'.next a).under k = some (pid, i) → T.tokens i = some x →
          ¬ Linked T.tokens t x := by
  have hS := h.backed.runs hrun
  refine ⟨fun k ch t hk hc => ?_, fun a pid t T hrev hT k ch hk => ?_⟩
  · obtain ⟨T, i, x, hu, hT, hi, hid, hl, -⟩ := hS.backed k ch hk
    exact ⟨T, i, x, hu, hT, hi, Option.some.inj (hid.symm.trans hc), hl⟩
  · obtain ⟨hT', hswept⟩ := revoking_performs hrev hT
    refine ⟨hswept k ch hk, fun i x hu hi hlinked => ?_⟩
    -- the token of a channel that is left is live, and the linked tokens are all marked
    obtain ⟨U, j, y, hu', hU, hj, -, hl, -⟩ := (hS.next a).backed k ch hk
    rw [hu] at hu'
    obtain ⟨rfl, rfl⟩ := Prod.mk.inj (Option.some.inj hu')
    change (S'.kernel.act a).processRef ch.ownerA = .ok U at hU
    rw [hT'] at hU
    cases hU
    rw [revoke_marks T t hlinked hi] at hj
    cases hj
    cases hl

def oneProcess : Charged where
  kernel :=
    { procs := fun p => if p.val = 0 then some CapabilityTable.new else none
      owner := fun tid => if tid = 0 then some 0 else none
      channels := Slots.empty
      regions := Slots.empty
      nextTokenId := 1
      tick := 0 }
  under := fun _ => none

lemma boot_oneProcess : oneProcess.Boot where
  channels _ := rfl
  tokens := by
    rintro pid x ⟨T, i, hT, hi⟩
    obtain ⟨hp, hT'⟩ := processRef_ok hT
    simp only [oneProcess] at hT'
    split_ifs at hT'
    cases hT'
    cases hi

def narrowAndCreate : List Act :=
  [.call (.grantToProcess 0 .channelCreate true), .call (.attenuate 0 0 0 7 0),
    .call (.channelCreate 0)]

theorem channels_backed_narrowed :
    ((narrowAndCreate.foldl next oneProcess).kernel.channels 0).isSome = true ∧
    ((narrowAndCreate.foldl next oneProcess).next (.kitRevoke 0 0)).kernel.channels 0 = none ∧
    ∀ k ch t, (narrowAndCreate.foldl next oneProcess).kernel.channels k = some ch →
      ch.creationCap = some t →
      ∃ T i x, (narrowAndCreate.foldl next oneProcess).under k = some (ch.ownerA, i) ∧
        (narrowAndCreate.foldl next oneProcess).kernel.processRef ch.ownerA = .ok T ∧
        T.tokens i = some x ∧ x.id = t ∧ x.revoked = false := by
  refine ⟨by decide +kernel, ?_, ?_⟩
  · exact isNone_iff_eq_none.mp (by decide +kernel)
  · exact (channels_backed boot_oneProcess (Runs.of_foldl (fun _ _ _ => rfl) (by decide +kernel))).1

end Charged

end Aios.Kernel
