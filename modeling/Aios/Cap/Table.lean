import Aios.Types
import Aios.Lib.Slots

/-!
The capability table of a process: `shared/src/cap.rs`.

A table has `MAX_CAPS_PER_PROCESS` slots. A slot, once filled, is never emptied: revoking
marks the token in place. Revocation first marks the named token and then sweeps the slots
again and again, marking every token whose parent is already marked, until a sweep marks
nothing.
-/

namespace Aios.Cap

open Aios.Lib

def maxCapsPerProcess : ℕ := 256

instance : NeZero maxCapsPerProcess := ⟨by decide⟩

inductive Capability
  | channelCreate
  | channelAccess (id : ChannelId)
  | sharedMemoryCreate
  | sharedMemoryAccess (id : SharedMemoryId)
  | spawnAgent
  | debugPrint
  | gpuMmioAccess
  | gpuBufferCreate
  | gpuBufferAccess (id : ℕ)
  | displayControl
  | compositorCreateSurface
  | compositorFullscreen
  | compositorOverlay
  | compositorInputAccess
  deriving DecidableEq, Repr

namespace Capability

def permits (c action : Capability) : Bool :=
  match c, action with
  | channelCreate, channelCreate => true
  | channelAccess held, channelAccess needed => held == needed
  | sharedMemoryCreate, sharedMemoryCreate => true
  | sharedMemoryAccess held, sharedMemoryAccess needed => held == needed
  | spawnAgent, spawnAgent => true
  | debugPrint, debugPrint => true
  | gpuMmioAccess, gpuMmioAccess => true
  | gpuBufferCreate, gpuBufferCreate => true
  | gpuBufferAccess held, gpuBufferAccess needed => held == needed
  | displayControl, displayControl => true
  | compositorCreateSurface, compositorCreateSurface => true
  | compositorFullscreen, compositorFullscreen => true
  | compositorOverlay, compositorOverlay => true
  | compositorInputAccess, compositorInputAccess => true
  | _, _ => false

def canAttenuateTo (c other : Capability) : Bool :=
  match c, other with
  | channelCreate, channelAccess _ => true
  | sharedMemoryCreate, sharedMemoryAccess _ => true
  | gpuBufferCreate, gpuBufferAccess _ => true
  | _, _ => c.permits other

lemma permits_iff {c action : Capability} : c.permits action = true ↔ c = action := by
  cases c <;> cases action <;> simp [permits]

end Capability

structure CapabilityToken where
  id : CapabilityTokenId
  capability : Capability
  holder : ProcessId
  delegatable : Bool
  revoked : Bool
  parentToken : Option CapabilityTokenId
  usageCount : ℕ
  createdAtTick : ℕ
  expiresAtTick : Option ℕ
  deriving DecidableEq, Repr

namespace CapabilityToken

def expired (t : CapabilityToken) (now : ℕ) : Bool :=
  match t.expiresAtTick with
  | some e => decide (e ≤ now)
  | none => false

/-- The test `find_authorizing_token` makes on each token. -/
def authorizes (t : CapabilityToken) (cap : Capability) (now : ℕ) : Bool :=
  !t.revoked && !t.expired now && t.capability.permits cap

def mark (t : CapabilityToken) : CapabilityToken := { t with revoked := true }

section

variable (t : CapabilityToken)
include t

@[simp] lemma mark_id : t.mark.id = t.id := rfl
@[simp] lemma mark_revoked : t.mark.revoked = true := rfl
@[simp] lemma mark_parentToken : t.mark.parentToken = t.parentToken := rfl
@[simp] lemma mark_capability : t.mark.capability = t.capability := rfl
@[simp] lemma mark_expiresAtTick :
    t.mark.expiresAtTick = t.expiresAtTick := rfl

end

def live (t : CapabilityToken) : Bool := !t.revoked

@[simp] lemma mark_live (t : CapabilityToken) : t.mark.live = false := rfl

variable {t : CapabilityToken}

lemma live_iff : t.live = true ↔ t.revoked = false := by simp [live]

lemma expired_mono {m n : ℕ} (h : m ≤ n) (he : t.expired m = true) : t.expired n = true := by
  unfold expired at *
  cases ht : t.expiresAtTick with
  | none => simp [ht] at he
  | some e => simp [ht] at he ⊢; omega

lemma authorizes_iff {c : Capability} {n : ℕ} :
    t.authorizes c n = true ↔ t.revoked = false ∧ t.expired n = false ∧ t.capability = c := by
  simp [authorizes, Capability.permits_iff, and_assoc]

end CapabilityToken

/-- `CapabilityTable`: the slots and the number of live tokens kept beside them. -/
structure CapabilityTable where
  tokens : Slots maxCapsPerProcess CapabilityToken
  count : ℕ

namespace CapabilityTable

def new : CapabilityTable := ⟨Slots.empty, 0⟩

/-- `grant`: the token goes to the first empty slot, whose index is its handle. -/
def grant (t : CapabilityTable) (tok : CapabilityToken) :
    Except IpcError CapabilityHandle × CapabilityTable :=
  match t.tokens.firstFree with
  | some i => (.ok i, ⟨Function.update t.tokens i (some tok), t.count + 1⟩)
  | none => (.error .enospc, t)

/-- `get`: the token of a handle, unless out of range, empty or revoked. -/
def get (t : CapabilityTable) (handle : CapabilityHandle) : Option CapabilityToken :=
  if h : handle < maxCapsPerProcess then (t.tokens ⟨handle, h⟩).filter (fun x => !x.revoked)
  else none

/-- `find_authorizing_token`: the first token in slot order that is live, unexpired and
permits `cap`. -/
def findAuthorizingToken (t : CapabilityTable) (cap : Capability) (now : ℕ) :
    Option CapabilityTokenId :=
  (t.tokens.items.find? fun x => x.authorizes cap now).map (·.id)

def hasCapability (t : CapabilityTable) (cap : Capability) (now : ℕ) : Bool :=
  (t.findAuthorizingToken cap now).isSome

/-- The variables of `revoke`: the slots, the ids in `to_revoke[..count]`, the table's
count and the flag of the sweep. -/
structure Cascade where
  tokens : Slots maxCapsPerProcess CapabilityToken
  toRevoke : List CapabilityTokenId
  count : ℕ
  changed : Bool

/-- One slot of the first loop of `revoke`: mark a live token with the given id. -/
def markSlot (id : CapabilityTokenId) (c : Cascade) (i : Fin maxCapsPerProcess) : Cascade :=
  match c.tokens i with
  | some x =>
    if x.id = id ∧ x.revoked = false then
      { c with
        tokens := Function.update c.tokens i (some x.mark)
        toRevoke := c.toRevoke ++ [id]
        count := c.count - 1 }
    else c
  | none => c

def hit (c : Cascade) (x : CapabilityToken) : Bool :=
  !x.revoked && x.parentToken.any (fun p => c.toRevoke.contains p)

/-- One slot of a sweep: mark a live token whose parent is in `to_revoke`. -/
def sweepSlot (c : Cascade) (i : Fin maxCapsPerProcess) : Cascade :=
  match c.tokens i with
  | some x =>
    if hit c x then
      { tokens := Function.update c.tokens i (some x.mark)
        toRevoke := if c.toRevoke.length < maxCapsPerProcess then c.toRevoke ++ [x.id]
          else c.toRevoke
        count := c.count - 1
        changed := true }
    else c
  | none => c

/-- The body of the `while changed` loop. -/
def sweep (c : Cascade) : Cascade :=
  (List.finRange maxCapsPerProcess).foldl sweepSlot { c with changed := false }

def liveCount (s : Slots maxCapsPerProcess CapabilityToken) : ℕ :=
  s.card CapabilityToken.live

lemma sweepSlot_live (c : Cascade) (i : Fin maxCapsPerProcess) :
    liveCount (sweepSlot c i).tokens ≤ liveCount c.tokens ∧
      ((sweepSlot c i).changed = true → c.changed = false →
        liveCount (sweepSlot c i).tokens < liveCount c.tokens) := by
  unfold sweepSlot
  cases hx : c.tokens i with
  | none => exact ⟨le_rfl, fun h h' => by simp [h'] at h⟩
  | some x =>
    by_cases hh : hit c x
    · have hlive : x.live = true := by
        simp only [hit, Bool.and_eq_true] at hh; exact hh.1
      have := Slots.card_update CapabilityToken.live c.tokens i (some x.mark)
      simp only [hx, hh, Option.any_some, hlive, CapabilityToken.mark_live, if_true] at this ⊢
      simp only [liveCount]
      exact ⟨by simp at this; omega, fun _ _ => by simp at this; omega⟩
    · simp only [hh, Bool.false_eq_true, if_false]
      exact ⟨le_rfl, fun h h' => by simp [h'] at h⟩

lemma foldl_sweepSlot_live (l : List (Fin maxCapsPerProcess)) (c : Cascade) :
    liveCount (l.foldl sweepSlot c).tokens ≤ liveCount c.tokens ∧
      ((l.foldl sweepSlot c).changed = true → c.changed = false →
        liveCount (l.foldl sweepSlot c).tokens < liveCount c.tokens) := by
  induction l generalizing c with
  | nil => exact ⟨le_rfl, fun h h' => by simp [h'] at h⟩
  | cons i l ih =>
    obtain ⟨h1, h2⟩ := sweepSlot_live c i
    obtain ⟨g1, g2⟩ := ih (sweepSlot c i)
    refine ⟨le_trans g1 h1, fun h hc => ?_⟩
    cases hch : (sweepSlot c i).changed with
    | true => exact lt_of_le_of_lt g1 (h2 hch hc)
    | false => exact lt_of_lt_of_le (g2 h hch) h1

/-- A sweep that marks something leaves fewer live tokens: the loop of `revoke` ends. -/
lemma liveCount_sweep_lt {c : Cascade} (h : (sweep c).changed = true) :
    liveCount (sweep c).tokens < liveCount c.tokens :=
  (foldl_sweepSlot_live _ { c with changed := false }).2 h rfl

/-- The `while changed` loop. -/
def cascade (c : Cascade) : Cascade :=
  if (sweep c).changed then cascade (sweep c) else sweep c
termination_by liveCount c.tokens
decreasing_by exact liveCount_sweep_lt ‹_›

/-- The variables of `revoke` when its first loop is done. -/
def marked (t : CapabilityTable) (id : CapabilityTokenId) : Cascade :=
  (List.finRange maxCapsPerProcess).foldl (markSlot id) ⟨t.tokens, [], t.count, false⟩

def revoke (t : CapabilityTable) (id : CapabilityTokenId) : CapabilityTable :=
  let c := cascade (marked t id)
  ⟨c.tokens, c.count⟩

/-- `attenuate`: a child of the token at `handle`, narrowed to `newCap`. -/
def attenuate (t : CapabilityTable) (handle : CapabilityHandle) (newCap : Capability)
    (newExpiry : Option ℕ) (holder : ProcessId) (newId : CapabilityTokenId) :
    Except IpcError CapabilityHandle × CapabilityTable :=
  match t.get handle with
  | none => (.error .eperm, t)
  | some parent =>
    if parent.capability.canAttenuateTo newCap then
      t.grant
        { id := newId
          capability := newCap
          holder := holder
          delegatable := false
          revoked := false
          parentToken := some parent.id
          usageCount := 0
          createdAtTick := parent.createdAtTick
          expiresAtTick := newExpiry }
    else (.error .eperm, t)

end CapabilityTable

end Aios.Cap
