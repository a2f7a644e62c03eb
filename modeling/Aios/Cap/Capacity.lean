import Aios.Cap.Revoke

/-!
How long a table has room.

A revoked token keeps its slot, so the room of a table only shrinks: what counts is the number
of tokens that were ever put into it, not the number of those that are still live.
-/

namespace Aios.Cap

open Aios.Lib CapabilityTable

def occupied (T : CapabilityTable) : ℕ := T.tokens.card fun _ => true

lemma grant_ok_iff (T : CapabilityTable) (tok : CapabilityToken) :
    (∃ handle, (T.grant tok).1 = .ok handle) ↔ occupied T < maxCapsPerProcess := by
  rw [occupied, ← Slots.firstFree_isSome_iff]
  unfold CapabilityTable.grant
  cases h : T.tokens.firstFree with
  | none => simp
  | some i => simp

structure Filled where
  table : CapabilityTable
  granted : ℕ

def Op.succeeds (T : CapabilityTable) : Op → Bool
  | .grant tok => (T.grant tok).1.isOk
  | .attenuate handle newCap newExpiry holder newId =>
    (T.attenuate handle newCap newExpiry holder newId).1.isOk
  | .revoke _ => false

def Op.fill (S : Filled) (op : Op) : Filled :=
  ⟨op.apply S.table, S.granted + if op.succeeds S.table then 1 else 0⟩

abbrev FillStep (S : Filled) (op : Op) (S' : Filled) : Prop := S' = op.fill S

def Filled.new : Filled := ⟨CapabilityTable.new, 0⟩

variable {T : CapabilityTable}

lemma occupied_put {i : Fin maxCapsPerProcess} {x : CapabilityToken} {n : ℕ}
    (hi : T.tokens i = none) :
    occupied ⟨Function.update T.tokens i (some x), n⟩ = occupied T + 1 := by
  have h := Slots.card_update (fun _ => true) T.tokens i (some x)
  simpa [hi, occupied] using h

lemma occupied_revoke (T : CapabilityTable) (id : CapabilityTokenId) :
    occupied (T.revoke id) = occupied T := by
  unfold occupied Slots.card
  refine Finset.sum_congr rfl fun i _ => ?_
  change (if ((cascade (marked T id)).tokens i).any _ then 1 else 0) = _
  rcases (revoke_spec T id).1.slot i with h | ⟨x, hx, -, h⟩
  · rw [h]
  · rw [h, hx]
    rfl

lemma occupied_fill (S : Filled) (op : Op) :
    occupied (op.fill S).table = occupied S.table + if op.succeeds S.table then 1 else 0 := by
  cases op with
  | grant tok =>
    rcases grant_cases S.table tok with h | ⟨i, hi, h⟩
    · simp [Op.fill, Op.apply, Op.succeeds, h, Except.isOk, Except.toBool]
    · simp [Op.fill, Op.apply, Op.succeeds, h, Except.isOk, Except.toBool, occupied_put hi]
  | attenuate handle newCap newExpiry holder newId =>
    rcases attenuate_cases S.table handle newCap newExpiry holder newId with
      ⟨e, h⟩ | ⟨i, _, child, -, -, hi, -, -, -, -, -, h⟩
    · simp [Op.fill, Op.apply, Op.succeeds, h, Except.isOk, Except.toBool]
    · simp [Op.fill, Op.apply, Op.succeeds, h, Except.isOk, Except.toBool, occupied_put hi]
  | revoke id =>
    change occupied (S.table.revoke id) = occupied S.table + 0
    rw [occupied_revoke, Nat.add_zero]

lemma occupied_new : occupied CapabilityTable.new = 0 := Slots.card_empty fun _ => true

lemma occupied_eq_granted {S : Filled} (h : Runs FillStep (fun _ _ => True) Filled.new S) :
    occupied S.table = S.granted := by
  induction h with
  | refl => exact occupied_new
  | tail _ hs ih =>
    obtain ⟨op, -, rfl⟩ := hs
    rw [occupied_fill, ih, Op.fill]

/-- **A table takes `MAX_CAPS_PER_PROCESS` tokens in all.** Whatever was granted, attenuated and
revoked, a grant succeeds exactly while fewer tokens, revoked ones included, are in the table, and
these are all that were ever put into it. -/
theorem grant_until_full {S : Filled} (h : Runs FillStep (fun _ _ => True) Filled.new S)
    (tok : CapabilityToken) :
    ((∃ handle, (S.table.grant tok).1 = .ok handle) ↔ occupied S.table < maxCapsPerProcess) ∧
      occupied S.table = S.granted :=
  ⟨grant_ok_iff S.table tok, occupied_eq_granted h⟩

/-! ### A table that is full of revoked tokens -/

def rootToken (id : CapabilityTokenId) : CapabilityToken :=
  { id := id
    capability := .debugPrint
    holder := 1
    delegatable := false
    revoked := false
    parentToken := none
    usageCount := 0
    createdAtTick := 0
    expiresAtTick := none }

/-- `n` times, grant a token and revoke it. -/
def churn : ℕ → Filled
  | 0 => Filled.new
  | n + 1 => (Op.revoke n).fill ((Op.grant (rootToken n)).fill (churn n))

lemma churn_runs (n : ℕ) : Runs FillStep (fun _ _ => True) Filled.new (churn n) := by
  induction n with
  | zero => exact Runs.refl _
  | succ n ih => exact (ih.snoc trivial rfl).snoc trivial rfl

def AllRevoked (T : CapabilityTable) : Prop := ∀ i x, T.tokens i = some x → x.revoked = true

lemma allRevoked_revoke {id : CapabilityTokenId}
    (h : ∀ i x, T.tokens i = some x → x.revoked = true ∨ x.id = id) : AllRevoked (T.revoke id) := by
  intro i x hx
  rcases (revoke_spec T id).1.slot i with hsame | ⟨y, -, -, hmark⟩
  · have hi : T.tokens i = some x := hsame.symm.trans hx
    rcases h i x hi with hr | hid
    · exact hr
    · by_contra hlive
      have hm := revoke_marks T id (.self hi hid (by simpa using hlive)) hi
      have heq : x = x.mark := Option.some.inj (hx.symm.trans hm)
      exact hlive (heq ▸ rfl)
  · have heq : x = y.mark := Option.some.inj (hx.symm.trans hmark)
    rw [heq]
    rfl

lemma churn_revoked (n : ℕ) : AllRevoked (churn n).table := by
  induction n with
  | zero => exact fun i x h => by cases h
  | succ n ih =>
    refine allRevoked_revoke fun i x hx => ?_
    rcases grant_cases (churn n).table (rootToken n) with h | ⟨j, -, h⟩
    · simp only [Op.fill, Op.apply, h] at hx
      exact .inl (ih i x hx)
    · simp only [Op.fill, Op.apply, h] at hx
      rcases Slots.update_eq_some.mp hx with ⟨-, hnew⟩ | ⟨-, hold⟩
      · exact .inr (Option.some.inj hnew ▸ rfl)
      · exact .inl (ih i x hold)

lemma churn_granted {n : ℕ} (hn : n ≤ maxCapsPerProcess) : (churn n).granted = n := by
  induction n with
  | zero => rfl
  | succ n ih =>
    have ih := ih (by omega)
    have hroom : occupied (churn n).table < maxCapsPerProcess := by
      rw [occupied_eq_granted (churn_runs n), ih]
      omega
    obtain ⟨handle, hok⟩ := (grant_ok_iff (churn n).table (rootToken n)).mpr hroom
    simp [churn, Op.fill, Op.succeeds, hok, Except.isOk, Except.toBool, ih]

lemma liveCount_eq_zero (h : AllRevoked T) : liveCount T.tokens = 0 := by
  unfold liveCount Slots.card
  refine Finset.sum_eq_zero fun i _ => ?_
  cases hx : T.tokens i with
  | none => rfl
  | some x => simp [CapabilityToken.live, h i x hx]

/-- After 256 rounds of grant and revoke the table has no live token and no room. -/
theorem grant_refused_without_live_tokens : ∃ S, Runs FillStep (fun _ _ => True) Filled.new S ∧
    liveCount S.table.tokens = 0 ∧ (S.table.grant (rootToken 256)).1 = .error .enospc := by
  refine ⟨churn 256, churn_runs 256, liveCount_eq_zero (churn_revoked 256), ?_⟩
  have hfull : ¬ occupied (churn 256).table < maxCapsPerProcess := by
    rw [occupied_eq_granted (churn_runs 256), churn_granted (by decide)]
    decide
  rcases grant_cases (churn 256).table (rootToken 256) with h | ⟨i, hi, -⟩
  · rw [h]
  · exact absurd (Slots.card_lt_of_free _ (by rw [hi]; rfl)) hfull

/-- The statement after three rounds of grant and revoke: the next grant takes a fourth slot. -/
theorem grant_until_full_churn : occupied (churn 3).table = 3 ∧
    ∃ handle, ((churn 3).table.grant (rootToken 3)).1 = .ok handle := by
  obtain ⟨hiff, hcount⟩ := grant_until_full (churn_runs 3) (rootToken 3)
  rw [churn_granted (by decide)] at hcount
  exact ⟨hcount, hiff.mpr (by rw [hcount]; decide)⟩

end Aios.Cap
