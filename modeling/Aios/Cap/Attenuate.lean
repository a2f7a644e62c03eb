import Aios.Cap.Revoke

/-!
How long an attenuated token lives.

Revocation reaches every child, so a live child has a live parent. Expiry does not: nothing
in `attenuate` compares the child's expiry with the parent's, and a child is valid past its
parent's expiry whenever its own is later or absent.
-/

namespace Aios.Cap

open Aios.Lib CapabilityTable Function

/-- A table together with the ids `attenuate` has handed out in it. -/
structure Traced where
  table : CapabilityTable
  attenuated : List CapabilityTokenId

def Traced.new : Traced := ⟨CapabilityTable.new, []⟩

def Op.trace (S : Traced) (op : Op) : Traced :=
  match op with
  | .attenuate handle newCap newExpiry holder newId =>
    match S.table.attenuate handle newCap newExpiry holder newId with
    | (.ok _, T) => ⟨T, newId :: S.attenuated⟩
    | (.error _, T) => ⟨T, S.attenuated⟩
  | op => ⟨op.apply S.table, S.attenuated⟩

def TracedStep (S : Traced) (op : Op) (S' : Traced) : Prop := S' = op.trace S

def NoLater : Option ℕ → Option ℕ → Prop
  | _, none => True
  | none, some _ => False
  | some e, some e' => e ≤ e'

instance (a b : Option ℕ) : Decidable (NoLater a b) :=
  match a, b with
  | _, none => inferInstanceAs (Decidable True)
  | none, some _ => inferInstanceAs (Decidable False)
  | some e, some e' => inferInstanceAs (Decidable (e ≤ e'))

variable {i : Fin maxCapsPerProcess} {S : Traced} {x : CapabilityToken}

lemma NoLater.expired {p : CapabilityToken} {now : ℕ} (h : NoLater x.expiresAtTick p.expiresAtTick)
    (hx : x.expired now = false) : p.expired now = false := by
  unfold CapabilityToken.expired at *
  cases hp : p.expiresAtTick with
  | none => rfl
  | some e' =>
    cases he : x.expiresAtTick with
    | none => rw [hp, he] at h; exact h.elim
    | some e =>
      rw [hp, he] at h
      have hle : e ≤ e' := h
      simp only [he, decide_eq_false_iff_not] at hx ⊢
      omega

def Op.Within (T : CapabilityTable) : Op → Prop
  | .attenuate handle _ newExpiry _ _ =>
    ∀ p, T.get handle = some p → NoLater newExpiry p.expiresAtTick
  | _ => True

instance (T : CapabilityTable) (op : Op) : Decidable (op.Within T) :=
  match op with
  | .attenuate handle _ newExpiry _ _ =>
    decidable_of_iff (∀ p ∈ T.get handle, NoLater newExpiry p.expiresAtTick) (by simp [Op.Within])
  | .grant _ => inferInstanceAs (Decidable True)
  | .revoke _ => inferInstanceAs (Decidable True)

/-- Whenever an attenuated token authorizes an action, so that `find_authorizing_token`
succeeds, its parent is in the table and neither revoked nor expired. -/
def ParentsValid (S : Traced) : Prop :=
  ∀ now cap i x, S.table.tokens i = some x → x.id ∈ S.attenuated → x.authorizes cap now →
    ∃ j p, S.table.tokens j = some p ∧ x.parentToken = some p.id ∧
      (∀ k q, S.table.tokens k = some q → q.id = p.id → k = j) ∧
      p.revoked = false ∧ p.expired now = false

/-- The parent of an attenuated token: it is in the table, is live while the child is, and
expires no earlier. -/
def HasParent (T : CapabilityTable) (x : CapabilityToken) : Prop :=
  ∃ j p, T.tokens j = some p ∧ x.parentToken = some p.id ∧
    (x.revoked = false → p.revoked = false) ∧ NoLater x.expiresAtTick p.expiresAtTick

structure Bounded (S : Traced) : Prop where
  parent : ∀ i x, S.table.tokens i = some x → x.id ∈ S.attenuated → HasParent S.table x
  distinct : ∀ i j x y, S.table.tokens i = some x → S.table.tokens j = some y → x.id = y.id → i = j
  known : ∀ a ∈ S.attenuated, ∃ i x, S.table.tokens i = some x ∧ x.id = a

lemma bounded_new : Bounded Traced.new where
  parent i x hi := by simp [Traced.new, CapabilityTable.new] at hi
  distinct i j x y hi := by simp [Traced.new, CapabilityTable.new] at hi
  known a ha := by simp [Traced.new] at ha

lemma Bounded.put (h : Bounded S) (hi : S.table.tokens i = none) (hfresh : Fresh S.table x.id)
    {made : List CapabilityTokenId}
    (hmade : made = S.attenuated ∨ made = x.id :: S.attenuated ∧ HasParent S.table x) :
    Bounded ⟨⟨update S.table.tokens i (some x), S.table.count + 1⟩, made⟩ := by
  -- what was in the table before is still there, in its slot
  have hold : ∀ j y, S.table.tokens j = some y →
      update S.table.tokens i (some x) j = some y := by
    intro j y hj
    have hne : j ≠ i := by rintro rfl; rw [hi] at hj; simp at hj
    rw [update_of_ne hne, hj]
  have hpar : ∀ y, HasParent S.table y → HasParent
      ⟨update S.table.tokens i (some x), S.table.count + 1⟩ y := by
    rintro y ⟨j, p, hj, hp⟩
    exact ⟨j, p, hold j p hj, hp⟩
  have hnew : ∀ j y, update S.table.tokens i (some x) j = some y →
      (j = i ∧ y = x) ∨ S.table.tokens j = some y := by
    intro j y hj
    by_cases hji : j = i
    · subst hji
      rw [update_self] at hj
      exact Or.inl ⟨rfl, (Option.some.inj hj).symm⟩
    · rw [update_of_ne hji] at hj
      exact Or.inr hj
  refine ⟨fun j y hj hmem => ?_, fun j k y z hj hk hid => ?_, fun a ha => ?_⟩
  · rcases hnew j y hj with ⟨rfl, rfl⟩ | hj'
    · rcases hmade with rfl | ⟨rfl, hx⟩
      · obtain ⟨k, z, hk, hid⟩ := h.known _ hmem
        exact absurd hid (hfresh k z hk)
      · exact hpar _ hx
    · have hmem' : y.id ∈ S.attenuated := by
        rcases hmade with rfl | ⟨rfl, -⟩
        · exact hmem
        · rcases List.mem_cons.mp hmem with hid | h'
          · exact absurd hid (hfresh j y hj')
          · exact h'
      exact hpar _ (h.parent j y hj' hmem')
  · rcases hnew j y hj with ⟨rfl, rfl⟩ | hj' <;> rcases hnew k z hk with ⟨rfl, rfl⟩ | hk'
    · rfl
    · exact absurd hid.symm (hfresh k z hk')
    · exact absurd hid (hfresh j y hj')
    · exact h.distinct j k y z hj' hk' hid
  · have hcase : a = x.id ∨ a ∈ S.attenuated := by
      rcases hmade with rfl | ⟨rfl, -⟩
      · exact Or.inr ha
      · exact List.mem_cons.mp ha
    rcases hcase with rfl | ha'
    · exact ⟨i, x, by simp, rfl⟩
    · obtain ⟨j, y, hj, hid⟩ := h.known a ha'
      exact ⟨j, y, hold j y hj, hid⟩

lemma revoke_slot (T : CapabilityTable) (t : CapabilityTokenId) {y : CapabilityToken}
    (hi : (T.revoke t).tokens i = some y) :
    ∃ x, T.tokens i = some x ∧ (Linked T.tokens t x ∧ y = x.mark ∨ ¬ Linked T.tokens t x ∧
      y = x) := by
  cases hx : T.tokens i with
  | none =>
    rw [revoke_keeps T t (by simp [hx]), hx] at hi
    simp at hi
  | some x =>
    refine ⟨x, rfl, ?_⟩
    by_cases hl : Linked T.tokens t x
    · rw [revoke_marks T t hl hx] at hi
      exact Or.inl ⟨hl, (Option.some.inj hi).symm⟩
    · rw [revoke_keeps T t (by simpa [hx] using hl), hx] at hi
      exact Or.inr ⟨hl, (Option.some.inj hi).symm⟩

lemma Bounded.revoke (h : Bounded S) (t : CapabilityTokenId) :
    Bounded ⟨S.table.revoke t, S.attenuated⟩ := by
  have hid : ∀ i y, (S.table.revoke t).tokens i = some y →
      ∃ x, S.table.tokens i = some x ∧ x.id = y.id := by
    intro i y hi
    obtain ⟨x, hx, ⟨-, rfl⟩ | ⟨-, rfl⟩⟩ := revoke_slot S.table t hi
    · exact ⟨x, hx, rfl⟩
    · exact ⟨y, hx, rfl⟩
  refine ⟨fun i y hi hmem => ?_, fun i j y z hi hj hyz => ?_, fun a ha => ?_⟩
  · obtain ⟨x, hx, hxy⟩ := revoke_slot S.table t hi
    have hmem' : x.id ∈ S.attenuated := by
      rcases hxy with ⟨-, rfl⟩ | ⟨-, rfl⟩
      · exact hmem
      · exact hmem
    obtain ⟨j, p, hj, hpar, hlive, hexp⟩ := h.parent i x hx hmem'
    by_cases hp : Linked S.table.tokens t p
    · refine ⟨j, p.mark, revoke_marks S.table t hp hj, ?_, ?_, ?_⟩
      · rcases hxy with ⟨-, rfl⟩ | ⟨-, rfl⟩ <;> exact hpar
      · intro hy
        rcases hxy with ⟨-, rfl⟩ | ⟨hnl, rfl⟩
        · simp at hy
        · exact absurd (Linked.child hp hx hy hpar) hnl
      · rcases hxy with ⟨-, rfl⟩ | ⟨-, rfl⟩ <;> exact hexp
    · refine ⟨j, p, ?_, ?_, ?_, ?_⟩
      · rw [revoke_keeps S.table t (by simpa [hj] using hp), hj]
      · rcases hxy with ⟨-, rfl⟩ | ⟨-, rfl⟩ <;> exact hpar
      · rcases hxy with ⟨-, rfl⟩ | ⟨-, rfl⟩
        · intro hy; simp at hy
        · exact hlive
      · rcases hxy with ⟨-, rfl⟩ | ⟨-, rfl⟩ <;> exact hexp
  · obtain ⟨x, hx, e1⟩ := hid i y hi
    obtain ⟨w, hw, e2⟩ := hid j z hj
    exact h.distinct i j x w hx hw (by rw [e1, e2, hyz])
  · obtain ⟨i, x, hx, rfl⟩ := h.known a ha
    rcases step_keeps (rfl : Step S.table (.revoke t) _) hx with h1 | h1
    · exact ⟨i, x, h1, rfl⟩
    · exact ⟨i, x.mark, h1, rfl⟩

lemma bounded_step {S' : Traced} {op : Op} (h : Bounded S) (hok : op.Ok S.table)
    (hw : op.Within S.table) (hs : TracedStep S op S') : Bounded S' := by
  subst hs
  cases op with
  | grant tok =>
    rcases grant_cases S.table tok with he | ⟨i, hi, he⟩
    · simpa [Op.trace, Op.apply, he] using h
    · simpa [Op.trace, Op.apply, he] using h.put hi hok.1 (Or.inl rfl)
  | attenuate handle newCap newExpiry holder newId =>
    rcases attenuate_cases S.table handle newCap newExpiry holder newId with
      ⟨e, he⟩ | ⟨i, parent, child, hget, -, hi, rfl, -, hl, hpar, hexp, he⟩
    · simpa [Op.trace, he] using h
    · obtain ⟨j, hj, hpl⟩ := get_some hget
      have hchild : HasParent S.table child :=
        ⟨j, parent, hj, hpar, fun _ => hpl, by rw [hexp]; exact hw parent hget⟩
      simpa [Op.trace, he] using h.put hi hok (Or.inr ⟨rfl, hchild⟩)
  | revoke id => exact h.revoke id

/-- **No amplification, given expiries.** In a run whose attenuations never ask for an
expiry later than the parent's, a token obtained by attenuation authorizes an action only
while its parent is neither revoked nor expired. -/
theorem attenuated_parents_valid {S : Traced}
    (h : Runs TracedStep (fun S op => op.Ok S.table ∧ op.Within S.table) Traced.new S) :
    ParentsValid S := by
  have hb : Bounded S :=
    Runs.inv Bounded bounded_new (fun _ _ _ hb hok hs => bounded_step hb hok.1 hok.2 hs) h
  intro now cap i x hx hmem hauth
  obtain ⟨hl, hne, -⟩ := CapabilityToken.authorizes_iff.mp hauth
  obtain ⟨j, p, hj, hpar, hlive, hexp⟩ := hb.parent i x hx hmem
  exact ⟨j, p, hj, hpar, fun k q hk hid => hb.distinct k j q p hk hj hid, hlive hl, hexp.expired hne⟩

def narrowTwice (expiry : Option ℕ) : List Op :=
  [.grant ⟨1, .channelCreate, 0, true, false, none, 0, 0, none⟩,
   .attenuate 0 (.channelAccess 0) (some 10) 0 2,
   .attenuate 1 (.channelAccess 0) expiry 0 3]

def narrowed (expiry : Option ℕ) : Traced := (narrowTwice expiry).foldl Op.trace Traced.new

/-- **A child outlives its parent.** The second narrowing asks for no expiry at all and is
valid at tick 20, when its parent has expired. -/
theorem attenuated_child_outlives_parent :
    Runs TracedStep (fun S op => op.Ok S.table) Traced.new (narrowed none) ∧
      (narrowed none).table.findAuthorizingToken (.channelAccess 0) 20 = some 3 ∧
      3 ∈ (narrowed none).attenuated ∧ ¬ ParentsValid (narrowed none) := by
  refine ⟨?_, by decide +kernel, by decide +kernel, fun hv => ?_⟩
  · exact Runs.of_foldl (fun _ _ _ => rfl) (by decide +kernel)
  · obtain ⟨j, p, hj, hpar, -, -, hp⟩ := hv 20 (.channelAccess 0) 2
      ⟨3, .channelAccess 0, 0, false, false, some 2, 0, 0, none⟩
      (by decide +kernel) (by decide +kernel) (by decide +kernel)
    have hall : ∀ j, ∀ p ∈ (narrowed none).table.tokens j, p.id = 2 → p.expired 20 = true := by
      decide +kernel
    rw [hall j p hj (Option.some.inj hpar).symm] at hp
    simp at hp

theorem attenuated_parents_valid_narrowed : ParentsValid (narrowed (some 5)) :=
  attenuated_parents_valid (Runs.of_foldl (fun _ _ _ => rfl) (by decide +kernel))

end Aios.Cap
