import Aios.Cap.Revoke

/-!
The parents of the tokens of a table, and the token a creation is charged to.

Slots fill from the left and are never emptied, so that a token stands to the right of its parent.
A live token has live parents all the way up, and the tokens without a parent never expire: the
first token that authorizes something which only the same capability can be narrowed to is
therefore one without a parent.
-/

namespace Aios.Cap

open Aios.Lib CapabilityTable Function Slots

variable {T : CapabilityTable} {i j : Fin maxCapsPerProcess} {x y : CapabilityToken}
  {cap : Capability} {now : ℕ}

/-- The slot at which `find_authorizing_token` stops. -/
def CapabilityTable.authorizingSlot (T : CapabilityTable) (cap : Capability) (now : ℕ) :
    Option (Fin maxCapsPerProcess) :=
  (List.finRange maxCapsPerProcess).find? fun i => (T.tokens i).any fun x => x.authorizes cap now

lemma findAuthorizingToken_eq (T : CapabilityTable) (cap : Capability) (now : ℕ) :
    T.findAuthorizingToken cap now =
      (T.authorizingSlot cap now).bind fun i => (T.tokens i).map (·.id) := by
  unfold findAuthorizingToken Slots.items authorizingSlot
  rw [List.find?_filterMap, Option.map_bind]
  rfl

lemma authorizingSlot_some (h : T.authorizingSlot cap now = some i) :
    (∃ x, T.tokens i = some x ∧ x.authorizes cap now = true) ∧
      ∀ j < i, ∀ y, T.tokens j = some y → y.authorizes cap now = false := by
  refine ⟨?_, fun j hj y hy => ?_⟩
  · have hi := List.find?_some h
    simpa [Option.any_eq_true] using hi
  · have hfirst := (find?_finRange h).2 j hj
    simpa [hy] using hfirst

/-- What the operations keep true of a table: it is filled from the left, a token without a parent
does not expire, and every other token has its parent to its left, which may be narrowed to it and
is live as long as it is. -/
structure Rooted (T : CapabilityTable) : Prop where
  packed : ∀ i j, j ≤ i → T.tokens j = none → T.tokens i = none
  root : ∀ i x, T.tokens i = some x → x.parentToken = none → x.expiresAtTick = none
  parent : ∀ i x p, T.tokens i = some x → x.parentToken = some p →
    ∃ j < i, ∃ y, T.tokens j = some y ∧ y.id = p ∧
      y.capability.canAttenuateTo x.capability = true ∧ (x.revoked = false → y.revoked = false)

lemma rooted_of_empty (h : ∀ i, T.tokens i = none) : Rooted T where
  packed i _ _ _ := h i
  root i x hx := by rw [h i] at hx; cases hx
  parent i x p hx := by rw [h i] at hx; cases hx

lemma grant_first (T : CapabilityTable) (tok : CapabilityToken) :
    (T.grant tok).2 = T ∨ ∃ i : Fin maxCapsPerProcess, T.tokens.firstFree = some i ∧
      (T.grant tok).2 = ⟨update T.tokens i (some tok), T.count + 1⟩ := by
  unfold CapabilityTable.grant
  cases h : T.tokens.firstFree with
  | none => exact .inl rfl
  | some i => exact .inr ⟨i, rfl, rfl⟩

lemma Rooted.lt_of_empty (h : Rooted T) (hi : T.tokens i = none) (hj : T.tokens j = some y) :
    j < i := by
  by_contra hle
  rw [h.packed j i (not_lt.mp hle) hi] at hj
  cases hj

variable {tok : CapabilityToken}

lemma Rooted.put (h : Rooted T) {n : ℕ} (hfree : T.tokens.firstFree = some i)
    (hroot : tok.parentToken = none → tok.expiresAtTick = none)
    (hparent : ∀ p, tok.parentToken = some p → ∃ j y, T.tokens j = some y ∧ y.id = p ∧
      y.capability.canAttenuateTo tok.capability = true ∧ y.revoked = false) :
    Rooted ⟨update T.tokens i (some tok), n⟩ := by
  obtain ⟨hi, hleft⟩ := find?_finRange hfree
  have hempty : T.tokens i = none := firstFree_some hfree
  refine ⟨fun k j hjk hj => ?_, fun k x hx hp => ?_, fun k x p hx hp => ?_⟩
  · change update T.tokens i (some tok) j = none at hj
    have hji : j ≠ i := by
      rintro rfl
      rw [update_self] at hj
      cases hj
    rw [update_of_ne hji] at hj
    -- the free slots are those from `i` on
    have hij : i < j := by
      refine lt_of_le_of_ne (not_lt.mp fun hlt => ?_) (Ne.symm hji)
      have := hleft j hlt
      rw [hj] at this
      cases this
    show update T.tokens i (some tok) k = none
    rw [update_of_ne (ne_of_gt (lt_of_lt_of_le hij hjk))]
    exact h.packed k j hjk hj
  · rw [update_eq_some] at hx
    rcases hx with ⟨-, hx⟩ | ⟨-, hx⟩
    · cases hx; exact hroot hp
    · exact h.root k x hx hp
  · rw [update_eq_some] at hx
    have hkeep : ∀ {j y}, T.tokens j = some y →
        update T.tokens i (some tok) j = some y := fun {j y} hj => by
      rw [update_of_ne (ne_of_lt (h.lt_of_empty hempty hj)), hj]
    rcases hx with ⟨rfl, hx⟩ | ⟨-, hx⟩
    · cases hx
      obtain ⟨j, y, hj, hid, hcan, hl⟩ := hparent p hp
      exact ⟨j, h.lt_of_empty hempty hj, y, hkeep hj, hid, hcan, fun _ => hl⟩
    · obtain ⟨j, hjk, y, hj, hrest⟩ := h.parent k x p hx hp
      exact ⟨j, hjk, y, hkeep hj, hrest⟩

lemma Rooted.grant (h : Rooted T) (hp : tok.parentToken = none) (he : tok.expiresAtTick = none) :
    Rooted (T.grant tok).2 := by
  rcases grant_first T tok with hg | ⟨i, hi, hg⟩
  · rw [hg]; exact h
  · rw [hg]
    exact h.put hi (fun _ => he) fun p hp' => by rw [hp] at hp'; cases hp'

lemma Rooted.attenuate (h : Rooted T) (handle : CapabilityHandle) (newCap : Capability)
    (newExpiry : Option ℕ) (holder : ProcessId) (newId : CapabilityTokenId) :
    Rooted (T.attenuate handle newCap newExpiry holder newId).2 := by
  unfold CapabilityTable.attenuate
  cases hg : T.get handle with
  | none => exact h
  | some parent =>
    obtain ⟨j, hj, hl⟩ := get_some hg
    simp only
    split_ifs with hcan
    · rcases grant_first T _ with he | ⟨i, hi, he⟩
      · rw [he]; exact h
      · rw [he]
        exact h.put hi (fun hp => by cases hp) fun p hp =>
          ⟨j, parent, hj, Option.some.inj hp, hcan, hl⟩
    · exact h

lemma revoke_slot_cases (T : CapabilityTable) (t : CapabilityTokenId) (i : Fin maxCapsPerProcess) :
    (T.revoke t).tokens i = T.tokens i ∨
      ∃ x, T.tokens i = some x ∧ Linked T.tokens t x ∧ (T.revoke t).tokens i = some x.mark :=
  (revoke_spec T t).1.slot i

lemma Rooted.revoke (h : Rooted T) (t : CapabilityTokenId) : Rooted (T.revoke t) := by
  refine ⟨fun i j hji hj => ?_, fun i x hx hp => ?_, fun i x p hx hp => ?_⟩
  · have hj' : T.tokens j = none := by
      rcases revoke_slot_cases T t j with he | ⟨x, -, -, he⟩
      · rw [← he, hj]
      · rw [he] at hj; cases hj
    rw [revoke_keeps T t (fun x hx => by rw [h.packed i j hji hj'] at hx; cases hx)]
    exact h.packed i j hji hj'
  · rcases revoke_slot_cases T t i with he | ⟨y, hy, -, he⟩
    · exact h.root i x (he ▸ hx) hp
    · rw [he] at hx
      cases hx
      exact h.root i y hy hp
  · -- the token before, and its parent
    obtain ⟨z, hz, hzp, hzc, hzl⟩ : ∃ z, T.tokens i = some z ∧ z.parentToken = some p ∧
        x.capability = z.capability ∧ (x.revoked = false → x = z) := by
      rcases revoke_slot_cases T t i with he | ⟨y, hy, -, he⟩
      · exact ⟨x, he ▸ hx, hp, rfl, fun _ => rfl⟩
      · rw [he] at hx
        cases hx
        exact ⟨y, hy, hp, rfl, fun hl => by cases hl⟩
    obtain ⟨j, hji, y, hy, hid, hcan, hlive⟩ := h.parent i z p hz hzp
    rcases revoke_slot_cases T t j with he | ⟨y', hy', hlinked, he⟩
    · refine ⟨j, hji, y, he ▸ hy, hid, hzc ▸ hcan, fun hl => hlive ?_⟩
      rw [← hzl hl]
      exact hl
    · rw [hy] at hy'
      cases hy'
      refine ⟨j, hji, y.mark, he, hid, hzc ▸ hcan, fun hl => ?_⟩
      -- a live child of a marked token would have been marked with it
      have hxz := hzl hl
      subst hxz
      have hmarked := revoke_marks T t (.child hlinked hz hl (hid ▸ hzp)) hz
      rw [hmarked] at hx
      rw [← Option.some.inj hx] at hl
      cases hl

def Op.Rooted : Op → Prop
  | .grant tok => tok.parentToken = none ∧ tok.expiresAtTick = none
  | _ => True

lemma Rooted.apply {op : Op} (h : Rooted T) (hop : op.Rooted) : Rooted (op.apply T) := by
  cases op with
  | grant tok => exact h.grant hop.1 hop.2
  | attenuate handle newCap newExpiry holder newId =>
    exact h.attenuate handle newCap newExpiry holder newId
  | revoke id => exact h.revoke id

/-! ### The token that authorizes -/

lemma Rooted.root_above (h : Rooted T)
    (hcap : ∀ c : Capability, c.canAttenuateTo cap = true → c = cap) (hi : T.tokens i = some x)
    (hl : x.revoked = false) (hc : x.capability = cap) : ∃ j ≤ i, ∃ y, T.tokens j = some y ∧
    y.revoked = false ∧ y.capability = cap ∧ y.parentToken = none := by
  -- on the slot, since parents stand to the left
  induction i using WellFoundedLT.induction generalizing x with
  | ind i ih =>
    cases hp : x.parentToken with
    | none => exact ⟨i, le_rfl, x, hi, hl, hc, hp⟩
    | some p =>
      obtain ⟨j, hji, y, hy, -, hcan, hlive⟩ := h.parent i x p hi hp
      obtain ⟨k, hk, z, hz⟩ := ih j hji hy (hlive hl) (hcap _ (hc ▸ hcan))
      exact ⟨k, hk.trans hji.le, z, hz⟩

lemma canAttenuateTo_channelCreate (c : Capability)
    (h : c.canAttenuateTo .channelCreate = true) : c = .channelCreate := by
  cases c <;> simp [Capability.canAttenuateTo, Capability.permits] at h ⊢

lemma Rooted.authorizing_root (h : Rooted T) (hs : T.authorizingSlot .channelCreate now = some i) :
    ∃ x, T.tokens i = some x ∧ x.revoked = false ∧ x.parentToken = none := by
  obtain ⟨⟨x, hx, hauth⟩, hfirst⟩ := authorizingSlot_some hs
  obtain ⟨hl, -, hc⟩ := CapabilityToken.authorizes_iff.mp hauth
  obtain ⟨j, hji, y, hy, hyl, hyc, hyp⟩ := h.root_above canAttenuateTo_channelCreate hx hl hc
  rcases lt_or_eq_of_le hji with hlt | rfl
  · -- it would have been found first, for it does not expire
    have hno := hfirst j hlt y hy
    have hyes : y.authorizes .channelCreate now = true :=
      CapabilityToken.authorizes_iff.mpr
        ⟨hyl, by rw [CapabilityToken.expired, h.root j y hy hyp], hyc⟩
    rw [hno] at hyes
    cases hyes
  · exact ⟨y, hy, hyl, hyp⟩

lemma apply_keeps_root {op : Op} (hi : T.tokens i = some x) (hp : x.parentToken = none)
    (hid : ∀ t, op = .revoke t → x.id ≠ t) : (op.apply T).tokens i = some x := by
  have hput : ∀ j y, T.tokens j = none → update T.tokens j (some y) i = some x := by
    intro j y hj
    have hne : i ≠ j := by
      rintro rfl
      rw [hj] at hi
      cases hi
    rw [update_of_ne hne, hi]
  cases op with
  | grant tok =>
    rcases grant_cases T tok with he | ⟨j, hj, he⟩
    · rw [Op.apply, he, hi]
    · rw [Op.apply, he]
      exact hput j tok hj
  | attenuate handle newCap newExpiry holder newId =>
    rcases attenuate_cases T handle newCap newExpiry holder newId with
      ⟨_, he⟩ | ⟨j, -, child, -, -, hj, -, -, -, -, -, he⟩
    · rw [Op.apply, he, hi]
    · rw [Op.apply, he]
      exact hput j child hj
  | revoke t =>
    rw [Op.apply, revoke_keeps T t, hi]
    intro y hy hlinked
    rw [hi] at hy
    cases hy
    cases hlinked with
    | self _ h _ => exact hid t rfl h
    | child _ _ _ h => rw [hp] at h; cases h

end Aios.Cap
