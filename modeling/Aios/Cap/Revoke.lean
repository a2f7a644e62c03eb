import Aios.Lib.Runs
import Aios.Cap.Table

/-!
Revocation marks exactly the tokens below the revoked one.

The sweeps of `revoke` compute reachability in the parent forest: while they run, the ids
in `to_revoke` are those of the tokens marked so far, every marked token hangs below the
named one, and when a sweep marks nothing no token below it is left.
-/

namespace Aios.Cap

open Aios.Lib CapabilityTable Function List Slots

/-- The token `x` is the live token `t`, or hangs below it by parent links that all run
through tokens not yet revoked. -/
inductive Linked (s : Slots maxCapsPerProcess CapabilityToken) (t : CapabilityTokenId) :
    CapabilityToken → Prop
  | self {i : Fin maxCapsPerProcess} {x : CapabilityToken} (hi : s i = some x) (hid : x.id = t)
      (hl : x.revoked = false) : Linked s t x
  | child {i : Fin maxCapsPerProcess} {x y : CapabilityToken} (hx : Linked s t x)
      (hi : s i = some y) (hl : y.revoked = false) (hp : y.parentToken = some x.id) :
      Linked s t y

variable {s : Slots maxCapsPerProcess CapabilityToken} {t : CapabilityTokenId} {n : ℕ}

variable {i j : Fin maxCapsPerProcess} {x : CapabilityToken} {c : Cascade} {T T' : CapabilityTable}

lemma Linked.live (h : Linked s t x) : x.revoked = false := by
  cases h with
  | self _ _ hl => exact hl
  | child _ _ hl _ => exact hl

lemma Linked.mem (h : Linked s t x) : ∃ i, s i = some x := by
  cases h with
  | self hi _ _ => exact ⟨_, hi⟩
  | child _ hi _ _ => exact ⟨_, hi⟩

/-- What holds of the variables of `revoke` at every slot of every loop, when it was called
on the slots `s`. -/
structure Sweeping (s : Slots maxCapsPerProcess CapabilityToken) (t : CapabilityTokenId)
    (n : ℕ) (c : Cascade) : Prop where
  slot : ∀ i, c.tokens i = s i ∨ ∃ x, s i = some x ∧ Linked s t x ∧ c.tokens i = some x.mark
  ids : ∀ a, a ∈ c.toRevoke ↔ ∃ i x, s i = some x ∧ Linked s t x ∧ c.tokens i = some x.mark ∧ x.id = a
  room : c.toRevoke.length + liveCount c.tokens = liveCount s
  count : n = liveCount s → c.count = liveCount c.tokens

lemma sweeping_start (s : Slots maxCapsPerProcess CapabilityToken) (t : CapabilityTokenId)
    (n : ℕ) : Sweeping s t n ⟨s, [], n, false⟩ where
  slot i := Or.inl rfl
  ids a := by
    constructor
    · intro h; simp at h
    · rintro ⟨i, x, hi, hx, hm, -⟩
      have hxx : x = x.mark := Option.some.inj (hi.symm.trans hm)
      have hl := hx.live
      rw [hxx] at hl; simp at hl
  room := by simp
  count h := h

lemma Sweeping.changed (h : Sweeping s t n c) (b : Bool) : Sweeping s t n { c with changed := b } :=
  ⟨h.slot, h.ids, h.room, h.count⟩

lemma Sweeping.untouched (h : Sweeping s t n c) (hi : c.tokens i = some x)
    (hl : x.revoked = false) : s i = some x := by
  rcases h.slot i with h1 | ⟨y, -, -, h1⟩
  · rw [← h1, hi]
  · have hxy : x = y.mark := Option.some.inj (hi.symm.trans h1)
    rw [hxy] at hl; simp at hl

lemma liveCount_mark (hi : c.tokens i = some x) (hl : x.revoked = false) :
    liveCount (update c.tokens i (some x.mark)) + 1 = liveCount c.tokens := by
  have h := card_update CapabilityToken.live c.tokens i (some x.mark)
  simpa [hi, CapabilityToken.live_iff.mpr hl, liveCount] using h

lemma Sweeping.mark (h : Sweeping s t n c) (hi : c.tokens i = some x) (hx : Linked s t x)
    (b : Bool) :
    Sweeping s t n ⟨update c.tokens i (some x.mark), c.toRevoke ++ [x.id], c.count - 1, b⟩ := by
  have hsi := h.untouched hi hx.live
  have hcard := liveCount_mark hi hx.live
  refine ⟨fun j => ?_, fun a => ?_, ?_, fun hn => ?_⟩
  · by_cases hj : j = i
    · subst hj
      exact Or.inr ⟨x, hsi, hx, by simp⟩
    · simpa [hj] using h.slot j
  · rw [mem_append, h.ids a]
    constructor
    · rintro (⟨j, y, hj, hy, hm, rfl⟩ | ha)
      · have hne : j ≠ i := by
          rintro rfl
          have hxm : x = y.mark := Option.some.inj (hi.symm.trans hm)
          have hl := hx.live
          rw [hxm] at hl; simp at hl
        exact ⟨j, y, hj, hy, by simpa [hne] using hm, rfl⟩
      · exact ⟨i, x, hsi, hx, by simp, (mem_singleton.mp ha).symm⟩
    · rintro ⟨j, y, hj, hy, hm, rfl⟩
      by_cases hji : j = i
      · subst hji
        have hxy : x = y := Option.some.inj (hsi.symm.trans hj)
        exact Or.inr (by simp [hxy])
      · exact Or.inl ⟨j, y, hj, hy, by simpa [hji] using hm, rfl⟩
  · have := h.room
    simp only [length_append, length_singleton]
    omega
  · have := h.count hn
    simp only
    omega

/-! ### The first loop -/

lemma markSlot_sweeping (h : Sweeping s t n c) (i : Fin maxCapsPerProcess) :
    Sweeping s t n (markSlot t c i) := by
  unfold markSlot
  cases hi : c.tokens i with
  | none => exact h
  | some x =>
    by_cases hc : x.id = t ∧ x.revoked = false
    · have hx : Linked s t x := .self (h.untouched hi hc.2) hc.1 hc.2
      have := h.mark hi hx c.changed
      simpa [hc] using this
    · simpa [hc] using h

def Cleared (t : CapabilityTokenId) (c : Cascade) (i : Fin maxCapsPerProcess) : Prop :=
  ∀ x, c.tokens i = some x → x.id = t → x.revoked = true

lemma markSlot_cleared (c : Cascade) (i : Fin maxCapsPerProcess) : Cleared t (markSlot t c i) i := by
  intro x hx hid
  unfold markSlot at hx
  cases hi : c.tokens i with
  | none => simp [hi] at hx
  | some y =>
    by_cases hc : y.id = t ∧ y.revoked = false
    · simp only [hi, hc, and_self, if_true, update_self, Option.some.injEq] at hx
      rw [← hx]; rfl
    · simp only [hi, hc, if_false, Option.some.injEq] at hx
      subst hx
      by_contra hr
      exact hc ⟨hid, by simpa using hr⟩

lemma markSlot_keeps (h : Cleared t c j) (i : Fin maxCapsPerProcess) :
    Cleared t (markSlot t c i) j := by
  by_cases hj : j = i
  · subst hj; exact markSlot_cleared c j
  · intro x hx hid
    refine h x ?_ hid
    unfold markSlot at hx
    split at hx
    · split at hx
      · simpa [hj] using hx
      · exact hx
    · exact hx

lemma foldl_markSlot (l : List (Fin maxCapsPerProcess)) (h : Sweeping s t n c) :
    Sweeping s t n (l.foldl (markSlot t) c) ∧
      ∀ j, j ∈ l ∨ Cleared t c j → Cleared t (l.foldl (markSlot t) c) j := by
  induction l generalizing c with
  | nil => exact ⟨h, fun j hj => by simpa using hj⟩
  | cons i l ih =>
    obtain ⟨h1, h2⟩ := ih (markSlot_sweeping h i)
    refine ⟨h1, fun j hj => h2 j ?_⟩
    rcases hj with hj | hj
    · rcases mem_cons.mp hj with rfl | hj'
      · exact Or.inr (markSlot_cleared c j)
      · exact Or.inl hj'
    · exact Or.inr (markSlot_keeps hj i)

/-! ### The sweeps -/

lemma sweepSlot_sweeping (h : Sweeping s t n c) (i : Fin maxCapsPerProcess) :
    Sweeping s t n (sweepSlot c i) := by
  unfold sweepSlot
  cases hi : c.tokens i with
  | none => exact h
  | some x =>
    by_cases hh : hit c x
    · obtain ⟨hl, hp⟩ : x.revoked = false ∧ ∃ p, x.parentToken = some p ∧ p ∈ c.toRevoke := by
        simpa [hit, Option.any_eq_true] using hh
      obtain ⟨p, hpar, hmem⟩ := hp
      obtain ⟨j, y, -, hy, -, rfl⟩ := (h.ids p).mp hmem
      have hx : Linked s t x := .child hy (h.untouched hi hl) hl hpar
      -- each id written down stands for a token that is no longer live, so there is room
      have hroom : c.toRevoke.length < maxCapsPerProcess := by
        have h1 := h.room
        have h2 : liveCount s ≤ maxCapsPerProcess := card_le _ _
        have h3 := liveCount_mark hi hl
        omega
      have := h.mark hi hx true
      simpa [hh, hroom] using this
    · simpa [hh] using h

lemma foldl_sweepSlot_sweeping (l : List (Fin maxCapsPerProcess)) (h : Sweeping s t n c) :
    Sweeping s t n (l.foldl sweepSlot c) := by
  induction l generalizing c with
  | nil => exact h
  | cons i l ih => exact ih (sweepSlot_sweeping h i)

lemma sweepSlot_unchanged (h : (sweepSlot c i).changed = false) :
    sweepSlot c i = c ∧ ∀ x, c.tokens i = some x → hit c x = false := by
  unfold sweepSlot at *
  cases hi : c.tokens i with
  | none => simp
  | some x =>
    by_cases hh : hit c x
    · simp [hi, hh] at h
    · simp [hh]

lemma foldl_sweepSlot_unchanged (l : List (Fin maxCapsPerProcess))
    (h : (l.foldl sweepSlot c).changed = false) :
    l.foldl sweepSlot c = c ∧ ∀ i ∈ l, ∀ x, c.tokens i = some x → hit c x = false := by
  induction l generalizing c with
  | nil => exact ⟨rfl, by simp⟩
  | cons i l ih =>
    obtain ⟨h1, h2⟩ := ih h
    rw [foldl_cons, h1] at h
    obtain ⟨h3, h4⟩ := sweepSlot_unchanged h
    rw [h3] at h1 h2
    refine ⟨by rw [foldl_cons, h3, h1], fun j hj => ?_⟩
    rcases mem_cons.mp hj with rfl | hj'
    · exact h4
    · exact h2 j hj'

lemma sweep_sweeping (h : Sweeping s t n c) : Sweeping s t n (sweep c) :=
  foldl_sweepSlot_sweeping _ (h.changed false)

lemma sweepSlot_cleared (h : Cleared t c j) (i : Fin maxCapsPerProcess) :
    Cleared t (sweepSlot c i) j := by
  intro x hx hid
  unfold sweepSlot at hx
  cases hi : c.tokens i with
  | none => exact h x (by simpa [hi] using hx) hid
  | some y =>
    by_cases hh : hit c y
    · by_cases hj : j = i
      · subst hj
        have : y.mark = x := by simpa [hi, hh] using hx
        rw [← this]; rfl
      · exact h x (by simpa [hi, hh, hj] using hx) hid
    · exact h x (by simpa [hi, hh] using hx) hid

lemma foldl_sweepSlot_cleared (l : List (Fin maxCapsPerProcess)) (h : Cleared t c j) :
    Cleared t (l.foldl sweepSlot c) j := by
  induction l generalizing c with
  | nil => exact h
  | cons i l ih => exact ih (sweepSlot_cleared h i)

/-- What the loop of `revoke` ends in: the invariant still holds and there is nothing left
to mark. -/
lemma cascade_spec (h : Sweeping s t n c) (hc : ∀ j, Cleared t c j) :
    Sweeping s t n (cascade c) ∧ (∀ j, Cleared t (cascade c) j) ∧
      ∀ i x, (cascade c).tokens i = some x → hit (cascade c) x = false := by
  fun_induction cascade c with
  | case1 c _ ih =>
    exact ih (sweep_sweeping h) fun j => foldl_sweepSlot_cleared _ (hc j)
  | case2 c hch =>
    have hch' : (sweep c).changed = false := by simpa using hch
    obtain ⟨h1, h2⟩ := foldl_sweepSlot_unchanged _ hch'
    refine ⟨sweep_sweeping h, fun j => foldl_sweepSlot_cleared _ (hc j), fun i x hx => ?_⟩
    unfold sweep at hx ⊢
    rw [h1] at hx ⊢
    exact h2 i (mem_finRange i) x hx

lemma revoke_spec (T : CapabilityTable) (t : CapabilityTokenId) :
    Sweeping T.tokens t T.count (cascade (marked T t)) ∧ (∀ j, Cleared t (cascade (marked T t)) j) ∧
    ∀ i x, (cascade (marked T t)).tokens i = some x → hit (cascade (marked T t)) x = false := by
  obtain ⟨h1, h2⟩ := foldl_markSlot (List.finRange maxCapsPerProcess)
    (sweeping_start T.tokens t T.count)
  exact cascade_spec h1 fun j => h2 j (Or.inl (mem_finRange j))

lemma revoke_marks (T : CapabilityTable) (t : CapabilityTokenId) (hx : Linked T.tokens t x)
    (hi : T.tokens i = some x) : (T.revoke t).tokens i = some x.mark := by
  obtain ⟨h, hcl, hfix⟩ := revoke_spec T t
  show (cascade (marked T t)).tokens i = some x.mark
  -- by the chain of parent links; at each token the only other case is that it is untouched
  induction hx generalizing i with
  | self hi' hid hl =>
    rcases h.slot i with h1 | ⟨y, hy, -, h1⟩
    · have := hcl i _ (h1.trans hi) hid
      rw [hl] at this; simp at this
    · rw [h1, Option.some.inj (hy.symm.trans hi)]
  | @child i' x y hx hi' hl hp ih =>
    rcases h.slot i with h1 | ⟨z, hz, -, h1⟩
    · obtain ⟨j, hj⟩ := hx.mem
      have hmem := (h.ids x.id).mpr ⟨j, x, hj, hx, ih hj, rfl⟩
      have := hfix i y (h1.trans hi)
      simp [hit, hl, hp, hmem] at this
    · rw [h1, Option.some.inj (hz.symm.trans hi)]

lemma revoke_keeps (T : CapabilityTable) (t : CapabilityTokenId)
    (hi : ∀ x, T.tokens i = some x → ¬ Linked T.tokens t x) :
    (T.revoke t).tokens i = T.tokens i := by
  obtain ⟨h, -, -⟩ := revoke_spec T t
  rcases h.slot i with h1 | ⟨x, hx, hl, -⟩
  · exact h1
  · exact absurd hl (hi x hx)

lemma revoke_count (T : CapabilityTable) (t : CapabilityTokenId)
    (hT : T.count = liveCount T.tokens) : (T.revoke t).count = liveCount (T.revoke t).tokens :=
  (revoke_spec T t).1.count hT

/-! ### Runs of a table -/

inductive Op
  | grant (tok : CapabilityToken)
  | attenuate (handle : CapabilityHandle) (newCap : Capability) (newExpiry : Option ℕ)
      (holder : ProcessId) (newId : CapabilityTokenId)
  | revoke (id : CapabilityTokenId)

def Fresh (T : CapabilityTable) (id : CapabilityTokenId) : Prop :=
  ∀ i x, T.tokens i = some x → x.id ≠ id

/-- What the callers promise: ids are fresh, a token is granted live and its parent, if it
has one, is in the table. -/
def Op.Ok (T : CapabilityTable) : Op → Prop
  | .grant tok => Fresh T tok.id ∧ tok.revoked = false ∧
      ∀ p, tok.parentToken = some p → ∃ i y, T.tokens i = some y ∧ y.id = p
  | .attenuate _ _ _ _ newId => Fresh T newId
  | .revoke _ => True

instance (T : CapabilityTable) (id : CapabilityTokenId) : Decidable (Fresh T id) :=
  decidable_of_iff (∀ i, ∀ x ∈ T.tokens i, x.id ≠ id) (by simp [Fresh])

instance (T : CapabilityTable) (op : Op) : Decidable (op.Ok T) :=
  match op with
  | .grant tok => decidable_of_iff (Fresh T tok.id ∧ tok.revoked = false ∧
      ∀ p ∈ tok.parentToken, ∃ i, ∃ y ∈ T.tokens i, y.id = p) (by simp [Op.Ok])
  | .attenuate _ _ _ _ newId => inferInstanceAs (Decidable (Fresh T newId))
  | .revoke _ => inferInstanceAs (Decidable True)

def Op.apply (T : CapabilityTable) : Op → CapabilityTable
  | .grant tok => (T.grant tok).2
  | .attenuate handle newCap newExpiry holder newId =>
    (T.attenuate handle newCap newExpiry holder newId).2
  | .revoke id => T.revoke id

def Step (T : CapabilityTable) (op : Op) (T' : CapabilityTable) : Prop := T' = op.apply T

lemma grant_cases (T : CapabilityTable) (tok : CapabilityToken) :
    T.grant tok = (.error .enospc, T) ∨ ∃ i : Fin maxCapsPerProcess, T.tokens i = none ∧
      T.grant tok = (.ok i, ⟨update T.tokens i (some tok), T.count + 1⟩) := by
  unfold CapabilityTable.grant
  cases h : T.tokens.firstFree with
  | none => exact Or.inl rfl
  | some i => exact Or.inr ⟨i, firstFree_some h, rfl⟩

lemma get_some {handle : CapabilityHandle} (h : T.get handle = some x) :
    ∃ i, T.tokens i = some x ∧ x.revoked = false := by
  unfold CapabilityTable.get at h
  split at h
  · obtain ⟨h1, h2⟩ := Option.filter_eq_some_iff.mp h
    exact ⟨_, h1, by simpa using h2⟩
  · simp at h

lemma attenuate_cases (T : CapabilityTable) (handle : CapabilityHandle) (newCap : Capability)
    (newExpiry : Option ℕ) (holder : ProcessId) (newId : CapabilityTokenId) :
    (∃ e, T.attenuate handle newCap newExpiry holder newId = (.error e, T)) ∨
      ∃ (i : Fin maxCapsPerProcess) (parent child : CapabilityToken),
        T.get handle = some parent ∧ parent.capability.canAttenuateTo newCap ∧
        T.tokens i = none ∧ child.id = newId ∧ child.capability = newCap ∧
        child.revoked = false ∧ child.parentToken = some parent.id ∧
        child.expiresAtTick = newExpiry ∧
        T.attenuate handle newCap newExpiry holder newId =
          (.ok i, ⟨update T.tokens i (some child), T.count + 1⟩) := by
  unfold CapabilityTable.attenuate
  cases hg : T.get handle with
  | none => exact Or.inl ⟨_, rfl⟩
  | some parent =>
    by_cases hc : parent.capability.canAttenuateTo newCap
    · simp only [hc, if_true]
      rcases grant_cases T _ with h | ⟨i, hi, h⟩
      · exact Or.inl ⟨_, h⟩
      · exact Or.inr ⟨i, parent, _, rfl, hc, hi, rfl, rfl, rfl, rfl, rfl, h⟩
    · exact Or.inl ⟨.eperm, by simp [hc]⟩

lemma liveCount_put (hi : T.tokens i = none) (hx : x.revoked = false) :
    liveCount (update T.tokens i (some x)) = liveCount T.tokens + 1 := by
  have h := card_update CapabilityToken.live T.tokens i (some x)
  simpa [hi, CapabilityToken.live_iff.mpr hx, liveCount] using h

lemma step_count {op : Op} (h : T.count = liveCount T.tokens) (hok : op.Ok T) (hs : Step T op T') :
    T'.count = liveCount T'.tokens := by
  subst hs
  cases op with
  | grant tok =>
    rcases grant_cases T tok with he | ⟨i, hi, he⟩
    · simpa [Op.apply, he] using h
    · simp [Op.apply, he, liveCount_put hi hok.2.1, h]
  | attenuate handle newCap newExpiry holder newId =>
    rcases attenuate_cases T handle newCap newExpiry holder newId with
      ⟨_, he⟩ | ⟨i, -, child, -, -, hi, -, -, hl, -, -, he⟩
    · simpa [Op.apply, he] using h
    · simp [Op.apply, he, liveCount_put hi hl, h]
  | revoke id => exact revoke_count T id h

lemma step_keeps {op : Op} (hs : Step T op T') (hi : T.tokens i = some x) :
    T'.tokens i = some x ∨ T'.tokens i = some x.mark := by
  subst hs
  have hput : ∀ j y, T.tokens j = none → update T.tokens j (some y) i = some x := by
    intro j y hj
    have hne : i ≠ j := by rintro rfl; rw [hj] at hi; simp at hi
    rw [update_of_ne hne, hi]
  cases op with
  | grant tok =>
    rcases grant_cases T tok with he | ⟨j, hj, he⟩
    · exact Or.inl (by simpa [Op.apply, he] using hi)
    · exact Or.inl (by simpa [Op.apply, he] using hput j tok hj)
  | attenuate handle newCap newExpiry holder newId =>
    rcases attenuate_cases T handle newCap newExpiry holder newId with
      ⟨_, he⟩ | ⟨j, -, child, -, -, hj, -, -, -, -, -, he⟩
    · exact Or.inl (by simpa [Op.apply, he] using hi)
    · exact Or.inl (by simpa [Op.apply, he] using hput j child hj)
  | revoke id =>
    by_cases hl : Linked T.tokens id x
    · exact Or.inr (revoke_marks T id hl hi)
    · refine Or.inl ?_
      show (T.revoke id).tokens i = some x
      rw [revoke_keeps T id, hi]
      intro y hy
      rw [hi] at hy
      rwa [← Option.some.inj hy]

lemma runs_keep_revoked (h : Runs Step (fun T op => op.Ok T) T T') (hi : T.tokens i = some x)
    (hr : x.revoked = true) : T'.tokens i = some x := by
  refine Runs.inv (fun U => U.tokens i = some x) hi (fun U op V hU _ hs => ?_) h
  rcases step_keeps hs hU with h1 | h1
  · exact h1
  · rw [h1]
    cases x; simp_all [CapabilityToken.mark]

/-- **Revocation is exact.** In every table reached from the empty one the count is the
number of live tokens, `revoke t` marks the tokens linked to `t` and no others, and a
revoked token stays as it is in every later table. -/
theorem revoke_exact {T : CapabilityTable}
    (hT : Runs Step (fun T op => op.Ok T) CapabilityTable.new T) :
    T.count = liveCount T.tokens ∧
      (∀ t i x, T.tokens i = some x →
        (Linked T.tokens t x → (T.revoke t).tokens i = some x.mark) ∧
        (¬ Linked T.tokens t x → (T.revoke t).tokens i = some x)) ∧
      (∀ t i, T.tokens i = none → (T.revoke t).tokens i = none) ∧
      (∀ t i x, T.tokens i = some x → x.id = t →
        ∃ y, (T.revoke t).tokens i = some y ∧ y.id = t ∧ y.revoked = true) ∧
      (∀ t, (T.revoke t).count = liveCount (T.revoke t).tokens) ∧
      ∀ T', Runs Step (fun T op => op.Ok T) T T' → ∀ i x, T.tokens i = some x →
        x.revoked = true → T'.tokens i = some x := by
  have hcount : T.count = liveCount T.tokens :=
    Runs.inv (fun U => U.count = liveCount U.tokens)
      (by simp [CapabilityTable.new, liveCount]) (fun _ _ _ h hok hs => step_count h hok hs) hT
  refine ⟨hcount, fun t i x hi => ⟨fun hl => revoke_marks T t hl hi, fun hl => ?_⟩, fun t i hi => ?_,
    fun t i x hi hid => ?_, fun t => revoke_count T t hcount,
      fun T' h i x hi hr => runs_keep_revoked h hi hr⟩
  · rw [revoke_keeps T t, hi]
    intro y hy
    rw [hi] at hy
    rwa [← Option.some.inj hy]
  · rw [revoke_keeps T t, hi]
    intro y hy
    rw [hi] at hy; simp at hy
  · cases hr : x.revoked with
    | false => exact ⟨x.mark, revoke_marks T t (.self hi hid hr) hi, hid, rfl⟩
    | true =>
      refine ⟨x, ?_, hid, hr⟩
      rw [revoke_keeps T t, hi]
      intro y hy hl
      rw [hi] at hy
      rw [← Option.some.inj hy] at hl
      have := hl.live
      rw [hr] at this; simp at this

theorem revoke_exact_child :
    let root : CapabilityToken := ⟨1, .channelCreate, 0, true, false, none, 0, 0, none⟩
    let child : CapabilityToken := ⟨2, .channelAccess 7, 0, false, false, some 1, 0, 0, none⟩
    let T := ((CapabilityTable.new.grant root).2.grant child).2
    (T.revoke 1).tokens 1 = some child.mark ∧ (T.revoke 1).tokens 2 = none := by
  intro root child T
  have hrun : Runs Step (fun T op => op.Ok T) CapabilityTable.new T := by
    refine ((Runs.refl _).snoc ?_ (rfl : Step _ (.grant root) _)).snoc ?_
      (rfl : Step _ (.grant child) _) <;> decide +kernel
  have hT0 : T.tokens 0 = some root := by decide +kernel
  have hT1 : T.tokens 1 = some child := by decide +kernel
  have hT2 : T.tokens 2 = none := by decide +kernel
  obtain ⟨-, hex, hnone, -⟩ := revoke_exact hrun
  exact ⟨(hex 1 1 child hT1).1 (.child (.self hT0 rfl rfl) hT1 rfl rfl), hnone 1 2 hT2⟩

end Aios.Cap
