import Mathlib

/-!
Families of dyadic blocks.

The block of order `k` and index `i` has the cells `p` with `p / 2 ^ k = i`. A family `F` lists
the indices of its blocks for each order up to `m`; it is reduced when it never has both halves
of a block. A reduced family of disjoint blocks is determined by the cells it covers.
-/

namespace Aios.Lib.Dyadic

/-- The cell `p` is in a block of the family. -/
def Covers (m : ℕ) (F : ℕ → Set ℕ) (p : ℕ) : Prop := ∃ k ≤ m, p / 2 ^ k ∈ F k

/-- The family never has both halves of a block. -/
def Reduced (m : ℕ) (F : ℕ → Set ℕ) : Prop := ∀ k < m, ∀ i, 2 * i ∈ F k → 2 * i + 1 ∉ F k

/-- No cell is in blocks of two orders. Blocks of one order are disjoint anyway. -/
def Separate (m : ℕ) (F : ℕ → Set ℕ) : Prop :=
  ∀ k ≤ m, ∀ j ≤ m, ∀ p, p / 2 ^ k ∈ F k → p / 2 ^ j ∈ F j → k = j

variable {m k o i p q : ℕ} {F G : ℕ → Set ℕ}

lemma div_eq_of_le (hk : o ≤ k) (h : p / 2 ^ o = q / 2 ^ o) : p / 2 ^ k = q / 2 ^ k := by
  obtain ⟨d, rfl⟩ := Nat.exists_eq_add_of_le hk
  rw [pow_add, ← Nat.div_div_eq_div_mul, ← Nat.div_div_eq_div_mul, h]

lemma first_cell (o i : ℕ) : i * 2 ^ o / 2 ^ o = i := Nat.mul_div_cancel _ (Nat.two_pow_pos o)

lemma half_div {h : ℕ} (hp : p / 2 ^ o = 2 * i + h) (hh : h < 2) : p / 2 ^ (o + 1) = i := by
  rw [pow_succ, ← Nat.div_div_eq_div_mul, hp]
  omega

lemma Reduced.within (hF : Reduced m F) (ho : o ≤ m) (hc : ∀ p, p / 2 ^ o = i → Covers m F p) :
    ∃ k, o ≤ k ∧ k ≤ m ∧ ∀ p, p / 2 ^ o = i → p / 2 ^ k ∈ F k := by
  induction o generalizing i with
  | zero =>
    obtain ⟨k, hk, hi⟩ := hc i (by simp)
    refine ⟨k, Nat.zero_le k, hk, fun p hp => ?_⟩
    rw [pow_zero, Nat.div_one] at hp
    rwa [hp]
  | succ o ih =>
    -- each half lies in a block of the family
    have hhalf : ∀ h < 2, ∃ k, o ≤ k ∧ k ≤ m ∧ ∀ p, p / 2 ^ o = 2 * i + h → p / 2 ^ k ∈ F k :=
      fun h hh => ih (by omega) fun p hp => hc p (half_div hp hh)
    -- a block above the half holds the whole block
    have hwhole : ∀ h < 2, ∀ k, o + 1 ≤ k →
        (∀ p, p / 2 ^ o = 2 * i + h → p / 2 ^ k ∈ F k) →
        ∀ p, p / 2 ^ (o + 1) = i → p / 2 ^ k ∈ F k := by
      intro h hh k hk hin p hp
      have hq := first_cell o (2 * i + h)
      rw [div_eq_of_le hk (hp.trans (half_div hq hh).symm)]
      exact hin _ hq
    obtain ⟨k0, hk0, hm0, hin0⟩ := hhalf 0 (by omega)
    obtain ⟨k1, hk1, hm1, hin1⟩ := hhalf 1 (by omega)
    rcases Nat.eq_or_lt_of_le hk0 with rfl | hlt0
    · rcases Nat.eq_or_lt_of_le hk1 with rfl | hlt1
      · -- both halves would be in the family
        have hlow := hin0 _ (first_cell o (2 * i + 0))
        have hup := hin1 _ (first_cell o (2 * i + 1))
        rw [first_cell] at hlow hup
        exact absurd hup (hF o (by omega) i hlow)
      · exact ⟨k1, hlt1, hm1, hwhole 1 (by omega) k1 hlt1 hin1⟩
    · exact ⟨k0, hlt0, hm0, hwhole 0 (by omega) k0 hlt0 hin0⟩

lemma Reduced.half_notMem (hF : Reduced m F) (hs : Separate m F) (ho : o < m)
    (hc : ∀ p, p / 2 ^ (o + 1) = i → Covers m F p) {h : ℕ} (hh : h < 2) : 2 * i + h ∉ F o := by
  intro hmem
  obtain ⟨k, hk, hm, hin⟩ := hF.within ho hc
  have hq := first_cell o (2 * i + h)
  have hko := hs o (by omega) k hm _ (by rwa [hq]) (hin _ (half_div hq hh))
  omega

lemma Reduced.subset (hF : Reduced m F) (hsF : Separate m F) (hG : Reduced m G)
    (h : ∀ p, Covers m F p ↔ Covers m G p) (ho : o ≤ m) (hi : i ∈ F o) : i ∈ G o := by
  have hcov : ∀ p, p / 2 ^ o = i → Covers m G p := fun p hp =>
    (h p).mp ⟨o, ho, by rwa [hp]⟩
  obtain ⟨k, hk, hkm, hin⟩ := hG.within ho hcov
  have hp := first_cell o i
  -- the block of `G` around it is in turn inside a block of `F`
  have hback : ∀ q, q / 2 ^ k = i * 2 ^ o / 2 ^ k → Covers m F q := by
    intro q hq
    refine (h q).mpr ⟨k, hkm, ?_⟩
    rw [hq]
    exact hin _ hp
  obtain ⟨j, hj, hjm, hinF⟩ := hF.within hkm hback
  have hoj := hsF o ho j hjm (i * 2 ^ o) (by rwa [hp]) (hinF _ rfl)
  obtain rfl : k = o := by omega
  have := hin _ hp
  rwa [hp] at this

/-- **Two reduced families of disjoint blocks with the same cells are the same.** -/
lemma Reduced.unique (hF : Reduced m F) (hsF : Separate m F) (hG : Reduced m G)
    (hsG : Separate m G) (h : ∀ p, Covers m F p ↔ Covers m G p) (ho : o ≤ m) : F o = G o :=
  Set.ext fun _ => ⟨fun hi => hF.subset hsF hG h ho hi,
    fun hi => hG.subset hsG hF (fun p => (h p).symm) ho hi⟩

end Aios.Lib.Dyadic
