import Aios.Mm.AllocFree

/-!
The bitmap of buddy pairs.

The bit of a pair is exact when both buddies lie in the pages of the arena: then it is set
if exactly one of the two is on its free list. A pair with a page in the bitmap, in an
exclusion or behind the end of the range has a bit too, but it only counts toggles.
-/

namespace Aios.Mm

open Aios.Lib

namespace Arena

/-- The position of the bit of the pair that `a` belongs to. -/
def pos (A : Arena) (a o : ℕ) : ℕ :=
  pairsBelow ((A.endAddr - A.base) / pageSize) o + (a - A.base) / pageSize / 2 ^ (o + 1)

def bit (A : Arena) (m : Mem) (a o : ℕ) : Bool :=
  (m (A.base + A.pos a o / 8)).toNat.testBit (A.pos a o % 8)

def Natural (A : Arena) : Prop := blockSize maxOrder ∣ A.base

def Whole (A : Arena) (a o : ℕ) : Prop := ∀ p ∈ blockPages (a, o), p ∈ A.pages

end Arena

variable {A : Arena} {b b' : Buddy} {out : Multiset ℕ} {L L' : ℕ → List ℕ} {d o a c k : ℕ}

lemma blockSize_succ (o : ℕ) : blockSize (o + 1) = blockSize o + blockSize o := by
  unfold blockSize
  rw [pow_succ]
  ring

lemma blockSize_dvd {o k : ℕ} (h : o ≤ k) : blockSize o ∣ blockSize k :=
  Nat.mul_dvd_mul_left _ (pow_dvd_pow 2 h)

lemma pageSize_dvd_of_block (h : blockSize o ∣ a) : pageSize ∣ a := (dvd_mul_right _ _).trans h

lemma pair_index (hal : blockSize o ∣ a) (hb : blockSize o ∣ c) :
    (a - c) / pageSize / 2 ^ (o + 1) = (a / blockSize o - c / blockSize o) / 2 := by
  obtain ⟨x, rfl⟩ := hal
  obtain ⟨y, rfl⟩ := hb
  have hpos := blockSize_pos o
  rw [Nat.mul_div_cancel_left _ hpos, Nat.mul_div_cancel_left _ hpos, ← Nat.mul_sub,
    blockSize, Nat.mul_assoc, Nat.mul_div_cancel_left _ (by decide), pow_succ,
    ← Nat.div_div_eq_div_mul, Nat.mul_div_cancel_left _ (Nat.two_pow_pos o)]

namespace Arena.Natural

variable (hA : A.Natural)
include hA

lemma base_dvd (ho : o ≤ maxOrder) : blockSize o ∣ A.base := (blockSize_dvd ho).trans hA

lemma pair (ho : o < maxOrder) (hbase : A.base ≤ a) (hal : blockSize o ∣ a) :
    ∃ lo, blockSize (o + 1) ∣ lo ∧ min a (buddyOf a A.base o) = lo ∧
      ((a = lo ∧ buddyOf a A.base o = lo + blockSize o) ∨
        (a = lo + blockSize o ∧ buddyOf a A.base o = lo)) := by
  obtain ⟨y, hy⟩ := hA.base_dvd (o := o + 1) ho
  obtain ⟨x, rfl⟩ := hal
  have hpos := blockSize_pos o
  -- counted in blocks of order `o`, the base is even
  have hbase' : A.base = blockSize o * (2 * y) := by
    rw [hy, blockSize_succ]
    ring
  have hxy : 2 * y ≤ x := by
    rw [hbase'] at hbase
    exact Nat.le_of_mul_le_mul_left hbase hpos
  have hshift : ∀ z, blockSize o * z = z <<< (o + 12) := fun z => by
    rw [Nat.shiftLeft_eq, blockSize_eq, Nat.mul_comm]
  have hbuddy : buddyOf (blockSize o * x) A.base o =
      blockSize o * (2 * y + ((x - 2 * y) ^^^ 1)) := by
    have hone : 2 ^ (o + 12) = 1 <<< (o + 12) := by rw [Nat.shiftLeft_eq, one_mul]
    rw [buddyOf, hbase', ← Nat.mul_sub, hone, hshift (x - 2 * y), ← Nat.shiftLeft_xor_distrib,
      ← hshift, ← Nat.mul_add]
  have hdouble : ∀ z, blockSize o * (2 * z) = blockSize (o + 1) * z := fun z => by
    rw [blockSize_succ]
    ring
  rw [hbuddy]
  rcases Nat.even_or_odd' (x - 2 * y) with ⟨z, hz | hz⟩
  · have hx : x = 2 * (y + z) := by omega
    have hflip : 2 * y + ((x - 2 * y) ^^^ 1) = 2 * (y + z) + 1 := by
      rw [hz, Nat.xor_one_of_even ⟨z, by omega⟩]
      ring
    rw [hflip, hx, Nat.mul_add _ _ 1, hdouble, Nat.mul_one]
    exact ⟨_, dvd_mul_right _ _, min_eq_left (Nat.le_add_right _ _), .inl ⟨rfl, rfl⟩⟩
  · have hx : x = 2 * (y + z) + 1 := by omega
    have hflip : 2 * y + ((x - 2 * y) ^^^ 1) = 2 * (y + z) := by
      rw [hz, Nat.xor_one_of_odd ⟨z, rfl⟩]
      omega
    rw [hflip, hx, Nat.mul_add _ _ 1, hdouble, Nat.mul_one]
    exact ⟨_, dvd_mul_right _ _, min_eq_right (Nat.le_add_right _ _), .inr ⟨rfl, rfl⟩⟩

end Arena.Natural

section Positions

lemma Arena.index_lt (ha : a / pageSize ∈ A.pages) :
    (a - A.base) / pageSize < (A.endAddr - A.base) / pageSize := by
  have h1 := A.above _ ha
  have h2 := A.below _ ha
  have h3 := A.base_aligned
  simp only [pageSize] at *
  omega

lemma Arena.pos_lt (ha : a / pageSize ∈ A.pages) :
    A.pos a o < pairsBelow ((A.endAddr - A.base) / pageSize) (o + 1) := by
  have h := div_lt_divCeil (k := 2 ^ (o + 1)) (Nat.two_pow_pos _) (Arena.index_lt ha)
  unfold Arena.pos
  rw [pairsBelow_succ]
  omega

lemma Arena.pos_order (ha : a / pageSize ∈ A.pages) (hc : c / pageSize ∈ A.pages)
    (h : A.pos a o = A.pos c k) : o = k := by
  have hmono := pairsBelow_mono ((A.endAddr - A.base) / pageSize)
  have hle : ∀ {x i : ℕ}, pairsBelow ((A.endAddr - A.base) / pageSize) i ≤ A.pos x i :=
    Nat.le_add_right _ _
  rcases Nat.lt_trichotomy o k with hlt | heq | hlt
  · have h1 := Arena.pos_lt (o := o) ha
    have h2 := hmono (show o + 1 ≤ k from hlt)
    have h3 := hle (x := c) (i := k)
    omega
  · exact heq
  · have h1 := Arena.pos_lt (o := k) hc
    have h2 := hmono (show k + 1 ≤ o from hlt)
    have h3 := hle (x := a) (i := o)
    omega

lemma Arena.pos_eq_iff (hA : A.Natural) (ho : o < maxOrder) (ha : A.base ≤ a)
    (hal : blockSize o ∣ a) (hc : A.base ≤ c) (hcl : blockSize (o + 1) ∣ c) :
    A.pos a o = A.pos c o ↔ a = c ∨ a = c + blockSize o := by
  have hbase := hA.base_dvd (o := o) ho.le
  have hcl' := (blockSize_dvd (Nat.le_succ o)).trans hcl
  obtain ⟨y, hy⟩ := hA.base_dvd (o := o + 1) ho
  obtain ⟨x, rfl⟩ := hal
  obtain ⟨z, rfl⟩ := hcl
  have hpos := blockSize_pos o
  have hdouble : ∀ w, blockSize (o + 1) * w = blockSize o * (2 * w) := fun w => by
    rw [blockSize_succ]
    ring
  rw [Arena.pos, Arena.pos, pair_index (dvd_mul_right _ _) hbase, pair_index hcl' hbase]
  rw [hdouble] at hy hc ⊢
  rw [hy] at ha hc
  have hx : 2 * y ≤ x := Nat.le_of_mul_le_mul_left ha hpos
  have hz : 2 * y ≤ 2 * z := Nat.le_of_mul_le_mul_left hc hpos
  have hsucc : blockSize o * (2 * z) + blockSize o = blockSize o * (2 * z + 1) := by ring
  rw [hy, hsucc, Nat.mul_div_cancel_left _ hpos, Nat.mul_div_cancel_left _ hpos,
    Nat.mul_div_cancel_left _ hpos, Nat.mul_right_inj hpos.ne', Nat.mul_right_inj hpos.ne']
  omega

end Positions

section Bits

lemma Owns.bitmapIndex_eq (h : Owns A b out L d) :
    b.bitmapIndex a o = (A.pos a o / 8, A.pos a o % 8) := by
  simp only [Buddy.bitmapIndex, Arena.pos, h.base, h.endAddr]

lemma Owns.toggle_bit (h : Owns A b out L d) : (b.bitmapToggle a o).1 = !A.bit b.mem a o := by
  have hlt : A.pos a o % 8 < 8 := Nat.mod_lt _ (by decide)
  unfold Buddy.bitmapToggle
  rw [h.bitmapIndex_eq, h.bitmap]
  simp only
  rw [Bytes.bit_eq_testBit _ hlt, Bytes.testBit_flip _ hlt, decide_eq_true rfl, Bool.xor_true]
  rfl

lemma Owns.bit_toggle (h : Owns A b out L d) :
    A.bit (b.bitmapToggle a o).2.mem c k = (A.bit b.mem c k ^^ decide (A.pos a o = A.pos c k)) := by
  have hlt : A.pos a o % 8 < 8 := Nat.mod_lt _ (by decide)
  unfold Buddy.bitmapToggle Arena.bit
  rw [h.bitmapIndex_eq, h.bitmap]
  simp only
  rw [Mem.write_singleton]
  by_cases hbyte : A.base + A.pos c k / 8 = A.base + A.pos a o / 8
  · rw [if_pos hbyte, Bytes.testBit_flip _ hlt, hbyte]
    congr 2
    exact propext ⟨fun h => by omega, fun h => by rw [h]⟩
  · rw [if_neg hbyte, decide_eq_false (fun heq => hbyte (by rw [heq])), Bool.xor_false]

lemma Writes.bit (hw : Writes (· ∈ A.pages) b b') (hc : c / pageSize ∈ A.pages)
    (hk : k ≤ maxOrder) : A.bit b'.mem c k = A.bit b.mem c k := by
  have hbyte := bit_in_bitmap (Arena.index_lt hc) hk
  unfold Arena.bit
  rw [hw]
  intro hp
  have h1 := A.above _ hp
  have h2 := A.base_aligned
  simp only [Arena.pos, pageSize] at *
  omega

end Bits

def parity (L : ℕ → List ℕ) (o a : ℕ) : Bool :=
  decide (a ∈ L o) ^^ decide (a + blockSize o ∈ L o)

def Exact (A : Arena) (m : Mem) (L : ℕ → List ℕ) : Prop :=
  ∀ o < maxOrder, ∀ a, blockSize (o + 1) ∣ a → A.Whole a (o + 1) → A.bit m a o = parity L o a

lemma Arena.Whole.first (h : A.Whole a o) : a / pageSize ∈ A.pages :=
  h _ (first_mem_blockPages (a, o))

namespace Exact

lemma frame (hex : Exact A b.mem L) (hw : Writes (· ∈ A.pages) b b') : Exact A b'.mem L := by
  intro o ho a hal hwhole
  rw [hw.bit hwhole.first ho.le]
  exact hex o ho a hal hwhole

lemma relist {m : Mem} (hex : Exact A m L)
    (h : ∀ o < maxOrder, ∀ a, blockSize (o + 1) ∣ a → A.Whole a (o + 1) →
      parity L' o a = parity L o a) : Exact A m L' := by
  intro o ho a hal hwhole
  rw [h o ho a hal hwhole]
  exact hex o ho a hal hwhole

variable {L0 : ℕ → List ℕ}

section

variable (hex : Exact A b.mem L) (hA : A.Natural) (h : Owns A b out L0 d) (hal : blockSize o ∣ a)
  (ha : a / pageSize ∈ A.pages)
include hex hA h hal ha

lemma flip {l : List ℕ} (hl : ∀ c, c ∈ l ↔ (c ∈ L o ↔ c ≠ a)) :
    Exact A (b.bitmapToggle a o).2.mem (Function.update L o l) := by
  intro k hk c hcl hwhole
  rw [h.bit_toggle, hex k hk c hcl hwhole]
  have hc := hwhole.first
  by_cases hko : k = o
  · subst hko
    have hiff := Arena.pos_eq_iff hA hk (Owns.addr_pos ha).1 hal (Owns.addr_pos hc).1 hcl
    have hsize := (blockSize_pos k).ne'
    have hflip : decide (a ∈ l) = !decide (a ∈ L k) := by
      have := hl a
      by_cases hm : a ∈ L k <;> simp_all
    have hsame : ∀ x, x ≠ a → decide (x ∈ l) = decide (x ∈ L k) := fun x hx =>
      decide_eq_decide.mpr ((hl x).trans (iff_true_right hx))
    unfold parity
    rw [Function.update_self]
    by_cases h1 : a = c
    · rw [decide_eq_true (hiff.mpr (.inl h1)), ← h1, hflip, hsame _ (by omega)]
      simp
    · rw [hsame c fun h => h1 h.symm]
      by_cases h2 : a = c + blockSize k
      · rw [decide_eq_true (hiff.mpr (.inr h2)), ← h2, hflip]
        simp
      · have hne : ¬ A.pos a k = A.pos c k := fun heq => (hiff.mp heq).elim h1 h2
        rw [hsame _ fun h => h2 h.symm, decide_eq_false hne, Bool.xor_false]
  · have hne : A.pos a o ≠ A.pos c k := fun heq => hko (Arena.pos_order ha hc heq).symm
    unfold parity
    rw [Function.update_of_ne hko, decide_eq_false hne, Bool.xor_false]

lemma put (hnot : a ∉ L o) :
    Exact A (b.bitmapToggle a o).2.mem (Function.update L o (a :: L o)) := by
  refine hex.flip hA h hal ha fun c => ?_
  rw [List.mem_cons]
  by_cases hca : c = a
  · subst hca
    simp [hnot]
  · simp [hca]

end

lemma toggle_top (hex : Exact A b.mem L) (h : Owns A b out L0 d) (ha : a / pageSize ∈ A.pages) :
    Exact A (b.bitmapToggle a maxOrder).2.mem L := by
  intro k hk c hcl hwhole
  have hne : A.pos a maxOrder ≠ A.pos c k := fun heq =>
    hk.ne' (Arena.pos_order ha hwhole.first heq)
  rw [h.bit_toggle, decide_eq_false hne, Bool.xor_false]
  exact hex k hk c hcl hwhole

end Exact

end Aios.Mm
