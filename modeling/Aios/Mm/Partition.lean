import Aios.Mm.AllocFree
import Aios.Lib.Runs

/-!
The free lists and the blocks handed out partition the managed pages.

A run starts with one of the two init functions and goes on with allocations, frees of
blocks that are handed out, and stores of the holders into their own blocks.
-/

namespace Aios.Mm

open Aios.Lib Multiset List

section Init

variable {A : Arena} {b : Buddy} {out : Multiset ℕ} {L : ℕ → List ℕ} {addr endAddr c p : ℕ}

lemma pickOrder_le (addr endAddr k : ℕ) : Buddy.pickOrder addr endAddr k ≤ k := by
  induction k with
  | zero => exact le_rfl
  | succ k ih =>
    unfold Buddy.pickOrder
    split_ifs
    · exact le_rfl
    · omega

lemma pickOrder_fits {k : ℕ} (h : addr + pageSize ≤ endAddr) :
    addr + blockSize (Buddy.pickOrder addr endAddr k) ≤ endAddr := by
  induction k with
  | zero => simpa [Buddy.pickOrder, blockSize] using h
  | succ k ih =>
    unfold Buddy.pickOrder
    split_ifs with hk
    · exact hk.2
    · exact ih

def pagesBetween (addr endAddr : ℕ) : Multiset ℕ :=
  Multiset.Ico (addr / pageSize) (endAddr / pageSize)

lemma mem_pagesBetween (ha : pageSize ∣ addr) (he : pageSize ∣ endAddr) :
    p ∈ pagesBetween addr endAddr ↔ addr ≤ p * pageSize ∧ (p + 1) * pageSize ≤ endAddr := by
  rw [pagesBetween, mem_Ico]
  simp only [pageSize] at *
  omega

lemma pagesBetween_empty (h : endAddr ≤ addr) : pagesBetween addr endAddr = 0 :=
  Multiset.Ico_eq_zero_of_le (Nat.div_le_div_right h)

lemma pickOrder_aligned (k : ℕ) (h : pageSize ∣ addr) :
    blockSize (Buddy.pickOrder addr endAddr k) ∣ addr := by
  induction k with
  | zero => simpa [Buddy.pickOrder, blockSize] using h
  | succ k ih =>
    unfold Buddy.pickOrder
    split_ifs with hk
    · exact Nat.dvd_of_mod_eq_zero hk.1
    · exact ih

lemma pickOrder_maximal {k o : ℕ} (ho : Buddy.pickOrder addr endAddr k < o) (hk : o ≤ k)
    (hal : blockSize o ∣ addr) : endAddr < addr + blockSize o := by
  induction k with
  | zero => omega
  | succ k ih =>
    unfold Buddy.pickOrder at ho
    split_ifs at ho with hfit
    · omega
    · by_cases hko : o = k + 1
      · subst hko
        by_contra hle
        exact hfit ⟨Nat.mod_eq_zero_of_dvd hal, by omega⟩
      · exact ih ho (by omega)

/-- The block is aligned, and the next larger one at its place runs over `e`. -/
structure Snug (e a o : ℕ) : Prop where
  aligned : blockSize o ∣ a
  le : a ≤ e
  maximal : o < maxOrder → blockSize (o + 1) ∣ a → e < a + blockSize (o + 1)

variable {l : List (ℕ × ℕ)} {n : ℕ}

section

variable (h : Owns A b (pagesBetween addr endAddr + out) L 0) (ha : pageSize ∣ addr)
  (he : pageSize ∣ endAddr)
include h ha he

/-- `add_aligned_blocks` puts every page of the range on a list, in the largest aligned blocks
that fit. -/
lemma Owns.addBlocks (hn : (endAddr - addr) / pageSize ≤ n) :
    ∃ L', Owns A (Buddy.addBlocks n b addr endAddr) out L' 0 ∧
      Writes (· ∈ A.pages) b (Buddy.addBlocks n b addr endAddr) ∧
      ∀ o, ∀ a ∈ L' o, a ∈ L o ∨ Snug endAddr a o := by
  induction n generalizing b addr L with
  | zero =>
    rw [pagesBetween_empty (by simp only [pageSize] at *; omega), zero_add] at h
    exact ⟨L, h, Writes.refl _ _, fun _ _ => .inl⟩
  | succ n ih =>
    unfold Buddy.addBlocks
    simp only
    generalize hord : Buddy.pickOrder addr endAddr maxOrder = order
    by_cases hend : endAddr < addr + blockSize order
    · rw [if_pos hend]
      have hfull : endAddr ≤ addr := by
        by_contra hlt
        have hfit : addr + blockSize (Buddy.pickOrder addr endAddr maxOrder) ≤ endAddr :=
          pickOrder_fits (by simp only [pageSize] at *; omega)
        rw [hord] at hfit
        omega
      rw [pagesBetween_empty hfull, zero_add] at h
      exact ⟨L, h, Writes.refl _ _, fun _ _ => .inl⟩
    · rw [if_neg hend]
      have hpow := Nat.two_pow_pos order
      have hcut : pagesBetween addr endAddr + out =
          (blockPages (addr, order)).val +
            (pagesBetween (addr + blockSize order) endAddr + out) := by
        have hle : (addr + blockSize order) / pageSize ≤ endAddr / pageSize :=
          Nat.div_le_div_right (by omega)
        rw [blockSize_div] at hle
        have := Multiset.Ico_add_Ico_eq_Ico (a := addr / pageSize)
          (b := addr / pageSize + 2 ^ order) (c := endAddr / pageSize) (by omega) hle
        rw [← add_assoc]
        simp only [pagesBetween, blockSize_div]
        rw [← this]
        rfl
      rw [hcut] at h
      obtain ⟨hpush, hw1⟩ := h.push (hord ▸ pickOrder_le _ _ _) ha
      have hsize : pageSize ≤ blockSize order := Nat.le_mul_of_pos_right _ hpow
      obtain ⟨L', hown, hw2, hnew⟩ := ih hpush (dvd_blockSize order ha) (by
        simp only [pageSize] at *
        omega)
      have hw1' := hw1.mono (Q := (· ∈ A.pages)) fun p hp => hp ▸ h.first_mem
      refine ⟨L', hown, hw1'.trans hw2, fun o a haL => ?_⟩
      rcases hnew o a haL with hold | hsnug
      · by_cases ho : o = order
        · subst ho
          rw [Function.update_self] at hold
          rcases mem_cons.mp hold with rfl | hold
          · refine .inr ⟨hord ▸ pickOrder_aligned maxOrder ha, by omega, fun hlt hal => ?_⟩
            exact pickOrder_maximal (hord ▸ Nat.lt_succ_self _) hlt hal
          · exact .inl hold
        · rw [Function.update_of_ne ho] at hold
          exact .inl hold
      · exact .inr hsnug

lemma Owns.addAlignedBlocks : ∃ L', Owns A (b.addAlignedBlocks addr endAddr) out L' 0 ∧
    Writes (· ∈ A.pages) b (b.addAlignedBlocks addr endAddr) ∧
    ∀ o, ∀ a ∈ L' o, a ∈ L o ∨ Snug endAddr a o :=
  h.addBlocks ha he le_rfl

end

def IsRange (e : ℕ × ℕ) : Prop := e.1 ≤ e.2 ∧ pageSize ∣ e.1 ∧ pageSize ∣ e.2

def walkPages (endAddr : ℕ) : List (ℕ × ℕ) → ℕ → Multiset ℕ
  | [], cursor => pagesBetween cursor endAddr
  | (es, ee) :: rest, cursor =>
    if es = ee then walkPages endAddr rest cursor
    else pagesBetween cursor (min es endAddr) + walkPages endAddr rest (max cursor ee)

lemma dvd_min {a c : ℕ} (ha : n ∣ a) (hc : n ∣ c) : n ∣ min a c := by
  rcases min_choice a c with h | h <;> rw [h] <;> assumption

lemma dvd_max {a c : ℕ} (ha : n ∣ a) (hc : n ∣ c) : n ∣ max a c := by
  rcases max_choice a c with h | h <;> rw [h] <;> assumption

def SegmentEnd (endAddr : ℕ) (l : List (ℕ × ℕ)) (e : ℕ) : Prop :=
  e = endAddr ∨ ∃ x ∈ l, x.1 ≠ x.2 ∧ e = x.1

lemma SegmentEnd.cons {e : ℕ} (x : ℕ × ℕ) (h : SegmentEnd endAddr l e) :
    SegmentEnd endAddr (x :: l) e :=
  h.imp_right fun ⟨y, hy, he⟩ => ⟨y, mem_cons_of_mem _ hy, he⟩

lemma Owns.walkExclusions (h : Owns A b (walkPages endAddr l c + out) L 0)
    (hl : ∀ e ∈ l, IsRange e) (hc : pageSize ∣ c) (he : pageSize ∣ endAddr) :
    ∃ L', Owns A (Buddy.walkExclusions endAddr l c b) out L' 0 ∧
      Writes (· ∈ A.pages) b (Buddy.walkExclusions endAddr l c b) ∧
      ∀ o, ∀ a ∈ L' o, a ∈ L o ∨ ∃ e, SegmentEnd endAddr l e ∧ Snug e a o := by
  induction l generalizing b c L with
  | nil =>
    unfold Buddy.walkExclusions
    split_ifs with hlt
    · obtain ⟨L', hown, hw, hnew⟩ := Owns.addAlignedBlocks h hc he
      exact ⟨L', hown, hw, fun o a ha => (hnew o a ha).imp_right fun hs => ⟨_, .inl rfl, hs⟩⟩
    · rw [walkPages, pagesBetween_empty (by omega), zero_add] at h
      exact ⟨L, h, Writes.refl _ _, fun _ _ => .inl⟩
  | cons e l ih =>
    obtain ⟨es, ee⟩ := e
    obtain ⟨-, hs, hee⟩ := hl _ mem_cons_self
    have hl' : ∀ e ∈ l, IsRange e := fun e he' => hl e (mem_cons_of_mem _ he')
    have hcons : ∀ {L1 L' : ℕ → List ℕ},
        (∀ o, ∀ a ∈ L' o, a ∈ L1 o ∨ ∃ e, SegmentEnd endAddr l e ∧ Snug e a o) →
        ∀ o, ∀ a ∈ L' o, a ∈ L1 o ∨ ∃ e, SegmentEnd endAddr ((es, ee) :: l) e ∧ Snug e a o :=
      fun hnew o a ha => (hnew o a ha).imp_right fun ⟨e, he', hsn⟩ => ⟨e, he'.cons _, hsn⟩
    unfold Buddy.walkExclusions
    rw [walkPages] at h
    by_cases hempty : es = ee
    · rw [if_pos hempty] at h ⊢
      obtain ⟨L', hown, hw, hnew⟩ := ih h hl' hc
      exact ⟨L', hown, hw, hcons hnew⟩
    · rw [if_neg hempty] at h ⊢
      by_cases hadd : c < es ∧ c < endAddr
      · rw [if_pos hadd]
        rw [add_assoc] at h
        obtain ⟨L1, h1, hw1, hnew1⟩ := h.addAlignedBlocks hc (dvd_min hs he)
        obtain ⟨L', hown, hw, hnew⟩ := ih h1 hl' (dvd_max hc hee)
        refine ⟨L', hown, hw1.trans hw, fun o a ha => ?_⟩
        rcases hcons hnew o a ha with hold | hnew
        · refine (hnew1 o a hold).imp_right fun hsn => ⟨_, ?_, hsn⟩
          rcases min_choice es endAddr with hm | hm <;> rw [hm]
          · exact .inr ⟨(es, ee), mem_cons_self, hempty, rfl⟩
          · exact .inl rfl
        · exact .inr hnew
      · rw [if_neg hadd]
        rw [pagesBetween_empty (by omega), zero_add] at h
        obtain ⟨L', hown, hw, hnew⟩ := ih h hl' (dvd_max hc hee)
        exact ⟨L', hown, hw, hcons hnew⟩

lemma walkPages_spec (hl : ∀ e ∈ l, IsRange e) (hsorted : l.Pairwise fun x y => x.1 ≤ y.1)
    (hc : pageSize ∣ c) (he : pageSize ∣ endAddr) :
    (walkPages endAddr l c).Nodup ∧ ∀ p, p ∈ walkPages endAddr l c ↔ c ≤ p * pageSize ∧
      (p + 1) * pageSize ≤ endAddr ∧ ∀ e ∈ l, ¬ (e.1 ≤ p * pageSize ∧ p * pageSize < e.2) := by
  induction l generalizing c with
  | nil =>
    refine ⟨nodup_Ico, fun p => ?_⟩
    rw [walkPages, mem_pagesBetween hc he]
    simp
  | cons e l ih =>
    obtain ⟨es, ee⟩ := e
    obtain ⟨hle, hs, hee⟩ := hl _ mem_cons_self
    have hl' : ∀ e ∈ l, IsRange e := fun e he' => hl e (mem_cons_of_mem _ he')
    obtain ⟨hfirst, hrest⟩ := pairwise_cons.mp hsorted
    unfold walkPages
    by_cases hempty : es = ee
    · rw [if_pos hempty]
      obtain ⟨hn, hm⟩ := ih hl' hrest hc
      refine ⟨hn, fun p => ?_⟩
      rw [hm p, List.forall_mem_cons]
      constructor
      · rintro ⟨h1, h2, h3⟩
        exact ⟨h1, h2, fun h => by simp only at h; omega, h3⟩
      · rintro ⟨h1, h2, -, h3⟩
        exact ⟨h1, h2, h3⟩
    · rw [if_neg hempty]
      obtain ⟨hn, hm⟩ := ih hl' hrest (dvd_max hc hee)
      refine ⟨nodup_add.mpr ⟨nodup_Ico, hn, ?_⟩, fun p => ?_⟩
      · -- the first segment ends where the exclusion starts, the rest is behind its end
        refine disjoint_left.mpr fun hp hp' => ?_
        have h1 := (mem_pagesBetween hc (dvd_min hs he)).mp hp
        have h2 := ((hm _).mp hp').1
        simp only [pageSize] at *
        omega
      · rw [mem_add, hm p, mem_pagesBetween hc (dvd_min hs he), List.forall_mem_cons]
        constructor
        · rintro (⟨h1, h2⟩ | ⟨h1, h2, h3⟩)
          · refine ⟨h1, by omega, fun h => ?_, fun e he' h => ?_⟩
            · simp only [pageSize] at *
              omega
            · have := hfirst e he'
              simp only [pageSize] at *
              omega
          · exact ⟨by omega, h2, fun h => by simp only at h; omega, h3⟩
        · rintro ⟨h1, h2, h3, h4⟩
          by_cases hp : p * pageSize < es
          · refine .inl ⟨h1, ?_⟩
            simp only [pageSize] at *
            omega
          · refine .inr ⟨?_, h2, h4⟩
            simp only at h3
            omega

end Init

inductive Setup
  | range (base endAddr : ℕ)
  | excluding (base endAddr : ℕ) (excl1 excl2 : ℕ × ℕ)

namespace Setup

def base : Setup → ℕ
  | range base _ => base
  | excluding base _ _ _ => base

def endAddr : Setup → ℕ
  | range _ endAddr => endAddr
  | excluding _ endAddr _ _ => endAddr

def exclusions : Setup → List (ℕ × ℕ)
  | range _ _ => []
  | excluding _ _ excl1 excl2 => [excl1, excl2]

def bitmapEnd (i : Setup) : ℕ :=
  i.base + bitmapPagesFor ((i.endAddr - i.base) / pageSize) * pageSize

def run (i : Setup) (mem : Mem) : Buddy :=
  match i with
  | range base endAddr => (Buddy.new mem).initWithRange base endAddr
  | excluding base endAddr excl1 excl2 =>
    (Buddy.new mem).initWithRangeExcluding base endAddr excl1 excl2

/-- What the init functions ask of their callers: a page-aligned range of physical
addresses (so that adding a block size to one does not wrap) and page-aligned exclusions. -/
structure Valid (i : Setup) : Prop where
  base_aligned : pageSize ∣ i.base
  end_aligned : pageSize ∣ i.endAddr
  base_lt : i.base < i.endAddr
  end_le : i.endAddr + blockSize maxOrder ≤ 2 ^ 64
  exclusions : ∀ e ∈ i.exclusions, IsRange e

def Usable (i : Setup) (p : ℕ) : Prop :=
  i.bitmapEnd ≤ p * pageSize ∧ (p + 1) * pageSize ≤ i.endAddr ∧
    ∀ e ∈ i.exclusions, ¬ (e.1 ≤ p * pageSize ∧ p * pageSize < e.2)

/-- The exclusions in the order `add_region_excluding3` walks them. -/
def sorted (i : Setup) : List (ℕ × ℕ) :=
  ((i.base, i.bitmapEnd) :: i.exclusions).insertionSort fun x y => x.1 ≤ y.1

def pages : Setup → Multiset ℕ
  | i@(range _ endAddr) => walkPages endAddr [] i.bitmapEnd
  | i@(excluding base endAddr _ _) => walkPages endAddr i.sorted base

variable {i : Setup}

lemma bitmapEnd_aligned (hi : i.Valid) : pageSize ∣ i.bitmapEnd :=
  Nat.dvd_add hi.base_aligned (Nat.dvd_mul_left _ _)

lemma mem_sorted {e : ℕ × ℕ} : e ∈ i.sorted ↔ e = (i.base, i.bitmapEnd) ∨ e ∈ i.exclusions := by
  rw [sorted, (List.perm_insertionSort _ _).mem_iff, List.mem_cons]

lemma sorted_ranges (hi : i.Valid) : ∀ e ∈ i.sorted, IsRange e := by
  intro e he
  rcases mem_sorted.mp he with rfl | he
  · exact ⟨Nat.le_add_right _ _, hi.base_aligned, bitmapEnd_aligned hi⟩
  · exact hi.exclusions e he

lemma pages_spec (hi : i.Valid) : i.pages.Nodup ∧ ∀ p, p ∈ i.pages ↔ i.Usable p := by
  cases i with
  | range base endAddr =>
    obtain ⟨hn, hm⟩ := walkPages_spec (l := []) (by simp) List.Pairwise.nil
      (bitmapEnd_aligned hi) hi.end_aligned
    exact ⟨hn, hm⟩
  | excluding base endAddr excl1 excl2 =>
    obtain ⟨hn, hm⟩ := walkPages_spec (sorted_ranges hi) (pairwise_insertionSort _ _)
      hi.base_aligned hi.end_aligned
    refine ⟨hn, fun p => (hm p).trans ?_⟩
    constructor
    · rintro ⟨h1, h2, h3⟩
      refine ⟨?_, h2, fun e he => h3 e (mem_sorted.mpr (.inr he))⟩
      have := h3 _ (mem_sorted.mpr (.inl rfl))
      simp only at this
      omega
    · rintro ⟨h1, h2, h3⟩
      have hb : base ≤ Setup.bitmapEnd (.excluding base endAddr excl1 excl2) :=
        Nat.le_add_right _ _
      refine ⟨hb.trans h1, h2, fun e he => ?_⟩
      rcases mem_sorted.mp he with rfl | he
      · simp only
        omega
      · exact h3 e he

lemma end_le_max (hi : i.Valid) : i.endAddr ≤ 2 ^ 64 := by
  have := hi.end_le
  omega

lemma above_bitmap (hi : i.Valid) {p : ℕ} (hp : p ∈ i.pages) :
    i.base / pageSize + bitmapPagesFor ((i.endAddr - i.base) / pageSize) ≤ p := by
  have h1 := (((pages_spec hi).2 p).mp hp).1
  have h2 := hi.base_aligned
  simp only [bitmapEnd, pageSize] at *
  omega

def arena (i : Setup) (hi : i.Valid) (hb : 0 < i.base) (initialized : Bool) : Arena where
  base := i.base
  endAddr := i.endAddr
  initialized := initialized
  pages := i.pages
  base_pos := hb
  base_aligned := hi.base_aligned
  end_le := end_le_max hi
  nodup := (pages_spec hi).1
  above := fun _ hp => above_bitmap hi hp
  below := fun p hp => (((pages_spec hi).2 p).mp hp).2.1

lemma segmentEnd_unusable (hi : i.Valid) {l : List (ℕ × ℕ)} {e : ℕ}
    (hl : ∀ x ∈ l, x = (i.base, i.bitmapEnd) ∨ x ∈ i.exclusions)
    (he : SegmentEnd i.endAddr l e) : e / pageSize ∉ i.pages := by
  intro hp
  obtain ⟨h1, h2, h3⟩ := ((pages_spec hi).2 _).mp hp
  rcases he with rfl | ⟨x, hx, hne, rfl⟩
  · simp only [pageSize] at *
    omega
  · rcases hl x hx with rfl | hx
    · have hal := hi.base_aligned
      have hle : i.base ≤ i.bitmapEnd := Nat.le_add_right _ _
      simp only [pageSize] at *
      omega
    · obtain ⟨hle, hal, -⟩ := hi.exclusions x hx
      have := h3 x hx
      simp only [pageSize] at *
      omega

lemma run_lists (hi : i.Valid) (hb : 0 < i.base) (mem : Mem) :
    ∃ L, Owns (i.arena hi hb true) (i.run mem) 0 L 0 ∧
      Writes (· ∈ i.pages) ((Buddy.new mem).setRange i.base i.endAddr) (i.run mem) ∧
      ∀ o, ∀ a ∈ L o, ∃ e, e / pageSize ∉ i.pages ∧ Snug e a o := by
  have hstart : Owns (i.arena hi hb false) ((Buddy.new mem).setRange i.base i.endAddr)
      (i.pages + 0) (fun _ => []) 0 := by
    refine ⟨rfl, rfl, rfl, rfl, fun _ _ => rfl, fun _ _ => rfl, fun _ _ _ h => ?_, ?_, ?_⟩
    · simp at h
    · simp [freePages, arena]
    · simp [freePages, Buddy.setRange, Buddy.new]
  cases i with
  | range base endAddr =>
    obtain ⟨L, h, hw, hnew⟩ :=
      hstart.addAlignedBlocks (bitmapEnd_aligned hi) hi.end_aligned
    refine ⟨L, { h with initialized := rfl }, hw, fun o a ha => ?_⟩
    rcases hnew o a ha with hold | hsn
    · simp at hold
    · exact ⟨_, segmentEnd_unusable hi (l := []) (by simp) (.inl rfl), hsn⟩
  | excluding base endAddr excl1 excl2 =>
    obtain ⟨L, h, hw, hnew⟩ :=
      hstart.walkExclusions (sorted_ranges hi) hi.base_aligned hi.end_aligned
    refine ⟨L, { h with initialized := rfl }, hw, fun o a ha => ?_⟩
    rcases hnew o a ha with hold | ⟨e, he, hsn⟩
    · simp at hold
    · exact ⟨e, segmentEnd_unusable hi (fun x hx => mem_sorted.mp hx) he, hsn⟩

lemma run_owns (hi : i.Valid) (hb : 0 < i.base) (mem : Mem) :
    ∃ L, Owns (i.arena hi hb true) (i.run mem) 0 L 0 := by
  obtain ⟨L, h, -⟩ := run_lists hi hb mem
  exact ⟨L, h⟩

end Setup

structure Sys where
  buddy : Buddy
  held : List (ℕ × ℕ)

inductive Call
  | alloc (order : ℕ)
  | free (addr order : ℕ)
  | store (addr : ℕ) (bytes : List UInt8)

/-- Frees name a block that is handed out with that order. A holder stores inside one of its
blocks and does not leave the poison pattern in the first word. -/
def Call.Ok (s : Sys) : Call → Prop
  | .alloc _ => True
  | .free addr order => (addr, order) ∈ s.held
  | .store addr bytes => ∃ x ∈ s.held, x.1 ≤ addr ∧ addr + bytes.length ≤ x.1 + blockSize x.2 ∧
      (s.buddy.mem.write addr bytes).readLe x.1 4 ≠ poisonPattern

instance (s : Sys) (c : Call) : Decidable (c.Ok s) :=
  match c with
  | .alloc _ => inferInstanceAs (Decidable True)
  | .free addr order => inferInstanceAs (Decidable ((addr, order) ∈ s.held))
  | .store addr bytes => inferInstanceAs (Decidable (∃ x ∈ s.held, x.1 ≤ addr ∧
      addr + bytes.length ≤ x.1 + blockSize x.2 ∧
      (s.buddy.mem.write addr bytes).readLe x.1 4 ≠ poisonPattern))

namespace Sys

def next (s : Sys) : Call → Option Sys
  | .alloc order =>
    match s.buddy.allocPages order with
    | (some addr, b) => some ⟨b, (addr, order) :: s.held⟩
    | (none, b) => some ⟨b, s.held⟩
  | .free addr order =>
    match s.buddy.freePages addr order with
    | .ok b => some ⟨b, s.held.erase (addr, order)⟩
    | .error _ => none
  | .store addr bytes =>
    some { s with buddy := { s.buddy with mem := s.buddy.mem.write addr bytes } }

def boot (i : Setup) (mem : Mem) : Sys := ⟨i.run mem, []⟩

/-- The lists in memory are `L`. -/
def OnLists (b : Buddy) (L : ℕ → List ℕ) : Prop :=
  ∀ o ≤ maxOrder, Chain b.next (b.freeHeads o) (L o)

lemma OnLists.eq_nil {b : Buddy} {L : ℕ → List ℕ} {o : ℕ} (h : OnLists b L) (ho : o ≤ maxOrder)
    (h0 : b.freeHeads o = 0) : L o = [] := by
  rcases (h o ho).head_cases with ⟨-, hl⟩ | ⟨-, -, hne, -⟩
  · exact hl
  · exact absurd h0 hne

lemma OnLists.ne_nil {b : Buddy} {L : ℕ → List ℕ} {o : ℕ} (h : OnLists b L) (ho : o ≤ maxOrder)
    (h0 : b.freeHeads o ≠ 0) : L o ≠ [] := by
  rcases (h o ho).head_cases with ⟨hz, -⟩ | ⟨l, hl, -, -⟩
  · exact absurd hz h0
  · rw [hl]
    exact cons_ne_nil _ _

/-- The free blocks and the blocks handed out are pairwise disjoint and cover exactly the
pages that init put on the lists, which are the pages of the range outside the bitmap and
the exclusions; `total_free` is the sum of the counts; and every block handed out can be
freed. -/
def Partitioned (i : Setup) (mem : Mem) (s : Sys) : Prop :=
  ∃ L₀ L, OnLists (boot i mem).buddy L₀ ∧ OnLists s.buddy L ∧
    (freeBlocks L ++ s.held).Pairwise (fun x y => Disjoint (blockPages x) (blockPages y)) ∧
    (∀ p, (∃ x ∈ freeBlocks L ++ s.held, p ∈ blockPages x) ↔
      ∃ x ∈ freeBlocks L₀, p ∈ blockPages x) ∧
    (∀ p, (∃ x ∈ freeBlocks L₀, p ∈ blockPages x) ↔ i.Usable p) ∧
    s.buddy.totalFree = ∑ o ∈ Finset.range (maxOrder + 1), s.buddy.freeCount o * 2 ^ o ∧
    ∀ x ∈ s.held, ∃ b, s.buddy.freePages x.1 x.2 = .ok b

structure Inv (A : Arena) (s : Sys) : Prop where
  owns : ∃ L, Owns A s.buddy (pagesOf s.held) L 0
  held : ∀ x ∈ s.held, x.2 ≤ maxOrder ∧ pageSize ∣ x.1 ∧
    s.buddy.mem.readLe x.1 4 ≠ poisonPattern

variable {A : Arena} {s t : Sys}

variable {x : ℕ × ℕ} {l : List (ℕ × ℕ)} {bytes : List UInt8}

lemma pagesOf_erase (hx : x ∈ l) : pagesOf l = (blockPages x).val + pagesOf (l.erase x) := by
  have hp := perm_cons_erase hx
  rw [pagesOf, (hp.map _).sum_eq]
  exact pagesOf_cons _ _

lemma held_untouched {b b' : Buddy}
    (hl : ∀ x ∈ l, x.2 ≤ maxOrder ∧ pageSize ∣ x.1 ∧ b.mem.readLe x.1 4 ≠ poisonPattern)
    (h : Untouched (pagesOf l) b b') :
    ∀ x ∈ l, x.2 ≤ maxOrder ∧ pageSize ∣ x.1 ∧ b'.mem.readLe x.1 4 ≠ poisonPattern := by
  intro x hx
  obtain ⟨h1, h2, h3⟩ := hl x hx
  refine ⟨h1, h2, ?_⟩
  rwa [h.readLe h2 (mem_pagesOf.mpr ⟨x, hx, first_mem_blockPages x⟩) (by decide)]

lemma Inv.free (hA : A.initialized = true) (h : Inv A s) (hx : x ∈ s.held) :
    ∃ b, s.buddy.freePages x.1 x.2 = .ok b ∧ Inv A ⟨b, s.held.erase x⟩ := by
  obtain ⟨L, hown⟩ := h.owns
  obtain ⟨ho, ha, hclean⟩ := h.held x hx
  rw [pagesOf_erase hx] at hown
  obtain ⟨b, L', hfree, hown', hsame⟩ := hown.free ha ho hA hclean
  refine ⟨b, hfree, ⟨L', hown'⟩, held_untouched (fun y hy => ?_) hsame⟩
  exact h.held y (mem_of_mem_erase hy)

lemma Inv.alloc (h : Inv A s) (o : ℕ) (ht : s.next (.alloc o) = some t) : Inv A t := by
  obtain ⟨L, hown⟩ := h.owns
  rcases hown.alloc o with heq | ⟨a, b, heq, ho, ha, ⟨L', hown'⟩, hsame, hclean⟩
  · simp only [next, heq, Option.some.injEq] at ht
    exact ht ▸ h
  · simp only [next, heq, Option.some.injEq] at ht
    subst ht
    refine ⟨⟨L', by rwa [pagesOf_cons]⟩, forall_mem_cons.mpr ⟨⟨ho, ha, hclean⟩, ?_⟩⟩
    exact held_untouched h.held hsame

lemma store_writes (b : Buddy) {addr : ℕ} (ha : pageSize ∣ x.1) (hlow : x.1 ≤ addr)
    (hhigh : addr + bytes.length ≤ x.1 + blockSize x.2) :
    Writes (· ∈ blockPages x) b { b with mem := b.mem.write addr bytes } := by
  intro y hy
  refine Mem.write_outside ?_
  have hy' : ¬ (x.1 / pageSize ≤ y / pageSize ∧ y / pageSize < x.1 / pageSize + 2 ^ x.2) :=
    fun hh => hy (Finset.mem_Ico.mpr hh)
  simp only [blockSize, pageSize] at *
  omega

lemma Inv.store (h : Inv A s) {addr : ℕ} (hok : (Call.store addr bytes).Ok s) :
    Inv A { s with buddy := { s.buddy with mem := s.buddy.mem.write addr bytes } } := by
  obtain ⟨L, hown⟩ := h.owns
  obtain ⟨x, hx, hlow, hhigh, hclean⟩ := hok
  obtain ⟨ho, ha, -⟩ := h.held x hx
  have hwrites := store_writes s.buddy ha hlow hhigh
  have hcover := hown
  rw [pagesOf_erase hx] at hcover
  obtain ⟨hkeep, huntouched⟩ := hcover.inside hwrites
  rw [← pagesOf_erase hx] at hkeep
  refine ⟨⟨L, hkeep⟩, fun y hy => ?_⟩
  by_cases hyx : y = x
  · exact hyx ▸ ⟨ho, ha, hclean⟩
  · -- another block: its pages are not those of `x`
    have hl : ∀ z ∈ s.held.erase x, z.2 ≤ maxOrder ∧ pageSize ∣ z.1 ∧
        s.buddy.mem.readLe z.1 4 ≠ poisonPattern :=
      fun z hz => h.held z (List.mem_of_mem_erase hz)
    exact held_untouched hl huntouched y ((List.mem_erase_of_ne hyx).mpr hy)

lemma Inv.step (hA : A.initialized = true) (h : Inv A s) {c : Call} (hok : c.Ok s)
    (ht : s.next c = some t) : Inv A t := by
  cases c with
  | alloc o => exact h.alloc o ht
  | free a o =>
    obtain ⟨b, hfree, hinv⟩ := h.free hA hok
    simp only [next, hfree, Option.some.injEq] at ht
    exact ht ▸ hinv
  | store a bytes =>
    cases ht
    exact h.store hok

/-- **The allocator partitions its pages.** In every run after either init function, over a
range that does not start at address `0`, the free lists and the blocks handed out partition
the usable pages. -/
theorem buddy_partition {i : Setup} (hi : i.Valid) (hb : 0 < i.base) (mem : Mem) {s : Sys}
    (hrun : Runs (fun s c t => s.next c = some t) (fun s c => c.Ok s) (boot i mem) s) :
    Partitioned i mem s := by
  obtain ⟨L₀, hown₀⟩ := Setup.run_owns hi hb mem
  have hinv : Inv (i.arena hi hb true) s :=
    hrun.inv _ ⟨⟨L₀, hown₀⟩, by simp [boot]⟩ fun a c b ha hok hs => ha.step rfl hok hs
  obtain ⟨L, hown⟩ := hinv.owns
  have hpages : ∀ p, (∃ x ∈ freeBlocks L₀, p ∈ blockPages x) ↔ p ∈ i.pages := by
    intro p
    have h0 : freePages L₀ + 0 = i.pages := hown₀.cover
    rw [← h0, ← pagesOf_freeBlocks, add_zero, mem_pagesOf]
  have hcover : pagesOf (freeBlocks L ++ s.held) = i.pages := by
    rw [pagesOf_append, pagesOf_freeBlocks]
    exact hown.cover
  refine ⟨L₀, L, hown₀.chain, hown.chain, ?_, ?_, ?_, ?_, ?_⟩
  · exact pairwise_disjoint (hcover ▸ (Setup.pages_spec hi).1)
  · intro p
    rw [hpages p, ← hcover, mem_pagesOf]
  · exact fun p => (hpages p).trans ((Setup.pages_spec hi).2 p)
  · rw [hown.total, add_zero, card_freePages]
    refine Finset.sum_congr rfl fun o ho => ?_
    rw [hown.count o (by have := Finset.mem_range.mp ho; omega)]
  · intro x hx
    obtain ⟨b, hfree, -⟩ := hinv.free rfl hx
    exact ⟨b, hfree⟩

/-- The partition on a range of four pages, after a block has been split, freed and merged. -/
theorem buddy_partition_four_pages : ∃ s,
    Runs.exec (fun s c => Call.Ok s c) next (boot (.range 0x1000 0x5000) fun _ => 0)
      [.alloc 0, .alloc 0, .free 0x2000 0] = some s ∧
    Partitioned (.range 0x1000 0x5000) (fun _ => 0) s := by
  have hsome : (Runs.exec (fun s c => Call.Ok s c) next (boot (.range 0x1000 0x5000) fun _ => 0)
      [.alloc 0, .alloc 0, .free 0x2000 0]).isSome = true := by decide +kernel
  obtain ⟨s, hs⟩ := Option.isSome_iff_exists.mp hsome
  refine ⟨s, hs, buddy_partition ⟨?_, ?_, ?_, ?_, ?_⟩ ?_ _ (Runs.of_exec hs)⟩
  · decide
  · decide
  · decide
  · decide
  · simp [Setup.exclusions]
  · decide

lemma card_pagesOf (l : List (ℕ × ℕ)) : (pagesOf l).card = (l.map (2 ^ ·.2)).sum := by
  induction l with
  | nil => rfl
  | cons x l ih => rw [pagesOf_cons, card_add, card_blockPages, ih, List.map_cons, List.sum_cons]

/-- **No page is lost.** In every run after either init function, the pages on the free lists and
those of the blocks handed out add up to what init put on the lists. -/
theorem pages_conserved {i : Setup} (hi : i.Valid) (hb : 0 < i.base) (mem : Mem) {s : Sys}
    (hrun : Runs (fun s c t => s.next c = some t) (fun s c => c.Ok s) (boot i mem) s) :
    s.buddy.totalFree + (s.held.map (2 ^ ·.2)).sum = (i.run mem).totalFree := by
  obtain ⟨L₀, hown₀⟩ := Setup.run_owns hi hb mem
  have hinv : Inv (i.arena hi hb true) s :=
    hrun.inv _ ⟨⟨L₀, hown₀⟩, by simp [boot]⟩ fun a c b ha hok hs => ha.step rfl hok hs
  obtain ⟨L, hown⟩ := hinv.owns
  have hcover := congrArg Multiset.card (hown.cover.trans hown₀.cover.symm)
  rw [card_add, card_add, card_pagesOf, card_zero] at hcover
  rw [hown.total, hown₀.total]
  omega

theorem pages_conserved_four_pages : ∃ s,
    Runs.exec (fun s c => Call.Ok s c) next (boot (.range 0x1000 0x5000) fun _ => 0)
      [.alloc 0] = some s ∧ s.buddy.totalFree + (s.held.map (2 ^ ·.2)).sum = 3 :=
  (Option.isSome_iff_exists.mp (by decide +kernel)).imp fun s hs => ⟨hs,
    (pages_conserved ⟨by decide, by decide, by decide, by decide, by simp [Setup.exclusions]⟩
      (by decide) _ (Runs.of_exec hs)).trans (by decide +kernel)⟩

/-- On a range that starts at address `0`, freeing page `1` asks for the buddy at address `0`,
which is the bitmap. The list of order `0` is empty, so its head is `0` too, and the removal
answers `true`: the bitmap page is merged into a block at address `0`, and the list it is
pushed on is lost. -/
theorem buddy_merges_bitmap_page : (Setup.range 0 0x4000).Valid ∧ ∃ s,
    Runs (fun s c t => next s c = some t) (fun s c => c.Ok s)
      (boot (.range 0 0x4000) fun _ => 0) s ∧
    ¬ Partitioned (.range 0 0x4000) (fun _ => 0) s := by
  refine ⟨⟨by decide, by decide, by decide, by decide, by simp [Setup.exclusions]⟩, ?_⟩
  have hrun : ((Runs.exec (fun s c => Call.Ok s c) next (boot (.range 0 0x4000) fun _ => 0)
      [.alloc 0, .free 0x1000 0]).any fun s =>
        s.held.isEmpty && (List.range (maxOrder + 1)).all fun o => s.buddy.freeHeads o == 0) =
      true := by decide +kernel
  obtain ⟨s, hs, hempty⟩ := (Option.any_eq_true _ _).mp hrun
  refine ⟨s, Runs.of_exec hs, ?_⟩
  rintro ⟨L₀, L, h₀, hL, -, hcover, -⟩
  simp only [Bool.and_eq_true, List.isEmpty_iff, List.all_eq_true, List.mem_range,
    beq_iff_eq] at hempty
  obtain ⟨hheld, hheads⟩ := hempty
  -- page `1` was on the list of order `0`, and now no list has a block
  have hfirst : (boot (.range 0 0x4000) fun _ => 0).buddy.freeHeads 0 = 0x1000 := by
    decide +kernel
  have hfree : freeBlocks L = [] := by
    refine List.flatMap_eq_nil_iff.mpr fun o ho => ?_
    have ho' := List.mem_range.mp ho
    rw [hL.eq_nil (by omega) (hheads o ho'), List.map_nil]
  obtain ⟨l, hl⟩ : ∃ l, L₀ 0 = 0x1000 :: l := by
    have hc := h₀ 0 (by omega)
    rw [hfirst] at hc
    rcases hc.head_cases with ⟨h0, -⟩ | ⟨l, hl, -, -⟩
    · simp at h0
    · exact ⟨l, hl⟩
  have hpage : ∃ x ∈ freeBlocks L₀, 1 ∈ blockPages x := by
    refine ⟨(0x1000, 0), mem_flatMap.mpr ⟨0, by decide, ?_⟩, by decide⟩
    rw [hl]
    exact List.mem_cons_self
  rw [← hcover, hfree, hheld] at hpage
  simp at hpage

end Sys

end Aios.Mm
