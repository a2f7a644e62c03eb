import Aios.Mm.Buddy

/-!
Blocks and lists of blocks as collections of pages.

Pages are counted with multiplicity, so that a collection without repetition is at once the
statement that the blocks are pairwise disjoint and that no block is listed twice.
-/

namespace Aios.Mm

open Aios.Lib Multiset Function List Finset

def blockPages (x : ℕ × ℕ) : Finset ℕ :=
  Finset.Ico (x.1 / pageSize) (x.1 / pageSize + 2 ^ x.2)

def pagesOf (l : List (ℕ × ℕ)) : Multiset ℕ := (l.map fun x => (blockPages x).val).sum

def freeBlocks (L : ℕ → List ℕ) : List (ℕ × ℕ) :=
  (List.range (maxOrder + 1)).flatMap fun o => (L o).map (·, o)

def freePages (L : ℕ → List ℕ) : Multiset ℕ :=
  ∑ o ∈ Finset.range (maxOrder + 1), pagesOf ((L o).map (·, o))

@[simp] lemma pagesOf_nil : pagesOf [] = 0 := rfl

@[simp] lemma pagesOf_cons (x : ℕ × ℕ) (l : List (ℕ × ℕ)) :
    pagesOf (x :: l) = (blockPages x).val + pagesOf l := by simp [pagesOf]

@[simp] lemma pagesOf_append (l l' : List (ℕ × ℕ)) :
    pagesOf (l ++ l') = pagesOf l + pagesOf l' := by simp [pagesOf]

lemma mem_pagesOf {l : List (ℕ × ℕ)} {p : ℕ} : p ∈ pagesOf l ↔ ∃ x ∈ l, p ∈ blockPages x := by
  induction l with
  | nil => simp
  | cons y l ih => simp [ih]

lemma first_mem_blockPages (x : ℕ × ℕ) : x.1 / pageSize ∈ blockPages x := by
  have := Nat.two_pow_pos x.2
  simp only [blockPages, Finset.mem_Ico]
  omega

@[simp] lemma card_blockPages (x : ℕ × ℕ) : (blockPages x).val.card = 2 ^ x.2 := by
  have h : (blockPages x).card = 2 ^ x.2 := by simp [blockPages]
  exact h

lemma card_pagesOf_map (l : List ℕ) (o : ℕ) : (pagesOf (l.map (·, o))).card = l.length * 2 ^ o := by
  induction l with
  | nil => simp
  | cons a l ih =>
    simp only [List.map_cons, pagesOf_cons, card_add, card_blockPages, ih, List.length_cons]
    ring

lemma blockSize_div (a o : ℕ) : (a + blockSize o) / pageSize = a / pageSize + 2 ^ o :=
  Nat.add_mul_div_left _ _ (by decide)

lemma blockPages_split (a o : ℕ) : (blockPages (a, o + 1)).val =
    (blockPages (a, o)).val + (blockPages (a + blockSize o, o)).val := by
  have hup : a / pageSize + 2 ^ o + 2 ^ o = a / pageSize + 2 ^ (o + 1) := by
    rw [pow_succ]; omega
  have h := Multiset.Ico_add_Ico_eq_Ico (a := a / pageSize) (b := a / pageSize + 2 ^ o)
    (c := a / pageSize + 2 ^ (o + 1)) (Nat.le_add_right _ _)
    (by rw [← hup]; exact Nat.le_add_right _ _)
  simp only [blockPages, blockSize_div, hup]
  exact h.symm

lemma pagesOf_flatMap (l : List ℕ) (f : ℕ → List (ℕ × ℕ)) :
    pagesOf (l.flatMap f) = (l.map fun o => pagesOf (f o)).sum := by
  induction l with
  | nil => simp
  | cons o l ih => simp [ih]

lemma pagesOf_freeBlocks (L : ℕ → List ℕ) : pagesOf (freeBlocks L) = freePages L := by
  rw [freeBlocks, pagesOf_flatMap, freePages]
  rfl

lemma pairwise_disjoint {l : List (ℕ × ℕ)} (h : (pagesOf l).Nodup) :
    l.Pairwise fun x y => Disjoint (blockPages x) (blockPages y) := by
  induction l with
  | nil => exact List.Pairwise.nil
  | cons x l ih =>
    rw [pagesOf_cons, nodup_add] at h
    obtain ⟨-, hl, hd⟩ := h
    refine List.Pairwise.cons (fun y hy => disjoint_left.mpr fun p hx hp => ?_) (ih hl)
    exact disjoint_left.mp hd hx (mem_pagesOf.mpr ⟨y, hy, hp⟩)

section Lists

variable {L : ℕ → List ℕ} {o : ℕ}

lemma freePages_eq (L : ℕ → List ℕ) (ho : o ≤ maxOrder) :
    freePages L = pagesOf ((L o).map (·, o)) +
      ∑ i ∈ (Finset.range (maxOrder + 1)).erase o, pagesOf ((L i).map (·, i)) :=
  (add_sum_erase _ _ (mem_range.mpr (by omega))).symm

lemma freePages_update (ho : o ≤ maxOrder) (l : List ℕ) :
    freePages (update L o l) + pagesOf ((L o).map (·, o)) =
      freePages L + pagesOf (l.map (·, o)) := by
  have hrest : ∑ i ∈ (Finset.range (maxOrder + 1)).erase o,
      pagesOf ((update L o l i).map (·, i)) =
      ∑ i ∈ (Finset.range (maxOrder + 1)).erase o, pagesOf ((L i).map (·, i)) := by
    refine sum_congr rfl fun i hi => ?_
    rw [update_of_ne (ne_of_mem_erase hi)]
  rw [freePages_eq (update L o l) ho, freePages_eq L ho, hrest, update_self]
  abel

lemma mem_freePages {a : ℕ} (ho : o ≤ maxOrder) (ha : a ∈ L o) : a / pageSize ∈ freePages L := by
  rw [freePages_eq L ho]
  refine mem_add.mpr (.inl (mem_pagesOf.mpr ⟨(a, o), ?_, first_mem_blockPages _⟩))
  exact mem_map.mpr ⟨a, ha, rfl⟩

lemma mem_freePages_iff {p : ℕ} :
    p ∈ freePages L ↔ ∃ o ≤ maxOrder, ∃ a ∈ L o, p ∈ blockPages (a, o) := by
  rw [freePages, mem_sum]
  constructor
  · rintro ⟨o, ho, hp⟩
    obtain ⟨x, hx, hp⟩ := mem_pagesOf.mp hp
    obtain ⟨a, ha, rfl⟩ := List.mem_map.mp hx
    exact ⟨o, Nat.lt_succ_iff.mp (Finset.mem_range.mp ho), a, ha, hp⟩
  · rintro ⟨o, ho, a, ha, hp⟩
    exact ⟨o, Finset.mem_range.mpr (Nat.lt_succ_of_le ho),
      mem_pagesOf.mpr ⟨(a, o), List.mem_map.mpr ⟨a, ha, rfl⟩, hp⟩⟩

lemma order_unique {p i a c : ℕ} (hn : (freePages L).Nodup) (ho : o ≤ maxOrder)
    (hi : i ≤ maxOrder) (ha : a ∈ L o) (hpa : p ∈ blockPages (a, o)) (hc : c ∈ L i)
    (hpc : p ∈ blockPages (c, i)) : i = o := by
  by_contra hio
  rw [freePages_eq L ho, nodup_add] at hn
  obtain ⟨-, -, hd⟩ := hn
  refine disjoint_left.mp hd (mem_pagesOf.mpr ⟨(a, o), mem_map.mpr ⟨a, ha, rfl⟩,
    hpa⟩) (mem_sum.mpr ⟨i, ?_, ?_⟩)
  · exact Finset.mem_erase.mpr ⟨hio, Finset.mem_range.mpr (by omega)⟩
  · exact mem_pagesOf.mpr ⟨(c, i), List.mem_map.mpr ⟨c, hc, rfl⟩, hpc⟩

lemma node_unique {a i : ℕ} (hn : (freePages L).Nodup) (ho : o ≤ maxOrder) (hi : i ≤ maxOrder)
    (hio : i ≠ o) (ha : a ∈ L o) : a ∉ L i := fun hai =>
  hio (order_unique hn ho hi ha (first_mem_blockPages (a, o)) hai (first_mem_blockPages (a, i)))

lemma nodes_nodup (hn : (freePages L).Nodup) (ho : o ≤ maxOrder) : (L o).Nodup := by
  rw [freePages_eq L ho, nodup_add] at hn
  have h := pairwise_disjoint hn.1
  rw [pairwise_map] at h
  refine h.imp fun {a c} hac heq => ?_
  subst heq
  exact disjoint_left.mp hac (first_mem_blockPages (a, o)) (first_mem_blockPages (a, o))

lemma length_le_card (ho : o ≤ maxOrder) : (L o).length ≤ (freePages L).card := by
  have hpos := Nat.two_pow_pos o
  rw [freePages_eq L ho, card_add, card_pagesOf_map]
  calc (L o).length ≤ (L o).length * 2 ^ o := Nat.le_mul_of_pos_right _ hpos
    _ ≤ _ := Nat.le_add_right _ _

lemma card_freePages (L : ℕ → List ℕ) :
    (freePages L).card = ∑ o ∈ Finset.range (maxOrder + 1), (L o).length * 2 ^ o := by
  rw [freePages, card_sum]
  exact sum_congr rfl fun o _ => card_pagesOf_map _ _

end Lists

end Aios.Mm
