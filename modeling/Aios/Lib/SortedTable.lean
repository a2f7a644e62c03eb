import Mathlib

/-!
Tables kept as lists sorted by key.

A table carries the proof that its keys increase strictly, so a key is in it at most once, and
a sum over the entries moves by one term when one key is written.
-/

namespace Aios.Lib

open List

structure SortedTable (K V : Type*) [LinearOrder K] where
  entries : List (K × V)
  sorted : entries.Pairwise fun x y => x.1 < y.1

namespace SortedTable

variable {K V : Type*} [LinearOrder K]

def find (k : K) : List (K × V) → Option V
  | [] => none
  | (a, v) :: l => if a = k then some v else find k l

/-- The entries with the value of `k` set, at its place in the order. -/
def place (k : K) (v : V) : List (K × V) → List (K × V)
  | [] => [(k, v)]
  | (a, w) :: l =>
    if k < a then (k, v) :: (a, w) :: l
    else if k = a then (k, v) :: l
    else (a, w) :: place k v l

variable {l : List (K × V)} {f g : K → V → ℕ}

lemma place_keys {k : K} {v : V} {p : K × V} (h : p ∈ place k v l) : p.1 = k ∨ p ∈ l := by
  induction l with
  | nil =>
    rw [place, mem_singleton] at h
    exact .inl (h ▸ rfl)
  | cons e l ih =>
    obtain ⟨a, w⟩ := e
    unfold place at h
    split_ifs at h with h1 h2
    · rcases mem_cons.mp h with rfl | h
      · exact .inl rfl
      · exact .inr h
    · rcases mem_cons.mp h with rfl | h
      · exact .inl rfl
      · exact .inr (mem_cons_of_mem _ h)
    · rcases mem_cons.mp h with rfl | h
      · exact .inr mem_cons_self
      · rcases ih h with h | h
        · exact .inl h
        · exact .inr (mem_cons_of_mem _ h)

lemma place_sorted {k : K} {v : V} (h : l.Pairwise fun x y => x.1 < y.1) :
    (place k v l).Pairwise fun x y => x.1 < y.1 := by
  induction l with
  | nil => exact pairwise_singleton _ _
  | cons e l ih =>
    obtain ⟨a, w⟩ := e
    obtain ⟨hhead, htail⟩ := pairwise_cons.mp h
    unfold place
    split_ifs with h1 h2
    · refine pairwise_cons.mpr ⟨fun p hp => ?_, h⟩
      rcases mem_cons.mp hp with rfl | hp
      · exact h1
      · exact h1.trans (hhead p hp)
    · exact pairwise_cons.mpr ⟨fun p hp => h2 ▸ hhead p hp, htail⟩
    · refine pairwise_cons.mpr ⟨fun p hp => ?_, ih htail⟩
      rcases place_keys hp with hp | hp
      · have hak : a < k := lt_of_le_of_ne (not_lt.mp h1) (Ne.symm h2)
        rwa [hp]
      · exact hhead p hp

lemma find_place_self (k : K) (v : V) (l : List (K × V)) : find k (place k v l) = some v := by
  induction l with
  | nil => simp [place, find]
  | cons e l ih =>
    obtain ⟨a, w⟩ := e
    unfold place
    split_ifs with h1 h2
    · simp [find]
    · simp [find]
    · simp [find, Ne.symm h2, ih]

lemma find_place_ne {k k' : K} (hk : k' ≠ k) (v : V) (l : List (K × V)) :
    find k' (place k v l) = find k' l := by
  induction l with
  | nil => simp [place, find, Ne.symm hk]
  | cons e l ih =>
    obtain ⟨a, w⟩ := e
    unfold place
    split_ifs with h1 h2
    · simp [find, Ne.symm hk]
    · subst h2
      simp [find, Ne.symm hk]
    · simp [find, ih]

lemma length_place {k : K} {v : V} (h : find k l = none) : (place k v l).length = l.length + 1 := by
  induction l with
  | nil => rfl
  | cons e l ih =>
    obtain ⟨a, w⟩ := e
    by_cases ha : a = k
    · simp [find, ha] at h
    · rw [find, if_neg ha] at h
      unfold place
      split_ifs with h1 h2
      · rfl
      · exact absurd h2.symm ha
      · simp [ih h]

lemma find_none {k : K} (h : ∀ p ∈ l, p.1 ≠ k) : find k l = none := by
  induction l with
  | nil => rfl
  | cons e l ih =>
    obtain ⟨a, w⟩ := e
    rw [find, if_neg (h (a, w) mem_cons_self)]
    exact ih fun p hp => h p (mem_cons_of_mem _ hp)

lemma find_filter_ne {k k' : K} (hk : k' ≠ k) (l : List (K × V)) :
    find k' (l.filter (·.1 ≠ k)) = find k' l := by
  induction l with
  | nil => rfl
  | cons e l ih =>
    obtain ⟨a, w⟩ := e
    by_cases ha : a = k
    · subst ha
      rw [filter_cons_of_neg (by simp), ih, find, if_neg (Ne.symm hk)]
    · rw [filter_cons_of_pos (by simpa using ha), find, find, ih]

lemma length_filter_ne {k : K} {v : V} (hs : l.Pairwise fun x y => x.1 < y.1)
    (h : find k l = some v) : (l.filter (·.1 ≠ k)).length + 1 = l.length := by
  induction l with
  | nil => simp [find] at h
  | cons e l ih =>
    obtain ⟨a, w⟩ := e
    obtain ⟨hhead, htail⟩ := pairwise_cons.mp hs
    by_cases ha : a = k
    · -- the other keys are larger, so nothing else is dropped
      subst ha
      have hall : l.filter (·.1 ≠ a) = l :=
        filter_eq_self.mpr fun p hp => by simpa using (hhead p hp).ne'
      rw [filter_cons_of_neg (by simp), hall, length_cons]
    · rw [find, if_neg ha] at h
      rw [filter_cons_of_pos (by simpa using ha), length_cons, length_cons, ih htail h]

lemma find_map (k k' : K) (f : V → V) (l : List (K × V)) :
    find k' (l.map fun e => if e.1 = k then (e.1, f e.2) else e) =
      if k' = k then (find k' l).map f else find k' l := by
  induction l with
  | nil => simp [find]
  | cons e l ih =>
    obtain ⟨a, w⟩ := e
    rw [map_cons]
    by_cases hk : k' = k
    · subst hk
      by_cases ha : a = k'
      · simp [find, ha]
      · simp only [if_neg ha, if_true, find] at ih ⊢
        exact ih
    · by_cases ha : a = k
      · have : k ≠ k' := Ne.symm hk
        simp only [ha, if_true, find, if_neg this, if_neg hk] at ih ⊢
        exact ih
      · simp only [if_neg ha, find, ih, if_neg hk]

variable (t : SortedTable K V)

def empty : SortedTable K V := ⟨[], List.Pairwise.nil⟩

def get (k : K) : Option V := find k t.entries

def size : ℕ := t.entries.length

def insert (k : K) (v : V) : SortedTable K V := ⟨place k v t.entries, place_sorted t.sorted⟩

def adjust (k : K) (f : V → V) : SortedTable K V where
  entries := t.entries.map fun e => if e.1 = k then (e.1, f e.2) else e
  sorted := by
    rw [pairwise_map]
    refine t.sorted.imp fun {x y} h => ?_
    split_ifs <;> exact h

def erase (k : K) : SortedTable K V where
  entries := t.entries.filter (·.1 ≠ k)
  sorted := t.sorted.filter _

variable {t} {k k' : K} {v : V}

@[simp] lemma get_empty (k : K) : (empty : SortedTable K V).get k = none := rfl

@[simp] lemma size_empty : (empty : SortedTable K V).size = 0 := rfl

lemma get_insert (k k' : K) (v : V) :
    (t.insert k v).get k' = if k' = k then some v else t.get k' := by
  split_ifs with h
  · subst h
    exact find_place_self _ _ _
  · exact find_place_ne h _ _

lemma size_insert (h : t.get k = none) : (t.insert k v).size = t.size + 1 := length_place h

lemma get_adjust (k k' : K) (f : V → V) :
    (t.adjust k f).get k' = if k' = k then (t.get k').map f else t.get k' := find_map _ _ _ _

@[simp] lemma size_adjust (k : K) (f : V → V) : (t.adjust k f).size = t.size := by
  simp [size, adjust]

lemma get_erase (k k' : K) : (t.erase k).get k' = if k' = k then none else t.get k' := by
  split_ifs with h
  · subst h
    refine find_none fun p hp => ?_
    simpa using (mem_filter.mp hp).2
  · exact find_filter_ne h _

lemma size_erase (h : t.get k = some v) : (t.erase k).size + 1 = t.size :=
  length_filter_ne t.sorted h

lemma find_isSome {k : K} {v : V} (h : (k, v) ∈ l) : (find k l).isSome := by
  induction l with
  | nil => simp at h
  | cons p l ih =>
    obtain ⟨a, w⟩ := p
    rw [find]
    split_ifs with ha
    · rfl
    · rcases mem_cons.mp h with heq | h
      · exact absurd (congrArg Prod.fst heq).symm ha
      · exact ih h

/-- A table that lacks a key of `S` has fewer entries than `S`, if all its keys are in `S`. -/
lemma size_lt_card {S : Finset K} (hsub : ∀ k v, t.get k = some v → k ∈ S) (hk : k ∈ S)
    (hnone : t.get k = none) : t.size < S.card := by
  have hnodup : (t.entries.map Prod.fst).Nodup := by
    rw [List.Nodup, pairwise_map]
    exact t.sorted.imp fun h => ne_of_lt h
  have hmem : ∀ a ∈ (t.entries.map Prod.fst).toFinset, a ∈ S.erase k := by
    intro a ha
    obtain ⟨⟨a, v⟩, hp, rfl⟩ := mem_map.mp (mem_toFinset.mp ha)
    obtain ⟨w, hw⟩ := Option.isSome_iff_exists.mp (find_isSome hp)
    refine Finset.mem_erase.mpr ⟨?_, hsub a w hw⟩
    rintro rfl
    change find _ _ = none at hnone
    rw [hw] at hnone
    cases hnone
  have hcard := Finset.card_le_card hmem
  rw [toFinset_card_of_nodup hnodup, length_map, Finset.card_erase_of_mem hk] at hcard
  have hpos := Finset.card_pos.mpr ⟨k, hk⟩
  change t.entries.length < S.card
  omega

lemma size_erase_le (k : K) : (t.erase k).size ≤ t.size := length_filter_le _ _

/-! ### Sums over a table -/

lemma find_of_mem (hs : l.Pairwise fun x y => x.1 < y.1) (h : (k, v) ∈ l) : find k l = some v := by
  induction l with
  | nil => cases h
  | cons e l ih =>
    obtain ⟨a, w⟩ := e
    obtain ⟨hhead, htail⟩ := pairwise_cons.mp hs
    rw [find]
    rcases mem_cons.mp h with heq | hmem
    · cases heq
      exact if_pos rfl
    · rw [if_neg (hhead (k, v) hmem).ne, ih htail hmem]

lemma get_of_mem (h : (k, v) ∈ t.entries) : t.get k = some v := find_of_mem t.sorted h

lemma size_eq_zero_iff : t.size = 0 ↔ ∀ k, t.get k = none := by
  constructor
  · intro h k
    rw [get, length_eq_zero_iff.mp h]
    rfl
  · intro h
    refine length_eq_zero_iff.mpr (eq_nil_iff_forall_not_mem.mpr fun e he => ?_)
    have hget := get_of_mem he
    rw [h] at hget
    cases hget

lemma mem_of_find (h : find k l = some v) : (k, v) ∈ l := by
  induction l with
  | nil => cases h
  | cons e l ih =>
    obtain ⟨a, w⟩ := e
    rw [find] at h
    split_ifs at h with ha
    · cases h
      exact ha ▸ mem_cons_self
    · exact mem_cons_of_mem _ (ih h)

lemma mem_of_get (h : t.get k = some v) : (k, v) ∈ t.entries := mem_of_find h

def total (t : SortedTable K V) (f : K → V → ℕ) : ℕ := (t.entries.map fun e => f e.1 e.2).sum

@[simp] lemma total_empty (f : K → V → ℕ) : (empty : SortedTable K V).total f = 0 := rfl

lemma total_congr (h : ∀ k v, t.get k = some v → f k v = g k v) : t.total f = t.total g := by
  unfold total
  congr 1
  exact map_congr_left fun e he => h e.1 e.2 (get_of_mem he)

lemma sum_place (f : K → V → ℕ) (h : find k l = none) :
    ((place k v l).map fun e => f e.1 e.2).sum = (l.map fun e => f e.1 e.2).sum + f k v := by
  induction l with
  | nil => simp [place]
  | cons e l ih =>
    obtain ⟨a, w⟩ := e
    rw [find] at h
    split_ifs at h with ha
    unfold place
    split_ifs with h1 h2
    · simp only [map_cons, sum_cons]; omega
    · exact absurd h2.symm ha
    · simp only [map_cons, sum_cons, ih h]; omega

lemma total_insert (f : K → V → ℕ) (h : t.get k = none) :
    (t.insert k v).total f = t.total f + f k v := sum_place f h

lemma sum_map_key (f g : K → V → ℕ) (hs : l.Pairwise fun x y => x.1 < y.1) (h : find k l = some v) :
    (l.map fun e => if e.1 = k then g e.1 e.2 else f e.1 e.2).sum + f k v
      = (l.map fun e => f e.1 e.2).sum + g k v := by
  induction l with
  | nil => cases h
  | cons e l ih =>
    obtain ⟨a, w⟩ := e
    obtain ⟨hhead, htail⟩ := pairwise_cons.mp hs
    rw [find] at h
    split_ifs at h with ha
    · -- the other keys are larger
      cases h
      subst ha
      have hrest : l.map (fun e => if e.1 = a then g e.1 e.2 else f e.1 e.2)
          = l.map fun e => f e.1 e.2 :=
        map_congr_left fun e he => if_neg (hhead e he).ne'
      simp only [map_cons, sum_cons, if_true, hrest]
      omega
    · have hi := ih htail h
      simp only [map_cons, sum_cons, if_neg ha]
      omega

lemma total_change (h : t.get k = some v) (hne : ∀ a w, a ≠ k → f a w = g a w) :
    t.total g + f k v = t.total f + g k v := by
  have hmap : t.entries.map (fun e => if e.1 = k then g e.1 e.2 else f e.1 e.2)
      = t.entries.map fun e => g e.1 e.2 := by
    refine map_congr_left fun e _ => ?_
    split_ifs with he
    · rfl
    · exact hne e.1 e.2 he
  have hsum := sum_map_key f g t.sorted h
  rw [hmap] at hsum
  exact hsum

lemma total_adjust (f : K → V → ℕ) (g : V → V) (h : t.get k = some v) :
    (t.adjust k g).total f + f k v = t.total f + f k (g v) := by
  have hmap : (t.adjust k g).total f
      = (t.entries.map fun e => if e.1 = k then f e.1 (g e.2) else f e.1 e.2).sum := by
    unfold total adjust
    rw [map_map]
    congr 1
    refine map_congr_left fun e _ => ?_
    simp only [Function.comp_apply]
    split_ifs <;> rfl
  rw [hmap]
  exact sum_map_key f (fun a w => f a (g w)) t.sorted h

lemma total_erase (f : K → V → ℕ) (h : t.get k = some v) :
    (t.erase k).total f + f k v = t.total f := by
  have hfilter : ∀ l : List (K × V), ((l.filter (·.1 ≠ k)).map fun e => f e.1 e.2).sum
      = (l.map fun e => if e.1 = k then 0 else f e.1 e.2).sum := by
    intro l
    induction l with
    | nil => rfl
    | cons e l ih =>
      by_cases he : e.1 = k
      · rw [filter_cons_of_neg (by simpa using he)]
        simp only [map_cons, sum_cons, he, if_true, ih, zero_add]
      · rw [filter_cons_of_pos (by simpa using he)]
        simp only [map_cons, sum_cons, he, if_false, ih]
  have hkey := sum_map_key f (fun _ _ => 0) t.sorted h
  unfold total erase
  rw [hfilter]
  exact hkey

lemma total_le (f : K → V → ℕ) {c : ℕ} (h : ∀ k v, t.get k = some v → f k v ≤ c) :
    t.total f ≤ t.size * c := by
  have hsum := sum_le_card_nsmul (t.entries.map fun e => f e.1 e.2) c fun x hx => by
    obtain ⟨e, he, rfl⟩ := mem_map.mp hx
    exact h e.1 e.2 (get_of_mem he)
  simpa [total, size] using hsum

lemma le_total (f : K → V → ℕ) (h : t.get k = some v) : f k v ≤ t.total f :=
  single_le_sum (by simp) _ (mem_map.mpr ⟨(k, v), mem_of_get h, rfl⟩)

end SortedTable

end Aios.Lib
