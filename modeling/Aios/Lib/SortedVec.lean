import Mathlib

/-!
Vectors of entries sorted by key, with a search that is only right while they are sorted.

A sorted vector reads as a finite map. What the search finds may be changed or taken out, and where
it finds nothing an entry may be put in.
-/

namespace Aios.Lib

open List

variable {K V A : Type*} [LinearOrder K]

abbrev Increasing (l : List (K × V)) : Prop := l.Pairwise fun x y => x.1 < y.1

/-- A search by key. On sorted entries it answers with the place of the key or with the place
where the key belongs; nothing is known of it on others. -/
structure BinarySearch (K V : Type*) [LinearOrder K] where
  search : List (K × V) → K → Except ℕ ℕ
  found : ∀ {l k i}, Increasing l → search l k = .ok i → ∃ a v b, l = a ++ (k, v) :: b ∧ a.length = i
  absent : ∀ {l k i}, Increasing l → search l k = .error i →
    ∃ a b, l = a ++ b ∧ a.length = i ∧ (∀ x ∈ a, x.1 < k) ∧ ∀ x ∈ b, k < x.1

variable {l a b : List (K × V)} {k : K} {v : V} {i : ℕ}

/-- The entries before the key, and whether it follows them. -/
instance : Inhabited (BinarySearch K V) where
  default.search l k :=
    let i := (l.takeWhile (·.1 < k)).length
    if (l.dropWhile (·.1 < k)).head?.map (·.1) = some k then .ok i else .error i
  default.found {l k i} _ h := by
    split_ifs at h with hhead
    obtain ⟨x, hx, rfl⟩ := Option.map_eq_some_iff.mp hhead
    obtain ⟨b, hb⟩ := head?_eq_some_iff.mp hx
    cases h
    exact ⟨_, x.2, b, by rw [← hb, takeWhile_append_dropWhile], rfl⟩
  default.absent {l k i} hl h := by
    split_ifs at h with hhead
    cases h
    refine ⟨_, _, takeWhile_append_dropWhile.symm, rfl, fun x hx => ?_, fun x hx => ?_⟩
    · simpa using mem_takeWhile_imp hx
    · cases hb : l.dropWhile (·.1 < k) with
      | nil => simp [hb] at hx
      | cons y b =>
        have hy := head_dropWhile_not (fun x : K × V => decide (x.1 < k)) (by rw [hb]; simp)
        simp only [hb, head_cons, decide_eq_false_iff_not, not_lt] at hy
        have hlt : k < y.1 := lt_of_le_of_ne hy fun heq => hhead (by rw [hb, heq]; rfl)
        have hsorted := hl.sublist (dropWhile_sublist (·.1 < k))
        rw [hb] at hx hsorted
        rcases mem_cons.mp hx with rfl | hx
        · exact hlt
        · exact hlt.trans ((pairwise_cons.mp hsorted).1 x hx)

/-- What a call does with the entry of its key. -/
inductive Change (V : Type*)
  | keep
  | put (v : V)
  | erase

/-- A call that searches a key and answers by the entry it finds. -/
def BinarySearch.act (S : BinarySearch K V) (found : V → A × Change V) (absent : A × Change V)
    (l : List (K × V)) (k : K) : A × List (K × V) :=
  match S.search l k with
  | .ok i =>
    match l[i]? with
    | none => (absent.1, l)
    | some (key, v) => ((found v).1, match (found v).2 with
      | .keep => l
      | .put w => l.set i (key, w)
      | .erase => l.eraseIdx i)
  | .error i => (absent.1, match absent.2 with
    | .put v => l.insertIdx i (k, v)
    | _ => l)

lemma increasing_middle : Increasing (a ++ (k, v) :: b) ↔
    Increasing (a ++ b) ∧ (∀ x ∈ a, x.1 < k) ∧ ∀ x ∈ b, k < x.1 := by
  simp only [Increasing, pairwise_append, pairwise_cons, forall_mem_cons]
  constructor
  · rintro ⟨ha, ⟨hk, hb⟩, h⟩
    exact ⟨⟨ha, hb, fun x hx => (h x hx).2⟩, fun x hx => (h x hx).1, hk⟩
  · rintro ⟨⟨ha, hb, h⟩, hk, hk'⟩
    exact ⟨ha, ⟨hk', hb⟩, fun x hx => ⟨hk x hx, h x hx⟩⟩

lemma not_mem_middle (h : Increasing (a ++ (k, v) :: b)) (w : V) : (k, w) ∉ a ++ b := by
  obtain ⟨-, ha, hb⟩ := increasing_middle.mp h
  intro hw
  exact (mem_append.mp hw).elim (fun hw => lt_irrefl _ (ha _ hw)) fun hw => lt_irrefl _ (hb _ hw)

variable [DecidableEq K] {S : BinarySearch K V} {m : Finmap fun _ : K => V} {capacity : ℕ}

def Change.on (m : Finmap fun _ : K => V) (k : K) : Change V → Finmap fun _ : K => V
  | .keep => m
  | .put v => m.insert k v
  | .erase => m.erase k

/-- The entries are those of the map, in order and within the capacity. -/
structure Reads (capacity : ℕ) (l : List (K × V)) (m : Finmap fun _ : K => V) : Prop where
  increasing : Increasing l
  lookup : ∀ k v, m.lookup k = some v ↔ (k, v) ∈ l
  room : l.length ≤ capacity

lemma reads_nil (capacity : ℕ) : Reads capacity ([] : List (K × V)) ∅ :=
  ⟨.nil, fun k v => by simp, Nat.zero_le _⟩

lemma Reads.card (h : Reads capacity l m) : m.keys.card = l.length := by
  have hkeys : m.keys = (l.map Prod.fst).toFinset := by
    ext k
    simp [Finmap.mem_keys, Finmap.mem_iff, h.lookup]
  have hnodup : (l.map Prod.fst).Nodup := pairwise_map.mpr (h.increasing.imp ne_of_lt)
  rw [hkeys, toFinset_card_of_nodup hnodup, length_map]

lemma Reads.put (h : ∀ k' w, k' ≠ k → (m.lookup k' = some w ↔ (k', w) ∈ a ++ b))
    (hl : Increasing (a ++ (k, v) :: b)) (hroom : (a ++ (k, v) :: b).length ≤ capacity) :
    Reads capacity (a ++ (k, v) :: b) (m.insert k v) := by
  refine ⟨hl, fun k' w => ?_, hroom⟩
  by_cases hk : k' = k
  · subst hk
    have hne := not_mem_middle hl w
    rw [mem_append, not_or] at hne
    simp [Finmap.lookup_insert, hne, eq_comm]
  · rw [Finmap.lookup_insert_of_ne _ hk, h k' w hk]
    simp [hk]

lemma Reads.found (h : Reads capacity l m) (hs : S.search l k = .ok i) : ∃ v, m.lookup k = some v ∧
    l[i]? = some (k, v) ∧ Reads capacity (l.eraseIdx i) (m.erase k) ∧
      ∀ w, Reads capacity (l.set i (k, w)) (m.insert k w) := by
  obtain ⟨a, v, b, rfl, rfl⟩ := S.found h.increasing hs
  obtain ⟨hab, hk⟩ := increasing_middle.mp h.increasing
  have hothers (k' : K) (w : V) (hne : k' ≠ k) : m.lookup k' = some w ↔ (k', w) ∈ a ++ b := by
    rw [h.lookup]
    simp [hne]
  refine ⟨v, (h.lookup k v).mpr (by simp), by simp, ⟨?_, fun k' w => ?_, ?_⟩, fun w => ?_⟩
  · rwa [eraseIdx_append_of_length_le (le_refl _), Nat.sub_self, eraseIdx_cons_zero]
  · rw [eraseIdx_append_of_length_le (le_refl _), Nat.sub_self, eraseIdx_cons_zero]
    by_cases hne : k' = k
    · subst hne
      rw [Finmap.lookup_erase]
      exact iff_of_false nofun (not_mem_middle h.increasing w)
    · rw [Finmap.lookup_erase_ne hne, hothers k' w hne]
  · exact (length_eraseIdx_le _ _).trans h.room
  · have hlen := h.room
    rw [set_append_right _ _ (le_refl _), Nat.sub_self, set_cons_zero]
    exact .put hothers (increasing_middle.mpr ⟨hab, hk⟩) (by simpa using hlen)

lemma Reads.absent (h : Reads capacity l m) (hs : S.search l k = .error i) : m.lookup k = none ∧
    ∀ v, l.length < capacity → Reads capacity (l.insertIdx i (k, v)) (m.insert k v) := by
  obtain ⟨a, b, rfl, rfl, hk⟩ := S.absent h.increasing hs
  have hmiddle (v : V) := increasing_middle (v := v).mpr ⟨h.increasing, hk⟩
  refine ⟨Option.eq_none_iff_forall_ne_some.mpr fun w hw => ?_, fun v hroom => ?_⟩
  · exact not_mem_middle (hmiddle w) w ((h.lookup k w).mp hw)
  · have hins (a : List (K × V)) : (a ++ b).insertIdx a.length (k, v) = a ++ (k, v) :: b := by
      induction a with
      | nil => rfl
      | cons x a ih => exact congrArg (x :: ·) ih
    rw [hins]
    refine .put (fun k' w _ => h.lookup k' w) (hmiddle v) ?_
    rw [length_append] at hroom ⊢
    exact hroom

/-- **A call does on a sorted vector what it does on the map.** -/
lemma Reads.act (h : Reads capacity l m) {found : V → A × Change V} {absent : A × Change V}
    {r : A × Finmap fun _ : K => V}
    (hfound : ∀ v, m.lookup k = some v → r = ((found v).1, (found v).2.on m k))
    (habsent : m.lookup k = none → r = (absent.1, absent.2.on m k) ∧
      (absent.2 = .keep ∨ ∃ v, absent.2 = .put v ∧ l.length < capacity)) :
    (S.act found absent l k).1 = r.1 ∧ Reads capacity (S.act found absent l k).2 r.2 := by
  unfold BinarySearch.act
  cases hs : S.search l k with
  | ok i =>
    obtain ⟨v, hlook, hget, herase, hset⟩ := h.found hs
    rw [hfound v hlook]
    simp only [hget]
    refine ⟨trivial, ?_⟩
    cases (found v).2 with
    | keep => exact h
    | put w => exact hset w
    | erase => exact herase
  | error i =>
    obtain ⟨hlook, hput⟩ := h.absent hs
    obtain ⟨hr, hkeep | ⟨v, hv, hroom⟩⟩ := habsent hlook
    · simp only [hr, hkeep]
      exact ⟨trivial, h⟩
    · simp only [hr, hv]
      exact ⟨trivial, hput v hroom⟩

end Aios.Lib
