import Mathlib

/-!
Fixed arrays of optional slots.

A slot array is a function on its indices, so that writing a slot is `Function.update`.
The first free slot, the occupants in slot order, the number of occupants with a property
and a sum over the occupants are what the tables built on such arrays use.
-/

namespace Aios.Lib

open Finset Function

variable {n : ℕ} {α : Type*} {ι M : Type*} [Fintype ι] [AddCommMonoid M]

/-- An array of `n` slots, each empty or holding a value. -/
abbrev Slots (n : ℕ) (α : Type*) := Fin n → Option α

namespace Slots

def empty : Slots n α := fun _ => none

/-- The least index whose slot is empty. -/
def firstFree (s : Slots n α) : Option (Fin n) :=
  (List.finRange n).find? fun i => (s i).isNone

/-- The occupants in slot order. -/
def items (s : Slots n α) : List α := (List.finRange n).filterMap s

def card (p : α → Bool) (s : Slots n α) : ℕ :=
  ∑ i, if (s i).any p then 1 else 0

/-- The sum of `f` over the occupants, for slots with any finite set of indices. -/
def total (f : α → M) (s : ι → Option α) : M := ∑ i, (s i).elim 0 f

@[simp] lemma empty_apply (i : Fin n) : (empty : Slots n α) i = none := rfl

variable {s : Slots n α} {i : Fin n}

lemma find?_finRange {p : Fin n → Bool} (h : (List.finRange n).find? p = some i) :
    p i = true ∧ ∀ j < i, p j = false := by
  obtain ⟨hp, k, hk, hi, hfirst⟩ := List.find?_eq_some_iff_getElem.mp h
  rw [List.getElem_finRange] at hi
  refine ⟨hp, fun j hj => ?_⟩
  have hjk : j.val < k := by
    rw [← hi] at hj
    exact hj
  have hj' := hfirst j.val hjk
  rw [List.getElem_finRange] at hj'
  simpa using hj'

lemma firstFree_some (h : s.firstFree = some i) : s i = none := by
  simpa using List.find?_some h

lemma firstFree_none (h : s.firstFree = none) (i : Fin n) : s i ≠ none := by
  have := List.find?_eq_none.mp h i (List.mem_finRange i)
  simpa using this

lemma mem_items {a : α} : a ∈ s.items ↔ ∃ i, s i = some a := by
  simp [items]

lemma update_eq_some {ι : Type*} [DecidableEq ι] {s : ι → Option α} {i j : ι} {v : Option α}
    {a : α} : update s i v j = some a ↔ j = i ∧ v = some a ∨ j ≠ i ∧ s j = some a := by
  by_cases h : j = i
  · subst h; simp
  · simp [h]

@[simp] lemma card_empty (p : α → Bool) : card p (empty : Slots n α) = 0 := by
  simp [card]

lemma total_update [DecidableEq ι] (f : α → M) (s : ι → Option α) (i : ι) (v : Option α) :
    total f (update s i v) + (s i).elim 0 f = total f s + v.elim 0 f := by
  unfold total
  rw [← add_sum_erase _ _ (mem_univ i),
    ← add_sum_erase Finset.univ (fun j => (s j).elim 0 f) (mem_univ i)]
  have hrest : ∑ j ∈ Finset.univ.erase i, (update s i v j).elim 0 f
      = ∑ j ∈ Finset.univ.erase i, (s j).elim 0 f :=
    sum_congr rfl fun j hj => by
      rw [update_of_ne (ne_of_mem_erase hj)]
  rw [hrest, update_self]
  abel

lemma card_eq_total (p : α → Bool) (s : Slots n α) :
    card p s = total (fun a => if p a then 1 else 0) s :=
  sum_congr rfl fun i _ => by cases s i <;> rfl

lemma card_update (p : α → Bool) (s : Slots n α) (i : Fin n) (v : Option α) :
    card p (update s i v) + (if (s i).any p then 1 else 0)
      = card p s + (if v.any p then 1 else 0) := by
  have h := total_update (fun a => if p a then 1 else 0) s i v
  rw [← card_eq_total, ← card_eq_total] at h
  cases hs : s i <;> cases v <;> simpa [hs] using h

lemma card_le (p : α → Bool) (s : Slots n α) : card p s ≤ n := by
  have h : card p s ≤ ∑ _i : Fin n, 1 := sum_le_sum fun i _ => by split <;> simp
  simpa using h

lemma firstFree_congr {β : Type*} {t : Slots n β} (h : ∀ i, (s i).isNone = (t i).isNone) :
    s.firstFree = t.firstFree := by
  unfold firstFree
  congr 1
  funext i
  exact h i

lemma card_lt_of_free (p : α → Bool) (h : (s i).any p = false) : card p s < n := by
  have h1 := card_update (fun _ => true) (fun j => if (s j).any p then some () else none) i
    (some ())
  have h2 := card_le (fun _ => true)
    (update (fun j => if (s j).any p then some () else none) i (some ()))
  have h3 : card (fun _ => true) (fun j => if (s j).any p then some () else none) = card p s := by
    unfold card
    refine sum_congr rfl fun j _ => ?_
    by_cases hj : (s j).any p <;> simp [hj]
  simp [h] at h1
  omega

lemma firstFree_isSome_iff : s.firstFree.isSome = true ↔ s.card (fun _ => true) < n := by
  constructor
  · intro h
    obtain ⟨i, hi⟩ := Option.isSome_iff_exists.mp h
    exact card_lt_of_free _ (by rw [firstFree_some hi]; rfl)
  · intro h
    by_contra hnone
    have hfull : ∀ i, s i ≠ none := firstFree_none (Option.not_isSome_iff_eq_none.mp hnone)
    have hcard : s.card (fun _ => true) = ∑ _i : Fin n, 1 := by
      refine sum_congr rfl fun i _ => ?_
      obtain ⟨a, ha⟩ := Option.ne_none_iff_exists'.mp (hfull i)
      rw [ha]
      rfl
    simp [hcard] at h

end Slots

end Aios.Lib
