import Mathlib

/-!
Singly linked lists over a pointer function.

`next a` is the pointer stored at node `a`, and `0` is the null pointer. `Chain next h l`
says that following the pointers from `h` visits exactly the nodes of `l` and then ends.
-/

namespace Aios.Lib

/-- The list from head `h` has the nodes `l`. -/
def Chain (next : ℕ → ℕ) : ℕ → List ℕ → Prop
  | h, [] => h = 0
  | h, a :: l => h = a ∧ a ≠ 0 ∧ Chain next (next a) l

/-- The walk for the node in front of `target`: `some none` when the list ends before it,
`none` when the fuel does. -/
def findPrev (next : ℕ → ℕ) (target : ℕ) : ℕ → ℕ → Option (Option ℕ)
  | 0, _ => none
  | f + 1, prev =>
    if prev = 0 then some none
    else if next prev = target then some (some prev)
    else findPrev next target f (next prev)

def visited (next : ℕ → ℕ) (target : ℕ) : ℕ → ℕ → List ℕ
  | 0, _ => []
  | f + 1, prev =>
    if prev = 0 then []
    else if next prev = target then [prev]
    else prev :: visited next target f (next prev)

/-- The nodes from head `h` on, with fuel for the walk. -/
def nodes (next : ℕ → ℕ) : ℕ → ℕ → List ℕ
  | 0, _ => []
  | f + 1, h => if h = 0 then [] else h :: nodes next f (next h)

namespace Chain

variable {next next' : ℕ → ℕ} {h p target : ℕ} {l l₁ l₂ : List ℕ}

section

variable (hc : Chain next h l)
include hc

lemma congr (heq : ∀ a ∈ l, next' a = next a) : Chain next' h l := by
  induction l generalizing h with
  | nil => exact hc
  | cons a l ih =>
    obtain ⟨rfl, ha, hl⟩ := hc
    refine ⟨rfl, ha, ?_⟩
    rw [heq h (by simp)]
    exact ih hl fun b hb => heq b (by simp [hb])

lemma head_cases : (h = 0 ∧ l = []) ∨ ∃ l', l = h :: l' ∧ h ≠ 0 ∧ Chain next (next h) l' := by
  cases l with
  | nil => exact .inl ⟨hc, rfl⟩
  | cons a l =>
    obtain ⟨rfl, ha, hl⟩ := hc
    exact .inr ⟨l, rfl, ha, hl⟩

lemma next_mem {a : ℕ} (ha : a ∈ l) : next a = 0 ∨ next a ∈ l := by
  induction l generalizing h with
  | nil => simp at ha
  | cons b l ih =>
    obtain ⟨-, -, hl⟩ := hc
    rcases List.mem_cons.mp ha with rfl | ha
    · rcases hl.head_cases with ⟨h0, -⟩ | ⟨l', hl', -, -⟩
      · exact .inl h0
      · exact .inr (by rw [hl']; simp)
    · rcases ih hl ha with h0 | hmem
      · exact .inl h0
      · exact .inr (List.mem_cons_of_mem _ hmem)

lemma nodes_eq {fuel : ℕ} (hf : l.length < fuel) : nodes next fuel h = l := by
  induction l generalizing h fuel with
  | nil =>
    obtain ⟨f, rfl⟩ : ∃ f, fuel = f + 1 := ⟨fuel - 1, by simp at hf; omega⟩
    exact if_pos hc
  | cons a l ih =>
    obtain ⟨f, rfl⟩ : ∃ f, fuel = f + 1 := ⟨fuel - 1, by simp at hf; omega⟩
    obtain ⟨rfl, h0, hl⟩ := hc
    rw [nodes, if_neg h0, ih hl (by simp at hf; omega)]

lemma visited_subset (target fuel : ℕ) : visited next target fuel h ⊆ l := by
  induction fuel generalizing h l with
  | zero => exact List.nil_subset _
  | succ fuel ih =>
    rw [visited]
    split_ifs with h0 hn
    · exact List.nil_subset _
    all_goals
      obtain ⟨hz, -⟩ | ⟨l', rfl, -, hl⟩ := hc.head_cases
      · exact absurd hz h0
    · simp
    · exact List.cons_subset_cons _ (ih hl)

lemma findPrev_spec (ht : target ≠ 0) {fuel : ℕ} (hf : l.length < fuel) :
    (∃ l₁ p l₂, l = l₁ ++ p :: target :: l₂ ∧ findPrev next target fuel h = some (some p)) ∨
      (target ∉ l.tail ∧ findPrev next target fuel h = some none) := by
  induction l generalizing h fuel with
  | nil =>
    obtain ⟨f, rfl⟩ : ∃ f, fuel = f + 1 := ⟨fuel - 1, by simp at hf; omega⟩
    exact .inr ⟨by simp, by simp [findPrev, show h = 0 from hc]⟩
  | cons a l ih =>
    obtain ⟨f, rfl⟩ : ∃ f, fuel = f + 1 := ⟨fuel - 1, by simp at hf; omega⟩
    obtain ⟨rfl, ha, hl⟩ := hc
    by_cases hn : next h = target
    · -- the target is the head of the rest, so the rest is not empty
      rcases hl.head_cases with ⟨h0, -⟩ | ⟨l', rfl, -, -⟩
      · exact absurd (hn.symm.trans h0) ht
      · exact .inl ⟨[], h, l', by rw [hn]; rfl, by simp [findPrev, ha, hn]⟩
    · have hstep : findPrev next target (f + 1) h = findPrev next target f (next h) := by
        simp [findPrev, ha, hn]
      rcases ih hl (show l.length < f by simp at hf; omega) with ⟨l₁, p, l₂, rfl, hp⟩ | ⟨hnot, hp⟩
      · exact .inl ⟨h :: l₁, p, l₂, rfl, hstep.trans hp⟩
      · refine .inr ⟨?_, hstep.trans hp⟩
        rcases hl.head_cases with ⟨-, rfl⟩ | ⟨l', rfl, -, -⟩
        · simp
        · simp only [List.tail_cons, List.mem_cons, not_or] at hnot ⊢
          exact ⟨fun h' => hn h'.symm, hnot⟩

end

lemma unlink (hc : Chain next h (l₁ ++ p :: target :: l₂)) (hp : next' p = next target)
    (heq : ∀ a ∈ l₁ ++ l₂, next' a = next a) : Chain next' h (l₁ ++ p :: l₂) := by
  induction l₁ generalizing h with
  | nil =>
    obtain ⟨rfl, h0, -, -, hl⟩ := hc
    refine ⟨rfl, h0, ?_⟩
    rw [hp]
    exact hl.congr heq
  | cons a l ih =>
    obtain ⟨rfl, h0, hl⟩ := hc
    refine ⟨rfl, h0, ?_⟩
    rw [heq h (by simp)]
    exact ih hl fun b hb => heq b (by simp only [List.cons_append, List.mem_cons]; exact .inr hb)

end Chain

end Aios.Lib
