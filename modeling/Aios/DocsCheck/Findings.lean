import Mathlib

/-!
The findings of the documentation checks: `tools/src/cmd/docs_check/model.rs`.

Findings with the same key are merged: the first one is kept, and gathers the lines of the others.
-/

namespace Aios.DocsCheck

open List

structure Finding where
  check : String
  file : String
  target : String
  message : String
  line : ℕ
  also : List ℕ
  detail : String
  deriving DecidableEq

def checkOrder : List String :=
  ["md-links", "section-refs", "anchors", "wiki-links", "doc-map", "repo-paths", "just-recipes",
    "test-count", "lock-order", "milestone-status", "phase-count", "layout", "harness-tables",
    "pointer-doctor", "knowledge-hygiene"]

def checkRank (check : String) : ℕ := (checkOrder.findIdx? (· == check)).getD 99

namespace Finding

variable (f : Finding)

def key : String := f.check ++ "|" ++ f.file ++ "|" ++ f.target

def count : ℕ := 1 + f.also.length

def rank : ℕ ×ₗ String ×ₗ ℕ ×ₗ String :=
  toLex (checkRank f.check, toLex (f.file, toLex (f.line, f.target)))

def merge (first : Finding) : Finding :=
  if f.line ≠ 0 ∧ f.line ≠ first.line ∧ f.line ∉ first.also then
    { first with also := first.also ++ [f.line] }
  else first

end Finding

structure Collated where
  order : List Finding
  index : String → Option ℕ

def Collated.empty : Collated := ⟨[], fun _ => none⟩

def Collated.add (s : Collated) (f : Finding) : Collated :=
  match s.index f.key with
  | none => ⟨s.order ++ [f], Function.update s.index f.key (some s.order.length)⟩
  | some i => { s with order := s.order.modify i f.merge }

def collate (findings : List Finding) : List Finding :=
  (findings.foldl Collated.add .empty).order.mergeSort fun a b => a.rank ≤ b.rank

/-! ### What is gathered -/

def lines (findings : List Finding) (k : String) : Finset ℕ :=
  ((findings.filter fun f => f.key = k).map Finding.line).toFinset.erase 0

lemma mem_lines {findings : List Finding} {k : String} {n : ℕ} :
    n ∈ lines findings k ↔ n ≠ 0 ∧ ∃ f ∈ findings, f.key = k ∧ f.line = n := by
  simp [lines, and_assoc]

/-- A merged finding: it stands on the line of the first one with its key, and has the other lines
in `also`. -/
structure Merged (findings : List Finding) (g : Finding) : Prop where
  first : ∃ f, findings.find? (fun f => f.key = g.key) = some f ∧ f.line = g.line
  nodup : g.also.Nodup
  also : ∀ n, n ∈ g.also ↔ n ∈ lines findings g.key ∧ n ≠ g.line

structure Collates (findings : List Finding) (s : Collated) : Prop where
  nodup : (s.order.map Finding.key).Nodup
  index : ∀ k i, s.index k = some i ↔ (s.order.map Finding.key)[i]? = some k
  covers : ∀ f ∈ findings, f.key ∈ s.order.map Finding.key
  merged : ∀ g ∈ s.order, Merged findings g

section

variable {findings : List Finding} {s : Collated} {f g : Finding}

lemma Finding.merge_same (f first : Finding) :
    (f.merge first).key = first.key ∧ (f.merge first).line = first.line := by
  unfold Finding.merge
  split_ifs <;> exact ⟨rfl, rfl⟩

lemma lines_concat (k : String) : ∀ n, n ∈ lines (findings ++ [f]) k ↔
    n ∈ lines findings k ∨ n ≠ 0 ∧ f.key = k ∧ f.line = n := by
  intro n
  simp only [mem_lines, mem_append, mem_singleton]
  grind

lemma Merged.other (h : Merged findings g) (hne : g.key ≠ f.key) : Merged (findings ++ [f]) g := by
  obtain ⟨⟨f₀, hf₀, hline⟩, hnodup, halso⟩ := h
  refine ⟨⟨f₀, by rw [find?_append, hf₀]; rfl, hline⟩, hnodup, fun n => ?_⟩
  rw [halso, lines_concat]
  grind

lemma Merged.merge (h : Merged findings g) (hkey : g.key = f.key) :
    Merged (findings ++ [f]) (f.merge g) := by
  obtain ⟨⟨f₀, hf₀, hline⟩, hnodup, halso⟩ := h
  obtain ⟨hk, hl⟩ := f.merge_same g
  refine ⟨⟨f₀, by rw [hk, find?_append, hf₀]; rfl, by rw [hl, hline]⟩, ?_, fun n => ?_⟩
  · unfold Finding.merge
    split_ifs with hnew
    · exact nodup_append.mpr ⟨hnodup, nodup_singleton _, by grind⟩
    · exact hnodup
  · rw [hk, hl, lines_concat]
    unfold Finding.merge
    split_ifs with hnew
    · simp only [mem_append, mem_singleton, halso]
      grind
    · rw [halso]
      grind

lemma Merged.new (hnew : f.also = []) (h : ∀ f' ∈ findings, f'.key ≠ f.key) :
    Merged (findings ++ [f]) f := by
  refine ⟨⟨f, ?_, rfl⟩, by rw [hnew]; exact nodup_nil, fun n => ?_⟩
  · rw [find?_append, find?_eq_none.mpr (by simpa using h)]
    simp
  · have hnone : n ∉ lines findings f.key := fun hn => by
      obtain ⟨-, f', hf', hk, -⟩ := mem_lines.mp hn
      exact h f' hf' hk
    rw [hnew, lines_concat]
    grind

lemma Collates.add (h : Collates findings s) (hnew : f.also = []) :
    Collates (findings ++ [f]) (s.add f) := by
  unfold Collated.add
  cases hi : s.index f.key with
  | none =>
    have hfresh : f.key ∉ s.order.map Finding.key := fun hmem => by
      obtain ⟨i, hk⟩ := mem_iff_getElem?.mp hmem
      rw [(h.index f.key i).mpr hk] at hi
      cases hi
    refine ⟨?_, fun k i => ?_, fun f' hf' => ?_, fun g hg => ?_⟩
    · rw [map_append]
      exact nodup_append.mpr ⟨h.nodup, nodup_singleton _, by grind⟩
    · show Function.update s.index f.key _ k = _ ↔ _
      rw [map_append, Function.update_apply, getElem?_append]
      have := h.index k i
      have hlen : (s.order.map Finding.key).length = s.order.length := length_map _
      grind
    · rw [map_append]
      have := h.covers f'
      grind
    · rcases mem_append.mp hg with hg | hg
      · exact (h.merged g hg).other fun he => hfresh (he ▸ mem_map_of_mem hg)
      · rw [mem_singleton.mp hg]
        exact .new hnew fun f' hf' he => hfresh (he ▸ h.covers f' hf')
  | some i =>
    have hkeys : (s.order.modify i f.merge).map Finding.key = s.order.map Finding.key := by
      refine ext_getElem? fun j => ?_
      rw [getElem?_map, getElem?_map, getElem?_modify]
      cases s.order[j]? with
      | none => rfl
      | some g => by_cases hij : i = j <;> simp [hij, (f.merge_same g).1]
    have hk := (h.index f.key i).mp hi
    refine ⟨by rw [hkeys]; exact h.nodup, fun k j => by rw [hkeys]; exact h.index k j,
      fun f' hf' => ?_, fun g hg => ?_⟩
    · rw [hkeys]
      rcases mem_append.mp hf' with hf' | hf'
      · exact h.covers f' hf'
      · rw [mem_singleton.mp hf']
        exact mem_of_getElem? hk
    · obtain ⟨j, hj⟩ := mem_iff_getElem?.mp hg
      rw [getElem?_modify] at hj
      cases hg₀ : s.order[j]? with
      | none => simp [hg₀] at hj
      | some g₀ =>
        have hm := h.merged g₀ (mem_of_getElem? hg₀)
        by_cases hij : i = j
        · subst hij
          rw [hg₀] at hj
          simp only [if_true, Option.map_eq_map, Option.map_some, Option.some.injEq] at hj
          rw [getElem?_map, hg₀] at hk
          exact hj ▸ hm.merge (Option.some.inj hk)
        · -- another finding has another key
          have hne : g₀.key ≠ f.key := fun he => hij <| by
            have hj' := (h.index f.key j).mpr (by rw [getElem?_map, hg₀, ← he]; rfl)
            exact Option.some.inj (hi.symm.trans hj')
          simp only [hij, if_false, hg₀] at hj
          cases hj
          exact hm.other hne

lemma collates (hnew : ∀ f ∈ findings, f.also = []) :
    Collates findings (findings.foldl Collated.add .empty) := by
  induction findings using List.reverseRecOn with
  | nil => exact ⟨nodup_nil, fun _ _ => ⟨nofun, nofun⟩, nofun, nofun⟩
  | append_singleton l f ih =>
    rw [foldl_append]
    exact (ih fun f' hf' => hnew f' (by simp [hf'])).add (hnew f (by simp))

end

section

variable {findings findings' : List Finding} {g : Finding}

lemma Merged.count (h : Merged findings g) :
    g.count = 1 + ((lines findings g.key).erase g.line).card := by
  have hset : g.also.toFinset = (lines findings g.key).erase g.line := by
    ext n
    rw [mem_toFinset, h.also, Finset.mem_erase, and_comm]
  rw [Finding.count, ← hset, toFinset_card_of_nodup h.nodup]

lemma Merged.count_eq_iff (h : Merged findings g) :
    g.count = max 1 (lines findings g.key).card ↔ g.line = 0 → lines findings g.key = ∅ := by
  rw [h.count]
  obtain ⟨f, hf, hline⟩ := h.first
  by_cases h0 : g.line = 0
  · have hzero : (lines findings g.key).erase g.line = lines findings g.key :=
      Finset.erase_eq_of_notMem fun hn => (mem_lines.mp hn).1 h0
    rw [hzero, ← Finset.card_eq_zero]
    omega
  · have hmem : g.line ∈ lines findings g.key := mem_lines.mpr
      ⟨h0, f, mem_of_find?_eq_some hf, by simpa using find?_some hf, hline⟩
    have hpos := Finset.card_pos.mpr ⟨_, hmem⟩
    rw [Finset.card_erase_of_mem hmem]
    omega

lemma lines_perm (h : findings'.Perm findings) (k : String) :
    lines findings' k = lines findings k := by
  ext n
  simp only [mem_lines, h.mem_iff]

lemma collate_perm (findings : List Finding) :
    (collate findings).Perm (findings.foldl Collated.add .empty).order :=
  mergeSort_perm _ _

lemma merged_of_mem_collate (hnew : ∀ f ∈ findings, f.also = []) (hg : g ∈ collate findings) :
    Merged findings g :=
  (collates hnew).merged g ((collate_perm findings).mem_iff.mp hg)

lemma key_mem_collate (hnew : ∀ f ∈ findings, f.also = []) (k : String) :
    k ∈ (collate findings).map Finding.key ↔ k ∈ findings.map Finding.key := by
  constructor
  · intro hk
    obtain ⟨g, hg, rfl⟩ := mem_map.mp hk
    obtain ⟨f, hf, -⟩ := (merged_of_mem_collate hnew hg).first
    exact mem_map.mpr ⟨f, mem_of_find?_eq_some hf, by simpa using find?_some hf⟩
  · intro hk
    obtain ⟨f, hf, rfl⟩ := mem_map.mp hk
    exact ((collate_perm findings).map Finding.key).mem_iff.mpr ((collates hnew).covers f hf)

/-- **Collating.** There is one finding for each key, they are sorted, and they have the right counts
in whatever order they are found, exactly when no key has findings with and without a line. -/
theorem collate_counts (hnew : ∀ f ∈ findings, f.also = []) :
    ((collate findings).map Finding.key).Nodup ∧
      (∀ k, k ∈ (collate findings).map Finding.key ↔ k ∈ findings.map Finding.key) ∧
      (collate findings).Pairwise (fun a b => a.rank ≤ b.rank) ∧
      ((∀ findings', findings'.Perm findings → ∀ g ∈ collate findings',
          g.count = max 1 (lines findings g.key).card) ↔
        ∀ f ∈ findings, ∀ f' ∈ findings, f.key = f'.key → f.line = 0 → f'.line = 0) := by
  have hnew' : ∀ {l : List Finding}, l.Perm findings → ∀ f ∈ l, f.also = [] :=
    fun hl f hf => hnew f (hl.mem_iff.mp hf)
  refine ⟨((collate_perm findings).map Finding.key).nodup_iff.mpr (collates hnew).nodup,
    key_mem_collate hnew, ?_, fun h f hf f' hf' hkey h0 => ?_, fun h l hl g hg => ?_⟩
  · refine (pairwise_mergeSort ?_ ?_ _).imp fun hle => of_decide_eq_true hle
    · intro a b c hab hbc
      exact decide_eq_true ((of_decide_eq_true hab).trans (of_decide_eq_true hbc))
    · intro a b
      rw [Bool.or_eq_true, decide_eq_true_iff, decide_eq_true_iff]
      exact le_total _ _
  · -- the finding without a line may come first
    by_contra hne
    have hperm : (f :: findings.erase f).Perm findings := (perm_cons_erase hf).symm
    obtain ⟨g, hg, hgk⟩ := mem_map.mp
      ((key_mem_collate (hnew' hperm) f.key).mpr (mem_map_of_mem mem_cons_self))
    have hm := merged_of_mem_collate (hnew' hperm) hg
    have hcount := h _ hperm g hg
    rw [← lines_perm hperm, hm.count_eq_iff] at hcount
    obtain ⟨first, hfirst, hline⟩ := hm.first
    rw [find?_cons_of_pos (by simpa using hgk.symm)] at hfirst
    cases hfirst
    have hmem : f'.line ∈ lines findings g.key :=
      mem_lines.mpr ⟨hne, f', hf', by rw [hgk, hkey], rfl⟩
    rw [← lines_perm hperm, hcount (hline.symm.trans h0)] at hmem
    exact absurd hmem (Finset.notMem_empty _)
  · have hm := merged_of_mem_collate (hnew' hl) hg
    rw [← lines_perm hl, hm.count_eq_iff, lines_perm hl]
    intro h0
    obtain ⟨f, hf, hline⟩ := hm.first
    have hkey : f.key = g.key := by simpa using find?_some hf
    refine Finset.eq_empty_of_forall_notMem fun n hn => ?_
    obtain ⟨hne, f', hf', hk', rfl⟩ := mem_lines.mp hn
    exact hne (h f (hl.mem_iff.mp (mem_of_find?_eq_some hf)) f' hf' (hkey.trans hk'.symm)
      (hline.trans h0))

end

def onLine (line : ℕ) : Finding := ⟨"anchors", "a.md", "b", "no such heading", line, [], ""⟩

theorem collate_counts_lines : (∀ f ∈ [onLine 5, onLine 7], f.also = []) ∧
    ∀ findings', findings'.Perm [onLine 5, onLine 7] →
      ∀ g ∈ collate findings', g.count = max 1 (lines [onLine 5, onLine 7] g.key).card :=
  ⟨by decide, (collate_counts (by decide)).2.2.2.mpr (by decide)⟩

/-- A file-level finding counts as a line when it comes first, and not when it comes last. -/
theorem collate_counts_order : (lines [onLine 0, onLine 5] (onLine 0).key).card = 1 ∧
    (collate [onLine 0, onLine 5]).map Finding.count = [2] ∧
    (collate [onLine 5, onLine 0]).map Finding.count = [1] := by
  refine ⟨by decide, ?_, ?_⟩
  · exact congrArg (List.map Finding.count) (mergeSort_singleton _)
  · exact congrArg (List.map Finding.count) (mergeSort_singleton _)

end Aios.DocsCheck
