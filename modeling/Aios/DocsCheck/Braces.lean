import Mathlib

/-!
Brace expansion of `tools/src/cmd/docs_check/markdown.rs`.

`brace_expand` works through a stack of texts. Its results are those of the recursion it replaces,
which ends because every expansion takes one opening brace away.
-/

namespace Aios.DocsCheck

open List

/-- The code points that `str.strip()` takes off. -/
def isSpace (c : Char) : Bool :=
  c.toNat ∈ [0x85, 0xA0, 0x1680, 0x2028, 0x2029, 0x202F, 0x205F, 0x3000] ||
    (0x9 ≤ c.toNat && c.toNat ≤ 0xD) || (0x1C ≤ c.toNat && c.toNat ≤ 0x20) ||
    (0x2000 ≤ c.toNat && c.toNat ≤ 0x200A)

def strip (s : List Char) : List Char :=
  ((s.reverse.dropWhile isSpace).reverse).dropWhile isSpace

/-- `[^\{\}]`. -/
def notBrace (c : Char) : Bool := c ≠ '{' && c ≠ '}'

/-- `[^\{\}]*\}` here: what it captures and what follows. -/
def closeBrace (s : List Char) : Option (List Char × List Char) :=
  match s.dropWhile notBrace with
  | '}' :: after => some (s.takeWhile notBrace, after)
  | _ => none

/-- A match of `BRACE_RE`: the text before it, its capture and the text after it. -/
structure BraceMatch where
  before : List Char
  inner : List Char
  after : List Char

/-- `BRACE_RE.captures`: the first match. -/
def captures : List Char → Option BraceMatch
  | [] => none
  | c :: s =>
    match if c = '{' then closeBrace s else none with
    | some (inner, after) => some ⟨[], inner, after⟩
    | none => (captures s).map fun m => { m with before := c :: m.before }

def BraceMatch.expanded (m : BraceMatch) : List (List Char) :=
  (m.inner.splitOn ',').map fun part => m.before ++ strip part ++ m.after

def expandLoop : ℕ → List (List Char) → List (List Char) → Option (List (List Char))
  | _, [], out => some out
  | 0, _ :: _, _ => none
  | fuel + 1, item :: stack, out =>
    match captures item with
    | none => expandLoop fuel stack (out ++ [item])
    | some m => expandLoop fuel (m.expanded ++ stack) out

def braceExpand (fuel : ℕ) (s : List Char) : Option (List (List Char)) := expandLoop fuel [s] []

/-! ### Groups -/

structure BraceMatch.Matches (m : BraceMatch) (s : List Char) : Prop where
  eq : s = m.before ++ '{' :: (m.inner ++ '}' :: m.after)
  free : ∀ c ∈ m.inner, notBrace c

structure BraceMatch.First (m : BraceMatch) (s : List Char) : Prop extends m.Matches s where
  first : ∀ n : BraceMatch, n.Matches s → m.before.length ≤ n.before.length

variable {c : Char} {s inner after : List Char} {m : BraceMatch}

lemma closeBrace_eq_some : closeBrace s = some (inner, after) ↔
    s = inner ++ '}' :: after ∧ ∀ c ∈ inner, notBrace c := by
  unfold closeBrace
  constructor
  · intro h
    split at h
    · next hdrop =>
      cases h
      exact ⟨by rw [← hdrop, takeWhile_append_dropWhile], fun c hc => mem_takeWhile_imp hc⟩
    · cases h
  · rintro ⟨rfl, hfree⟩
    rw [dropWhile_append_of_pos hfree, takeWhile_append_of_pos hfree]
    simp [notBrace]

lemma BraceMatch.Matches.tail (h : m.Matches (c :: s))
    (hnone : (if c = '{' then closeBrace s else none) = none) :
    ∃ before, m.before = c :: before ∧ { m with before := before }.Matches s := by
  obtain ⟨before, inner, after⟩ := m
  obtain ⟨heq, hfree⟩ := h
  cases before with
  | nil =>
    obtain ⟨rfl, rfl⟩ := cons_eq_cons.mp heq
    rw [if_pos rfl, closeBrace_eq_some.mpr ⟨rfl, hfree⟩] at hnone
    cases hnone
  | cons d before =>
    obtain ⟨rfl, rfl⟩ := cons_eq_cons.mp heq
    exact ⟨before, rfl, rfl, hfree⟩

lemma captures_spec (s : List Char) :
    match captures s with
    | none => ∀ m : BraceMatch, ¬ m.Matches s
    | some m => m.First s := by
  induction s with
  | nil =>
    intro m hm
    simpa using hm.eq
  | cons c s ih =>
    rw [captures]
    cases hhere : if c = '{' then closeBrace s else none with
    | some found =>
      split_ifs at hhere with hc
      obtain ⟨rfl, hfree⟩ := closeBrace_eq_some.mp hhere
      exact ⟨⟨by rw [hc]; rfl, hfree⟩, fun _ _ => Nat.zero_le _⟩
    | none =>
      cases hs : captures s with
      | none =>
        rw [hs] at ih
        intro m hm
        obtain ⟨before, -, htail⟩ := hm.tail hhere
        exact ih _ htail
      | some m =>
        rw [hs] at ih
        refine ⟨⟨congrArg (c :: ·) ih.eq, ih.free⟩, fun n hn => ?_⟩
        obtain ⟨before, hbefore, htail⟩ := hn.tail hhere
        rw [hbefore]
        exact Nat.succ_le_succ (ih.first _ htail)

lemma captures_first (h : captures s = some m) : m.First s := by
  have hspec := captures_spec s
  rwa [h] at hspec

/-! ### The recursion -/

lemma strip_sublist (s : List Char) : (strip s).Sublist s :=
  (dropWhile_sublist _).trans
    (reverse_sublist.mp (by simpa using dropWhile_sublist _))

lemma sublist_of_mem_splitOn {part : List Char} (h : part ∈ s.splitOn ',') : part.Sublist s := by
  unfold List.splitOn at h
  induction s generalizing part with
  | nil => simp_all
  | cons c s ih =>
    rw [splitOnP_cons_eq_if_modifyHead] at h
    split_ifs at h
    · rcases mem_cons.mp h with rfl | h
      · exact nil_sublist _
      · exact (ih h).cons _
    · cases hsplit : s.splitOnP (· == ',') with
      | nil => simp [hsplit] at h
      | cons first parts =>
        rw [hsplit] at h ih
        rcases mem_cons.mp h with rfl | h
        · exact (ih mem_cons_self).cons_cons _
        · exact (ih (mem_cons_of_mem _ h)).cons _

lemma count_expanded (h : captures s = some m) {t : List Char} (ht : t ∈ m.expanded) :
    t.count '{' < s.count '{' := by
  obtain ⟨part, hpart, rfl⟩ := mem_map.mp ht
  have hm := captures_first h
  have hzero : (strip part).count '{' = 0 := by
    refine count_eq_zero.mpr fun hmem => ?_
    have hfree := hm.free _ (((strip_sublist _).trans (sublist_of_mem_splitOn hpart)).subset hmem)
    simp [notBrace] at hfree
  rw [hm.eq]
  simp only [count_append, count_cons_self, hzero]
  have : count '{' ('}' :: m.after) = count '{' m.after := count_cons_of_ne (by decide)
  omega

def expand (s : List Char) : List (List Char) :=
  match _h : captures s with
  | none => [s]
  | some m => m.expanded.attach.flatMap fun t => expand t.1
termination_by s.count '{'
decreasing_by exact count_expanded _h t.2

lemma expand_of_none (h : captures s = none) : expand s = [s] := by
  rw [expand]
  split
  · rfl
  · simp_all

lemma expand_of_some (h : captures s = some m) : expand s = m.expanded.flatMap expand := by
  rw [expand]
  split
  · simp_all
  · next h' =>
    cases h.symm.trans h'
    exact (flatMap_map _ _ _).symm.trans
      (congrArg (flatMap expand) (attach_map_subtype_val m.expanded))

def Worked (items : List (List Char)) : Prop :=
  ∃ cost, ∀ fuel stack out, expandLoop (cost + fuel) (items ++ stack) out =
    expandLoop fuel stack (out ++ items.flatMap expand)

lemma worked_of_forall {items : List (List Char)} (h : ∀ t ∈ items, Worked [t]) : Worked items := by
  induction items with
  | nil => exact ⟨0, fun fuel stack out => by simp⟩
  | cons t items ih =>
    obtain ⟨a, ha⟩ := h t mem_cons_self
    obtain ⟨b, hb⟩ := ih fun t ht => h t (mem_cons_of_mem _ ht)
    refine ⟨a + b, fun fuel stack out => ?_⟩
    have hfirst := ha (b + fuel) (items ++ stack) out
    rw [flatMap_singleton] at hfirst
    rw [cons_append, ← singleton_append, Nat.add_assoc, hfirst, hb, append_assoc, flatMap_cons]

lemma worked (s : List Char) : Worked [s] := by
  induction hn : s.count '{' using Nat.strongRecOn generalizing s with
  | ind n ih =>
  subst hn
  cases hs : captures s with
  | none =>
    refine ⟨1, fun fuel stack out => ?_⟩
    rw [Nat.add_comm, singleton_append, expandLoop, hs, flatMap_singleton, expand_of_none hs]
  | some m =>
    obtain ⟨cost, hcost⟩ := worked_of_forall fun t ht => ih _ (count_expanded hs ht) t rfl
    refine ⟨cost + 1, fun fuel stack out => ?_⟩
    rw [Nat.add_right_comm, singleton_append, expandLoop, hs, flatMap_singleton, expand_of_some hs]
    exact hcost fuel stack out

lemma captures_of_mem_expand {t : List Char} (h : t ∈ expand s) : captures t = none := by
  induction hn : s.count '{' using Nat.strongRecOn generalizing s with
  | ind n ih =>
  subst hn
  cases hs : captures s with
  | none =>
    rw [expand_of_none hs, mem_singleton] at h
    rwa [h]
  | some m =>
    rw [expand_of_some hs] at h
    obtain ⟨r, hr, ht⟩ := mem_flatMap.mp h
    exact ih _ (count_expanded hs hr) ht rfl

lemma no_match (h : captures s = none) (m : BraceMatch) : ¬ m.Matches s := by
  have hspec := captures_spec s
  rw [h] at hspec
  exact hspec m

structure Stripped (s t : List Char) : Prop where
  cut : ∃ front back, s = front ++ t ++ back ∧ ∀ c ∈ front ++ back, isSpace c
  front : ∀ h : t ≠ [], ¬ isSpace (t.head h)
  back : ∀ h : t ≠ [], ¬ isSpace (t.getLast h)

lemma stripped_strip (s : List Char) : Stripped s (strip s) := by
  let r := s.rdropWhile isSpace
  have hstrip : strip s = r.dropWhile isSpace := rfl
  refine ⟨⟨r.takeWhile isSpace, s.rtakeWhile isSpace, ?_, fun c hc => ?_⟩, fun h => ?_, fun h => ?_⟩
  · rw [hstrip, takeWhile_append_dropWhile, rdropWhile_append_rtakeWhile]
  · rcases mem_append.mp hc with hc | hc
    · exact mem_takeWhile_imp hc
    · exact mem_rtakeWhile_imp hc
  · rw [Bool.not_eq_true]
    exact head_dropWhile_not _ h
  · have hr : r ≠ [] := fun hr => h (by rw [hstrip, hr]; rfl)
    have hlast : (strip s).getLast h = r.getLast hr := (dropWhile_suffix _).getLast h
    rw [hlast]
    exact rdropWhile_last_not _ _ hr

/-- **Brace expansion is its recursion.** The loop ends with the results of the recursion: the
first group is replaced by each of its comma-separated parts, without the blanks at their ends,
and each text is expanded in turn. No result has a group left. -/
theorem braceExpand_eq (s : List Char) :
    (∃ fuel, braceExpand fuel s = some (expand s)) ∧
      ((∃ m : BraceMatch, m.First s ∧ expand s = (m.inner.splitOn ',').flatMap fun part =>
          expand (m.before ++ strip part ++ m.after)) ∨
        (∀ m : BraceMatch, ¬ m.Matches s) ∧ expand s = [s]) ∧
      (∀ part, Stripped part (strip part)) ∧
      ∀ t ∈ expand s, ∀ m : BraceMatch, ¬ m.Matches t := by
  refine ⟨?_, ?_, stripped_strip, fun t ht => no_match (captures_of_mem_expand ht)⟩
  · obtain ⟨cost, hcost⟩ := worked s
    have hend := hcost 0 [] []
    rw [flatMap_singleton, nil_append, expandLoop] at hend
    exact ⟨cost, hend⟩
  · cases hs : captures s with
    | none => exact .inr ⟨no_match hs, expand_of_none hs⟩
    | some m =>
      refine .inl ⟨m, captures_first hs, (expand_of_some hs).trans ?_⟩
      rw [BraceMatch.expanded, flatMap_map]

end Aios.DocsCheck
