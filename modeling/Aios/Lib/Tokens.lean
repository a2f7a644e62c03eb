import Mathlib

/-!
Lines of tokens.

`fields` cuts a line at separators and drops the empty pieces; `spaced` writes a separator before
every token. A prefix of such a line is a number of whole tokens and a part of the next one.
-/

namespace Aios.Lib

open List

namespace Tokens

variable {α : Type*}

def fields (isSep : α → Bool) (l : List α) : List (List α) :=
  (l.splitOnP isSep).filter fun f => !f.isEmpty

def spaced (sep : α) (toks : List (List α)) : List α := toks.flatMap (sep :: ·)

/-- A token has something in it and no separator. -/
def IsToken (isSep : α → Bool) (tok : List α) : Prop :=
  tok ≠ [] ∧ ∀ a ∈ tok, isSep a = false

section Fields

variable {isSep : α → Bool} {sep : α} {tok part l : List α} {toks : List (List α)}

@[simp] lemma fields_nil : fields isSep ([] : List α) = [] := rfl

lemma fields_cons (h : isSep sep = true) (l : List α) :
    fields isSep (sep :: l) = fields isSep l := by
  have hsplit : ([] ++ sep :: l).splitOnP isSep = [] :: l.splitOnP isSep :=
    splitOnP_append_cons_of_forall_mem (by simp) sep h l
  rw [nil_append] at hsplit
  simp [fields, hsplit]

lemma IsToken.fields (h : IsToken isSep tok) : fields isSep tok = [tok] := by
  have hne : tok.isEmpty = false := by simpa using h.1
  simp [Tokens.fields, splitOnP_eq_singleton h.2, hne]

lemma IsToken.fields_append (h : IsToken isSep tok) (hsep : isSep sep = true) (l : List α) :
    Tokens.fields isSep (tok ++ sep :: l) = tok :: Tokens.fields isSep l := by
  have hne : tok.isEmpty = false := by simpa using h.1
  rw [Tokens.fields, splitOnP_append_cons_of_forall_mem h.2 sep hsep]
  simp [Tokens.fields, hne]

lemma IsToken.of_part (h : IsToken isSep tok) (hp : part <+: tok) (hne : part ≠ []) :
    IsToken isSep part :=
  ⟨hne, fun a ha => h.2 a (hp.subset ha)⟩

lemma fields_spaced_append (hsep : isSep sep = true) (h : ∀ tok ∈ toks, IsToken isSep tok)
    (l : List α) : fields isSep (spaced sep toks ++ sep :: l) = toks ++ fields isSep l := by
  induction toks with
  | nil => simpa [spaced] using fields_cons hsep l
  | cons tok toks ih =>
    have htok := h tok mem_cons_self
    have ih' := ih fun u hu => h u (mem_cons_of_mem _ hu)
    have hcons : spaced sep (tok :: toks) ++ sep :: l =
        sep :: (tok ++ (spaced sep toks ++ sep :: l)) := by
      simp [spaced]
    rw [hcons, fields_cons hsep]
    -- what follows the token starts with a separator in both cases
    cases toks with
    | nil => simpa [spaced] using htok.fields_append hsep l
    | cons u us =>
      have hcons' : spaced sep (u :: us) ++ sep :: l =
          sep :: (u ++ (spaced sep us ++ sep :: l)) := by
        simp [spaced]
      rw [hcons', fields_cons hsep] at ih'
      rw [hcons', htok.fields_append hsep, ih']
      rfl

/-- **Prefixes.** What a prefix of the line leaves of the tokens. -/
lemma cut_spaced (hp : l <+: spaced sep toks) : l = [] ∨ ∃ pre tok post part, toks =
    pre ++ tok :: post ∧ part <+: tok ∧ l = spaced sep pre ++ sep :: part := by
  induction toks generalizing l with
  | nil => exact Or.inl (prefix_nil.mp hp)
  | cons tok toks ih =>
    rcases prefix_cons_iff.mp (show l <+: sep :: (tok ++ spaced sep toks) from hp) with
      rfl | ⟨m, rfl, hm⟩
    · exact Or.inl rfl
    · right
      rcases prefix_or_prefix_of_prefix hm (prefix_append tok _) with hmt | ⟨m', rfl⟩
      · exact ⟨[], tok, toks, m, rfl, hmt, rfl⟩
      · rcases ih ((prefix_append_right_inj tok).mp hm) with rfl | ⟨pre, u, post, part, h⟩
        · exact ⟨[], tok, toks, tok, rfl, prefix_rfl, by simp [spaced]⟩
        · obtain ⟨rfl, hpart, rfl⟩ := h
          exact ⟨tok :: pre, u, post, part, rfl, hpart, by simp [spaced]⟩

end Fields

end Tokens

end Aios.Lib
