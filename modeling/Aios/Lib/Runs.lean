import Mathlib

/-!
Runs of a labelled transition relation.

A run may be restricted by a guard on the label and the state before the step; the rule
for an inductive invariant is the one every safety theorem of the development goes
through.
-/

namespace Aios.Lib

open Relation

variable {σ ι : Type*}

/-- The states reached from `s` by steps whose labels meet the guard `ok`. -/
def Runs (step : σ → ι → σ → Prop) (ok : σ → ι → Prop) (s t : σ) : Prop :=
  ReflTransGen (fun a b => ∃ i, ok a i ∧ step a i b) s t

namespace Runs

variable {step : σ → ι → σ → Prop} {ok : σ → ι → Prop} {s t u : σ}

lemma refl (s : σ) : Runs step ok s s := ReflTransGen.refl

lemma snoc {i : ι} (h : Runs step ok s t) (hok : ok t i) (hs : step t i u) : Runs step ok s u :=
  ReflTransGen.tail h ⟨i, hok, hs⟩

/-- **The invariant rule.** What holds at the start and is kept by every guarded step holds
in every state of the run. -/
lemma inv (I : σ → Prop) (h0 : I s) (hstep : ∀ a i b, I a → ok a i → step a i b → I b)
    (h : Runs step ok s t) : I t := by
  induction h with
  | refl => exact h0
  | tail _ hs ih =>
    obtain ⟨i, hok, hi⟩ := hs
    exact hstep _ i _ ih hok hi

/-- Does every label of the list meet the guard when its turn comes? -/
def allowed (ok : σ → ι → Prop) [∀ a i, Decidable (ok a i)] (next : σ → ι → σ) :
    σ → List ι → Bool
  | _, [] => true
  | s, i :: l => decide (ok s i) && allowed ok next (next s i) l

lemma of_foldl [∀ a i, Decidable (ok a i)] {next : σ → ι → σ} {l : List ι}
    (hstep : ∀ a i, ok a i → step a i (next a i)) (h : allowed ok next s l = true) :
    Runs step ok s (l.foldl next s) := by
  induction l generalizing s with
  | nil => exact refl s
  | cons i l ih =>
    simp only [allowed, Bool.and_eq_true, decide_eq_true_eq] at h
    exact ReflTransGen.head ⟨i, h.1, hstep s i h.1⟩ (ih h.2)

/-- The run of a deterministic machine whose steps may be disabled; `none` when a label is
not enabled or its guard fails. -/
def exec (ok : σ → ι → Prop) [∀ a i, Decidable (ok a i)] (next : σ → ι → Option σ) :
    σ → List ι → Option σ
  | s, [] => some s
  | s, i :: l => if ok s i then (next s i).bind fun t => exec ok next t l else none

variable {next : σ → ι → Option σ}

lemma of_exec [∀ a i, Decidable (ok a i)] {l : List ι} (h : exec ok next s l = some t) :
    Runs (fun a i b => next a i = some b) ok s t := by
  induction l generalizing s with
  | nil => cases h; exact refl _
  | cons i l ih =>
    simp only [exec] at h
    split at h
    · rename_i hok
      obtain ⟨u, hu, h'⟩ := Option.bind_eq_some_iff.mp h
      exact ReflTransGen.head ⟨i, hok, hu⟩ (ih h')
    · simp at h

lemma exists_of_exec [∀ a i, Decidable (ok a i)] (l : List ι) {p : σ → Prop} [DecidablePred p]
    (h : (exec ok next s l).any (fun t => decide (p t)) = true) :
    ∃ t, Runs (fun a i b => next a i = some b) ok s t ∧ p t := by
  obtain ⟨t, ht, hp⟩ := Option.any_eq_true _ _ |>.mp h
  exact ⟨t, of_exec ht, of_decide_eq_true hp⟩

end Runs

/-! ### Calls and their answers -/

section Answers

variable {τ α : Type*}

/-- The answers to a sequence of calls, and the state after it. -/
def answers (call : σ → ι → α × σ) (s : σ) : List ι → List α × σ
  | [] => ([], s)
  | i :: l => ((call s i).1 :: (answers call (call s i).2 l).1, (answers call (call s i).2 l).2)

/-- Related states that answer every call alike and stay related do so over every sequence. -/
lemma answers_eq (call : σ → ι → α × σ) (call' : τ → ι → α × τ) (R : σ → τ → Prop)
    (hcall : ∀ s t i, R s t → (call s i).1 = (call' t i).1 ∧ R (call s i).2 (call' t i).2) {s : σ}
    {t : τ} (h : R s t) (l : List ι) : (answers call s l).1 = (answers call' t l).1 ∧
    R (answers call s l).2 (answers call' t l).2 := by
  induction l generalizing s t with
  | nil => exact ⟨rfl, h⟩
  | cons i l ih =>
    obtain ⟨hanswer, hnext⟩ := hcall s t i h
    obtain ⟨hrest, hR⟩ := ih hnext
    exact ⟨congrArg₂ List.cons hanswer hrest, hR⟩

end Answers

end Aios.Lib
