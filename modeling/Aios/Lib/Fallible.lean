import Mathlib

/-!
Programs that change a state and may fail; what was changed before a failure stays.

A run of a sequence is taken apart into runs of its parts. A specification says what a run that
succeeds establishes and what one that fails leaves; its rules follow the shape of the program.
-/

namespace Aios.Lib.Fallible

open List

variable {ε σ α β : Type} {x : EStateM ε σ α} {f : α → EStateM ε σ β} {s t : σ} {b : β} {e : ε}

def state : EStateM.Result ε σ α → σ
  | .ok _ s => s
  | .error _ s => s

def isOk : EStateM.Result ε σ α → Bool
  | .ok _ _ => true
  | .error _ _ => false

def answer : EStateM.Result ε σ α → Option α
  | .ok a _ => some a
  | .error _ _ => none

theorem eq_ok_state {r : EStateM.Result ε σ α} {a : α} (h : answer r = some a) :
    r = .ok a (state r) := by
  cases r with
  | ok a s => cases h; rfl
  | error e s => cases h

theorem bind_ok (h : (x >>= f) s = .ok b t) : ∃ a u, x s = .ok a u ∧ f a u = .ok b t := by
  change EStateM.bind x f s = _ at h
  unfold EStateM.bind at h
  cases hx : x s with
  | ok a u => rw [hx] at h; exact ⟨a, u, rfl, h⟩
  | error e u => rw [hx] at h; cases h

theorem bind_error (h : (x >>= f) s = .error e t) :
    x s = .error e t ∨ ∃ a u, x s = .ok a u ∧ f a u = .error e t := by
  change EStateM.bind x f s = _ at h
  unfold EStateM.bind at h
  cases hx : x s with
  | ok a u => rw [hx] at h; exact .inr ⟨a, u, rfl, h⟩
  | error e' u => rw [hx] at h; cases h; exact .inl rfl

theorem bind_eq {a : α} {u : σ} (h : x s = .ok a u) : (x >>= f) s = f a u := by
  change EStateM.bind x f s = _
  unfold EStateM.bind
  rw [h]

theorem bind_eq_error (h : x s = .error e t) : (x >>= f) s = .error e t := by
  change EStateM.bind x f s = _
  unfold EStateM.bind
  rw [h]

/-- A run without its answer ends where the run ends. -/
theorem state_void (x : EStateM ε σ α) (s : σ) :
    state ((x >>= fun _ => pure PUnit.unit) s) = state (x s) := by
  change state (EStateM.bind x _ s) = _
  unfold EStateM.bind
  cases x s <;> rfl

def failIf (c : Prop) [Decidable c] (e : ε) : EStateM ε σ Unit := if c then throw e else pure ()

/-! ### Specifications -/

/-- From a state with `P` the program succeeds with `Q` of its answer and the state after, or fails
in a state with `E`. -/
def Spec (P : σ → Prop) (x : EStateM ε σ α) (Q : α → σ → Prop) (E : σ → Prop) : Prop :=
  ∀ s, P s → match x s with
    | .ok a t => Q a t
    | .error _ t => E t

namespace Spec

variable {P P' : σ → Prop} {Q : β → σ → Prop} {R : α → σ → Prop} {E : σ → Prop} {c : Prop}
  [Decidable c]

theorem ok {a : α} (h : Spec P x R E) (hs : P s) (hx : x s = .ok a t) : R a t := by
  have := h s hs
  rwa [hx] at this

/-- What holds after a success and after a failure holds after the run. -/
theorem state (h : Spec P x R E) (hR : ∀ a t, R a t → E t) (hs : P s) :
    E (Fallible.state (x s)) := by
  have hrun := h s hs
  cases hx : x s with
  | ok a t => rw [hx] at hrun; exact hR a t hrun
  | error e t => rw [hx] at hrun; exact hrun

theorem bind (hx : Spec P x R E) (hf : ∀ a, Spec (R a) (f a) Q E) : Spec P (x >>= f) Q E := by
  intro s hs
  have hrun := hx s hs
  cases h : x s with
  | ok a t =>
    rw [h] at hrun
    rw [bind_eq h]
    exact hf a t hrun
  | error e t =>
    rw [h] at hrun
    rw [bind_eq_error h]
    exact hrun

theorem pure {a : α} (h : ∀ s, P s → R a s) : Spec P (pure a : EStateM ε σ α) R E :=
  fun s hs => h s hs

theorem throw (h : ∀ s, P s → E s) : Spec P (throw e : EStateM ε σ α) R E := fun s hs => h s hs

theorem modify {g : σ → σ} {U : Unit → σ → Prop} (h : ∀ s, P s → U () (g s)) :
    Spec P (modify g : EStateM ε σ Unit) U E := fun s hs => h s hs

theorem ite {y : EStateM ε σ α} (hx : c → Spec P x R E) (hy : ¬c → Spec P y R E) :
    Spec P (if c then x else y) R E := by
  split
  · exact hx ‹c›
  · exact hy ‹¬c›

/-- A check in front of a program. -/
theorem failIf_bind {f : Unit → EStateM ε σ β} (hE : ∀ s, P s → E s)
    (h : ¬c → Spec P (f ()) Q E) : Spec P (failIf c e >>= f) Q E := by
  intro s hs
  by_cases hc : c
  · have : failIf c e s = .error e s := by simp only [failIf, if_pos hc]; rfl
    rw [bind_eq_error this]
    exact hE s hs
  · have : failIf c e s = .ok () s := by simp only [failIf, if_neg hc]; rfl
    rw [bind_eq this]
    exact h hc s hs

/-- A check that passes. -/
theorem passIf_bind {f : Unit → EStateM ε σ β} (hc : ¬c) (h : Spec P (f ()) Q E) :
    Spec P (failIf c e >>= f) Q E := by
  intro s hs
  have hpass : failIf c e s = .ok () s := by simp only [failIf, if_neg hc]; rfl
  rw [bind_eq hpass]
  exact h s hs

/-- A fact that does not depend on the state is assumed once. -/
theorem assume {p : Prop} (h : p → Spec P x R E) : Spec (fun s => p ∧ P s) x R E :=
  fun s hs => h hs.1 s hs.2

theorem post {R' : α → σ → Prop} (h : Spec P x R E) (hR : ∀ a t, R a t → R' a t) :
    Spec P x R' E := by
  intro s hs
  have hrun := h s hs
  cases hx : x s with
  | ok a t => rw [hx] at hrun; exact hR a t hrun
  | error e t => rw [hx] at hrun; exact hrun

theorem weaken (h : Spec P' x R E) (hP : ∀ s, P s → P' s) : Spec P x R E :=
  fun s hs => h s (hP s hs)

/-- A loop over `0, …, n - 1`, by an invariant of the number of rounds made. -/
theorem foldlM_range {I : ℕ → α → σ → Prop} {g : α → ℕ → EStateM ε σ α} {n : ℕ} (a : α)
    (hstep : ∀ i < n, ∀ a, Spec (I i a) (g a i) (I (i + 1)) E) :
    Spec (I 0 a) ((List.range n).foldlM g a) (I n) E := by
  induction n with
  | zero => exact pure fun s hs => hs
  | succ n ih =>
    rw [range_succ, foldlM_append]
    refine bind (ih fun i hi => hstep i (by omega)) fun b => ?_
    simpa using hstep n (by omega) b

theorem forM_range {I : ℕ → σ → Prop} {g : ℕ → EStateM ε σ PUnit} {n : ℕ}
    (hstep : ∀ i < n, Spec (I i) (g i) (fun _ => I (i + 1)) E) :
    Spec (I 0) (forM (List.range n) g) (fun _ => I n) E := by
  induction n with
  | zero => exact pure fun s hs => hs
  | succ n ih =>
    rw [range_succ, forM_append]
    refine bind (ih fun i hi => hstep i (by omega)) fun _ => ?_
    simpa using hstep n (by omega)

/-- A loop over a list, by an invariant of every round. -/
theorem forM_list {I : σ → Prop} {g : α → EStateM ε σ PUnit} (l : List α)
    (hstep : ∀ a ∈ l, Spec I (g a) (fun _ => I) E) : Spec I (forM l g) (fun _ => I) E := by
  induction l with
  | nil => exact pure fun s hs => hs
  | cons a l ih =>
    rw [forM_cons]
    exact bind (hstep a mem_cons_self) fun _ =>
      ih fun b hb => hstep b (mem_cons_of_mem a hb)

end Spec

/-! ### Invariants -/

/-- The program keeps the invariant, whether it succeeds or fails. -/
def Keeps (I : σ → Prop) (x : EStateM ε σ α) : Prop := Spec I x (fun _ => I) I

namespace Keeps

variable {I : σ → Prop} {c : Prop} [Decidable c]

@[grind ←] theorem bind (hx : Keeps I x) (hf : ∀ a, Keeps I (f a)) : Keeps I (x >>= f) :=
  Spec.bind hx hf

@[grind ←] theorem pure (a : α) : Keeps I (pure a : EStateM ε σ α) := Spec.pure fun _ hs => hs

@[grind ←] theorem throw : Keeps I (throw e : EStateM ε σ α) := Spec.throw fun _ hs => hs

theorem ite {y : EStateM ε σ α} (hx : Keeps I x) (hy : Keeps I y) :
    Keeps I (if c then x else y) := Spec.ite (fun _ => hx) fun _ => hy

/-- A check in front of a program. -/
theorem failIf_bind {f : Unit → EStateM ε σ β} (h : ¬c → Keeps I (f ())) :
    Keeps I (failIf c e >>= f) := Spec.failIf_bind (fun _ hs => hs) h

@[grind ←] theorem forM_list {g : α → EStateM ε σ PUnit} {l : List α}
    (hstep : ∀ a ∈ l, Keeps I (g a)) : Keeps I (forM l g) := Spec.forM_list l hstep

@[grind ←] theorem failIf : Keeps I (failIf c e : EStateM ε σ Unit) := ite throw (pure ())

end Keeps

/-! ### Answers -/

/-- Whatever the program answers has the property. -/
def Returns (x : EStateM ε σ α) (V : α → Prop) : Prop :=
  Spec (fun _ => True) x (fun a _ => V a) fun _ => True

namespace Returns

theorem spec {p : Prop} {W : α → Prop} (h : p → Returns x W) :
    Spec (fun _ => p) x (fun a _ => W a) fun _ => True := fun s hs => h hs s trivial

variable {V : β → Prop} {W : α → Prop} {c : Prop} [Decidable c]

theorem bind (hx : Returns x W) (hf : ∀ a, W a → Returns (f a) V) : Returns (x >>= f) V :=
  Spec.bind hx fun a _ hW => hf a hW _ trivial

/-- The property does not depend on the first program. -/
theorem after (hf : ∀ a, Returns (f a) V) : Returns (x >>= f) V := by
  refine Spec.bind (R := fun _ _ => True) (fun s _ => ?_) fun a => hf a
  cases x s <;> trivial

theorem pure {a : α} (h : W a) : Returns (pure a : EStateM ε σ α) W := Spec.pure fun _ _ => h

theorem throw : Returns (throw e : EStateM ε σ α) W := Spec.throw fun _ _ => trivial

theorem ite {y : EStateM ε σ α} (hx : c → Returns x W) (hy : ¬c → Returns y W) :
    Returns (if c then x else y) W := Spec.ite hx hy

theorem failIf_bind {f : Unit → EStateM ε σ β} (h : ¬c → Returns (f ()) V) :
    Returns (failIf c e >>= f) V := Spec.failIf_bind (fun _ _ => trivial) h

end Returns

/-- A loop that collects answers has one for each element. -/
theorem ok_of_mapM {g : α → Except ε β} {l : List α} {r : List β} (h : l.mapM g = .ok r) :
    ∀ a ∈ l, ∃ b, g a = .ok b := by
  induction l generalizing r with
  | nil => exact fun a ha => absurd ha not_mem_nil
  | cons a l ih =>
    rw [mapM_cons] at h
    cases ha : g a with
    | error e =>
      rw [ha] at h
      cases h
    | ok b =>
      rw [ha] at h
      cases hl : l.mapM g with
      | error e =>
        rw [hl] at h
        cases h
      | ok bs =>
        intro a' ha'
        rcases mem_cons.mp ha' with rfl | hmem
        · exact ⟨b, ha⟩
        · exact ih hl a' hmem

end Aios.Lib.Fallible
