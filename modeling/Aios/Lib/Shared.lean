import Aios.Lib.Fallible

/-!
Programs that share a state with others.

A program reads and changes the shared state in sections, each of which holds a lock. Before each
section the others may have acted: what they will do is a list of functions that the program does
not know, one for each section, and nothing once the list is used up. What the others may do is a
relation between the state before and after, and a specification holds whatever they do within it,
as long as what it says about the state between two sections is stable under the relation.
-/

namespace Aios.Lib

/-- What a program owns, the state it shares, and what the others will do. -/
structure Shared (σ τ : Type) where
  own : τ
  state : σ
  others : List (σ → σ)

namespace Shared

open Fallible

variable {ε σ τ α : Type}

def interfere (w : Shared σ τ) : Shared σ τ :=
  match w.others with
  | [] => w
  | f :: fs => ⟨w.own, f w.state, fs⟩

/-- A section that holds a lock. -/
def locked (f : σ → Except ε α × σ) : EStateM ε (Shared σ τ) α := fun w =>
  match f w.interfere.state with
  | (.ok a, s) => .ok a ⟨w.own, s, w.interfere.others⟩
  | (.error e, s) => .error e ⟨w.own, s, w.interfere.others⟩

def update (g : σ → σ) : EStateM ε (Shared σ τ) Unit := locked fun s => (.ok (), g s)

def load (g : σ → α) : EStateM ε (Shared σ τ) α := locked fun s => (.ok (g s), s)

def modifyOwn (g : τ → τ) : EStateM ε (Shared σ τ) Unit :=
  modify fun w => { w with own := g w.own }

/-- A program run by one that owns more. -/
def zoom {τ' : Type} (view : τ → τ') (put : τ' → τ → τ) (x : EStateM ε (Shared σ τ') α) :
    EStateM ε (Shared σ τ) α := fun w =>
  match x ⟨view w.own, w.state, w.others⟩ with
  | .ok a v => .ok a ⟨put v.own w.own, v.state, v.others⟩
  | .error e v => .error e ⟨put v.own w.own, v.state, v.others⟩

/-! ### Runs in which the others do nothing more -/

section Alone

variable {f : σ → Except ε α × σ} {o : τ} {s t : σ} {a : α} {e : ε}

lemma locked_ok (h : f s = (.ok a, t)) : locked f ⟨o, s, []⟩ = .ok a ⟨o, t, []⟩ := by
  have hf : f (interfere (⟨o, s, []⟩ : Shared σ τ)).state = (.ok a, t) := h
  unfold locked
  rw [hf]
  rfl

lemma update_alone (g : σ → σ) :
    (update g : EStateM ε (Shared σ τ) Unit) ⟨o, s, []⟩ = .ok () ⟨o, g s, []⟩ := rfl

lemma load_alone (g : σ → α) :
    (load g : EStateM ε (Shared σ τ) α) ⟨o, s, []⟩ = .ok (g s) ⟨o, s, []⟩ := rfl

lemma locked_others (g : σ → σ) : locked f ⟨o, s, [g]⟩ = locked f ⟨o, g s, []⟩ := rfl

end Alone

/-! ### Specifications -/

section Rely

variable {R : σ → σ → Prop} {P Q : τ → σ → Prop} {V : α → Prop}

/-- The state is as described, and the others keep to the relation. -/
def Under (R : σ → σ → Prop) (P : τ → σ → Prop) (w : Shared σ τ) : Prop :=
  P w.own w.state ∧ ∀ f ∈ w.others, ∀ s, R s (f s)

/-- What the others do cannot make it false. -/
def Stable (R : σ → σ → Prop) (P : τ → σ → Prop) : Prop := ∀ o s t, R s t → P o s → P o t

lemma Under.interfere {w : Shared σ τ} (hP : Stable R P) (h : Under R P w) :
    Under R P w.interfere := by
  obtain ⟨o, s, others⟩ := w
  cases others with
  | nil => exact h
  | cons f fs =>
    refine ⟨hP o s (f s) (h.2 f List.mem_cons_self s) h.1, fun g hg => ?_⟩
    exact h.2 g (List.mem_cons_of_mem f hg)

lemma interfere_own (w : Shared σ τ) : w.interfere.own = w.own := by
  unfold Shared.interfere
  split <;> rfl

/-- The rule for a section: what it is entered with is stable. A failure ends the program. -/
theorem spec_locked {f : σ → Except ε α × σ} (hP : Stable R P)
    (hok : ∀ o s a t, P o s → f s = (.ok a, t) → V a ∧ Q o t) :
    Spec (Under R P) (locked f) (fun a w => V a ∧ Under R Q w) fun _ => True := by
  intro w hw
  obtain ⟨hPw, hR⟩ := hw.interfere hP
  rw [interfere_own] at hPw
  unfold locked
  cases hf : f w.interfere.state with
  | mk r t =>
    cases r with
    | ok a =>
      obtain ⟨hV, hQ⟩ := hok w.own w.interfere.state a t hPw hf
      exact ⟨hV, hQ, hR⟩
    | error e => trivial

theorem spec_update {g : σ → σ} (hP : Stable R P) (h : ∀ o s, P o s → Q o (g s)) :
    Spec (Under R P) (update g : EStateM ε (Shared σ τ) Unit) (fun _ => Under R Q)
      fun _ => True := by
  refine (spec_locked (V := fun _ => True) hP fun o s a t hs heq => ?_).post fun a w hw => hw.2
  cases heq
  exact ⟨trivial, h o s hs⟩

theorem spec_load {g : σ → α} (hP : Stable R P) (h : ∀ o s, P o s → V (g s)) :
    Spec (Under R P) (load g : EStateM ε (Shared σ τ) α) (fun a w => V a ∧ Under R P w)
      fun _ => True := by
  refine spec_locked hP fun o s a t hs heq => ?_
  cases heq
  exact ⟨h o s hs, hs⟩

theorem spec_modifyOwn {g : τ → τ} (h : ∀ o s, P o s → Q (g o) s) :
    Spec (Under R P) (modifyOwn g : EStateM ε (Shared σ τ) Unit) (fun _ => Under R Q)
      fun _ => True :=
  Spec.modify fun w hw => ⟨h w.own w.state hw.1, hw.2⟩

/-- A program run by one that owns more: the rest of what it owns is left alone. -/
theorem spec_zoom {τ' : Type} {view : τ → τ'} {put : τ' → τ → τ} {P : τ' → σ → Prop}
    {x : EStateM ε (Shared σ τ') α} (hx : Spec (Under R P) x (fun a _ => V a) fun _ => True) :
    Spec (Under R fun o => P (view o)) (zoom view put x) (fun a _ => V a) fun _ => True := by
  intro w hw
  have hrun := hx ⟨view w.own, w.state, w.others⟩ hw
  unfold zoom
  cases hv : x ⟨view w.own, w.state, w.others⟩ with
  | ok a v =>
    rw [hv] at hrun
    exact hrun
  | error e v => trivial

end Rely

/-- The rule for an invariant of the state that every step of the others keeps, and every section.
It need not be stable under anything else. -/
theorem keeps_locked {R : σ → σ → Prop} {I : σ → Prop} {O : τ → Prop} {f : σ → Except ε α × σ}
    (hR : ∀ s t, R s t → I s → I t) (hf : ∀ s, I s → I (f s).2) :
    Keeps (Under R fun o s => O o ∧ I s) (locked f) := by
  intro w hw
  obtain ⟨⟨hO, hI⟩, hothers⟩ := hw.interfere fun o s t hst h => ⟨h.1, hR s t hst h.2⟩
  rw [interfere_own] at hO
  have hnext := hf w.interfere.state hI
  unfold locked
  cases hrun : f w.interfere.state with
  | mk r t =>
    rw [hrun] at hnext
    cases r with
    | ok a => exact ⟨⟨hO, hnext⟩, hothers⟩
    | error e => exact ⟨⟨hO, hnext⟩, hothers⟩

/-- The same for a program run by one that owns more. -/
theorem keeps_zoom {τ' : Type} {view : τ → τ'} {put : τ' → τ → τ} {R : σ → σ → Prop} {I : σ → Prop}
    {O : τ' → Prop} {x : EStateM ε (Shared σ τ') α} (hput : ∀ t o, view (put t o) = t)
    (hx : Keeps (Under R fun o s => O o ∧ I s) x) :
    Keeps (Under R fun o s => O (view o) ∧ I s) (zoom view put x) := by
  intro w hw
  have hrun := hx ⟨view w.own, w.state, w.others⟩ hw
  unfold zoom
  cases hv : x ⟨view w.own, w.state, w.others⟩ with
  | ok a v =>
    rw [hv] at hrun
    exact ⟨⟨(hput _ _).symm ▸ hrun.1.1, hrun.1.2⟩, hrun.2⟩
  | error e v =>
    rw [hv] at hrun
    exact ⟨⟨(hput _ _).symm ▸ hrun.1.1, hrun.1.2⟩, hrun.2⟩

/-- The rule for the answer of a section. -/
theorem returns_locked {f : σ → Except ε α × σ} {V : α → Prop}
    (h : ∀ s a t, f s = (.ok a, t) → V a) : Returns (locked f : EStateM ε (Shared σ τ) α) V := by
  intro w _
  unfold locked
  cases hf : f w.interfere.state with
  | mk r t =>
    cases r with
    | ok a => exact h _ a t hf
    | error e => trivial

end Shared

end Aios.Lib
