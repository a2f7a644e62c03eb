import Aios.Lib.Slots

/-!
Who holds which block.

Blocks are taken from a pool, held by one holder each and given back. The ledger relates
what was ever taken and ever given back, as multisets, to what the holders have now.
-/

namespace Aios.Lib

open Slots Option

variable {ι β : Type*} [Fintype ι]

/-- What was taken has been freed or is held, and the held blocks are apart. -/
structure Ledger (Apart : β → β → Prop) (hold : ι → Option β) (taken freed : Multiset β) :
    Prop where
  account : taken = freed + Slots.total (fun b => {b}) hold
  apart : ∀ i j a b, i ≠ j → hold i = some a → hold j = some b → Apart a b

namespace Ledger

variable {Apart : β → β → Prop} {hold : ι → Option β} {taken freed : Multiset β}

lemma start : Ledger Apart (fun _ : ι => none) 0 0 where
  account := by simp [Slots.total]
  apart := by simp

variable {i : ι} {b : β}

lemma mem_total (h : hold i = some b) : b ∈ Slots.total (fun b => ({b} : Multiset β)) hold :=
  Multiset.mem_sum.mpr ⟨i, Finset.mem_univ i, by simp [h]⟩

lemma mem_outstanding [DecidableEq β] (L : Ledger Apart hold taken freed) (h : hold i = some b) :
    b ∈ taken - freed := by
  rw [L.account, add_tsub_cancel_left]
  exact mem_total h

variable [DecidableEq ι]

lemma take [DecidableEq β] (L : Ledger Apart hold taken freed)
    (hsymm : ∀ a b, Apart a b → Apart b a) (hi : hold i = none)
    (hb : ∀ a ∈ taken - freed, Apart b a) :
    Ledger Apart (Function.update hold i (some b)) (taken + {b}) freed where
  account := by
    have h := total_update (fun b => ({b} : Multiset β)) hold i (some b)
    simp only [hi, elim_none, elim_some, add_zero] at h
    rw [h, ← add_assoc, ← L.account]
  apart := by
    intro j k x y hne hx hy
    rcases update_eq_some.mp hx with ⟨hj, hx'⟩ | ⟨-, hx'⟩ <;>
      rcases update_eq_some.mp hy with ⟨hk, hy'⟩ | ⟨-, hy'⟩
    · exact absurd (hj.trans hk.symm) hne
    · cases hx'
      exact hb y (L.mem_outstanding hy')
    · cases hy'
      exact hsymm b x (hb x (L.mem_outstanding hx'))
    · exact L.apart j k x y hne hx' hy'

lemma give (L : Ledger Apart hold taken freed) (hi : hold i = some b) :
    Ledger Apart (Function.update hold i none) taken (freed + {b}) where
  account := by
    have h := total_update (fun b => ({b} : Multiset β)) hold i none
    simp only [hi, elim_none, elim_some, add_zero] at h
    rw [L.account, ← h, add_right_comm, add_assoc]
  apart := by
    intro j k x y hne hx hy
    rcases update_eq_some.mp hx with ⟨-, hx⟩ | ⟨-, hx⟩
    · cases hx
    rcases update_eq_some.mp hy with ⟨-, hy⟩ | ⟨-, hy⟩
    · cases hy
    exact L.apart j k x y hne hx hy

omit [DecidableEq ι] in
lemma bounce (L : Ledger Apart hold taken freed) (b : β) :
    Ledger Apart hold (taken + {b}) (freed + {b}) where
  account := by rw [L.account, add_right_comm]
  apart := L.apart

end Ledger

end Aios.Lib
