import Mathlib

/-!
Circular buffers.

The contents of a circular buffer are the entries of a window of length `len` that starts
at `head` and wraps around. Writing just behind the window and growing it appends; moving
the head on and shrinking it drops the first entry.
-/

namespace Aios.Lib.Ring

open List Function

variable {n : ℕ} [NeZero n] {α : Type*}

def window (e : Fin n → α) (head len : ℕ) : List α :=
  (List.range len).map fun k => e (Fin.ofNat n (head + k))

@[simp] lemma length_window (e : Fin n → α) (head len : ℕ) : (window e head len).length = len := by
  simp [window]

@[simp] lemma window_zero (e : Fin n → α) (head : ℕ) : window e head 0 = [] := rfl

lemma ofNat_mod (i k : ℕ) : Fin.ofNat n (i % n + k) = Fin.ofNat n (i + k) := by
  apply Fin.ext
  simp [Fin.ofNat, Nat.add_mod]

lemma window_mod (e : Fin n → α) (head len : ℕ) : window e (head % n) len = window e head len := by
  unfold window
  exact map_congr_left fun k _ => by rw [ofNat_mod]

lemma window_succ (e : Fin n → α) (head len : ℕ) :
    window e head (len + 1) = e (Fin.ofNat n head) :: window e (head + 1) len := by
  unfold window
  rw [range_succ_eq_map, map_cons, map_map]
  refine congrArg₂ _ rfl (map_congr_left fun k _ => ?_)
  simp only [comp_apply]
  rw [show head + (k + 1) = head + 1 + k by omega]

lemma ofNat_ne {head k len : ℕ} (hk : k < len) (hlen : len < n) :
    Fin.ofNat n (head + k) ≠ Fin.ofNat n (head + len) := by
  intro h
  have hv : (head + k) % n = (head + len) % n := congrArg Fin.val h
  have hmod : k % n = len % n := Nat.ModEq.add_left_cancel' head hv
  rw [Nat.mod_eq_of_lt (by omega), Nat.mod_eq_of_lt hlen] at hmod
  omega

lemma window_push (e : Fin n → α) (head : ℕ) {len : ℕ} (hlen : len < n) (a : α) :
    window (update e (Fin.ofNat n (head + len)) a) head (len + 1) = window e head len ++ [a] := by
  unfold window
  rw [range_succ, map_append, map_singleton, update_self]
  congr 1
  refine map_congr_left fun k hk => ?_
  rw [update_of_ne (ofNat_ne (mem_range.mp hk) hlen)]

/-- The window from `head` on is the list. -/
def Holds (e : Fin n → α) (head : ℕ) (l : List α) : Prop := window e head l.length = l

variable {e : Fin n → α} {head : ℕ} {l l' : List α} {a : α}

lemma holds_cons : Holds e head (a :: l) ↔ e (Fin.ofNat n head) = a ∧ Holds e (head + 1) l := by
  rw [Holds, length_cons, window_succ, List.cons.injEq, Holds]

lemma Holds.push (h : Holds e head l) (hlen : l.length < n) :
    Holds (update e (Fin.ofNat n (head + l.length)) a) head (l ++ [a]) := by
  rw [Holds, length_append, length_singleton, window_push e head hlen, h]

lemma holds_mod (e : Fin n → α) (head : ℕ) (l : List α) :
    Holds e (head % n) l ↔ Holds e head l := by
  rw [Holds, window_mod, Holds]

lemma Holds.pop (h : Holds e (head + 1) l) (hlen : l.length < n) {b : α} :
    Holds (update e (Fin.ofNat n head) b) (head + 1) l := by
  refine Eq.trans ?_ h
  unfold window
  refine map_congr_left fun k hk => ?_
  have hlt := mem_range.mp hk
  have hne : Fin.ofNat n (head + 0) ≠ Fin.ofNat n (head + (1 + k)) :=
    ofNat_ne (by omega) (by omega)
  rw [Nat.add_zero, ← Nat.add_assoc] at hne
  rw [update_of_ne hne.symm]

end Aios.Lib.Ring
