import Mathlib

/-!
One address for every data cache line of a range: `shared/src/cache.rs`.

The first address is the start of the range and every later one the start of the next line, as long
as there is a next line and it starts inside the range.
-/

namespace Aios.Mm

/-- The items of `core::iter::successors`, if it ends after at most `fuel` of them. -/
def successors {α : Type} (succ : α → Option α) : ℕ → Option α → Option (List α)
  | _, none => some []
  | 0, some _ => none
  | fuel + 1, some a => (successors succ fuel (succ a)).map (a :: ·)

/-- `u64::checked_add`. -/
def checkedAdd (x y : ℕ) : Option ℕ := if x + y < 2 ^ 64 then some (x + y) else none

/-- The size of a line, of what `CacheType` decodes from `CTR_EL0`. -/
structure CacheType where
  dcacheLineBytes : ℕ

namespace CacheType

open List

def nextAddress (ct : CacheType) (stop addr : ℕ) : Option ℕ :=
  let lineMask := ct.dcacheLineBytes - 1
  match checkedAdd (addr &&& (2 ^ 64 - 1 - lineMask)) (lineMask + 1) with
  | none => none
  | some next => if next < stop then some next else none

def dcacheLineAddresses (ct : CacheType) (start stop fuel : ℕ) : Option (List ℕ) :=
  successors (ct.nextAddress stop) fuel (if start < stop then some start else none)

/-- A cache with lines of `2 ^ k` bytes. -/
def ofLog (k : Fin 64) : CacheType := ⟨2 ^ k.val⟩

/-- Exactly one address in each line that overlaps `[start, stop)`, in order and inside it. -/
structure Covers (line start stop : ℕ) (addrs : List ℕ) : Prop where
  increasing : addrs.Pairwise (· < ·)
  inside : ∀ a ∈ addrs, start ≤ a ∧ a < stop
  lines : ∀ n, (∃ x, start ≤ x ∧ x < stop ∧ x / line = n) ↔ ∃! a, a ∈ addrs ∧ a / line = n

variable {line start stop : ℕ} {addrs : List ℕ}

/-! ### The next line -/

lemma lineStart_eq (k : Fin 64) {addr : ℕ} (haddr : addr < 2 ^ 64) :
    addr &&& (2 ^ 64 - 1 - (2 ^ k.val - 1)) = addr / 2 ^ k.val * 2 ^ k.val := by
  refine Nat.eq_of_testBit_eq fun i => ?_
  have hbits : (2 ^ 64 - 1 - (2 ^ k.val - 1)).testBit i =
      (decide (i < 64) && !decide (i < k.val)) := by
    have hlt : 2 ^ k.val - 1 < 2 ^ 64 :=
      lt_of_le_of_lt (Nat.sub_le _ _) (Nat.pow_lt_pow_right (by decide) k.isLt)
    have hsub : 2 ^ 64 - 1 - (2 ^ k.val - 1) = 2 ^ 64 - (2 ^ k.val - 1 + 1) := by omega
    rw [hsub, Nat.testBit_two_pow_sub_succ hlt, Nat.testBit_two_pow_sub_one]
  rw [Nat.testBit_and, hbits, Nat.testBit_mul_two_pow, Nat.testBit_div_two_pow]
  by_cases hik : i < k.val
  · simp [hik]
  · rw [Nat.sub_add_cancel (not_lt.mp hik)]
    by_cases hi : i < 64
    · simp [hik, hi, not_lt.mp hik]
    · have hhigh : addr.testBit i = false := Nat.testBit_lt_two_pow
        (lt_of_lt_of_le haddr (Nat.pow_le_pow_right (by decide) (not_lt.mp hi)))
      simp [hhigh]

lemma nextAddress_eq (k : Fin 64) (hstop : stop < 2 ^ 64) (hlt : start < stop) :
    (ofLog k).nextAddress stop start = if (start / 2 ^ k.val + 1) * 2 ^ k.val < stop then
      some ((start / 2 ^ k.val + 1) * 2 ^ k.val) else none := by
  have hsum : (start &&& (2 ^ 64 - 1 - ((ofLog k).dcacheLineBytes - 1))) +
      ((ofLog k).dcacheLineBytes - 1 + 1) = (start / 2 ^ k.val + 1) * 2 ^ k.val := by
    change (start &&& (2 ^ 64 - 1 - (2 ^ k.val - 1))) + (2 ^ k.val - 1 + 1) = _
    rw [lineStart_eq k (hlt.trans hstop), Nat.sub_add_cancel (Nat.two_pow_pos _), ← Nat.succ_mul]
  simp only [nextAddress, checkedAdd, hsum]
  split_ifs with hfits hin hin
  · exact if_pos hin
  · exact if_neg hin
  · omega
  · rfl

lemma div_eq_iff (hline : 0 < line) {x : ℕ} (hle : start ≤ x) :
    x / line = start / line ↔ x < (start / line + 1) * line := by
  have hdiv : start / line ≤ x / line := Nat.div_le_div_right hle
  rw [← Nat.div_lt_iff_lt_mul hline]
  omega

/-! ### The addresses -/

structure Walks (line start stop : ℕ) (addrs : List ℕ) : Prop where
  lines : addrs.Pairwise (· / line < · / line)
  inside : ∀ a ∈ addrs, start ≤ a ∧ a < stop
  reach : ∀ x, start ≤ x → x < stop → ∃ a ∈ addrs, a / line = x / line

lemma walks_nil (h : stop ≤ start) : Walks line start stop [] :=
  ⟨.nil, nofun, fun _ hle hx => absurd (h.trans hle) (not_le.mpr hx)⟩

lemma Walks.cons (hline : 0 < line) (hlt : start < stop)
    (h : Walks line ((start / line + 1) * line) stop addrs) :
    Walks line start stop (start :: addrs) := by
  have hgt : start < (start / line + 1) * line := (div_eq_iff hline le_rfl).mp rfl
  refine ⟨pairwise_cons.mpr ⟨fun a ha => ?_, h.lines⟩, forall_mem_cons.mpr ⟨⟨le_rfl, hlt⟩, ?_⟩, ?_⟩
  · exact (Nat.le_div_iff_mul_le hline).mpr (h.inside a ha).1
  · exact fun a ha => ⟨hgt.le.trans (h.inside a ha).1, (h.inside a ha).2⟩
  · intro x hle hx
    by_cases hnext : x < (start / line + 1) * line
    · exact ⟨start, mem_cons_self, ((div_eq_iff hline hle).mpr hnext).symm⟩
    · obtain ⟨a, ha, hax⟩ := h.reach x (not_lt.mp hnext) hx
      exact ⟨a, mem_cons_of_mem _ ha, hax⟩

lemma Walks.covers (h : Walks line start stop addrs) : Covers line start stop addrs := by
  have hnodup : (addrs.map (· / line)).Nodup := pairwise_map.mpr (h.lines.imp ne_of_lt)
  refine ⟨h.lines.imp fun {a b} hab => ?_, h.inside, fun n => ⟨?_, ?_⟩⟩
  · exact lt_of_not_ge fun hba => absurd hab (not_lt.mpr (Nat.div_le_div_right hba))
  · rintro ⟨x, hle, hx, rfl⟩
    obtain ⟨a, ha, hax⟩ := h.reach x hle hx
    exact ⟨a, ⟨ha, hax⟩, fun b hb => inj_on_of_nodup_map hnodup hb.1 ha (hb.2.trans hax.symm)⟩
  · rintro ⟨a, ⟨ha, hn⟩, -⟩
    exact ⟨a, (h.inside a ha).1, (h.inside a ha).2, hn⟩

lemma successors_walks (k : Fin 64) (hstop : stop < 2 ^ 64) (hlt : start < stop) :
    ∃ fuel addrs, successors ((ofLog k).nextAddress stop) fuel (some start) = some addrs ∧
      Walks (2 ^ k.val) start stop addrs := by
  induction hn : stop - start using Nat.strong_induction_on generalizing start with
  | _ n ih =>
    have hpos : 0 < 2 ^ k.val := Nat.two_pow_pos _
    have hnext := nextAddress_eq k hstop hlt
    split_ifs at hnext with hin
    · have hgt : start < (start / 2 ^ k.val + 1) * 2 ^ k.val := (div_eq_iff hpos le_rfl).mp rfl
      obtain ⟨fuel, addrs, hrest, hwalks⟩ := ih _ (by omega) hin rfl
      exact ⟨fuel + 1, start :: addrs, by rw [successors, hnext, hrest]; rfl, hwalks.cons hpos hlt⟩
    · exact ⟨1, [start], by rw [successors, hnext]; rfl, (walks_nil (not_lt.mp hin)).cons hpos hlt⟩

/-- **Cache maintenance covers the range.** For every size of a line and every range the iterator
ends, and has exactly one address in each line that overlaps the range. -/
theorem dcacheLineAddresses_covers (k : Fin 64) (start stop : Fin (2 ^ 64)) : ∃ fuel addrs,
    (ofLog k).dcacheLineAddresses start stop fuel = some addrs ∧
      Covers (2 ^ k.val) start stop addrs := by
  unfold dcacheLineAddresses
  split_ifs with hlt
  · obtain ⟨fuel, addrs, hrun, hwalks⟩ := successors_walks k stop.isLt hlt
    exact ⟨fuel, addrs, hrun, hwalks.covers⟩
  · exact ⟨0, [], rfl, (walks_nil (not_lt.mp hlt)).covers⟩

end CacheType

end Aios.Mm
