import Mathlib

/-!
Address space identifiers: `kernel/src/mm/asid.rs`.

The allocator counts through the 16-bit values, leaves out `0` and raises its generation each
time it comes round. The generation is raised by the call that hands out the last value, so that
value already belongs to the new generation.
-/

namespace Aios.Mm

structure Asid where
  value : UInt16
  generation : UInt64
  deriving DecidableEq, Repr

structure AsidAllocator where
  generation : UInt64
  next : UInt16
  deriving DecidableEq, Repr

namespace AsidAllocator

def new : AsidAllocator := ⟨0, 1⟩

/-- `alloc`: the identifier, and whether a full TLB flush is needed. -/
def alloc (a : AsidAllocator) : (Asid × Bool) × AsidAllocator :=
  if a.next + 1 = 0 then ((⟨a.next, a.generation + 1⟩, true), ⟨a.generation + 1, 1⟩)
  else ((⟨a.next, a.generation⟩, false), ⟨a.generation, a.next + 1⟩)

def isValid (a : AsidAllocator) (asid : Asid) : Bool := asid.generation == a.generation

def after : ℕ → AsidAllocator
  | 0 => new
  | k + 1 => (after k).alloc.2

/-- What call number `k` returns, counted from `0`. -/
def asid (k : ℕ) : Asid := (after k).alloc.1.1

def flushes (k : ℕ) : Bool := (after k).alloc.1.2

def period : ℕ := 65535

lemma next_after (k : ℕ) : (after k).next.toNat = k % period + 1 := by
  induction k with
  | zero => rfl
  | succ k ih =>
    have hadd : ((after k).next + 1).toNat = (k % period + 2) % 2 ^ 16 := by
      rw [UInt16.toNat_add, ih]
      rfl
    have hlt : k % period < period := Nat.mod_lt _ (by decide)
    have hmod := Nat.add_mod k 1 period
    unfold after alloc
    split_ifs with hwrap
    · -- the last value was handed out
      rw [hwrap, UInt16.toNat_zero] at hadd
      simp only [period, UInt16.toNat_one] at *
      omega
    · have hne : ((after k).next + 1).toNat ≠ 0 := fun h => hwrap (UInt16.toNat_inj.mp h)
      simp only [period] at *
      omega

lemma wraps_iff (k : ℕ) : (after k).next + 1 = 0 ↔ (k + 1) % period = 0 := by
  have hlt : k % period < period := Nat.mod_lt _ (by decide)
  have hmod := Nat.add_mod k 1 period
  rw [← UInt16.toNat_inj, UInt16.toNat_add, next_after, UInt16.toNat_zero, UInt16.toNat_one]
  simp only [period] at *
  omega

lemma value_asid (k : ℕ) : (asid k).value.toNat = k % period + 1 := by
  rw [← next_after]
  unfold asid alloc
  split_ifs <;> rfl

lemma flushes_iff (k : ℕ) : flushes k = true ↔ (k + 1) % period = 0 := by
  rw [← wraps_iff]
  unfold flushes alloc
  split_ifs with h <;> simp [h]

lemma generation_asid (k : ℕ) : (asid k).generation = (after (k + 1)).generation := by
  unfold asid
  rw [after]
  unfold alloc
  split_ifs <;> rfl

lemma generation_after {k : ℕ} (hk : k < 2 ^ 64) : (after k).generation.toNat = k / period := by
  induction k with
  | zero => rfl
  | succ k ih =>
    have ih := ih (by omega)
    have hstep := @Nat.succ_div k period
    have hdvd : period ∣ k + 1 ↔ (k + 1) % period = 0 := Nat.dvd_iff_mod_eq_zero
    have hsmall : k / period < 2 ^ 63 := Nat.div_lt_of_lt_mul (by simp only [period]; omega)
    unfold after alloc
    split_ifs with hwrap
    · rw [wraps_iff, ← hdvd] at hwrap
      rw [hstep, if_pos hwrap, UInt64.toNat_add, ih, UInt64.toNat_one]
      omega
    · rw [wraps_iff, ← hdvd] at hwrap
      rw [hstep, if_neg hwrap]
      exact ih

lemma isValid_iff {m i : ℕ} (him : i < m) (hm : m < 2 ^ 64) :
    (after m).isValid (asid i) = true ↔ (i + 1) / period = m / period := by
  rw [isValid, beq_iff_eq, generation_asid, ← UInt64.toNat_inj, generation_after (by omega),
    generation_after hm]

/-- The valid identifiers among the first `m` calls have different values, none of them `0`. -/
def Distinct (m : ℕ) : Prop :=
  ∀ i < m, (after m).isValid (asid i) = true → (asid i).value ≠ 0 ∧
    ∀ j < m, (after m).isValid (asid j) = true → i ≠ j → (asid i).value ≠ (asid j).value

def FlushedBetween (n : ℕ) : Prop :=
  ∀ i j, i < j → j < n → (asid i).value = (asid j).value →
    ∃ k, i < k ∧ k ≤ j ∧ flushes k = true

lemma distinct {m : ℕ} (hm : m < 2 ^ 64) : Distinct m := by
  intro i hi hvi
  refine ⟨fun h0 => ?_, fun j hj hvj hij heq => hij ?_⟩
  · have := value_asid i
    rw [h0, UInt16.toNat_zero] at this
    omega
  · rw [isValid_iff hi hm] at hvi
    rw [isValid_iff hj hm] at hvj
    -- both lie in one round, which has every value once
    have hval := congrArg UInt16.toNat heq
    rw [value_asid, value_asid] at hval
    have hi' := Nat.div_add_mod (i + 1) period
    have hj' := Nat.div_add_mod (j + 1) period
    have hmi := Nat.mod_lt (i + 1) (show 0 < period by decide)
    have hmj := Nat.mod_lt (j + 1) (show 0 < period by decide)
    have hi'' := Nat.add_mod i 1 period
    have hj'' := Nat.add_mod j 1 period
    have hsame : i % period = j % period := Nat.succ.inj hval
    rw [hsame] at hi''
    rw [hvi] at hi'
    rw [hvj] at hj'
    omega

lemma flushedBetween (n : ℕ) : FlushedBetween n := by
  intro i j hij _ heq
  have hval := congrArg UInt16.toNat heq
  rw [value_asid, value_asid] at hval
  -- the last call of the round in which the second call falls, or of the one before
  have hi := Nat.div_add_mod i period
  have hj := Nat.div_add_mod j period
  have hlt := Nat.mod_lt i (show 0 < period by decide)
  by_cases hlast : j % period = period - 1
  · refine ⟨j, hij, le_rfl, (flushes_iff j).mpr ?_⟩
    have := Nat.add_mod j 1 period
    simp only [period] at *
    omega
  · refine ⟨period * (j / period) - 1, ?_, ?_, (flushes_iff _).mpr ?_⟩
    · have hdiv : i / period < j / period := by
        by_contra hge
        have := Nat.mul_le_mul_left period (not_lt.mp hge)
        omega
      have := Nat.mul_le_mul_left period (Nat.succ_le_of_lt hdiv)
      rw [Nat.mul_succ] at this
      simp only [period] at *
      omega
    · omega
    · have hpos : 0 < period * (j / period) := by
        by_contra h0
        have hdiv : j / period = 0 := by
          rcases Nat.mul_eq_zero.mp (by omega : period * (j / period) = 0) with h | h
          · exact absurd h (by decide)
          · exact h
        rw [hdiv] at hj
        have := Nat.zero_le (period * (i / period))
        omega
      rw [Nat.sub_add_cancel hpos]
      exact Nat.mul_mod_right _ _

/-- **Identifiers in use are distinct.** After any number of calls below `2^64` the valid
identifiers have different values other than `0`, and no value is handed out again without a
flush in between. -/
theorem asids_distinct {n : ℕ} (hn : n < 2 ^ 64) : (∀ m ≤ n, Distinct m) ∧ FlushedBetween n :=
  ⟨fun _ hm => distinct (by omega), flushedBetween n⟩

theorem asids_distinct_one_round : (∀ m ≤ 70000, Distinct m) ∧ FlushedBetween 70000 :=
  asids_distinct (by decide)

end AsidAllocator

end Aios.Mm
