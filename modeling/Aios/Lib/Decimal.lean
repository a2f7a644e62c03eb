import Mathlib

/-!
Decimal numbers as ASCII text.

`decimal` writes a number, `ofDecimal` reads one. A text that is cut off stands for a smaller
number.
-/

namespace Aios.Lib

open List

def digit (d : ℕ) : UInt8 := UInt8.ofNat (48 + d)

def decimal (n : ℕ) : List UInt8 := (Nat.toDigits 10 n).map fun c => UInt8.ofNat c.toNat

def ofDecimal (l : List UInt8) : ℕ := l.foldl (fun acc b => 10 * acc + (b.toNat - 48)) 0

/-- `is_ascii_digit`. -/
def isDigit (b : UInt8) : Bool := 48 ≤ b && b ≤ 57

variable {n d : ℕ}

lemma digitChar_byte (h : d < 10) : UInt8.ofNat (Nat.digitChar d).toNat = digit d := by
  interval_cases d <;> rfl

lemma decimal_of_lt (h : n < 10) : decimal n = [digit n] := by
  rw [decimal, Nat.toDigits_of_lt_base h, map_singleton, digitChar_byte h]

lemma decimal_of_le (h : 10 ≤ n) : decimal n = decimal (n / 10) ++ [digit (n % 10)] := by
  rw [decimal, Nat.toDigits_of_base_le (by omega) h, map_append, map_singleton,
    digitChar_byte (Nat.mod_lt _ (by omega)), decimal]

lemma decimal_ne_nil (n : ℕ) : decimal n ≠ [] := by
  rcases Nat.lt_or_ge n 10 with h | h
  · simp [decimal_of_lt h]
  · simp [decimal_of_le h]

lemma toNat_digit (h : d < 10) : (digit d).toNat = 48 + d := by
  rw [digit, UInt8.toNat_ofNat']
  omega

lemma isDigit_digit (h : d < 10) : isDigit (digit d) = true := by
  interval_cases d <;> rfl

lemma isDigit_of_mem_decimal {b : UInt8} (h : b ∈ decimal n) : isDigit b = true := by
  induction n using Nat.strong_induction_on with
  | _ n ih =>
    rcases Nat.lt_or_ge n 10 with hn | hn
    · rw [decimal_of_lt hn, mem_singleton] at h
      rw [h]
      exact isDigit_digit hn
    · rw [decimal_of_le hn, mem_append, mem_singleton] at h
      rcases h with h | rfl
      · exact ih _ (by omega) h
      · exact isDigit_digit (Nat.mod_lt _ (by omega))

lemma ofDecimal_concat (l : List UInt8) (b : UInt8) :
    ofDecimal (l ++ [b]) = 10 * ofDecimal l + (b.toNat - 48) := by
  simp [ofDecimal]

lemma ofDecimal_decimal (n : ℕ) : ofDecimal (decimal n) = n := by
  induction n using Nat.strong_induction_on with
  | _ n ih =>
    rcases Nat.lt_or_ge n 10 with hn | hn
    · rw [decimal_of_lt hn]
      simp only [ofDecimal, foldl_cons, foldl_nil, toNat_digit hn]
      omega
    · have hd : n % 10 < 10 := Nat.mod_lt _ (by omega)
      rw [decimal_of_le hn, ofDecimal_concat, ih _ (by omega), toNat_digit hd]
      omega

lemma ofDecimal_lt_of_append {l m : List UInt8} (h : decimal n = l ++ m) (hl : l ≠ [])
    (hm : m ≠ []) : ofDecimal l < n := by
  induction n using Nat.strong_induction_on generalizing m with
  | _ n ih =>
    rcases Nat.lt_or_ge n 10 with hn | hn
    · -- one digit has no two parts
      rw [decimal_of_lt hn] at h
      have hlen := congrArg List.length h
      have h1 := length_pos_iff.mpr hl
      have h2 := length_pos_iff.mpr hm
      simp only [length_singleton, length_append] at hlen
      omega
    · rcases eq_nil_or_concat m with rfl | ⟨m', b, rfl⟩
      · exact absurd rfl hm
      · rw [decimal_of_le hn, concat_eq_append, ← append_assoc] at h
        have h' := (append_inj' h rfl).1
        by_cases hm' : m' = []
        · subst hm'
          rw [append_nil] at h'
          rw [← h', ofDecimal_decimal]
          omega
        · have := ih (n / 10) (by omega) h' hm'
          omega

end Aios.Lib
