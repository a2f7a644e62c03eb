import Mathlib

/-!
Cyclic redundancy checks in reflected form.

The register is a number of `k + 1` bits. A bit of the message enters at its low end; the register
is shifted down, and the polynomial is added when a one is shifted out. The shift is linear in
exclusive or, so that a whole string of bits can be added before as many shifts; it is injective,
so that two messages that differ in a short string leave different registers.
-/

namespace Aios.Lib.Crc

open List

def step (p c : ℕ) : ℕ := if c % 2 = 1 then c / 2 ^^^ p else c / 2

def feed (p c : ℕ) (bit : Bool) : ℕ :=
  if decide (c % 2 = 1) ^^ bit then c / 2 ^^^ p else c / 2

def bits (b : UInt8) : List Bool := (List.range 8).map b.toNat.testBit

/-- The check of a message a bit at a time: the polynomial is given with its highest power first and
enters the register reflected, and the initial value and the final mask are all ones. -/
def bitwise {w : ℕ} (poly : BitVec w) (data : List UInt8) : ℕ :=
  (data.flatMap bits).foldl (feed poly.reverse.toNat) (2 ^ w - 1) ^^^ (2 ^ w - 1)

def value : List Bool → ℕ
  | [] => 0
  | b :: l => b.toNat + 2 * value l

variable {p c k : ℕ}

/-! ### The shift is linear -/

lemma xor_cancel_right (a b x : ℕ) : (a ^^^ x) ^^^ (b ^^^ x) = a ^^^ b := by
  calc (a ^^^ x) ^^^ (b ^^^ x) = (a ^^^ x) ^^^ (x ^^^ b) := by rw [Nat.xor_comm b x]
    _ = a ^^^ ((x ^^^ x) ^^^ b) := by rw [Nat.xor_assoc, ← Nat.xor_assoc x x b]
    _ = a ^^^ b := by rw [Nat.xor_self, Nat.zero_xor]

lemma step_xor (p a b : ℕ) : step p (a ^^^ b) = step p a ^^^ step p b := by
  unfold step
  rw [Nat.xor_div_two, Nat.xor_mod_two_eq]
  rcases Nat.mod_two_eq_zero_or_one a with ha | ha <;>
    rcases Nat.mod_two_eq_zero_or_one b with hb | hb
  · rw [if_neg (by omega), if_neg (by omega), if_neg (by omega)]
  · rw [if_pos (by omega), if_neg (by omega), if_pos hb, Nat.xor_assoc]
  · rw [if_pos (by omega), if_pos ha, if_neg (by omega), Nat.xor_assoc, Nat.xor_assoc,
      Nat.xor_comm p]
  · rw [if_neg (by omega), if_pos ha, if_pos hb, xor_cancel_right]

lemma iterate_xor (p n a b : ℕ) : (step p)^[n] (a ^^^ b) = (step p)^[n] a ^^^ (step p)^[n] b := by
  induction n generalizing a b with
  | zero => rfl
  | succ n ih => simp only [Function.iterate_succ_apply, step_xor, ih]

lemma step_two_mul (p v : ℕ) : step p (2 * v) = v := by
  rw [step, if_neg (by omega)]
  omega

lemma iterate_shifted (p n h : ℕ) : (step p)^[n] (2 ^ n * h) = h := by
  induction n with
  | zero => simp
  | succ n ih =>
    rw [Function.iterate_succ_apply, pow_succ, mul_comm (2 ^ n), mul_assoc, step_two_mul]
    exact ih

lemma iterate_split (p n x : ℕ) : (step p)^[n] x = (step p)^[n] (x % 2 ^ n) ^^^ x / 2 ^ n := by
  have hx : x = x % 2 ^ n ^^^ 2 ^ n * (x / 2 ^ n) := by
    refine Nat.eq_of_testBit_eq fun i => ?_
    rw [Nat.testBit_xor, Nat.testBit_mod_two_pow, Nat.testBit_two_pow_mul, Nat.testBit_div_two_pow]
    by_cases hi : i < n
    · simp [hi, Nat.not_le.mpr hi]
    · have hle : n ≤ i := Nat.le_of_not_lt hi
      simp [hi, hle, Nat.sub_add_cancel hle]
  conv_lhs => rw [hx]
  rw [iterate_xor, iterate_shifted]

/-! ### A string of bits -/

lemma bit_add (b : Bool) (v : ℕ) : b.toNat + 2 * v = b.toNat ^^^ 2 * v := by
  have hdiv : (b.toNat ^^^ 2 * v) / 2 = v := by
    rw [Nat.xor_div_two]
    cases b <;> simp
  have hmod : (b.toNat ^^^ 2 * v) % 2 = b.toNat := by
    rw [Nat.xor_mod_two_eq]
    cases b <;> simp
  omega

lemma feed_eq (p c : ℕ) (bit : Bool) : feed p c bit = step p (c ^^^ bit.toNat) := by
  unfold feed step
  rw [Nat.xor_div_two, Nat.xor_mod_two_eq]
  have hbit : bit.toNat / 2 = 0 := by cases bit <;> rfl
  rw [hbit, Nat.xor_zero]
  rcases Nat.mod_two_eq_zero_or_one c with hc | hc <;> cases bit <;> simp [Nat.add_mod, hc]

/-- **A string of bits** is added to the register before its shifts. -/
lemma foldl_feed (p c : ℕ) (l : List Bool) :
    l.foldl (feed p) c = (step p)^[l.length] (c ^^^ value l) := by
  induction l generalizing c with
  | nil => simp [value]
  | cons b l ih =>
    have hone : step p (c ^^^ value (b :: l)) = feed p c b ^^^ value l := by
      rw [value, bit_add, ← Nat.xor_assoc, step_xor, step_two_mul, feed_eq]
    rw [foldl_cons, ih, length_cons, Function.iterate_succ_apply, hone]

lemma value_testBit (n x : ℕ) : value ((List.range n).map x.testBit) = x % 2 ^ n := by
  induction n generalizing x with
  | zero => simp [value, Nat.mod_one]
  | succ n ih =>
    have htail : (List.range n).map (x.testBit ∘ Nat.succ) =
        (List.range n).map (x / 2).testBit := by
      refine map_congr_left fun i _ => ?_
      simp [Nat.testBit_succ]
    have hlow : (x.testBit 0).toNat = x % 2 := by
      rcases Nat.mod_two_eq_zero_or_one x with h | h <;> simp [Nat.testBit_zero, h]
    have hpow : 2 ^ (n + 1) = 2 * 2 ^ n := by ring
    rw [range_succ_eq_map, map_cons, map_map, value, htail, ih, hlow, hpow, Nat.mod_mul]

lemma foldl_bits (p c : ℕ) (b : UInt8) :
    (bits b).foldl (feed p) c = (step p)^[8] (c ^^^ b.toNat) := by
  have hb := b.toNat_lt
  have hval : value (bits b) = b.toNat := by
    rw [bits, value_testBit]
    omega
  rw [foldl_feed, hval]
  simp [bits]

lemma foldl_bits_table (p c : ℕ) (b : UInt8) :
    (bits b).foldl (feed p) c = (step p)^[8] ((c ^^^ b.toNat) % 256) ^^^ c / 256 := by
  have hb := b.toNat_lt
  have hdiv : (c ^^^ b.toNat) / 2 ^ 8 = c / 256 := by
    rw [Nat.xor_div_two_pow, Nat.div_eq_of_lt (show b.toNat < 2 ^ 8 by omega), Nat.xor_zero]
  have hpow : 2 ^ 8 = 256 := rfl
  rw [foldl_bits, iterate_split, hdiv, hpow]

/-- **Table and bits.** A fold over bytes that looks the low byte up is the fold over the bits. -/
lemma foldl_table (p c : ℕ) (data : List UInt8) :
    data.foldl (fun c b => (step p)^[8] ((c ^^^ b.toNat) % 256) ^^^ c / 256) c =
      (data.flatMap bits).foldl (feed p) c := by
  induction data generalizing c with
  | nil => rfl
  | cons b data ih => rw [foldl_cons, ih, flatMap_cons, foldl_append, foldl_bits_table]

/-! ### The shift is injective -/

section Injective

variable (hp : 2 ^ k ≤ p) (hp' : p < 2 ^ (k + 1))

include hp in
lemma eq_zero_of_step {x : ℕ} (hx : x < 2 ^ (k + 1)) (h : step p x = 0) : x = 0 := by
  have hpow : 2 ^ (k + 1) = 2 * 2 ^ k := by ring
  unfold step at h
  split_ifs at h with hodd
  · -- the high bit of the polynomial is not in the shifted register
    have := Nat.xor_eq_zero_iff.mp h
    omega
  · omega

include hp in
lemma step_injective {a b : ℕ} (ha : a < 2 ^ (k + 1)) (hb : b < 2 ^ (k + 1))
    (h : step p a = step p b) : a = b := by
  refine Nat.xor_eq_zero_iff.mp (eq_zero_of_step hp (Nat.xor_lt_two_pow ha hb) ?_)
  rw [step_xor, h, Nat.xor_self]

include hp' in
lemma step_lt {x : ℕ} (hx : x < 2 ^ (k + 1)) : step p x < 2 ^ (k + 1) := by
  unfold step
  split_ifs
  · exact Nat.xor_lt_two_pow (by omega) hp'
  · omega

include hp hp' in
lemma iterate_injective {a b : ℕ} (ha : a < 2 ^ (k + 1)) (hb : b < 2 ^ (k + 1)) (n : ℕ)
    (h : (step p)^[n] a = (step p)^[n] b) : a = b := by
  induction n generalizing a b with
  | zero => exact h
  | succ n ih => exact step_injective hp ha hb (ih (step_lt hp' ha) (step_lt hp' hb) h)

lemma value_lt (l : List Bool) : value l < 2 ^ l.length := by
  induction l with
  | nil => simp [value]
  | cons b l ih =>
    have hb : b.toNat ≤ 1 := b.toNat_le
    rw [value, length_cons, pow_succ]
    omega

lemma value_injective {l l' : List Bool} (hlen : l.length = l'.length)
    (h : value l = value l') : l = l' := by
  induction l generalizing l' with
  | nil => exact (length_eq_zero_iff.mp hlen.symm).symm
  | cons b l ih =>
    cases l' with
    | nil => simp at hlen
    | cons b' l' =>
      simp only [value] at h
      have hb : b = b' := by
        cases b <;> cases b' <;> simp only [Bool.toNat_true, Bool.toNat_false] at h <;>
          first | rfl | omega
      subst hb
      rw [ih (by simpa using hlen) (by omega)]

include hp' in
lemma foldl_lt (hc : c < 2 ^ (k + 1)) (l : List Bool) : l.foldl (feed p) c < 2 ^ (k + 1) := by
  induction l generalizing c with
  | nil => exact hc
  | cons b l ih =>
    refine ih ?_
    rw [feed_eq]
    have hb : b.toNat < 2 ^ (k + 1) := lt_of_le_of_lt b.toNat_le (Nat.one_lt_two_pow (by omega))
    exact step_lt hp' (Nat.xor_lt_two_pow hc hb)

include hp hp' in
lemma foldl_injective {a b : ℕ} (ha : a < 2 ^ (k + 1)) (hb : b < 2 ^ (k + 1)) (l : List Bool)
    (h : l.foldl (feed p) a = l.foldl (feed p) b) : a = b := by
  induction l generalizing a b with
  | nil => exact h
  | cons bit l ih =>
    have hbit : bit.toNat < 2 ^ (k + 1) :=
      lt_of_le_of_lt bit.toNat_le (Nat.one_lt_two_pow (by omega))
    have ha' : a ^^^ bit.toNat < 2 ^ (k + 1) := Nat.xor_lt_two_pow ha hbit
    have hb' : b ^^^ bit.toNat < 2 ^ (k + 1) := Nat.xor_lt_two_pow hb hbit
    rw [foldl_cons, foldl_cons] at h
    have hfeed := ih (a := feed p a bit) (b := feed p b bit)
      (by rw [feed_eq]; exact step_lt hp' ha') (by rw [feed_eq]; exact step_lt hp' hb') h
    rw [feed_eq, feed_eq] at hfeed
    exact Nat.xor_left_inj.mp (step_injective hp ha' hb' hfeed)

include hp hp' in
lemma foldl_injective_bits (hc : c < 2 ^ (k + 1)) {x y : List Bool} (hlen : x.length = y.length)
    (hshort : x.length ≤ k + 1) (h : x.foldl (feed p) c = y.foldl (feed p) c) : x = y := by
  have hbound : ∀ l : List Bool, l.length = x.length → c ^^^ value l < 2 ^ (k + 1) := by
    intro l hl
    refine Nat.xor_lt_two_pow hc (lt_of_lt_of_le (value_lt l) ?_)
    exact Nat.pow_le_pow_right (by omega) (by omega)
  rw [foldl_feed, foldl_feed, ← hlen] at h
  have hxor := iterate_injective hp hp' (hbound x rfl) (hbound y hlen.symm) _ h
  exact value_injective hlen (Nat.xor_right_inj.mp hxor)

include hp hp' in
/-- **Bursts are detected.** Two messages that differ in a string of bits no longer than the register
leave different registers. -/
lemma foldl_burst (hc : c < 2 ^ (k + 1)) {before after x y : List Bool}
    (hlen : x.length = y.length) (hshort : x.length ≤ k + 1)
    (h : (before ++ x ++ after).foldl (feed p) c = (before ++ y ++ after).foldl (feed p) c) :
    x = y := by
  simp only [foldl_append] at h
  have hstart := foldl_lt hp' hc before
  have hx := foldl_lt hp' hstart x
  have hy := foldl_lt hp' hstart y
  exact foldl_injective_bits hp hp' hstart hlen hshort (foldl_injective hp hp' hx hy after h)

end Injective

lemma flatMap_bits_injective {x y : List UInt8} (hlen : x.length = y.length)
    (h : x.flatMap bits = y.flatMap bits) : x = y := by
  have hbits : ∀ b : UInt8, (bits b).length = 8 := fun b => by simp [bits]
  induction x generalizing y with
  | nil => exact (length_eq_zero_iff.mp hlen.symm).symm
  | cons b x ih =>
    cases y with
    | nil => simp at hlen
    | cons b' y =>
      rw [flatMap_cons, flatMap_cons] at h
      obtain ⟨hhead, htail⟩ := append_inj h ((hbits b).trans (hbits b').symm)
      have hb : b.toNat = b'.toNat := by
        have h1 := b.toNat_lt
        have h2 := b'.toNat_lt
        have hval := congrArg value hhead
        rw [bits, bits, value_testBit, value_testBit] at hval
        omega
      rw [UInt8.toNat_inj.mp hb, ih (by simpa using hlen) htail]

lemma length_flatMap_bits (x : List UInt8) : (x.flatMap bits).length = 8 * x.length := by
  induction x with
  | nil => rfl
  | cons b x ih =>
    rw [flatMap_cons, length_append, ih, length_cons]
    simp only [bits, length_map, length_range]
    omega

end Aios.Lib.Crc
