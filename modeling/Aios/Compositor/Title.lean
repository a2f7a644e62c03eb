import Mathlib

/-!
Surface titles: `SurfaceTitle::from_bytes` of `shared/src/compositor.rs`.

A title keeps at most 64 bytes and is cut before a character that does not fit. Only the last
character is looked at, so bytes that are no UTF-8 before it are kept.
-/

namespace Aios.Compositor

open List

def surfaceTitleMax : ℕ := 64

def isCont (b : UInt8) : Bool := b &&& 0xC0 == 0x80

def expectedLen (lead : UInt8) : ℕ :=
  if lead &&& 0x80 = 0 then 1
  else if lead &&& 0xE0 = 0xC0 then 2
  else if lead &&& 0xF0 = 0xE0 then 3
  else if lead &&& 0xF8 = 0xF0 then 4
  else 1

structure SurfaceTitle where
  bytes : List UInt8
  len : ℕ

namespace SurfaceTitle

variable (input : List UInt8)

def probeBack : ℕ → ℕ
  | 0 => 0
  | probe + 1 => if isCont (input.getD (probe + 1) 0) then probeBack probe else probe + 1

def cutBack : ℕ → ℕ
  | 0 => 0
  | cut + 1 =>
    let probe := probeBack input cut
    if isCont (input.getD cut 0) ∧ cut + 1 < probe + expectedLen (input.getD probe 0) then
      cutBack cut
    else cut + 1

def dropLead (cut : ℕ) : ℕ :=
  if 0 < cut ∧ 1 < expectedLen (input.getD (cut - 1) 0) ∧
      cut < cut - 1 + expectedLen (input.getD (cut - 1) 0) then cut - 1
  else cut

def fromBytes : SurfaceTitle :=
  let cut := dropLead input (cutBack input (min input.length surfaceTitleMax))
  ⟨input.take cut ++ List.replicate (surfaceTitleMax - cut) 0, cut⟩

def asBytes (title : SurfaceTitle) : List UInt8 := title.bytes.take title.len

/-! ### The last character -/

/-- The bytes from `k` up to `n` are one byte and continuation bytes. -/
structure Ends (input : List UInt8) (k n : ℕ) : Prop where
  lt : k < n
  lead : isCont (input.getD k 0) = false ∨ k = 0
  conts : ∀ i, k < i → i < n → isCont (input.getD i 0) = true

variable {input} {k m n : ℕ}

lemma byte_cases (b : UInt8) : isCont b = decide (128 ≤ b.toNat ∧ b.toNat < 192) ∧ expectedLen b =
    if 192 ≤ b.toNat ∧ b.toNat < 224 then 2 else if 224 ≤ b.toNat ∧
    b.toNat < 240 then 3 else if 240 ≤ b.toNat ∧ b.toNat < 248 then 4 else 1 := by
  have h : ∀ n : Fin 256, isCont (UInt8.ofNat n) = decide (128 ≤ n.val ∧ n.val < 192) ∧
      expectedLen (UInt8.ofNat n) = if 192 ≤ n.val ∧ n.val < 224 then 2
        else if 224 ≤ n.val ∧ n.val < 240 then 3
        else if 240 ≤ n.val ∧ n.val < 248 then 4 else 1 := by decide +kernel
  simpa using h ⟨b.toNat, b.toNat_lt⟩

lemma expectedLen_cont {b : UInt8} (h : isCont b = true) : expectedLen b = 1 := by
  obtain ⟨hc, hl⟩ := byte_cases b
  rw [hc, decide_eq_true_iff] at h
  rw [hl, if_neg (by omega), if_neg (by omega), if_neg (by omega)]

lemma Ends.probeBack_eq {i : ℕ} (h : Ends input k n) (hk : k ≤ i) (hi : i < n) :
    probeBack input i = k := by
  induction i with
  | zero => exact (Nat.le_zero.mp hk).symm
  | succ i ih =>
    rw [probeBack]
    rcases Nat.lt_or_eq_of_le hk with hlt | rfl
    · rw [if_pos (h.conts _ hlt hi), ih (by omega) (by omega)]
    · rw [if_neg]
      simpa using h.lead

lemma exists_ends (input : List UInt8) (hn : 0 < n) : ∃ k, Ends input k n := by
  induction n with
  | zero => cases hn
  | succ n ih =>
    by_cases hc : isCont (input.getD n 0) = true ∧ 0 < n
    · obtain ⟨k, hlt, hlead, hconts⟩ := ih hc.2
      refine ⟨k, by omega, hlead, fun i hki hi => ?_⟩
      rcases Nat.lt_or_eq_of_le (Nat.le_of_lt_succ hi) with hi | rfl
      · exact hconts i hki hi
      · exact hc.1
    · refine ⟨n, by omega, ?_, fun i hni hi => by omega⟩
      rcases Nat.eq_zero_or_pos n with h0 | hpos
      · exact .inr h0
      · exact .inl (by simpa using fun h => hc ⟨h, hpos⟩)

lemma Ends.unique {k' : ℕ} (h : Ends input k n) (h' : Ends input k' n) : k = k' := by
  by_contra hne
  rcases Nat.lt_or_gt_of_ne hne with hlt | hlt
  · have := h.conts k' hlt h'.lt
    have := h'.lead
    simp_all
  · have := h'.conts k hlt h.lt
    have := h.lead
    simp_all

lemma Ends.cutBack_eq (h : Ends input k n) (hlen : n < k + expectedLen (input.getD k 0)) :
    cutBack input n = k + 1 := by
  obtain ⟨d, rfl⟩ : ∃ d, n = k + 1 + d := ⟨n - (k + 1), by have := h.lt; omega⟩
  induction d with
  | zero =>
    rw [Nat.add_zero, cutBack, h.probeBack_eq le_rfl (by omega), if_neg]
    rintro ⟨hc, -⟩
    rw [expectedLen_cont hc] at hlen
    omega
  | succ d ih =>
    have hprobe := h.probeBack_eq (i := k + 1 + d) (by omega) (by omega)
    rw [← Nat.add_assoc, cutBack, hprobe, if_pos ⟨h.conts _ (by omega) (by omega), by omega⟩]
    exact ih ⟨by omega, h.lead, fun i hki hi => h.conts i hki (by omega)⟩ (by omega)

/-- **Cutting.** The last character is kept whole or dropped whole. -/
lemma Ends.cut (h : Ends input k n) : dropLead input (cutBack input n) =
    if n < k + expectedLen (input.getD k 0) then k else n := by
  split_ifs with hlen
  · have hlt := h.lt
    rw [h.cutBack_eq hlen, dropLead, Nat.add_sub_cancel, if_pos (by omega)]
  · obtain ⟨n, rfl⟩ : ∃ n', n = n' + 1 := ⟨n - 1, by have := h.lt; omega⟩
    have hlt := h.lt
    rw [cutBack, h.probeBack_eq (by omega) (by omega), if_neg fun hc => hlen hc.2,
      dropLead, Nat.add_sub_cancel, if_neg]
    rintro ⟨-, hlead, -⟩
    rcases Nat.lt_or_eq_of_le (Nat.le_of_lt_succ hlt) with hlt | rfl
    · rw [expectedLen_cont (h.conts n hlt (by omega))] at hlead
      omega
    · omega

/-! ### UTF-8 -/

def encode (cs : List Char) : List UInt8 := cs.flatMap String.utf8EncodeChar

def ValidUtf8 (bs : List UInt8) : Prop := ∃ cs, encode cs = bs

lemma encodeChar_shape {c : Char} {i : ℕ} {b : UInt8} (h : (String.utf8EncodeChar c)[i]? = some b) :
    (isCont b = true ↔ 0 < i) ∧ (i = 0 → expectedLen b = (String.utf8EncodeChar c).length) := by
  have hc : c.val.toNat < 1114112 := by
    rcases c.valid with h | ⟨_, h⟩
    · exact h.trans (by decide)
    · exact h
  rw [(byte_cases b).1, (byte_cases b).2, decide_eq_true_iff]
  simp only [String.utf8EncodeChar] at h ⊢
  have hmem : i < 4 := by
    obtain ⟨hi, -⟩ := List.getElem?_eq_some_iff.1 h
    split_ifs at hi <;> simp only [List.length_cons, List.length_nil] at hi <;> omega
  -- the four lengths of an encoding, and in each the place of the byte
  split_ifs at h ⊢ <;> interval_cases i <;>
    simp only [getElem?_cons_zero, getElem?_cons_succ, getElem?_nil,
      Option.some.injEq, reduceCtorEq] at h <;>
    subst h <;>
    simp only [UInt8.toNat_ofNat', length_cons, length_nil] at * <;>
    grind

lemma ValidUtf8.ends (hm : 0 < m) (hle : m ≤ input.length) (hv : ValidUtf8 (input.take m)) :
    ∃ k, Ends input k m ∧ m = k + expectedLen (input.getD k 0) := by
  obtain ⟨cs, hcs⟩ := hv
  have hlen : (encode cs).length = m := by rw [hcs, length_take, min_eq_left hle]
  rcases eq_nil_or_concat cs with rfl | ⟨cs, c, rfl⟩
  · simp [encode] at hlen
    omega
  rw [concat_eq_append, encode, flatMap_append, flatMap_singleton] at hcs hlen
  set k := (cs.flatMap String.utf8EncodeChar).length with hk
  have hpos : 0 < (String.utf8EncodeChar c).length := by
    rw [String.length_utf8EncodeChar]
    exact c.utf8Size_pos
  rw [length_append, ← hk] at hlen
  have hget : ∀ i < (String.utf8EncodeChar c).length,
      (String.utf8EncodeChar c)[i]? = some (input.getD (k + i) 0) := by
    intro i hi
    have hin : (input.take m)[k + i]? = (String.utf8EncodeChar c)[i]? := by
      rw [← hcs, getElem?_append_right (by omega), ← hk, Nat.add_sub_cancel_left]
    rw [← hin, getElem?_take_of_lt (by omega), getD_eq_getElem?_getD,
      getElem?_eq_getElem (by omega)]
    rfl
  have hlead := encodeChar_shape (hget 0 hpos)
  rw [Nat.add_zero] at hlead
  refine ⟨k, ⟨by omega, .inl ?_, fun i hki hi => ?_⟩, ?_⟩
  · simpa using hlead.1
  · have := (encodeChar_shape (hget (i - k) (by omega))).1.mpr (by omega)
    rwa [Nat.add_sub_cancel' hki.le] at this
  · rw [← hlen, hlead.2 rfl]

/-! ### Titles -/

lemma cut_le (input : List UInt8) (n : ℕ) : dropLead input (cutBack input n) ≤ n := by
  rcases Nat.eq_zero_or_pos n with rfl | hn
  · exact Nat.le_of_eq rfl
  · obtain ⟨k, hk⟩ := exists_ends input hn
    rw [hk.cut]
    split_ifs
    · exact hk.lt.le
    · exact le_rfl

lemma asBytes_fromBytes : (fromBytes input).asBytes =
    input.take (dropLead input (cutBack input (min input.length surfaceTitleMax))) := by
  have hle := (cut_le input (min input.length surfaceTitleMax)).trans (min_le_left _ _)
  exact take_left' (by rw [length_take, min_eq_left hle]; rfl)

def LongestValid (input title : List UInt8) : Prop :=
  title <+: input ∧ title.length ≤ surfaceTitleMax ∧ ValidUtf8 title ∧
    ∀ q, q <+: input → q.length ≤ surfaceTitleMax → ValidUtf8 q → q.length ≤ title.length

def NearlyValid (input : List UInt8) : Prop :=
  ∃ k ≤ min input.length surfaceTitleMax, ValidUtf8 (input.take k) ∧
    (k = min input.length surfaceTitleMax ∨ Ends input k (min input.length surfaceTitleMax) ∧
      min input.length surfaceTitleMax < k + expectedLen (input.getD k 0))

/-- **Titles.** The title is the longest valid prefix exactly when what fits is valid but for an
unfinished character at the end. -/
theorem fromBytes_longest_iff (input : List UInt8) :
    LongestValid input (fromBytes input).asBytes ↔ NearlyValid input := by
  rw [asBytes_fromBytes]
  unfold NearlyValid LongestValid
  have hmax : min input.length surfaceTitleMax ≤ surfaceTitleMax := min_le_right _ _
  have hin : min input.length surfaceTitleMax ≤ input.length := min_le_left _ _
  have hfit : ∀ q, q <+: input → q.length ≤ surfaceTitleMax →
      q.length ≤ min input.length surfaceTitleMax := fun q hq hle => le_min hq.length_le hle
  generalize min input.length surfaceTitleMax = n at *
  have hcut := cut_le input n
  constructor
  · rintro ⟨-, -, hv, -⟩
    rcases Nat.eq_zero_or_pos n with rfl | hn
    · exact ⟨0, le_rfl, hv, .inl rfl⟩
    · obtain ⟨k, hk⟩ := exists_ends input hn
      rw [hk.cut] at hv
      split_ifs at hv with hlen
      · exact ⟨k, hk.lt.le, hv, .inr ⟨hk, hlen⟩⟩
      · exact ⟨n, le_rfl, hv, .inl rfl⟩
  · rintro ⟨k, hkn, hv, hend⟩
    have hcutk : dropLead input (cutBack input n) = k := by
      rcases hend with rfl | ⟨hk, hlen⟩
      · rcases Nat.eq_zero_or_pos k with rfl | hpos
        · rfl
        · obtain ⟨j, hj, hlen⟩ := hv.ends hpos hin
          rw [hj.cut, if_neg (by omega)]
      · rw [hk.cut, if_pos hlen]
    rw [hcutk]
    have hlen : (input.take k).length = k := by
      rw [length_take]
      omega
    refine ⟨List.take_prefix k input, by omega, hv, fun q hq hqle hqv => ?_⟩
    rw [hlen]
    have hqn := hfit q hq hqle
    rcases hend with rfl | ⟨hk, hshort⟩
    · exact hqn
    · -- a longer one ends inside the unfinished character
      by_contra hlt
      rw [prefix_iff_eq_take.mp hq] at hqv
      obtain ⟨j, hj, hjlen⟩ := hqv.ends (by omega) (by omega)
      have hk' : Ends input k q.length :=
        ⟨by omega, hk.lead, fun i hki hi => hk.conts i hki (by omega)⟩
      obtain rfl := hk'.unique hj
      omega

/-- A continuation byte alone is kept as it is. -/
theorem fromBytes_invalid : (fromBytes [0x80]).asBytes = [0x80] ∧ ¬LongestValid [0x80] [0x80] := by
  refine ⟨by decide, ?_⟩
  rintro ⟨-, -, ⟨_ | ⟨c, cs⟩, hcs⟩, -⟩
  · cases hcs
  · have hpos : 0 < (String.utf8EncodeChar c).length := by
      rw [String.length_utf8EncodeChar]
      exact c.utf8Size_pos
    have hfirst : (String.utf8EncodeChar c)[0]? = some 0x80 := by
      have := congrArg (·[0]?) hcs
      rwa [encode, flatMap_cons, getElem?_append_left hpos] at this
    exact absurd ((encodeChar_shape hfirst).1.mp (by decide)) (by decide)

end SurfaceTitle

end Aios.Compositor
