import Aios.Tripwire.Parse

/-!
The soak tool reads back what the kernel prints on a tripwire line.

The line is its marker and a list of `key=value` tokens, each with a blank before it, and the last
token says how many came before it. A line that is cut off ends in a token under another name or in
a shorter count, so the reader drops it.
-/

namespace Aios.Tripwire

open Aios.Lib List

/-! ### The texts -/

lemma bytes_signs : bytes " " = [blank] ∧ bytes "=" = [equals] ∧ bytes "," = [44] ∧
    bytes "\n" = [10] ∧ linePrefix.length = 10 := by decide +kernel

lemma bytes_names : bytes "v" = [118] ∧ bytes "src" = [115, 114, 99] ∧
    bytes "cpu" = [99, 112, 117] ∧ bytes "t" = [116] ∧ bytes "ncpu" = [110, 99, 112, 117] ∧
    bytes "n" = [110] := by decide +kernel

lemma bytes_heads : bytes " v=" = [32, 118, 61] ∧ bytes " src=" = [32, 115, 114, 99, 61] ∧
    bytes " cpu=" = [32, 99, 112, 117, 61] ∧ bytes " t=" = [32, 116, 61] ∧
    bytes " ncpu=" = [32, 110, 99, 112, 117, 61] ∧ bytes " n=" = [32, 110, 61] := by
  decide +kernel

def isName (name : List UInt8) : Bool :=
  !name.isEmpty && name.all fun b => b != equals && !isBlank b

lemma isName_spec {name : List UInt8} (h : isName name = true) :
    name ≠ [] ∧ ∀ b ∈ name, b ≠ equals ∧ isBlank b = false := by
  rw [isName, Bool.and_eq_true, all_eq_true] at h
  refine ⟨by simpa using h.1, fun b hb => ?_⟩
  simpa using h.2 b hb

lemma Key.mem_all (key : Key) : key ∈ Key.all := by
  cases key <;> decide

/-- The names of the keys are names of tokens, none is that of the count, and each is found again;
the names in front of the keys are not among them. -/
lemma key_texts :
    (Key.all.all fun key => isName (bytes key.name) && (bytes key.name != bytes "n") &&
        keyIndex (bytes key.name) == some key) = true ∧
      (["v", "src", "cpu", "t", "ncpu"].all fun name => (keyIndex (bytes name)).isNone) = true := by
  decide +kernel

lemma key_text (key : Key) : isName (bytes key.name) = true ∧ bytes key.name ≠ bytes "n" ∧
    keyIndex (bytes key.name) = some key := by
  have h := all_eq_true.mp key_texts.1 key key.mem_all
  simp only [Bool.and_eq_true, bne_iff_ne, beq_iff_eq] at h
  exact ⟨h.1.1, h.1.2, h.2⟩

lemma src_text (src : LineSrc) : isName (bytes src.name) = true ∧ (bytes src.name).length ≤ 5 := by
  have h : (LineSrc.all.all fun src => isName (bytes src.name) &&
      decide ((bytes src.name).length ≤ 5)) = true := by decide +kernel
  have hmem : src ∈ LineSrc.all := by cases src <;> decide
  simpa using all_eq_true.mp h src hmem

/-! ### Numbers -/

lemma putDigits_pow_succ (v k : ℕ) :
    putDigits v (10 ^ (k + 1)) = putDigits (v / 10) (10 ^ k) ++ [digit (v % 10)] := by
  have hstep : ∀ v k, putDigits v (10 ^ (k + 1)) =
      digit (v / 10 ^ (k + 1) % 10) :: putDigits v (10 ^ k) := by
    intro v k
    have hlt : ¬ 10 ^ (k + 1) ≤ 1 := by
      have := Nat.one_le_pow k 10 (by omega)
      rw [pow_succ]
      omega
    rw [putDigits, dif_neg hlt, pow_succ, Nat.mul_div_cancel _ (by omega)]
  have hone : ∀ v, putDigits v (10 ^ 0) = [digit (v % 10)] := by
    intro v
    rw [putDigits]
    simp
  induction k with
  | zero => rw [hstep, hone, hone, pow_one]; rfl
  | succ k ih =>
    have hdiv : v / 10 ^ (k + 1 + 1) = v / 10 / 10 ^ (k + 1) := by
      rw [Nat.div_div_eq_div_mul, pow_succ, mul_comm]
    rw [hstep v, ih, hstep (v / 10), hdiv]
    rfl

variable {v : ℕ}

lemma putDigits_pow {k : ℕ} (hlow : k = 0 ∨ 10 ^ k ≤ v) (hhigh : v < 10 ^ (k + 1)) :
    putDigits v (10 ^ k) = decimal v := by
  induction k generalizing v with
  | zero =>
    have hv : v < 10 := by simpa using hhigh
    rw [putDigits, decimal_of_lt hv]
    simp [Nat.mod_eq_of_lt hv]
  | succ k ih =>
    have hle : 10 ^ (k + 1) ≤ v := by
      rcases hlow with h | h
      · omega
      · exact h
    have hk : 10 ^ k ≤ v / 10 := by
      rw [Nat.le_div_iff_mul_le (by omega)]
      rwa [pow_succ] at hle
    have h10 : 10 ≤ v := by
      have := Nat.one_le_pow k 10 (by omega)
      omega
    have hlt : v / 10 < 10 ^ (k + 1) := by
      rw [Nat.div_lt_iff_lt_mul (by omega), ← pow_succ]
      exact hhigh
    rw [putDigits_pow_succ, ih (Or.inr hk) hlt, decimal_of_le h10]

lemma growDiv_pow {j : ℕ} (hv : v < 2 ^ 64) (hj : j = 0 ∨ 10 ^ j ≤ v) :
    ∃ k, growDiv v (10 ^ j) = 10 ^ k ∧ (k = 0 ∨ 10 ^ k ≤ v) ∧ v < 10 ^ (k + 1) := by
  have hpos := Nat.one_le_pow j 10 (by omega)
  rw [growDiv]
  split
  · rename_i h
    obtain ⟨-, -, hle⟩ := h
    rw [← pow_succ] at hle ⊢
    have hdec : v - 10 ^ (j + 1) < v - 10 ^ j := by
      rw [pow_succ] at hle ⊢
      omega
    exact growDiv_pow hv (Or.inr hle)
  · rename_i h
    refine ⟨j, rfl, hj, ?_⟩
    rw [pow_succ]
    by_contra hc
    exact h ⟨hpos, by omega, by omega⟩
termination_by v - 10 ^ j

/-- **`put_dec`** emits the number in decimal. -/
lemma putDec_eq (v : UInt64) : putDec v = decimal v.toNat := by
  obtain ⟨k, hk, hlow, hhigh⟩ := growDiv_pow (v := v.toNat) (j := 0) v.toNat_lt (Or.inl rfl)
  rw [pow_zero] at hk
  rw [putDec, hk, putDigits_pow hlow hhigh]

lemma length_decimal (v : ℕ) : (decimal v).length = decLen v := by
  induction v using Nat.strong_induction_on with
  | _ v ih =>
    rw [decLen]
    split
    · rename_i h
      rw [decimal_of_le h, length_append, ih _ (by omega)]
      rfl
    · rename_i h
      rw [decimal_of_lt (by omega)]
      rfl

lemma decLen_le_of_le {w : ℕ} (h : v ≤ w) : decLen v ≤ decLen w := by
  induction v using Nat.strong_induction_on generalizing w with
  | _ v ih =>
    rw [decLen, decLen.eq_def w]
    rcases Nat.lt_or_ge v 10 with hv | hv
    · rw [if_neg (by omega)]
      split <;> omega
    · rw [if_pos hv, if_pos (hv.trans h)]
      exact Nat.succ_le_succ (ih _ (by omega) (by omega))

/-! ### The tokens -/

def token (p : List UInt8 × List UInt8) : List UInt8 := p.1 ++ equals :: p.2

structure IsPair (p : List UInt8 × List UInt8) : Prop where
  name_ne : p.1 ≠ []
  value_ne : p.2 ≠ []
  name : ∀ b ∈ p.1, b ≠ equals ∧ isBlank b = false
  value : ∀ b ∈ p.2, isBlank b = false

variable {p q : List UInt8 × List UInt8} {part : List UInt8}

lemma IsPair.isToken (h : IsPair p) : Tokens.IsToken isBlank (token p) := by
  refine ⟨by simp [token], ?_⟩
  intro b hb
  rw [token, mem_append, mem_cons] at hb
  rcases hb with hb | rfl | hb
  · exact (h.name b hb).2
  · rfl
  · exact h.value b hb

lemma keyValue_append {k v : List UInt8} (hk : ∀ b ∈ k, b ≠ equals) :
    keyValue (k ++ equals :: v) = if k ≠ [] ∧ v ≠ [] then some (k, v) else none := by
  have hfind : (k ++ equals :: v).findIdx? (· == equals) = some k.length := by
    have hnone : k.findIdx? (· == equals) = none := by
      rw [findIdx?_eq_none_iff]
      intro b hb
      simpa using hk b hb
    rw [findIdx?_append, hnone]
    simp [findIdx?_cons]
  have hdrop : (k ++ equals :: v).drop (k.length + 1) = v := by
    rw [← drop_drop, drop_left]
    rfl
  simp only [keyValue, hfind, hdrop, Option.bind_eq_bind, Option.bind_some, take_left,
    Bool.and_eq_true, Bool.not_eq_eq_eq_not, Bool.not_true, isEmpty_eq_false_iff]

lemma IsPair.keyValue (h : IsPair p) : keyValue (token p) = some p := by
  rw [token, keyValue_append fun b hb => (h.name b hb).1, if_pos ⟨h.name_ne, h.value_ne⟩]

lemma IsPair.keyValue_part (h : IsPair p) (hp : part <+: token p)
    (hq : Tripwire.keyValue part = some q) : q.1 = p.1 ∧ q.2 <+: p.2 ∧ part = token q := by
  have hname : ∀ b ∈ p.1, b ≠ equals := fun b hb => (h.name b hb).1
  rcases prefix_or_prefix_of_prefix hp (prefix_append p.1 _) with hpart | ⟨m, rfl⟩
  · -- there is no equals sign in it
    have hnone : part.findIdx? (· == equals) = none := by
      rw [findIdx?_eq_none_iff]
      intro b hb
      simpa using hname b (hpart.subset hb)
    simp [Tripwire.keyValue, hnone] at hq
  · have hm : m <+: equals :: p.2 := (prefix_append_right_inj p.1).mp hp
    rcases prefix_cons_iff.mp hm with rfl | ⟨v, rfl, hv⟩
    · have hnone : p.1.findIdx? (· == equals) = none := by
        rw [findIdx?_eq_none_iff]
        intro b hb
        simpa using hname b hb
      simp [Tripwire.keyValue, hnone] at hq
    · rw [keyValue_append hname] at hq
      split_ifs at hq
      cases hq
      exact ⟨rfl, hv, rfl⟩

lemma mapM_keyValue {pairs : List (List UInt8 × List UInt8)} (h : ∀ p ∈ pairs, IsPair p) :
    (pairs.map token).mapM keyValue = some pairs := by
  induction pairs with
  | nil => rfl
  | cons p pairs ih =>
    have hp := h p mem_cons_self
    have ih' := ih fun q hq => h q (mem_cons_of_mem _ hq)
    simp [mapM_cons, hp.keyValue, ih']

/-! ### The reader -/

def finish (line : List UInt8) (pairs : List (List UInt8 × List UInt8)) : Option Line := do
  let last ← pairs.getLast?
  let n ← trailingCount last
  if n ≠ pairs.dropLast.length then none
  else
    some {
      text := trimEnd line
      version := get pairs.dropLast "v"
      src := get pairs.dropLast "src"
      v1 := if get pairs.dropLast "v" = some (decimal schemaVersion) then
          some {
            cpu := get pairs.dropLast "cpu"
            t := get pairs.dropLast "t"
            ncpu := get pairs.dropLast "ncpu"
            values := collect pairs.dropLast }
        else none }

lemma find_append {l m : List UInt8} (h : l ≠ []) : find (l ++ m) l = some 0 := by
  have hlen : (l ++ m).length + 1 - l.length = m.length + 1 := by
    rw [length_append]
    omega
  have hne : l.isEmpty = false := by simpa using h
  rw [find, hne, windows, hlen, range_succ_eq_map]
  simp [findIdx?_cons]

lemma find_of_length_lt {l m : List UInt8} (h : m.length < l.length) : find m l = none := by
  have hlen : m.length + 1 - l.length = 0 := by omega
  have hne : l.isEmpty = false := by
    cases l with
    | nil => simp at h
    | cons => rfl
  rw [find, hne, windows, hlen]
  rfl

lemma parseLine_marker (rest : List UInt8) : parseLine (linePrefix ++ blank :: rest) =
    ((fields (blank :: rest)).mapM keyValue).bind (finish (linePrefix ++ blank :: rest)) := by
  have hmark : linePrefix ++ blank :: rest = (linePrefix ++ bytes " ") ++ rest := by
    rw [bytes_signs.1, append_assoc]
    rfl
  have hfind : find (linePrefix ++ blank :: rest) (linePrefix ++ bytes " ") = some 0 := by
    rw [hmark]
    exact find_append (by simp [bytes_signs.1])
  have hfields : fields (blank :: rest) = fields rest := Tokens.fields_cons (by decide) rest
  have hdrop : (linePrefix ++ blank :: rest).drop (0 + (linePrefix ++ bytes " ").length) =
      rest := by
    rw [hmark, Nat.zero_add, drop_left]
  unfold parseLine
  simp only [hfind, hdrop, hfields, Option.bind_eq_bind, Option.bind_some, drop_zero]
  rfl

/-! ### The writer -/

section Layout

variable (src : LineSrc) (mode : LineMode) (cpu : UInt8) (t : UInt64) (n : ℕ)
  (value : Key → ℕ → UInt64)

def commaList (key : Key) : List UInt8 :=
  (bytes ",").intercalate
    ((List.range (key.width.values n)).map fun idx => decimal (value key idx).toNat)

def headPairs : List (List UInt8 × List UInt8) :=
  [(bytes "v", decimal schemaVersion), (bytes "src", bytes src.name),
    (bytes "cpu", decimal cpu.toNat), (bytes "t", decimal t.toNat), (bytes "ncpu", decimal n)]

def keyPair (key : Key) : List UInt8 × List UInt8 := (bytes key.name, commaList n value key)

def printedKeys : List Key := Key.all.filter fun key => !omitted mode n value key

def countedPairs : List (List UInt8 × List UInt8) :=
  headPairs src cpu t n ++ (printedKeys mode n value).map (keyPair n value)

def countPair : List UInt8 × List UInt8 :=
  (bytes "n", decimal (countedPairs src mode cpu t n value).length)

def lineText : List UInt8 :=
  linePrefix ++ Tokens.spaced blank
    ((countedPairs src mode cpu t n value ++ [countPair src mode cpu t n value]).map token)

lemma intercalate_cons (sep x : List UInt8) (xs : List (List UInt8)) :
    sep.intercalate (x :: xs) = x ++ xs.flatMap (sep ++ ·) := by
  induction xs generalizing x with
  | nil => simp
  | cons y ys ih => rw [intercalate_cons_cons, ih, flatMap_cons]; simp

lemma putValues_eq (key : Key) : putValues n value key = commaList n value key := by
  rw [putValues, commaList]
  cases key.width.values n with
  | zero => rfl
  | succ m =>
    rw [range_succ_eq_map, map_cons, intercalate_cons, flatMap_cons,
      flatMap_map, map_map, flatMap_map]
    simp [putDec_eq]

lemma length_printedKeys : (printedKeys mode n value).length ≤ 61 :=
  (length_filter_le _ _).trans (by decide)

lemma length_countedPairs :
    (countedPairs src mode cpu t n value).length = 5 + (printedKeys mode n value).length := by
  simp only [countedPairs, headPairs, length_append, length_map, length_cons, length_nil]

lemma foldl_putKey (keys : List Key) (out : List UInt8) (count : UInt64) :
    keys.foldl (putKey mode n value) (out, count) =
      (out ++ Tokens.spaced blank
          (((keys.filter fun key => !omitted mode n value key).map (keyPair n value)).map token),
        count + UInt64.ofNat (keys.filter fun key => !omitted mode n value key).length) := by
  obtain ⟨hblank, hequals, -⟩ := bytes_signs
  induction keys generalizing out count with
  | nil => simp [Tokens.spaced]
  | cons key keys ih =>
    rw [foldl_cons, putKey]
    by_cases ho : omitted mode n value key = true
    · rw [if_pos ho, ih]
      simp [ho]
    · rw [if_neg ho, ih]
      have ho' : (!omitted mode n value key) = true := by simpa using ho
      simp only [filter_cons, ho', if_true, map_cons, length_cons, Tokens.spaced, flatMap_cons,
        keyPair, token, putValues_eq, hblank, hequals, UInt64.ofNat_add]
      refine Prod.ext ?_ ?_
      · simp
      · change count + 1 + _ = count + (_ + 1)
        rw [UInt64.add_assoc, UInt64.add_comm 1]

/-- **`write_line`** emits the tokens, the count last, and a newline. -/
lemma writeLine_eq (ncpu : ℕ) :
    writeLine src mode cpu t ncpu value =
      lineText src mode cpu t (clampCpus ncpu) value ++ bytes "\n" := by
  obtain ⟨nv, nsrc, ncpu', nt, nncpu, nn⟩ := bytes_names
  obtain ⟨hv, hsrc, hcpu, ht, hncpu, hn⟩ := bytes_heads
  have hclamp : (UInt64.ofNat (clampCpus ncpu)).toNat = clampCpus ncpu := by
    rw [UInt64.toNat_ofNat']
    have : clampCpus ncpu ≤ 8 := min_le_right _ _
    omega
  have hcount : (prefixTokens +
        UInt64.ofNat (printedKeys mode (clampCpus ncpu) value).length).toNat =
      (countedPairs src mode cpu t (clampCpus ncpu) value).length := by
    have hlen := length_printedKeys mode (clampCpus ncpu) value
    have h5 : prefixTokens.toNat = 5 := by decide
    rw [UInt64.toNat_add, UInt64.toNat_ofNat', h5, length_countedPairs]
    omega
  have hschema : (UInt64.ofNat schemaVersion).toNat = schemaVersion := by decide
  have hcpu8 : cpu.toUInt64.toNat = cpu.toNat := by simp
  simp only [writeLine, foldl_putKey, putDec_eq, hclamp, hschema, hcpu8]
  rw [show (Key.all.filter fun key => !omitted mode (clampCpus ncpu) value key) =
    printedKeys mode (clampCpus ncpu) value from rfl, hcount]
  simp [lineText, countedPairs, headPairs, countPair, token, Tokens.spaced, hv, hsrc, hcpu, ht,
    hncpu, hn, nv, nsrc, ncpu', nt, nncpu, nn, blank, equals]

/-! ### The tokens are well formed -/

lemma isBlank_of_isDigit {b : UInt8} (h : isDigit b = true) : isBlank b = false := by
  rw [isBlank, Bool.or_eq_false_iff, beq_eq_false_iff_ne, beq_eq_false_iff_ne]
  constructor <;> rintro rfl <;> exact absurd h (by decide)

lemma isPair_decimal {name : List UInt8} (h : isName name = true) (v : ℕ) :
    IsPair (name, decimal v) where
  name_ne := (isName_spec h).1
  value_ne := decimal_ne_nil v
  name := (isName_spec h).2
  value _ hb := isBlank_of_isDigit (isDigit_of_mem_decimal hb)

lemma isBlank_commaList (key : Key) {b : UInt8} (hb : b ∈ commaList n value key) :
    isBlank b = false := by
  rw [commaList] at hb
  cases hk : key.width.values n with
  | zero => simp [hk] at hb
  | succ m =>
    rw [hk, range_succ_eq_map, map_cons, intercalate_cons, mem_append, mem_flatMap] at hb
    rcases hb with hb | ⟨l, hl, hb⟩
    · exact isBlank_of_isDigit (isDigit_of_mem_decimal hb)
    · rcases mem_append.mp hb with hb | hb
      · rw [bytes_signs.2.2.1, mem_singleton] at hb
        rw [hb]
        decide
      · obtain ⟨idx, -, rfl⟩ := mem_map.mp hl
        exact isBlank_of_isDigit (isDigit_of_mem_decimal hb)

lemma Width.values_pos (w : Width) (hn : 0 < n) : 0 < w.values n := by
  cases w <;> simp [Width.values, Width.slots, hn]

lemma commaList_ne_nil (key : Key) (hn : 0 < n) : commaList n value key ≠ [] := by
  obtain ⟨m, hm⟩ := Nat.exists_eq_succ_of_ne_zero (key.width.values_pos n hn).ne'
  rw [commaList, hm, range_succ_eq_map, map_cons, intercalate_cons]
  simp [decimal_ne_nil]

lemma isPair_countedPairs (hn : 0 < n) : ∀ p ∈ countedPairs src mode cpu t n value, IsPair p := by
  intro p hp
  obtain ⟨hv, hsrc, hcpu, ht, hncpu, -⟩ := bytes_names
  rw [countedPairs, mem_append] at hp
  rcases hp with hp | hp
  · simp only [headPairs, mem_cons, not_mem_nil, or_false] at hp
    rcases hp with rfl | rfl | rfl | rfl | rfl
    · exact isPair_decimal (by rw [hv]; decide) _
    · have hname : isName (bytes "src") = true := by rw [hsrc]; decide
      -- the values of this field are names too
      have hvalue := (src_text src).1
      exact ⟨(isName_spec hname).1, (isName_spec hvalue).1, (isName_spec hname).2,
        fun b hb => ((isName_spec hvalue).2 b hb).2⟩
    · exact isPair_decimal (by rw [hcpu]; decide) _
    · exact isPair_decimal (by rw [ht]; decide) _
    · exact isPair_decimal (by rw [hncpu]; decide) _
  · obtain ⟨key, -, rfl⟩ := mem_map.mp hp
    obtain ⟨h1, h2⟩ := isName_spec (key_text key).1
    exact ⟨h1, commaList_ne_nil n value key hn, h2, fun b hb => isBlank_commaList n value key hb⟩

lemma isPair_countPair : IsPair (countPair src mode cpu t n value) :=
  isPair_decimal (by rw [bytes_names.2.2.2.2.2]; decide) _

lemma countedPairs_name_ne : ∀ p ∈ countedPairs src mode cpu t n value, p.1 ≠ bytes "n" := by
  intro p hp
  rw [countedPairs, mem_append] at hp
  rcases hp with hp | hp
  · obtain ⟨hv, hsrc, hcpu, ht, hncpu, hn⟩ := bytes_names
    simp only [headPairs, mem_cons, not_mem_nil, or_false] at hp
    rcases hp with rfl | rfl | rfl | rfl | rfl <;> simp [hv, hsrc, hcpu, ht, hncpu, hn]
  · obtain ⟨key, -, rfl⟩ := mem_map.mp hp
    exact (key_text key).2.1

/-! ### Looking up the fields -/

lemma get_countedPairs :
    get (countedPairs src mode cpu t n value) "v" = some (decimal schemaVersion) ∧
      get (countedPairs src mode cpu t n value) "src" = some (bytes src.name) ∧
      get (countedPairs src mode cpu t n value) "cpu" = some (decimal cpu.toNat) ∧
      get (countedPairs src mode cpu t n value) "t" = some (decimal t.toNat) ∧
      get (countedPairs src mode cpu t n value) "ncpu" = some (decimal n) := by
  obtain ⟨hv, hsrc, hcpu, ht, hncpu, -⟩ := bytes_names
  simp [get, countedPairs, headPairs, hv, hsrc, hcpu, ht, hncpu]

lemma collect_append (before : List (List UInt8 × List UInt8)) (p : List UInt8 × List UInt8) :
    collect (before ++ [p]) = match keyIndex p.1 with
      | some key => Function.update (collect before) key p.2
      | none => collect before := by
  rw [collect, foldl_append]
  rfl

lemma collect_keyPairs (keys : List Key) (key : Key) :
    collect (headPairs src cpu t n ++ keys.map (keyPair n value)) key =
      if key ∈ keys then commaList n value key else bytes "0" := by
  induction keys using List.reverseRecOn with
  | nil =>
    have hhead := key_texts.2
    simp only [all_cons, all_nil, Bool.and_true, Bool.and_eq_true,
      Option.isNone_iff_eq_none] at hhead
    obtain ⟨hv, hsrc, hcpu, ht, hncpu⟩ := hhead
    simp [collect, headPairs, hv, hsrc, hcpu, ht, hncpu]
  | append_singleton keys k ih =>
    rw [map_append, map_singleton, ← append_assoc, collect_append]
    simp only [keyPair, (key_text k).2.2]
    by_cases hk : key = k
    · subst hk
      simp
    · simp only [Function.update_of_ne hk, mem_append, mem_singleton, hk, or_false]
      exact ih

def readValue (key : Key) : List UInt8 :=
  if omitted mode n value key then bytes "0" else commaList n value key

lemma collect_countedPairs :
    collect (countedPairs src mode cpu t n value) = readValue mode n value := by
  funext key
  rw [countedPairs, collect_keyPairs, readValue, printedKeys]
  cases h : omitted mode n value key <;> simp [h, key.mem_all]

/-! ### The count -/

lemma trailingCount_of_ne {p : List UInt8 × List UInt8} (h : p.1 ≠ bytes "n") :
    trailingCount p = none := by
  rw [trailingCount, if_neg fun hc => h hc.1]

lemma trailingCount_decimal {m : ℕ} (h : m < 2 ^ 64) :
    trailingCount (bytes "n", decimal m) = some m := by
  have hall : (decimal m).all isDigit = true := by
    rw [all_eq_true]
    intro b hb
    exact isDigit_of_mem_decimal hb
  rw [trailingCount, if_pos ⟨rfl, hall⟩, parseUsize, ofDecimal_decimal,
    if_pos ⟨decimal_ne_nil m, h⟩]

variable {line : List UInt8} {pairs : List (List UInt8 × List UInt8)}

lemma finish_append {before : List (List UInt8 × List UInt8)} {p : List UInt8 × List UInt8}
    (h : trailingCount p ≠ some before.length) : finish line (before ++ [p]) = none := by
  rw [finish, getLast?_concat, dropLast_concat]
  cases hc : trailingCount p with
  | none => simp [hc]
  | some m =>
    have hm : m ≠ before.length := fun hm => h (hm ▸ hc)
    simp [hc, hm]

lemma finish_of_name_ne (h : ∀ p ∈ pairs, p.1 ≠ bytes "n") : finish line pairs = none := by
  rcases eq_nil_or_concat pairs with rfl | ⟨before, p, rfl⟩
  · rfl
  · rw [concat_eq_append] at h ⊢
    refine finish_append ?_
    rw [trailingCount_of_ne (h p (by simp))]
    simp

/-! ### Reading a whole line, and reading a part of one -/

lemma trimEnd_lineText :
    trimEnd (lineText src mode cpu t n value) = lineText src mode cpu t n value := by
  obtain ⟨l, b, hb⟩ : ∃ l b, decimal (countedPairs src mode cpu t n value).length = l ++ [b] := by
    rcases eq_nil_or_concat (decimal (countedPairs src mode cpu t n value).length) with
      h | ⟨l, b, h⟩
    · exact absurd h (decimal_ne_nil _)
    · exact ⟨l, b, by rw [h, concat_eq_append]⟩
  have hmem : b ∈ decimal (countedPairs src mode cpu t n value).length := by
    rw [hb]
    simp
  have hdig : isBlank b = false := isBlank_of_isDigit (isDigit_of_mem_decimal hmem)
  have hline : ∃ m, lineText src mode cpu t n value = m ++ [b] := by
    refine ⟨linePrefix ++ Tokens.spaced blank ((countedPairs src mode cpu t n value).map token) ++
      blank :: (bytes "n" ++ equals :: l), ?_⟩
    simp [lineText, countPair, Tokens.spaced, token, hb]
  obtain ⟨m, hm⟩ := hline
  rw [hm, trimEnd, rdropWhile_concat_neg _ _ _ (by simp [hdig])]

lemma spaced_cons (toks : List (List UInt8)) (part : List UInt8) :
    ∃ rest, Tokens.spaced blank toks ++ blank :: part = blank :: rest := by
  cases toks with
  | nil => exact ⟨part, rfl⟩
  | cons tok toks => exact ⟨_, rfl⟩

lemma parseLine_spaced (h : ∀ p ∈ pairs, IsPair p) (part : List UInt8)
    (hline : line = linePrefix ++ (Tokens.spaced blank (pairs.map token) ++ blank :: part)) :
    parseLine line = ((fields part).mapM keyValue).bind fun more =>
      finish line (pairs ++ more) := by
  obtain ⟨rest, hrest⟩ := spaced_cons (pairs.map token) part
  have htok : ∀ tok ∈ pairs.map token, Tokens.IsToken isBlank tok := by
    intro tok ht
    obtain ⟨p, hp, rfl⟩ := mem_map.mp ht
    exact (h p hp).isToken
  have hfields : fields (blank :: rest) = pairs.map token ++ fields part := by
    rw [← hrest]
    exact Tokens.fields_spaced_append (by decide) htok part
  rw [hline, hrest, parseLine_marker, hfields, mapM_append, mapM_keyValue h]
  simp only [Option.bind_eq_bind, Option.bind_some, Option.bind_assoc]
  rfl

lemma parseLine_lineText (hn : 0 < n) :
    parseLine (lineText src mode cpu t n value) = some {
      text := lineText src mode cpu t n value
      version := some (decimal schemaVersion)
      src := some (bytes src.name)
      v1 := some {
        cpu := some (decimal cpu.toNat)
        t := some (decimal t.toNat)
        ncpu := some (decimal n)
        values := readValue mode n value } } := by
  have hcount := isPair_countPair src mode cpu t n value
  have hlt : (countedPairs src mode cpu t n value).length < 2 ^ 64 := by
    have := length_printedKeys mode n value
    rw [length_countedPairs]
    omega
  have hline : lineText src mode cpu t n value = linePrefix ++
      (Tokens.spaced blank ((countedPairs src mode cpu t n value).map token) ++
        blank :: token (countPair src mode cpu t n value)) := by
    simp [lineText, Tokens.spaced]
  obtain ⟨hv, hsrc, hcpu, ht, hncpu⟩ := get_countedPairs src mode cpu t n value
  rw [parseLine_spaced (isPair_countedPairs src mode cpu t n value hn) _ hline, fields,
    hcount.isToken.fields]
  simp only [mapM_cons, mapM_nil, hcount.keyValue, Option.bind_eq_bind, Option.bind_some,
    Option.pure_def]
  rw [finish, getLast?_concat, dropLast_concat]
  simp only [Option.bind_eq_bind, Option.bind_some, countPair, trailingCount_decimal hlt, ne_eq,
    not_true_eq_false, if_false, hv, hsrc, hcpu, ht, hncpu, if_true, collect_countedPairs,
    trimEnd_lineText]

lemma trailingCount_part {p : List UInt8 × List UInt8} {m : ℕ} (hp : p.2 <+: decimal m)
    (hne : p.2 ≠ decimal m) : trailingCount p ≠ some m := by
  obtain ⟨rest, hrest⟩ := hp
  have hrest_ne : rest ≠ [] := by
    rintro rfl
    exact hne (by rw [← hrest, append_nil])
  rw [trailingCount, parseUsize]
  split_ifs with h1 h2
  · have hlt := ofDecimal_lt_of_append hrest.symm h2.1 hrest_ne
    intro h
    exact hlt.ne (Option.some.inj h)
  · simp
  · simp

lemma parseLine_cut (hn : 0 < n) (hp : line <+: lineText src mode cpu t n value)
    (hne : line ≠ lineText src mode cpu t n value) : parseLine line = none := by
  have hshort : ∀ l : List UInt8, l.length ≤ linePrefix.length → parseLine l = none := by
    intro l hl
    have hlen : linePrefix.length < (linePrefix ++ bytes " ").length := by
      simp [bytes_signs.1]
    rw [parseLine, find_of_length_lt (lt_of_le_of_lt hl hlen)]
    rfl
  rcases prefix_or_prefix_of_prefix hp (prefix_append linePrefix _) with hl | ⟨l, rfl⟩
  · exact hshort line hl.length_le
  rcases Tokens.cut_spaced ((prefix_append_right_inj linePrefix).mp hp) with
    rfl | ⟨pre, tok, post, part, htoks, hpart, rfl⟩
  · exact hshort _ (by simp)
  -- the whole tokens, the one that is cut and the rest
  obtain ⟨ps, qs', hpairs, rfl, hqs'⟩ := map_eq_append_iff.mp htoks
  obtain ⟨q, qs, rfl, rfl, rfl⟩ := map_eq_cons_iff.mp hqs'
  have hok : ∀ p ∈ ps ++ q :: qs, IsPair p := by
    rw [← hpairs]
    intro p hp'
    rcases mem_append.mp hp' with h | h
    · exact isPair_countedPairs src mode cpu t n value hn p h
    · rw [mem_singleton.mp h]
      exact isPair_countPair src mode cpu t n value
  have hps : ∀ p ∈ ps, IsPair p := fun p h => hok p (mem_append_left _ h)
  have hq : IsPair q := hok q (mem_append_right _ mem_cons_self)
  -- the whole tokens are not the count
  have hcounted : ps <+: countedPairs src mode cpu t n value := by
    have hall : countedPairs src mode cpu t n value <+: ps ++ q :: qs := by
      rw [← hpairs]
      exact prefix_append _ _
    have hlen := congrArg List.length hpairs
    simp only [length_append, length_cons, length_nil] at hlen
    exact prefix_of_prefix_length_le (prefix_append _ _) hall (by omega)
  have hname : ∀ p ∈ ps, p.1 ≠ bytes "n" := fun p h =>
    countedPairs_name_ne src mode cpu t n value p (hcounted.subset h)
  rw [parseLine_spaced hps part rfl]
  by_cases hpart0 : part = []
  · subst hpart0
    simp only [fields, Tokens.fields_nil, mapM_nil, Option.pure_def, Option.bind_some, append_nil]
    exact finish_of_name_ne hname
  have htok := hq.isToken.of_part hpart hpart0
  rw [fields, htok.fields]
  cases hkv : keyValue part with
  | none => simp [hkv]
  | some p =>
    obtain ⟨hp1, hp2, rfl⟩ := hq.keyValue_part hpart hkv
    simp only [mapM_cons, mapM_nil, hkv, Option.bind_eq_bind, Option.bind_some, Option.pure_def]
    refine finish_append ?_
    rcases eq_nil_or_concat qs with rfl | ⟨qs', q', rfl⟩
    · -- the count is cut
      obtain ⟨rfl, hq'⟩ := append_inj' hpairs rfl
      obtain rfl : countPair src mode cpu t n value = q := by simpa using hq'
      refine trailingCount_part hp2 ?_
      intro h2
      have hpc : p = countPair src mode cpu t n value := Prod.ext hp1 h2
      exact hne (by rw [hpc]; simp [lineText, Tokens.spaced])
    · -- another token is cut
      have hmem : q ∈ countedPairs src mode cpu t n value := by
        rw [concat_eq_append, ← cons_append, ← append_assoc] at hpairs
        rw [(append_inj' hpairs rfl).1]
        simp
      rw [trailingCount_of_ne (hp1 ▸ countedPairs_name_ne src mode cpu t n value q hmem)]
      simp

/-! ### The length -/

lemma length_commaList_le (key : Key) :
    (commaList n value key).length ≤
      key.width.values n * decLen (2 ^ 64 - 1) + (key.width.values n - 1) := by
  have hdec : ∀ idx, (decimal (value key idx).toNat).length ≤ decLen (2 ^ 64 - 1) := by
    intro idx
    rw [length_decimal]
    exact decLen_le_of_le (Nat.le_sub_one_of_lt (value key idx).toNat_lt)
  have hcomma : (bytes ",").length = 1 := by rw [bytes_signs.2.2.1]; rfl
  rw [commaList]
  cases key.width.values n with
  | zero => simp
  | succ m =>
    have hrest : ((List.range m).flatMap fun idx =>
        bytes "," ++ decimal (value key (idx + 1)).toNat).length ≤
          m * (decLen (2 ^ 64 - 1) + 1) := by
      induction m with
      | zero => simp
      | succ m ih =>
        have h := hdec (m + 1)
        rw [range_succ, flatMap_append, length_append, flatMap_singleton,
          length_append, hcomma, Nat.succ_mul]
        omega
    have h0 := hdec 0
    rw [range_succ_eq_map, map_cons, intercalate_cons, map_map, flatMap_map, length_append]
    have heq : (m + 1) * decLen (2 ^ 64 - 1) + (m + 1 - 1) =
        decLen (2 ^ 64 - 1) + m * (decLen (2 ^ 64 - 1) + 1) := by
      rw [Nat.add_sub_cancel, Nat.succ_mul, Nat.mul_succ]
      omega
    rw [heq]
    exact Nat.add_le_add h0 hrest

lemma length_spaced (pairs : List (List UInt8 × List UInt8)) :
    (Tokens.spaced blank (pairs.map token)).length =
      (pairs.map fun p => 1 + p.1.length + 1 + p.2.length).sum := by
  induction pairs with
  | nil => rfl
  | cons p pairs ih =>
    rw [map_cons, Tokens.spaced, flatMap_cons, length_append]
    rw [Tokens.spaced] at ih
    rw [ih, map_cons, sum_cons]
    simp only [token, length_cons, length_append]
    omega

lemma foldl_add_eq (f : Key → ℕ) (keys : List Key) (a : ℕ) :
    keys.foldl (fun len key => len + f key) a = a + (keys.map f).sum := by
  induction keys generalizing a with
  | nil => rfl
  | cons key keys ih => rw [foldl_cons, ih, map_cons, sum_cons, add_assoc]

lemma sum_keyPairs_le (hn : n ≤ maxCpus) :
    (((printedKeys mode n value).map (keyPair n value)).map
      fun p => 1 + p.1.length + 1 + p.2.length).sum ≤ (Key.all.map maxKeyLen).sum := by
  have hkey : ∀ key : Key, 1 + (keyPair n value key).1.length + 1 + (keyPair n value key).2.length ≤
      maxKeyLen key := by
    intro key
    have hlen := length_commaList_le n value key
    have hval : key.width.values n ≤ key.width.values maxCpus := by
      cases key.width <;> first | exact hn | exact le_rfl
    have hmul := Nat.mul_le_mul_right (decLen (2 ^ 64 - 1)) hval
    simp only [keyPair, maxKeyLen]
    omega
  rw [map_map]
  calc ((printedKeys mode n value).map _).sum
      ≤ (Key.all.map fun key =>
          1 + (keyPair n value key).1.length + 1 + (keyPair n value key).2.length).sum :=
        (filter_sublist.map _).sum_le_sum (by simp)
    _ ≤ (Key.all.map maxKeyLen).sum := sum_le_sum fun key _ => hkey key

lemma length_lineText_lt (hn : n ≤ maxCpus) :
    (lineText src mode cpu t n value).length < maxLineLen := by
  have hkeys := sum_keyPairs_le mode n value hn
  have hsrc := (src_text src).2
  have hcpu : (decimal cpu.toNat).length ≤ decLen 255 := by
    rw [length_decimal]
    exact decLen_le_of_le (Nat.le_of_lt_succ cpu.toNat_lt)
  have ht : (decimal t.toNat).length ≤ decLen (2 ^ 64 - 1) := by
    rw [length_decimal]
    exact decLen_le_of_le (Nat.le_sub_one_of_lt t.toNat_lt)
  have hncpu : (decimal n).length ≤ decLen maxCpus := by
    rw [length_decimal]
    exact decLen_le_of_le hn
  have hcount : (decimal (countedPairs src mode cpu t n value).length).length ≤
      decLen (prefixTokens.toNat + Key.all.length) := by
    rw [length_decimal, length_countedPairs]
    have h5 : prefixTokens.toNat + Key.all.length = 66 := by decide
    have := length_printedKeys mode n value
    rw [h5]
    exact decLen_le_of_le (by omega)
  obtain ⟨n1, n2, n3, n4, n5, n6⟩ := bytes_names
  obtain ⟨m1, m2, m3, m4, m5, m6⟩ := bytes_heads
  have hfold : LineSrc.all.foldl (fun len src => max len (bytes src.name).length) 0 = 5 := by
    decide +kernel
  rw [lineText, length_append, length_spaced, maxLineLen]
  simp only [countedPairs, headPairs, countPair, map_append, sum_append, map_cons,
    map_nil, sum_cons, sum_nil, foldl_add_eq, hfold, length_decimal schemaVersion,
    n1, n2, n3, n4, n5, n6, m1, m2, m3, m4, m5, m6, length_cons, length_nil] at hcount ⊢
  omega

end Layout

lemma omitted_iff (mode : LineMode) (n : ℕ) (value : Key → ℕ → UInt64) (key : Key) :
    omitted mode n value key = true ↔
      mode = .nonZero ∧ key ∉ [Key.twc, .twn, .twmax] ∧
        ∀ idx < key.width.values n, value key idx = 0 := by
  have halways : key.isAlwaysPrinted = false ↔ key ∉ [Key.twc, .twn, .twmax] := by
    cases key <;> decide
  simp only [omitted, Bool.and_eq_true, beq_iff_eq, Bool.not_eq_true', all_eq_true, mem_range,
    halways, and_assoc]

/-- **Round trip of the tripwire line.** For every source, mode, CPU, tick, CPU count and values,
the soak tool reads the printed line back: the header fields in decimal, the CPU count clamped to
1..=8, and under every key the comma list of its values, or 0 if only counters that are not 0 are
asked for and all its values are 0; it takes no line that is cut off; and the line is not longer
than `MAX_LINE_LEN`. -/
theorem tripwire_round_trip (src : LineSrc) (mode : LineMode) (cpu : UInt8) (t : UInt64) (ncpu : ℕ)
    (value : Key → ℕ → UInt64) :
    ∃ line, writeLine src mode cpu t ncpu value = line ++ bytes "\n" ∧
      parseLine line = some {
        text := line
        version := some (decimal schemaVersion)
        src := some (bytes src.name)
        v1 := some {
          cpu := some (decimal cpu.toNat)
          t := some (decimal t.toNat)
          ncpu := some (decimal (min (max 1 ncpu) 8))
          values := fun key =>
            if mode = .nonZero ∧ key ∉ [Key.twc, .twn, .twmax] ∧
                ∀ idx < key.width.values (min (max 1 ncpu) 8), value key idx = 0 then bytes "0"
            else commaList (min (max 1 ncpu) 8) value key } } ∧
      (∀ cut, cut <+: line → cut ≠ line → parseLine cut = none) ∧
      (writeLine src mode cpu t ncpu value).length ≤ maxLineLen := by
  have hpos : 0 < clampCpus ncpu := lt_min (lt_of_lt_of_le Nat.zero_lt_one (le_max_left _ _))
    (by decide)
  have hle : clampCpus ncpu ≤ maxCpus := min_le_right _ _
  refine ⟨lineText src mode cpu t (clampCpus ncpu) value, writeLine_eq src mode cpu t value ncpu,
    ?_, ?_, ?_⟩
  · have hread := parseLine_lineText src mode cpu t (clampCpus ncpu) value hpos
    unfold readValue at hread
    simp only [omitted_iff] at hread
    exact hread
  · intro cut hcut hne
    exact parseLine_cut src mode cpu t (clampCpus ncpu) value hpos hcut hne
  · have hlen := length_lineText_lt src mode cpu t (clampCpus ncpu) value hle
    have hnl : (bytes "\n").length = 1 := by rw [bytes_signs.2.2.2.1]; rfl
    rw [writeLine_eq, length_append, hnl]
    exact hlen

end Aios.Tripwire
