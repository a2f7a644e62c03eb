import Mathlib

/-!
Little-endian numbers and byte-addressed memory.

A number of `n` bytes is written least significant byte first; an array of bytes carries its
length and is ordered byte by byte. A memory is a function from
addresses to bytes; reading and writing a range are list operations, and a write leaves
every byte outside its range as it was.
-/

namespace Aios.Lib

open List

namespace Bytes

def le : ℕ → ℕ → List UInt8
  | 0, _ => []
  | n + 1, v => UInt8.ofNat v :: le n (v / 256)

def ofLe : List UInt8 → ℕ
  | [] => 0
  | b :: l => b.toNat + 256 * ofLe l

@[simp] lemma length_le (n v : ℕ) : (le n v).length = n := by
  induction n generalizing v with
  | zero => rfl
  | succ n ih => simp [le, ih]

lemma ofLe_le {n v : ℕ} (hv : v < 256 ^ n) : ofLe (le n v) = v := by
  induction n generalizing v with
  | zero => simp only [pow_zero] at hv; simp only [le, ofLe]; omega
  | succ n ih =>
    have hdiv : v / 256 < 256 ^ n := by
      rw [Nat.div_lt_iff_lt_mul (by omega), ← pow_succ]
      exact hv
    have hbyte : (UInt8.ofNat v).toNat = v % 256 := UInt8.toNat_ofNat'
    simp only [le, ofLe, ih hdiv, hbyte]
    omega

lemma le_ofLe {n : ℕ} {l : List UInt8} (hl : l.length = n) : le n (ofLe l) = l := by
  induction l generalizing n with
  | nil => rw [← hl]; rfl
  | cons b l ih =>
    have hb := b.toNat_lt
    have hlow : UInt8.ofNat (b.toNat + 256 * ofLe l) = b := by
      rw [← UInt8.toNat_inj, UInt8.toNat_ofNat']
      omega
    have hhigh : (b.toNat + 256 * ofLe l) / 256 = ofLe l := by omega
    rw [← hl, length_cons, ofLe, le, hlow, hhigh, ih rfl]

lemma ofLe_lt (l : List UInt8) : ofLe l < 256 ^ l.length := by
  induction l with
  | nil => simp [ofLe]
  | cons b l ih =>
    have hb := b.toNat_lt
    simp only [ofLe, length_cons, pow_succ]
    omega

lemma ofLe_take {l : List UInt8} {k : ℕ} (hk : k ≤ l.length) :
    ofLe (l.take k) = ofLe l % 256 ^ k := by
  induction k generalizing l with
  | zero => simp [ofLe, Nat.mod_one]
  | succ k ih =>
    cases l with
    | nil => simp at hk
    | cons b l =>
      have hb := b.toNat_lt
      have hrec := ih (l := l) (by simpa using hk)
      simp only [take_succ_cons, ofLe, hrec]
      have hlow : (b.toNat + 256 * ofLe l) % 256 = b.toNat := by omega
      have hhigh : (b.toNat + 256 * ofLe l) / 256 = ofLe l := by omega
      rw [pow_succ, mul_comm (256 ^ k), Nat.mod_mul, hlow, hhigh]

lemma bit_eq_testBit (v : UInt8) {j : ℕ} (hj : j < 8) :
    ((v >>> UInt8.ofNat j) &&& 1 == 1) = v.toNat.testBit j := by
  have hmod : (UInt8.ofNat j).toNat % 8 = j := by
    rw [UInt8.toNat_ofNat']
    omega
  have hand : ((v >>> UInt8.ofNat j) &&& 1).toNat = (v.toNat >>> j) % 2 := by
    rw [UInt8.toNat_and, UInt8.toNat_shiftRight, hmod]
    exact Nat.and_one_is_mod _
  rw [Nat.testBit_eq_decide_div_mod_eq, ← Nat.shiftRight_eq_div_pow, ← hand,
    Bool.eq_iff_iff, beq_iff_eq, decide_eq_true_iff, ← UInt8.toNat_inj]
  rfl

lemma testBit_flip (v : UInt8) {i : ℕ} (hi : i < 8) (j : ℕ) :
    (v ^^^ ((1 : UInt8) <<< UInt8.ofNat i)).toNat.testBit j =
      (v.toNat.testBit j ^^ decide (i = j)) := by
  have hmod : (UInt8.ofNat i).toNat % 8 = i := by
    rw [UInt8.toNat_ofNat']
    omega
  have hone : ((1 : UInt8) <<< UInt8.ofNat i).toNat = 2 ^ i := by
    rw [UInt8.toNat_shiftLeft, hmod, UInt8.toNat_one, Nat.one_shiftLeft]
    exact Nat.mod_eq_of_lt (Nat.pow_lt_pow_right (by omega) hi)
  rw [UInt8.toNat_xor, Nat.testBit_xor, hone, Nat.testBit_two_pow]

def cut : List ℕ → List UInt8 → List (List UInt8)
  | [], _ => []
  | w :: ws, l => l.take w :: cut ws (l.drop w)

lemma cut_flatten (ls : List (List UInt8)) (rest : List UInt8) :
    cut (ls.map List.length) (ls.flatten ++ rest) = ls := by
  induction ls with
  | nil => rfl
  | cons l ls ih => simp [cut, ih]

lemma cut_take (ws : List ℕ) (l : List UInt8) {k : ℕ} (hk : ws.sum ≤ k) :
    cut ws (l.take k) = cut ws l := by
  induction ws generalizing l k with
  | nil => rfl
  | cons w ws ih =>
    rw [sum_cons] at hk
    rw [cut, cut, take_take, min_eq_left (by omega), drop_take, ih _ (by omega)]

end Bytes

/-- An array of `n` bytes. -/
structure ByteArr (n : ℕ) where
  bytes : List UInt8
  length_bytes : bytes.length = n
  deriving DecidableEq

namespace ByteArr

variable {n : ℕ}

lemma length_pad (n : ℕ) (l : List UInt8) : ((l ++ List.replicate n 0).take n).length = n := by simp

/-- The first `n` bytes, or what there is followed by zeros. -/
def ofBytes (n : ℕ) (l : List UInt8) : ByteArr n := ⟨(l ++ List.replicate n 0).take n, length_pad n l⟩

lemma ofBytes_bytes (a : ByteArr n) : ofBytes n a.bytes = a := by
  obtain ⟨l, hl⟩ := a
  simp only [ofBytes, mk.injEq]
  rw [take_append_of_le_length (by omega), take_of_length_le (by omega)]

def key (a : ByteArr n) : List ℕ := a.bytes.map UInt8.toNat

lemma key_injective : Function.Injective (key : ByteArr n → List ℕ) := by
  rintro ⟨a, ha⟩ ⟨b, hb⟩ h
  have : a = b := map_injective_iff.mpr (fun _ _ => UInt8.toNat_inj.mp) h
  subst this
  rfl

instance : LinearOrder (ByteArr n) := LinearOrder.lift' key key_injective

end ByteArr

/-- A buffer of `n` bytes, of which some are in use. -/
structure ByteBuf (n : ℕ) where
  bytes : List UInt8
  length_le : bytes.length ≤ n
  deriving DecidableEq

def ByteBuf.ofBytes (n : ℕ) (l : List UInt8) : ByteBuf n := ⟨l.take n, by simp⟩

lemma ByteBuf.bytes_ofBytes {n : ℕ} {l : List UInt8} (h : l.length ≤ n) :
    (ofBytes n l).bytes = l := take_of_length_le h

def Bytes.ascii (l : List Char) : List UInt8 := l.map fun c => UInt8.ofNat c.toNat

abbrev Mem := ℕ → UInt8

namespace Mem

variable {m m' : Mem} {a n v x : ℕ}

def read (m : Mem) (a n : ℕ) : List UInt8 := (List.range n).map fun i => m (a + i)

def write (m : Mem) (a : ℕ) (l : List UInt8) : Mem :=
  fun x => if a ≤ x then (l[x - a]?).getD (m x) else m x

def fill (m : Mem) (a n : ℕ) (b : UInt8) : Mem := fun x => if a ≤ x ∧ x < a + n then b else m x

/-- The number of `n` bytes at `a`. -/
def readLe (m : Mem) (a n : ℕ) : ℕ := Bytes.ofLe (m.read a n)

/-- The memory with the number `v` in the `n` bytes at `a`. -/
def writeLe (m : Mem) (a n v : ℕ) : Mem := m.write a (Bytes.le n v)

@[simp] lemma length_read (m : Mem) (a n : ℕ) : (m.read a n).length = n := by simp [read]

variable {k : ℕ} {l : List UInt8}

lemma write_outside (h : x < a ∨ a + l.length ≤ x) : m.write a l x = m x := by
  unfold write
  by_cases ha : a ≤ x
  · rw [if_pos ha, getElem?_eq_none (by omega)]
    rfl
  · rw [if_neg ha]

lemma write_singleton (m : Mem) (a x : ℕ) (v : UInt8) :
    m.write a [v] x = if x = a then v else m x := by
  by_cases hx : x = a
  · rw [if_pos hx, hx]
    simp [write]
  · rw [if_neg hx]
    exact write_outside (by simp only [length_singleton]; omega)

lemma fill_outside {b : UInt8} (h : x < a ∨ a + n ≤ x) : m.fill a n b x = m x :=
  if_neg fun hx => by omega

lemma read_write (m : Mem) (a : ℕ) (l : List UInt8) : (m.write a l).read a l.length = l := by
  refine ext_getElem (by simp) fun i h1 h2 => ?_
  simp [read, write, h2]

lemma read_congr (h : ∀ x, a ≤ x → x < a + n → m' x = m x) : m'.read a n = m.read a n := by
  refine map_congr_left fun i hi => h _ (by omega) ?_
  have := mem_range.mp hi
  omega

lemma read_eq_replicate {b : UInt8} (h : ∀ x, a ≤ x → x < a + n → m x = b) :
    m.read a n = List.replicate n b := by
  refine eq_replicate_iff.mpr ⟨length_read m a n, fun c hc => ?_⟩
  obtain ⟨i, hi, rfl⟩ := mem_map.mp hc
  have := mem_range.mp hi
  exact h _ (by omega) (by omega)

lemma take_read (m : Mem) (a : ℕ) {n : ℕ} (hk : k ≤ n) : (m.read a n).take k = m.read a k := by
  unfold read
  rw [← map_take, take_range, min_eq_left hk]

lemma read_write_take (m : Mem) (a : ℕ) (hk : k ≤ l.length) :
    (m.write a l).read a k = l.take k := by
  rw [← take_read _ _ hk, read_write]

lemma write_append (m : Mem) (a : ℕ) (l l' : List UInt8) :
    m.write a (l ++ l') = (m.write a l).write (a + l.length) l' := by
  funext x
  unfold write
  by_cases h1 : a + l.length ≤ x
  · rw [if_pos h1, if_pos (by omega), if_pos (by omega), getElem?_append_right (by omega),
      getElem?_eq_none (show l.length ≤ x - a by omega), Nat.sub_sub]
    rfl
  · rw [if_neg h1]
    by_cases h2 : a ≤ x
    · rw [if_pos h2, if_pos h2, getElem?_append_left (by omega)]
    · rw [if_neg h2, if_neg h2]

lemma write_read (h : ∀ x, a ≤ x → x < a + n → m' x = m x) : m'.write a (m.read a n) = m' := by
  funext x
  by_cases hx : a ≤ x ∧ x < a + n
  · have hget : (m.read a n)[x - a]? = some (m x) := by
      rw [read, getElem?_map, getElem?_range (by omega)]
      simp [hx.1]
    simp [write, hx.1, hget, h x hx.1 hx.2]
  · exact write_outside (by simp only [length_read]; omega)

lemma read_write_outside {a' : ℕ} (h : a' + k ≤ a ∨ a + l.length ≤ a') :
    (m.write a l).read a' k = m.read a' k :=
  read_congr fun _ _ _ => write_outside (by omega)

lemma read_add (m : Mem) (a n k : ℕ) : m.read a (n + k) = m.read a n ++ m.read (a + n) k := by
  unfold read
  rw [range_add, map_append, map_map]
  congr 1
  exact map_congr_left fun i _ => by simp [Nat.add_assoc]

lemma drop_read (m : Mem) (a : ℕ) {n : ℕ} (hk : k ≤ n) :
    (m.read a n).drop k = m.read (a + k) (n - k) := by
  obtain ⟨j, rfl⟩ : ∃ j, n = k + j := ⟨n - k, by omega⟩
  rw [read_add, drop_left' (by simp), Nat.add_sub_cancel_left]

lemma readLe_congr (h : ∀ x, a ≤ x → x < a + n → m' x = m x) : m'.readLe a n = m.readLe a n := by
  unfold readLe
  rw [read_congr h]

lemma readLe_lt (m : Mem) (a n : ℕ) : m.readLe a n < 256 ^ n := by
  have h := Bytes.ofLe_lt (m.read a n)
  rwa [length_read] at h

lemma readLe_writeLe (hv : v < 256 ^ n) : (m.writeLe a n v).readLe a n = v := by
  have h := read_write m a (Bytes.le n v)
  rw [Bytes.length_le] at h
  unfold readLe writeLe
  rw [h, Bytes.ofLe_le hv]

lemma writeLe_outside (h : x < a ∨ a + n ≤ x) : m.writeLe a n v x = m x :=
  write_outside (by rwa [Bytes.length_le])

lemma readLe_writeLe_outside {a' : ℕ} (h : a' + k ≤ a ∨ a + n ≤ a') :
    (m.writeLe a n v).readLe a' k = m.readLe a' k :=
  readLe_congr fun _ _ _ => writeLe_outside (by omega)

lemma readLe_mod (hk : k ≤ n) : m.readLe a k = m.readLe a n % 256 ^ k := by
  unfold readLe
  rw [← take_read m a hk, Bytes.ofLe_take (by simpa using hk)]

end Mem

end Aios.Lib
