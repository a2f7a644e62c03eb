import Aios.Lib.SectorDev

/-!
A disk as one memory of bytes.

Writing a sector is a write of its bytes at the sector's byte address, and reading a range
of sectors is a read of their bytes; facts about records that share a sector, or span
several, are then facts about byte ranges.
-/

namespace Aios.Lib

open List Function

variable {n : ℕ}

namespace Sector

lemma bytes_ofBytes {l : List UInt8} (h : l.length = n) : (ofBytes n l).bytes = l := by
  change (l ++ List.replicate n 0).take n = l
  rw [take_append_of_le_length (by omega), take_of_length_le (by omega)]

lemma bytes_patch {s : Sector n} {off : ℕ} {l : List UInt8} (h : off + l.length ≤ n) :
    (s.patch off l).bytes = s.bytes.take off ++ l ++ s.bytes.drop (off + l.length) := by
  refine bytes_ofBytes ?_
  have := s.length_bytes
  simp only [length_append, length_take, length_drop]
  omega

end Sector

def flat (disk : Disk n) : Mem := fun x => (disk (x / n)).bytes.getD (x % n) 0

section Flat

variable (disk : Disk n) (i : ℕ)

lemma flat_update (hn : 0 < n) (b : Sector n) :
    flat (update disk i b) = (flat disk).write (n * i) b.bytes := by
  funext x
  have hlen := b.length_bytes
  have hmod := Nat.mod_lt x hn
  have hdiv := Nat.div_add_mod x n
  by_cases hx : x / n = i
  · subst hx
    have hoff : x - n * (x / n) = x % n := by omega
    have hget : b.bytes[x % n]? = some b.bytes[x % n] := getElem?_eq_getElem (by omega)
    simp [flat, Mem.write, update_self, hoff, hget, Nat.mul_div_le]
  · have hout : x < n * i ∨ n * i + b.bytes.length ≤ x := by
      rcases Nat.lt_or_gt_of_ne hx with h | h
      · left
        have := Nat.mul_le_mul_left n (show x / n + 1 ≤ i from h)
        rw [Nat.mul_add] at this
        omega
      · right
        have := Nat.mul_le_mul_left n (show i + 1 ≤ x / n from h)
        rw [Nat.mul_add] at this
        omega
    rw [Mem.write_outside hout]
    simp [flat, update_of_ne hx]

lemma flat_sector (hn : 0 < n) : (flat disk).read (n * i) n = (disk i).bytes := by
  have hlen := (disk i).length_bytes
  refine ext_getElem (by simp [hlen]) fun j h1 h2 => ?_
  rw [hlen] at h2
  have hdiv : (n * i + j) / n = i := by
    rw [Nat.mul_add_div hn, Nat.div_eq_of_lt h2, Nat.add_zero]
  have hget : (disk i).bytes[j]? = some (disk i).bytes[j] := getElem?_eq_getElem (by omega)
  simp [Mem.read, flat, hdiv, Nat.mod_eq_of_lt h2, hget]

lemma flat_patch (hn : 0 < n) {off : ℕ} {l : List UInt8} (h : off + l.length ≤ n) :
    flat (update disk i ((disk i).patch off l)) = (flat disk).write (n * i + off) l := by
  have hlen := (disk i).length_bytes
  have hhead : (disk i).bytes.take off = (flat disk).read (n * i) off := by
    rw [← flat_sector disk i hn, Mem.take_read _ _ (by omega)]
  have htail : (disk i).bytes.drop (off + l.length) =
      (flat disk).read (n * i + (off + l.length)) (n - (off + l.length)) := by
    rw [← flat_sector disk i hn, Mem.drop_read _ _ h]
  rw [flat_update disk i hn, Sector.bytes_patch h, hhead, htail, append_assoc, Mem.write_append,
    Mem.write_append, Mem.length_read, Mem.write_read fun _ _ _ => rfl, ← Nat.add_assoc]
  refine Mem.write_read fun x h1 h2 => Mem.write_outside ?_
  omega

end Flat

section Numbered

lemma take_numbered (start k : ℕ) (bs : List (Sector n)) :
    (numbered start bs).take k = numbered start (bs.take k) := by
  induction bs generalizing start k with
  | nil => simp [numbered]
  | cons b bs ih =>
    cases k with
    | zero => rfl
    | succ k => simp [numbered, ih]

@[simp] lemma length_numbered (start : ℕ) (bs : List (Sector n)) :
    (numbered start bs).length = bs.length := by
  induction bs generalizing start with
  | nil => rfl
  | cons b bs ih => simp [numbered, ih]

lemma mem_numbered {start : ℕ} {bs : List (Sector n)} {w : ℕ × Sector n}
    (h : w ∈ numbered start bs) : start ≤ w.1 ∧ w.1 < start + bs.length := by
  induction bs generalizing start with
  | nil => simp [numbered] at h
  | cons b bs ih =>
    rcases mem_cons.mp h with rfl | h
    · simp
    · have := ih h
      simp only [length_cons]
      omega

lemma flat_numbered (hn : 0 < n) (start : ℕ) (bs : List (Sector n)) (disk : Disk n) :
    flat ((numbered start bs).foldl (fun m w => update m w.1 w.2) disk) =
      (flat disk).write (n * start) (bs.map Sector.bytes).flatten := by
  induction bs generalizing start disk with
  | nil =>
    funext x
    simp [numbered, Mem.write]
  | cons b bs ih =>
    rw [numbered, foldl_cons, ih, flat_update disk start hn, map_cons,
      flatten_cons, Mem.write_append, b.length_bytes, Nat.mul_add, Nat.mul_one]

@[simp] lemma length_sectorsOf (n : ℕ) (l : List UInt8) :
    (sectorsOf n l).length = (l.length + n - 1) / n := by simp [sectorsOf]

def padded (n : ℕ) (l : List UInt8) : List UInt8 :=
  l ++ List.replicate (n * ((l.length + n - 1) / n) - l.length) 0

lemma length_padded (hn : 0 < n) (l : List UInt8) :
    (padded n l).length = n * ((l.length + n - 1) / n) := by
  have h := Nat.lt_div_mul_add (a := l.length + n - 1) hn
  rw [Nat.mul_comm] at h
  simp only [padded, length_append, length_replicate]
  omega

lemma flatten_slices (L : List UInt8) (n k : ℕ) :
    ((List.range k).map fun i => (L.drop (n * i)).take n).flatten = L.take (n * k) := by
  induction k with
  | zero => simp
  | succ k ih =>
    rw [range_succ, map_append, flatten_append, ih, Nat.mul_succ, take_add]
    simp

/-- The first `k` sectors of a string hold the first bytes of the padded string. -/
lemma flatten_sectorsOf (hn : 0 < n) (l : List UInt8) (k : ℕ) :
    (((sectorsOf n l).take k).map Sector.bytes).flatten = (padded n l).take (n * k) := by
  have hslice : ∀ i < (l.length + n - 1) / n,
      (Sector.ofBytes n ((l.drop (n * i)).take n)).bytes = ((padded n l).drop (n * i)).take n := by
    intro i hi
    have hlen := length_padded hn l
    have hi' : n * i + n ≤ n * ((l.length + n - 1) / n) := by
      have := Nat.mul_le_mul_left n (show i + 1 ≤ _ from hi)
      rwa [Nat.mul_succ] at this
    change ((l.drop (n * i)).take n ++ List.replicate n 0).take n = _
    refine ext_getElem ?_ fun j h1 h2 => ?_
    · simp only [length_take, length_append, length_drop, length_replicate, hlen]
      omega
    · have hj : j < n := by simp at h1; omega
      simp only [getElem_take, getElem_drop, padded]
      by_cases hlt : n * i + j < l.length
      · rw [getElem_append_left (by simp; omega), getElem_append_left hlt]
        simp
      · rw [getElem_append_right (by simp; omega), getElem_append_right (by omega)]
        simp
  have hmap : ((sectorsOf n l).take k).map Sector.bytes =
      (List.range (min k ((l.length + n - 1) / n))).map
        fun i => ((padded n l).drop (n * i)).take n := by
    rw [sectorsOf, ← map_take, take_range, map_map]
    refine map_congr_left fun i hi => hslice i ?_
    have := mem_range.mp hi
    omega
  rw [hmap, flatten_slices]
  rcases Nat.le_total k ((l.length + n - 1) / n) with h | h
  · rw [min_eq_left h]
  · rw [min_eq_right h, ← length_padded hn, take_length, take_of_length_le]
    rw [length_padded hn]
    exact Nat.mul_le_mul_left n h

end Numbered

end Aios.Lib
