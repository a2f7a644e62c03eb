import Aios.Lib.Crc
import Aios.Storage.Format

/-!
The checksum of the on-disk records: `crc32c` and `WalEntry::is_valid` of `shared/src/storage.rs`.

The table of `crc32c` holds eight shifts of each byte, so that the fold over bytes is the check a
bit at a time. An entry of the log is covered up to its checksum; damage to four bytes in a row is
not longer than the register and changes the check.
-/

namespace Aios.Storage

open Aios.Lib List

def castagnoli : BitVec 32 := 0x1EDC6F41

lemma castagnoli_reverse : castagnoli.reverse.toNat = 0x82F63B78 := by decide

lemma crc32c_eq (data : List UInt8) : crc32c data =
    (data.flatMap Crc.bits).foldl (Crc.feed 0x82F63B78) 0xFFFFFFFF ^^^ 0xFFFFFFFF := by
  rw [← Crc.foldl_table]
  rfl

lemma crc32c_bitwise (data : List UInt8) : crc32c data = Crc.bitwise castagnoli data := by
  rw [crc32c_eq, Crc.bitwise, castagnoli_reverse]
  rfl

lemma crc32c_burst {before after x y : List UInt8} (hx : x.length = 4) (hy : y.length = 4)
    (h : crc32c (before ++ x ++ after) = crc32c (before ++ y ++ after)) : x = y := by
  have hreg : ((before ++ x ++ after).flatMap Crc.bits).foldl (Crc.feed 0x82F63B78) 0xFFFFFFFF =
      ((before ++ y ++ after).flatMap Crc.bits).foldl (Crc.feed 0x82F63B78) 0xFFFFFFFF := by
    rw [crc32c_eq, crc32c_eq] at h
    exact Nat.xor_left_inj.mp h
  simp only [flatMap_append] at hreg
  have hlen : ∀ l : List UInt8, l.length = 4 → (l.flatMap Crc.bits).length = 32 := by
    intro l hl
    rw [Crc.length_flatMap_bits, hl]
  have hbits := Crc.foldl_burst (k := 31) (p := 0x82F63B78) (by decide) (by decide) (by decide)
    ((hlen x hx).trans (hlen y hy).symm) (hlen x hx).le hreg
  exact Crc.flatMap_bits_injective (hx.trans hy.symm) hbits

namespace WalEntry

variable {l w : List UInt8} {i : ℕ}

lemma fields_decode (hl : l.length = walEntrySize) : (decode l).fields.flatten = l.take 56 := by
  have hlen : l.length = 64 := hl
  have hpiece : ∀ a n, a + n ≤ 64 → ((l.drop a).take n).length = n := by
    intro a n han
    rw [length_take, length_drop, hlen]
    omega
  have hfirst : (l.take 8).length = 8 := by
    rw [length_take, hlen]
    omega
  have hid : (ContentHash.ofBytes ((l.drop 8).take 32)).bytes = (l.drop 8).take 32 := by
    have h32 := hpiece 8 32 (by omega)
    change ((l.drop 8).take 32 ++ List.replicate 32 0).take 32 = _
    rw [take_left' h32]
  have hcut : l.take 56 = l.take 8 ++ (l.drop 8).take 32 ++ (l.drop 40).take 8 ++
      (l.drop 48).take 4 ++ (l.drop 52).take 1 ++ (l.drop 53).take 3 := by
    simp only [← take_add]
  simp only [decode, fields, Bytes.cut, drop_drop, getD_cons_zero, getD_cons_succ,
    flatten_cons, flatten_nil, append_nil, hid, Bytes.le_ofLe hfirst,
    Bytes.le_ofLe (hpiece 40 8 (by omega)), Bytes.le_ofLe (hpiece 48 4 (by omega)),
    Bytes.le_ofLe (hpiece 52 1 (by omega)), hcut, append_assoc]

lemma checksum_decode (l : List UInt8) : (decode l).checksum = Bytes.ofLe ((l.drop 56).take 4) := by
  simp only [decode, Bytes.cut, drop_drop, getD_cons_zero, getD_cons_succ]

lemma isValid_decode (hl : l.length = walEntrySize) :
    (decode l).isValid = (Bytes.ofLe ((l.drop 56).take 4) == crc32c (l.take 56)) := by
  rw [isValid, computeChecksum, fields_decode hl, checksum_decode]

def damaged (l : List UInt8) (i : ℕ) (w : List UInt8) : List UInt8 :=
  l.take i ++ w ++ l.drop (i + 4)

lemma length_damaged (hl : l.length = walEntrySize) (hw : w.length = 4) (hi : i + 4 ≤ 56) :
    (damaged l i w).length = walEntrySize := by
  have hlen : l.length = 64 := hl
  simp only [damaged, length_append, length_take, length_drop, hlen, hw]
  change _ = 64
  omega

lemma take_damaged (hl : l.length = walEntrySize) (hw : w.length = 4) (hi : i + 4 ≤ 56) :
    (damaged l i w).take 56 = l.take i ++ w ++ (l.drop (i + 4)).take (56 - (i + 4)) := by
  have hlen : l.length = 64 := hl
  have hfront : (l.take i ++ w).length = i + 4 := by
    rw [length_append, length_take, hlen, hw]
    omega
  rw [damaged, take_append, hfront, take_of_length_le (by omega)]

lemma take_split (l : List UInt8) (hi : i + 4 ≤ 56) :
    l.take 56 = l.take i ++ (l.drop i).take 4 ++ (l.drop (i + 4)).take (56 - (i + 4)) := by
  have h56 : 56 = i + 4 + (56 - (i + 4)) := by omega
  conv_lhs => rw [h56, take_add, take_add]

lemma drop_damaged (hl : l.length = walEntrySize) (hw : w.length = 4) (hi : i + 4 ≤ 56) :
    (damaged l i w).drop 56 = l.drop 56 := by
  have hlen : l.length = 64 := hl
  have hfront : (l.take i ++ w).length = i + 4 := by
    rw [length_append, length_take, hlen, hw]
    omega
  rw [damaged, drop_append, hfront, drop_eq_nil_of_le (by omega), nil_append, drop_drop]
  congr 1
  omega

/-- **CRC-32C.** The table-driven checksum is the check a bit at a time with the polynomial of
Castagnoli, and an entry of the log that is valid is not valid any more when up to four bytes in a
row of those in front of the checksum have changed. -/
theorem crc32c_detects : (∀ data, crc32c data = Crc.bitwise castagnoli data) ∧
    ∀ (l w : List UInt8) (i : ℕ), l.length = walEntrySize → (decode l).isValid = true →
      w.length = 4 → i + 4 ≤ 56 → w ≠ (l.drop i).take 4 →
      (decode (damaged l i w)).isValid = false := by
  refine ⟨crc32c_bitwise, fun l w i hl hvalid hw hi hne => ?_⟩
  rw [isValid_decode hl, beq_iff_eq] at hvalid
  rw [isValid_decode (length_damaged hl hw hi), drop_damaged hl hw hi, take_damaged hl hw hi]
  refine beq_eq_false_iff_ne.mpr fun hsame => hne ?_
  have hlen : l.length = 64 := hl
  have hold : ((l.drop i).take 4).length = 4 := by
    rw [length_take, length_drop, hlen]
    omega
  rw [hvalid, take_split l hi] at hsame
  exact (crc32c_burst hold hw hsame).symm

theorem crc32c_detects_flag :
    (decode ((new 1 (ContentHash.ofBytes []) 0 9 0).sealed.encode)).isValid = true ∧
    (decode (damaged (new 1 (ContentHash.ofBytes []) 0 9 0).sealed.encode 52 [1, 0, 0, 0])).isValid =
      false := by
  have hvalid : (decode ((new 1 (ContentHash.ofBytes []) 0 9 0).sealed.encode)).isValid = true := by
    decide +kernel
  exact ⟨hvalid, crc32c_detects.2 _ _ _ (by decide) hvalid rfl (by decide) (by decide)⟩

end WalEntry

end Aios.Storage
