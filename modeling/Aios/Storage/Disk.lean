import Aios.Lib.FlatDisk
import Aios.Storage.Engine

/-!
What lies where on the disk of the block engine.

The disk is viewed as one memory of bytes: the fields of the superblock at its start, entry
`i` of the log at `walAddr i`, and the blocks from `dataBase` on. Each kind of write changes
one of the three and leaves the others alone.
-/

namespace Aios.Storage

open Aios.Lib

def walAddr (i : ℕ) : ℕ := 4096 + 64 * i

def walCapacity : ℕ := 1048576

def dataBase : ℕ := 67112960

def header (m : Mem) : Superblock := Superblock.decode (m.read 0 112)

def entryAt (m : Mem) (i : ℕ) : WalEntry := WalEntry.decode (m.read (walAddr i) walEntrySize)

variable {env : Env} {disk : Disk} {m m' : Mem}

lemma header_congr (h : ∀ x < 112, m' x = m x) : header m' = header m := by
  unfold header
  rw [Mem.read_congr fun x _ hx => h x (by omega)]

lemma entryAt_congr {i : ℕ} (h : ∀ x, walAddr i ≤ x → x < walAddr i + walEntrySize → m' x = m x) :
    entryAt m' i = entryAt m i := by
  unfold entryAt
  rw [Mem.read_congr h]

section Reading

lemma readSectors_eq {start k : ℕ} (h : start + k ≤ env.capacity) :
    readSectors env disk start k = .ok ((flat disk).read (sectorSize * start) (sectorSize * k)) := by
  induction k with
  | zero => rfl
  | succ k ih =>
    have hs : readSector env disk (start + k) = .ok (disk (start + k)).bytes :=
      if_pos (by omega)
    rw [readSectors, ih (by omega), hs, Nat.mul_succ, Mem.read_add, ← Nat.mul_add,
      flat_sector disk _ (by decide)]
    rfl

lemma decode_read (m : Mem) :
    Superblock.decode (m.read 0 4096) = { header m with padding := m.read 112 3984 } := by
  have hcut := Bytes.cut_take [8, 4, 4, 8, 8, 8, 8, 8, 8, 8, 8, 8, 8, 8, 4, 4]
    (m.read 0 4096) (k := 112) (by decide)
  rw [Mem.take_read _ _ (by omega)] at hcut
  have hpad : (m.read 0 4096).drop 112 = m.read 112 3984 := Mem.drop_read _ _ (by omega)
  unfold header Superblock.decode
  rw [hcut, hpad]

lemma readSuperblock_eq (h : 8 ≤ env.capacity) : readSuperblock env disk =
    .ok (if (header (flat disk)).isValid then
      some { header (flat disk) with padding := (flat disk).read 112 3984 } else none) := by
  have hs : readSectors env disk 0 8 = .ok ((flat disk).read 0 4096) :=
    readSectors_eq (by omega)
  simp only [readSuperblock, hs, bind, Except.bind, pure, Except.pure, decode_read,
    Superblock.isValid_padding]

/-- The log where `format` puts it. -/
def Wal.Placed (w : Wal) : Prop :=
  w.startSector = walStartSector ∧ w.sizeSectors = walSizeSectors

lemma Wal.Placed.capacity {w : Wal} (hw : w.Placed) : w.capacityEntries = walCapacity := by
  rw [Wal.capacityEntries, hw.2]
  rfl

lemma Wal.Placed.place {w : Wal} (hw : w.Placed) {i : ℕ} (hi : i < walCapacity) :
    w.place i = (8 + i / 8, i % 8 * 64) := by
  unfold Wal.place
  rw [hw.capacity, Nat.mod_eq_of_lt hi, hw.1]
  rfl

lemma place_addr (i : ℕ) : sectorSize * (8 + i / 8) + i % 8 * 64 = walAddr i := by
  unfold walAddr sectorSize
  omega

lemma readEntry_eq {w : Wal} (hw : w.Placed) {i : ℕ} (hi : i < walCapacity)
    (hc : dataStartSector ≤ env.capacity) :
    readEntry env disk w i = .ok (entryAt (flat disk) i) := by
  have hcap : (8 + i / 8) < env.capacity := by
    simp only [walCapacity, dataStartSector, walStartSector, walSizeSectors] at *
    omega
  have hs : readSector env disk (8 + i / 8) = .ok (disk (8 + i / 8)).bytes := if_pos hcap
  have hbytes : ((disk (8 + i / 8)).bytes.drop (i % 8 * 64)).take walEntrySize =
      (flat disk).read (walAddr i) walEntrySize := by
    rw [← flat_sector disk _ (by decide), Mem.drop_read _ _ (by unfold sectorSize; omega),
      Mem.take_read _ _ (by unfold sectorSize walEntrySize; omega), place_addr]
  rw [readEntry, hw.place hi]
  simp only [hs]
  change Except.ok (WalEntry.decode _) = _
  rw [hbytes]
  rfl

end Reading

/-! ### The superblock -/

structure Mark where
  head : ℕ
  dataNext : ℕ
  nonce : ℕ

/-- The fields of the superblock of a disk formatted with the prefix of `tick`. -/
def sbOf (env : Env) (tick : ℕ) (mk : Mark) : Superblock :=
  Superblock.sealed
    { Superblock.format env.capacity tick with
      dataNextSector := mk.dataNext
      walHead := mk.head
      freeDataSectors := env.capacity - mk.dataNext
      nonceCounter := mk.nonce
      padding := [] }

def Superblock.withPad (sb : Superblock) (pad : List UInt8) : Superblock := { sb with padding := pad }

lemma capacity_lt (env : Env) : env.capacity < 256 ^ 7 := by
  have h := env.capacity_bytes
  simp only [sectorSize] at h
  omega

structure Mark.Fits (env : Env) (mk : Mark) : Prop where
  head : mk.head ≤ walCapacity
  dataNext_ge : dataStartSector ≤ mk.dataNext
  dataNext_le : mk.dataNext ≤ max dataStartSector env.capacity
  nonce : mk.nonce ≤ 1001 * mk.head

lemma Mark.Fits.sbFits {tick : ℕ} {mk : Mark} (h : mk.Fits env) (pad : List UInt8) :
    Superblock.Fits { Superblock.format env.capacity tick with
      dataNextSector := mk.dataNext
      walHead := mk.head
      freeDataSectors := env.capacity - mk.dataNext
      nonceCounter := mk.nonce
      padding := pad } := by
  have hcap := capacity_lt env
  have hdn := h.dataNext_le
  have hhead := h.head
  have hnonce := h.nonce
  simp only [dataStartSector, walStartSector, walSizeSectors, walCapacity] at hdn hhead
  exact
    { magic := show superblockMagic < 256 ^ 8 by decide
      version := show superblockVersion < 256 ^ 4 by decide
      blockSize := show storageBlockSize < 256 ^ 4 by decide
      totalSectors := show env.capacity < 256 ^ 8 by omega
      walStartSector := show walStartSector < 256 ^ 8 by decide
      walSizeSectors := show walSizeSectors < 256 ^ 8 by decide
      dataStartSector := show dataStartSector < 256 ^ 8 by decide
      dataNextSector := show mk.dataNext < 256 ^ 8 by omega
      walHead := show mk.head < 256 ^ 8 by omega
      walTail := show 0 < 256 ^ 8 by decide
      freeDataSectors := show env.capacity - mk.dataNext < 256 ^ 8 by omega
      lsmL0Offset := show 0 < 256 ^ 8 by decide
      encryptionEpoch := show 1 < 256 ^ 8 by decide
      nonceCounter := show mk.nonce < 256 ^ 8 by omega
      nonceRandomPrefix := show tick % 2 ^ 32 < 256 ^ 4 by omega }

lemma isValid_sbOf (env : Env) (tick : ℕ) (mk : Mark) : (sbOf env tick mk).isValid = true :=
  Superblock.isValid_sealed rfl rfl

lemma length_encode_withPad (env : Env) (tick : ℕ) (mk : Mark) {pad : List UInt8}
    (hp : pad.length = 3984) : ((sbOf env tick mk).withPad pad).encode.length = 4096 := by
  rw [Superblock.length_encode]
  change 112 + pad.length = 4096
  omega

lemma header_write {tick : ℕ} {mk : Mark} (hf : mk.Fits env) {pad l : List UInt8}
    (hl : 112 ≤ l.length) (htake : l.take 112 = ((sbOf env tick mk).withPad pad).encode.take 112) :
    header (m.write 0 l) = sbOf env tick mk := by
  have henc : ((sbOf env tick mk).withPad pad).encode.take 112 = (sbOf env tick mk).encode := by
    have hpad : ((sbOf env tick mk).withPad pad).encode = (sbOf env tick mk).encode ++ pad := by
      change _ = (_ ++ []) ++ pad
      rw [List.append_nil]
      rfl
    rw [hpad, List.take_left']
    rw [Superblock.length_encode]
    rfl
  unfold header
  rw [Mem.read_write_take m 0 hl, htake, henc]
  exact Superblock.decode_encode (hf.sbFits [])

end Aios.Storage
