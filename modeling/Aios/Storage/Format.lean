import Aios.Lib.Bytes
import Aios.Lib.SortedTable

/-!
The on-disk formats of the block engine: `shared/src/storage.rs` and the superblock of
`kernel/src/storage/block_engine.rs`.

The superblock and the entries of the write-ahead log are records of little-endian numbers
with a CRC-32C over the fields in front of the checksum.
-/

namespace Aios.Storage

open Aios.Lib Bytes List

def superblockMagic : ℕ := 0x41494F5350414345
def superblockVersion : ℕ := 2
def sectorSize : ℕ := 512
def storageBlockSize : ℕ := 4096
def walStartSector : ℕ := 8
def walSizeSectors : ℕ := 131072
def dataStartSector : ℕ := walStartSector + walSizeSectors
def memtableMaxEntries : ℕ := 65536
def walEntrySize : ℕ := 64
def walEntriesPerSector : ℕ := sectorSize / walEntrySize
def encryptionOverhead : ℕ := 28
def compressionHeaderSize : ℕ := 5

inductive StorageError
  | blockNotFound
  | checksumFailed
  | decryptionFailed
  | ioError
  | quotaExceeded
  | deviceFull
  | walFull
  | deviceNotFound
  | memTableFull
  | objectNotFound
  | spaceNotFound
  | spaceNotEmpty
  | versionNotFound
  | nameExists
  | fdTableFull
  | invalidFd
  deriving DecidableEq, Repr

def crcStep (crc : ℕ) : ℕ := if crc % 2 = 1 then crc / 2 ^^^ 0x82F63B78 else crc / 2

/-- `CRC32C_TABLE`, an entry computed when it is asked for. -/
def crc32cTable (i : ℕ) : ℕ := crcStep^[8] i

def crc32c (data : List UInt8) : ℕ :=
  data.foldl (fun crc b => crc32cTable ((crc ^^^ b.toNat) % 256) ^^^ (crc / 256)) 0xFFFFFFFF ^^^
    0xFFFFFFFF

lemma crcStep_lt {crc : ℕ} (h : crc < 2 ^ 32) : crcStep crc < 2 ^ 32 := by
  unfold crcStep
  split_ifs
  · exact Nat.xor_lt_two_pow (by omega) (by decide)
  · omega

lemma crc32cTable_lt {i : ℕ} (h : i < 2 ^ 32) : crc32cTable i < 2 ^ 32 := by
  have hn : ∀ n, crcStep^[n] i < 2 ^ 32 := by
    intro n
    induction n with
    | zero => exact h
    | succ n ih =>
      rw [Function.iterate_succ_apply']
      exact crcStep_lt ih
  exact hn 8

lemma crc32c_lt (data : List UInt8) : crc32c data < 256 ^ 4 := by
  have hfold : ∀ (l : List UInt8) (crc : ℕ), crc < 2 ^ 32 →
      l.foldl (fun crc b => crc32cTable ((crc ^^^ b.toNat) % 256) ^^^ (crc / 256)) crc < 2 ^ 32 := by
    intro l
    induction l with
    | nil => exact fun _ h => h
    | cons b l ih =>
      intro crc h
      refine ih _ (Nat.xor_lt_two_pow (crc32cTable_lt ?_) ?_) <;> omega
  exact lt_of_lt_of_eq (Nat.xor_lt_two_pow (hfold data _ (by decide)) (by decide)) (by decide)

/-- `ContentHash`: the 32 bytes of a SHA-256 digest. -/
structure ContentHash where
  bytes : List UInt8
  length_bytes : bytes.length = 32
  deriving DecidableEq

namespace ContentHash

def key (h : ContentHash) : List ℕ := h.bytes.map UInt8.toNat

lemma key_injective : Function.Injective key := by
  rintro ⟨a, ha⟩ ⟨b, hb⟩ h
  have : a = b := map_injective_iff.mpr (fun _ _ => UInt8.toNat_inj.mp) h
  subst this
  rfl

instance : LinearOrder ContentHash := LinearOrder.lift' key key_injective

def ofBytes (l : List UInt8) : ContentHash := ⟨(l ++ List.replicate 32 0).take 32, by simp⟩

lemma ofBytes_bytes (h : ContentHash) : ofBytes h.bytes = h := by
  obtain ⟨l, hl⟩ := h
  simp only [ofBytes, mk.injEq]
  rw [take_append_of_le_length (by omega), take_of_length_le (by omega)]

end ContentHash

inductive StorageTier
  | hot
  | warm
  | cold
  deriving DecidableEq, Repr

/-- `BlockLocation`: a byte offset on the device and the size of the wrapped payload. -/
structure BlockLocation where
  offset : ℕ
  size : ℕ
  tier : StorageTier
  deriving DecidableEq, Repr

structure Superblock where
  magic : ℕ
  version : ℕ
  blockSize : ℕ
  totalSectors : ℕ
  walStartSector : ℕ
  walSizeSectors : ℕ
  dataStartSector : ℕ
  dataNextSector : ℕ
  walHead : ℕ
  walTail : ℕ
  freeDataSectors : ℕ
  lsmL0Offset : ℕ
  encryptionEpoch : ℕ
  nonceCounter : ℕ
  nonceRandomPrefix : ℕ
  checksum : ℕ
  padding : List UInt8
  deriving DecidableEq

namespace Superblock

def fields (sb : Superblock) : List (List UInt8) :=
  [Bytes.le 8 sb.magic, Bytes.le 4 sb.version, Bytes.le 4 sb.blockSize,
    Bytes.le 8 sb.totalSectors, Bytes.le 8 sb.walStartSector, Bytes.le 8 sb.walSizeSectors,
    Bytes.le 8 sb.dataStartSector, Bytes.le 8 sb.dataNextSector, Bytes.le 8 sb.walHead,
    Bytes.le 8 sb.walTail, Bytes.le 8 sb.freeDataSectors, Bytes.le 8 sb.lsmL0Offset,
    Bytes.le 8 sb.encryptionEpoch, Bytes.le 8 sb.nonceCounter, Bytes.le 4 sb.nonceRandomPrefix]

def encode (sb : Superblock) : List UInt8 :=
  (sb.fields ++ [Bytes.le 4 sb.checksum]).flatten ++ sb.padding

def decode (l : List UInt8) : Superblock :=
  let f := (Bytes.cut [8, 4, 4, 8, 8, 8, 8, 8, 8, 8, 8, 8, 8, 8, 4, 4] l).map Bytes.ofLe
  { magic := f.getD 0 0
    version := f.getD 1 0
    blockSize := f.getD 2 0
    totalSectors := f.getD 3 0
    walStartSector := f.getD 4 0
    walSizeSectors := f.getD 5 0
    dataStartSector := f.getD 6 0
    dataNextSector := f.getD 7 0
    walHead := f.getD 8 0
    walTail := f.getD 9 0
    freeDataSectors := f.getD 10 0
    lsmL0Offset := f.getD 11 0
    encryptionEpoch := f.getD 12 0
    nonceCounter := f.getD 13 0
    nonceRandomPrefix := f.getD 14 0
    checksum := f.getD 15 0
    padding := l.drop 112 }

def computeChecksum (sb : Superblock) : ℕ := crc32c sb.fields.flatten

def isValid (sb : Superblock) : Bool :=
  sb.magic == superblockMagic && sb.version == superblockVersion &&
    sb.checksum == sb.computeChecksum

def sealed (sb : Superblock) : Superblock := { sb with checksum := sb.computeChecksum }

/-- `Superblock::format`; the prefix comes from the tick counter. -/
def format (totalSectors tick : ℕ) : Superblock :=
  sealed
    { magic := superblockMagic
      version := superblockVersion
      blockSize := storageBlockSize
      totalSectors := totalSectors
      walStartSector := Storage.walStartSector
      walSizeSectors := Storage.walSizeSectors
      dataStartSector := Storage.dataStartSector
      dataNextSector := Storage.dataStartSector
      walHead := 0
      walTail := 0
      freeDataSectors := totalSectors - Storage.dataStartSector
      lsmL0Offset := 0
      encryptionEpoch := 1
      nonceCounter := 0
      nonceRandomPrefix := tick % 2 ^ 32
      checksum := 0
      padding := List.replicate (storageBlockSize - 112) 0 }

structure Fits (sb : Superblock) : Prop where
  magic : sb.magic < 256 ^ 8
  version : sb.version < 256 ^ 4
  blockSize : sb.blockSize < 256 ^ 4
  totalSectors : sb.totalSectors < 256 ^ 8
  walStartSector : sb.walStartSector < 256 ^ 8
  walSizeSectors : sb.walSizeSectors < 256 ^ 8
  dataStartSector : sb.dataStartSector < 256 ^ 8
  dataNextSector : sb.dataNextSector < 256 ^ 8
  walHead : sb.walHead < 256 ^ 8
  walTail : sb.walTail < 256 ^ 8
  freeDataSectors : sb.freeDataSectors < 256 ^ 8
  lsmL0Offset : sb.lsmL0Offset < 256 ^ 8
  encryptionEpoch : sb.encryptionEpoch < 256 ^ 8
  nonceCounter : sb.nonceCounter < 256 ^ 8
  nonceRandomPrefix : sb.nonceRandomPrefix < 256 ^ 4

lemma length_encode (sb : Superblock) : sb.encode.length = 112 + sb.padding.length := by
  simp only [encode, fields, cons_append, nil_append, flatten_cons,
    flatten_nil, length_append, length_le, append_nil]

lemma decode_encode {sb : Superblock} (h : sb.Fits) : decode sb.sealed.encode = sb.sealed := by
  have hcut : Bytes.cut [8, 4, 4, 8, 8, 8, 8, 8, 8, 8, 8, 8, 8, 8, 4, 4] sb.sealed.encode =
      sb.sealed.fields ++ [Bytes.le 4 sb.sealed.checksum] := by
    have := cut_flatten (sb.sealed.fields ++ [Bytes.le 4 sb.sealed.checksum]) sb.sealed.padding
    simpa [fields, encode] using this
  have hpad : sb.sealed.encode.drop 112 = sb.sealed.padding := by
    refine drop_left' ?_
    simp [fields]
  unfold decode
  rw [hcut, hpad]
  simp [fields, sealed, ofLe_le h.magic, ofLe_le h.version, ofLe_le h.blockSize,
    ofLe_le h.totalSectors, ofLe_le h.walStartSector, ofLe_le h.walSizeSectors,
    ofLe_le h.dataStartSector, ofLe_le h.dataNextSector, ofLe_le h.walHead, ofLe_le h.walTail,
    ofLe_le h.freeDataSectors, ofLe_le h.lsmL0Offset, ofLe_le h.encryptionEpoch,
    ofLe_le h.nonceCounter, ofLe_le h.nonceRandomPrefix, ofLe_le (crc32c_lt _), computeChecksum]

lemma isValid_padding (sb : Superblock) (p : List UInt8) :
    { sb with padding := p }.isValid = sb.isValid := rfl

lemma isValid_sealed {sb : Superblock} (hm : sb.magic = superblockMagic)
    (hv : sb.version = superblockVersion) : sb.sealed.isValid = true := by
  have hsum : sb.sealed.checksum = sb.sealed.computeChecksum := rfl
  rw [isValid, hsum, show sb.sealed.magic = _ from hm, show sb.sealed.version = _ from hv]
  simp

end Superblock

structure WalEntry where
  sequenceNumber : ℕ
  blockId : ContentHash
  dataOffset : ℕ
  dataSize : ℕ
  committed : ℕ
  pad : List UInt8
  checksum : ℕ
  pad2 : List UInt8
  deriving DecidableEq

namespace WalEntry

def fields (e : WalEntry) : List (List UInt8) :=
  [Bytes.le 8 e.sequenceNumber, e.blockId.bytes, Bytes.le 8 e.dataOffset, Bytes.le 4 e.dataSize,
    Bytes.le 1 e.committed, e.pad]

def encode (e : WalEntry) : List UInt8 :=
  (e.fields ++ [Bytes.le 4 e.checksum, e.pad2]).flatten

def decode (l : List UInt8) : WalEntry :=
  let f := Bytes.cut [8, 32, 8, 4, 1, 3, 4, 4] l
  { sequenceNumber := Bytes.ofLe (f.getD 0 [])
    blockId := ContentHash.ofBytes (f.getD 1 [])
    dataOffset := Bytes.ofLe (f.getD 2 [])
    dataSize := Bytes.ofLe (f.getD 3 [])
    committed := Bytes.ofLe (f.getD 4 [])
    pad := f.getD 5 []
    checksum := Bytes.ofLe (f.getD 6 [])
    pad2 := f.getD 7 [] }

def computeChecksum (e : WalEntry) : ℕ := crc32c e.fields.flatten

def isValid (e : WalEntry) : Bool := e.checksum == e.computeChecksum

def sealed (e : WalEntry) : WalEntry := { e with checksum := e.computeChecksum }

def new (sequenceNumber : ℕ) (blockId : ContentHash) (dataOffset dataSize committed : ℕ) :
    WalEntry where
  sequenceNumber := sequenceNumber
  blockId := blockId
  dataOffset := dataOffset
  dataSize := dataSize
  committed := committed
  pad := [0, 0, 0]
  checksum := 0
  pad2 := [0, 0, 0, 0]

structure Fits (e : WalEntry) : Prop where
  sequenceNumber : e.sequenceNumber < 256 ^ 8
  dataOffset : e.dataOffset < 256 ^ 8
  dataSize : e.dataSize < 256 ^ 4
  committed : e.committed < 256 ^ 1
  pad : e.pad.length = 3
  pad2 : e.pad2.length = 4

lemma length_encode {e : WalEntry} (h : e.Fits) : e.encode.length = walEntrySize := by
  simp [encode, fields, h.pad, h.pad2, e.blockId.length_bytes, walEntrySize]

lemma decode_encode {e : WalEntry} (h : e.Fits) : decode e.sealed.encode = e.sealed := by
  have hcut : Bytes.cut [8, 32, 8, 4, 1, 3, 4, 4] e.sealed.encode =
      e.sealed.fields ++ [Bytes.le 4 e.sealed.checksum, e.sealed.pad2] := by
    have := cut_flatten (e.sealed.fields ++ [Bytes.le 4 e.sealed.checksum, e.sealed.pad2]) []
    have hpad : e.sealed.pad.length = 3 := h.pad
    have hpad2 : e.sealed.pad2.length = 4 := h.pad2
    simpa [fields, encode, e.sealed.blockId.length_bytes, hpad, hpad2] using this
  unfold decode
  rw [hcut]
  simp [fields, sealed, ofLe_le h.sequenceNumber, ofLe_le h.dataOffset, ofLe_le h.dataSize,
    ofLe_le h.committed, ContentHash.ofBytes_bytes, ofLe_le (crc32c_lt _), computeChecksum]

lemma isValid_sealed (e : WalEntry) : e.sealed.isValid = true := by
  have hsum : e.sealed.checksum = e.sealed.computeChecksum := rfl
  rw [isValid, hsum, beq_self_eq_true]

end WalEntry

end Aios.Storage
