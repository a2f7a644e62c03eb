import Aios.Lib.SectorDev
import Aios.Storage.Format

/-!
The block engine: `kernel/src/storage/{block_engine,wal,crypto}.rs` and the `MemTable` of
`shared/src/storage.rs`.

A write logs an uncommitted entry, persists the nonce counter with the superblock, writes
the sealed block sector by sector and commits the entry. The index is in memory only and is
rebuilt from the log at boot. SHA-256, LZ4, AES-GCM and the size of the device are
parameters.
-/

namespace Aios.Storage

open Aios.Lib

/-- What the engine uses from outside: the device's capacity in sectors, SHA-256, the block
functions of lz4_flex and AES-256-GCM under the device key. Decompression is given the size
of its output buffer and returns the bytes it wrote. Encryption takes a nonce and a
plaintext and returns ciphertext and tag, both in one list. -/
structure Env where
  capacity : ℕ
  capacity_bytes : capacity * sectorSize < 2 ^ 64
  sha256 : List UInt8 → ContentHash
  compress : List UInt8 → List UInt8
  decompressInto : List UInt8 → ℕ → Option (List UInt8)
  encrypt : List UInt8 → List UInt8 → Option (List UInt8)
  decrypt : List UInt8 → List UInt8 → Option (List UInt8)
  encrypt_length : ∀ n p c, encrypt n p = some c → c.length = p.length + 16
  decrypt_length : ∀ n c p, decrypt n c = some p → c.length = p.length + 16

def divCeil (a b : ℕ) : ℕ := (a + b - 1) / b

/-! ### The index -/

structure MemTableEntry where
  location : BlockLocation
  refcount : ℕ
  deriving DecidableEq

structure MemTable where
  entries : SortedTable ContentHash MemTableEntry
  capacity : ℕ

namespace MemTable

def withDefaultCapacity : MemTable := ⟨SortedTable.empty, memtableMaxEntries⟩

def get (t : MemTable) (key : ContentHash) : Option MemTableEntry := t.entries.get key

def isFull (t : MemTable) : Bool := decide (t.capacity ≤ t.entries.size)

def bump (t : MemTable) (key : ContentHash) : MemTable :=
  { t with entries := t.entries.adjust key fun e => { e with refcount := e.refcount + 1 } }

/-- `insert`: a key that is there already only gets one more reference. -/
def insert (t : MemTable) (key : ContentHash) (location : BlockLocation) :
    Except StorageError MemTable :=
  match t.get key with
  | some _ => .ok (t.bump key)
  | none =>
    if t.isFull then .error .memTableFull
    else .ok { t with entries := t.entries.insert key ⟨location, 1⟩ }

/-- `dec_ref`: the location and whether the entry was removed. -/
def decRef (t : MemTable) (key : ContentHash) : Option (BlockLocation × Bool) × MemTable :=
  match t.get key with
  | none => (none, t)
  | some e =>
    if e.refcount ≤ 1 then (some (e.location, true), { t with entries := t.entries.erase key })
    else (some (e.location, false),
      { t with entries := t.entries.adjust key fun e => { e with refcount := e.refcount - 1 } })

end MemTable

/-! ### Log, key manager and engine -/

structure Wal where
  startSector : ℕ
  sizeSectors : ℕ
  head : ℕ
  tail : ℕ
  nextSequence : ℕ
  deriving DecidableEq

namespace Wal

def new (startSector sizeSectors : ℕ) : Wal := ⟨startSector, sizeSectors, 0, 0, 1⟩

def capacityEntries (w : Wal) : ℕ := w.sizeSectors * walEntriesPerSector

def place (w : Wal) (index : ℕ) : ℕ × ℕ :=
  let wrapped := index % w.capacityEntries
  (w.startSector + wrapped / walEntriesPerSector, wrapped % walEntriesPerSector * walEntrySize)

end Wal

/-- `DeviceKeyManager`; the key itself is in the parameters. -/
structure DeviceKeyManager where
  nonceCounter : ℕ
  randomPrefix : ℕ
  deriving DecidableEq

def crashRecoveryGap : ℕ := 1000

namespace DeviceKeyManager

def fromPassphrase (initialCounter randomPrefix : ℕ) : DeviceKeyManager :=
  ⟨min (initialCounter + crashRecoveryGap) (2 ^ 64 - 1), randomPrefix⟩

/-- The nonce `next_nonce` returns. -/
def nonce (k : DeviceKeyManager) : List UInt8 :=
  Bytes.le 4 k.randomPrefix ++ Bytes.le 8 k.nonceCounter

/-- The key manager after `next_nonce`. -/
def advance (k : DeviceKeyManager) : DeviceKeyManager :=
  { k with nonceCounter := (k.nonceCounter + 1) % 2 ^ 64 }

end DeviceKeyManager

/-- `BlockEngine`, without the object index and the space table. -/
structure Engine where
  superblock : Superblock
  wal : Wal
  memtable : MemTable
  crypto : Option DeviceKeyManager
  dataNextSector : ℕ

abbrev Disk := Lib.Disk sectorSize

abbrev EngineM := Prog sectorSize Engine StorageError

section Reading

variable (env : Env) (disk : Disk)

def readSector (i : ℕ) : Except StorageError (List UInt8) :=
  if i < env.capacity then .ok (disk i).bytes else .error .ioError

/-- The bytes of `n` sectors from `start` on. -/
def readSectors (start : ℕ) : ℕ → Except StorageError (List UInt8)
  | 0 => .ok []
  | n + 1 => do
    let l ← readSectors start n
    let s ← readSector env disk (start + n)
    return l ++ s

/-- `read_superblock`: the superblock on disk if it is valid. -/
def readSuperblock : Except StorageError (Option Superblock) := do
  let l ← readSectors env disk 0 8
  let sb := Superblock.decode l
  return if sb.isValid then some sb else none

def readEntry (w : Wal) (index : ℕ) : Except StorageError WalEntry := do
  let l ← readSector env disk (w.place index).1
  return WalEntry.decode ((l.drop (w.place index).2).take walEntrySize)

def decrypt (l : List UInt8) : Except StorageError (List UInt8) :=
  if l.length < encryptionOverhead then .error .decryptionFailed
  else
    match env.decrypt (l.take 12) (l.drop 12) with
    | some p => .ok p
    | none => .error .decryptionFailed

/-- `decompress_and_verify`; the result is what it leaves in the caller's buffer. -/
def decompressAndVerify (wrapped : List UInt8) (storedCrc bufLen : ℕ) :
    Except StorageError (List UInt8) :=
  if wrapped.length < compressionHeaderSize then .error .ioError
  else
    let compType := wrapped.headD 0
    let uncompressedSize := Bytes.ofLe ((wrapped.drop 1).take 4)
    let payload := wrapped.drop compressionHeaderSize
    let verify (data : List UInt8) : Except StorageError (List UInt8) :=
      if crc32c data = storedCrc then .ok data else .error .checksumFailed
    if bufLen < uncompressedSize then .error .ioError
    else if compType = 1 then
      match env.decompressInto payload uncompressedSize with
      | none => .error .ioError
      | some data => if data.length = uncompressedSize then verify data else .error .ioError
    else if compType = 0 then
      if payload.length = uncompressedSize then verify payload else .error .ioError
    else .error .ioError

/-- The bytes a block with payload size `size` takes on disk. -/
def onDiskSize (crypto : Option DeviceKeyManager) (size : ℕ) : ℕ :=
  if crypto.isSome then 8 + size + encryptionOverhead else 8 + size

/-- The part of `read_block` behind the reads: `raw` are the bytes of the block on disk. -/
def openBlock (crypto : Option DeviceKeyManager) (raw : List UInt8) (size bufLen : ℕ) :
    Except StorageError (List UInt8) := do
  let envelope ← if crypto.isSome then decrypt env raw else .ok raw
  if envelope.length < 8 then .error .checksumFailed
  else
    let storedCrc := Bytes.ofLe (envelope.take 4)
    let storedLen := Bytes.ofLe ((envelope.drop 4).take 4)
    if storedLen ≠ size then .error .checksumFailed
    else decompressAndVerify env ((envelope.drop 8).take size) storedCrc bufLen

/-- `read_block`, into a buffer of `bufLen` bytes. -/
def readBlock (crypto : Option DeviceKeyManager) (loc : BlockLocation) (bufLen : ℕ) :
    Except StorageError (List UInt8) := do
  let size := onDiskSize crypto loc.size
  let raw ← readSectors env disk (loc.offset / sectorSize) (divCeil size sectorSize)
  openBlock env crypto (raw.take size) loc.size bufLen

/-- The buffer `verify_block_crc` allocates for a block with payload size `size`. -/
def verifyBufSize (size : ℕ) : ℕ := size * 256 + 4096

/-- Can the block be read into the buffer of `verify_block_crc`? -/
def readsBack (crypto : Option DeviceKeyManager) (loc : BlockLocation) : Bool :=
  (readBlock env disk crypto loc (verifyBufSize loc.size)).isOk

def readBlockByHash (e : Engine) (hash : ContentHash) (bufLen : ℕ) :
    Except StorageError (List UInt8) :=
  match e.memtable.get hash with
  | none => .error .blockNotFound
  | some entry => readBlock env disk e.crypto entry.location bufLen

end Reading

section Writing

variable (env : Env)

def writeSector {σ : Type} (i : ℕ) (b : Sector sectorSize) :
    Prog sectorSize σ StorageError Unit :=
  Prog.writeSector env.capacity .ioError i b

/-- `write_superblock`: the block is written in eight sectors. -/
def writeSuperblock {σ : Type} (sb : Superblock) : Prog sectorSize σ StorageError Unit :=
  Prog.writeAll env.capacity .ioError (numbered 0 (sectorsOf sectorSize sb.encode))

/-- `Wal::write_entry`: the sector is read, patched and written back. -/
def writeEntry (index : ℕ) (entry : WalEntry) : EngineM Unit := do
  let e ← Prog.get
  let disk ← Prog.disk
  let _ ← Prog.ofExcept (readSector env disk (e.wal.place index).1)
  writeSector env (e.wal.place index).1
    ((disk (e.wal.place index).1).patch (e.wal.place index).2 entry.encode)

/-- `Wal::append`: the index of the new entry. -/
def walAppend (blockId : ContentHash) (dataOffset dataSize : ℕ) : EngineM ℕ := do
  let e ← Prog.get
  if e.wal.capacityEntries ≤ e.wal.head - e.wal.tail then Prog.throw .walFull
  else
    let entry := (WalEntry.new e.wal.nextSequence blockId dataOffset dataSize 0).sealed
    writeEntry env e.wal.head entry
    Prog.modify fun e =>
      { e with wal := { e.wal with head := e.wal.head + 1, nextSequence := e.wal.nextSequence + 1 } }
    return e.wal.head

def commitAt (index : ℕ) : EngineM Unit := do
  let e ← Prog.get
  let disk ← Prog.disk
  let entry ← Prog.ofExcept (readEntry env disk e.wal index)
  writeEntry env index { entry with committed := 1 }.sealed

/-- The scan of `Wal::commit` over the indices from the tail on. -/
def commitScan (sequenceNumber : ℕ) : List ℕ → EngineM Unit
  | [] => Prog.throw .ioError
  | index :: rest => do
    let e ← Prog.get
    let disk ← Prog.disk
    let entry ← Prog.ofExcept (readEntry env disk e.wal index)
    if entry.sequenceNumber = sequenceNumber then
      writeEntry env index { entry with committed := 1 }.sealed
    else commitScan sequenceNumber rest

/-- `Wal::commit`. -/
def walCommit (sequenceNumber : ℕ) : EngineM Unit := do
  let e ← Prog.get
  commitScan env sequenceNumber (List.range' e.wal.tail (e.wal.head - e.wal.tail))

/-- `DeviceKeyManager::encrypt`; the sealed string is noted. -/
def encrypt (k : DeviceKeyManager) (plaintext : List UInt8) : EngineM (List UInt8) := do
  Prog.modify fun e => { e with crypto := some k.advance }
  match env.encrypt k.nonce plaintext with
  | none => Prog.throw .ioError
  | some c =>
    Prog.note (k.nonce ++ c)
    return k.nonce ++ c

/-- The superblock `flush_superblock` writes. -/
def flushed (e : Engine) : Superblock :=
  Superblock.sealed
    { e.superblock with
      dataNextSector := e.dataNextSector
      walHead := e.wal.head
      walTail := e.wal.tail
      freeDataSectors := e.superblock.totalSectors - e.dataNextSector
      nonceCounter := (e.crypto.map (·.nonceCounter)).getD e.superblock.nonceCounter }

def flushSuperblock : EngineM Unit := do
  Prog.modify fun e => { e with superblock := flushed e }
  let e ← Prog.get
  writeSuperblock env e.superblock

def payloadOf (data : List UInt8) : ℕ × List UInt8 :=
  if (env.compress data).length < data.length * 9 / 10 then (1, env.compress data) else (0, data)

def wrappedLen (data : List UInt8) : ℕ := compressionHeaderSize + (payloadOf env data).2.length

def envelope (data : List UInt8) : List UInt8 :=
  Bytes.le 4 (crc32c data) ++ Bytes.le 4 (wrappedLen env data) ++
    Bytes.le 1 (payloadOf env data).1 ++ Bytes.le 4 data.length ++ (payloadOf env data).2

/-- What `write_block` puts on disk: with a key, the sealed envelope, once the superblock
with the advanced counter is written. -/
def sealData (crypto : Option DeviceKeyManager) (plaintext : List UInt8) :
    EngineM (List UInt8) :=
  match crypto with
  | some k => do
    let encrypted ← encrypt env k plaintext
    flushSuperblock env
    return encrypted
  | none => return plaintext

/-- The end of `write_block`: the append pointer moves and the block is indexed. -/
def indexBlock (hash : ContentHash) (location : BlockLocation) (sectorsNeeded : ℕ) :
    EngineM (ContentHash × BlockLocation) := do
  Prog.modify fun e => { e with dataNextSector := e.dataNextSector + sectorsNeeded }
  let e ← Prog.get
  match e.memtable.insert hash location with
  | .error _ => Prog.throw .memTableFull
  | .ok t =>
    Prog.modify fun e => { e with memtable := t }
    return (hash, location)

/-- The part of `write_block` behind the checks: log, seal, write, commit, index. -/
def writeNew (data : List UInt8) : EngineM (ContentHash × BlockLocation) := do
  let e ← Prog.get
  let byteOffset := e.dataNextSector * sectorSize
  let walIndex ← walAppend env (env.sha256 data) byteOffset (wrappedLen env data)
  let writeData ← sealData env e.crypto (envelope env data)
  Prog.writeAll env.capacity .ioError
    (numbered e.dataNextSector (sectorsOf sectorSize writeData))
  commitAt env walIndex
  indexBlock (env.sha256 data) ⟨byteOffset, wrappedLen env data, .hot⟩
    (divCeil (onDiskSize e.crypto (wrappedLen env data)) sectorSize)

def writeBlock (data : List UInt8) : EngineM (ContentHash × BlockLocation) := do
  if data.isEmpty then Prog.throw .ioError
  else
    let e ← Prog.get
    match e.memtable.get (env.sha256 data) with
    | some entry =>
      Prog.modify fun e => { e with memtable := e.memtable.bump (env.sha256 data) }
      return (env.sha256 data, entry.location)
    | none =>
      let sectorsNeeded := divCeil (onDiskSize e.crypto (wrappedLen env data)) sectorSize
      if e.superblock.totalSectors < e.dataNextSector + sectorsNeeded then
        Prog.throw .deviceFull
      else if 2 ^ 32 ≤ wrappedLen env data then Prog.throw .ioError
      else writeNew env data

/-- `dec_ref`: whether the block was freed. -/
def decRef (e : Engine) (hash : ContentHash) : Except StorageError Bool × Engine :=
  match e.memtable.decRef hash with
  | (some (_, freed), t) => (.ok freed, { e with memtable := t })
  | (none, _) => (.error .blockNotFound, e)

/-- Where a logged block ends, as `recover` computes it. -/
def entryEnd (crypto : Option DeviceKeyManager) (entry : WalEntry) : ℕ :=
  entry.dataOffset / sectorSize + divCeil (onDiskSize crypto entry.dataSize) sectorSize

def maxAllocation : ℕ := 2 ^ 10 * 4096

/-- `verify_block_crc`; the kernel panics when the heap cannot give the buffer. -/
def verifyBlockCrc (crypto : Option DeviceKeyManager) (loc : BlockLocation) : EngineM Bool := do
  if maxAllocation < verifyBufSize loc.size then Prog.halt
  else
    let disk ← Prog.disk
    return readsBack env disk crypto loc

/-- The test of `recover` on an uncommitted entry. -/
def salvageable (crypto : Option DeviceKeyManager) (loc : BlockLocation) : EngineM Bool :=
  if 0 < loc.size then verifyBlockCrc env crypto loc else pure false

/-- The loop of `recover` over the log; it returns the entries replayed and the end of the
last block seen. -/
def recoverLoop : List ℕ → ℕ → ℕ → EngineM (ℕ × ℕ)
  | [], replayed, maxSector => return (replayed, maxSector)
  | idx :: rest, replayed, maxSector => do
    let e ← Prog.get
    let disk ← Prog.disk
    match readEntry env disk e.wal idx with
    | .error _ => recoverLoop rest replayed maxSector
    | .ok entry =>
      if !entry.isValid then recoverLoop rest replayed maxSector
      else
        let location : BlockLocation := ⟨entry.dataOffset, entry.dataSize, .hot⟩
        let maxSector' := max maxSector (entryEnd e.crypto entry)
        if entry.committed = 1 then
          match e.memtable.insert entry.blockId location with
          | .ok t =>
            Prog.modify fun e => { e with memtable := t }
            recoverLoop rest (replayed + 1) maxSector'
          | .error _ => return (replayed, maxSector)
        else
          let salvaged ← salvageable env e.crypto location
          if salvaged then
            match e.memtable.insert entry.blockId location with
            | .ok t =>
              Prog.modify fun e => { e with memtable := t }
              Prog.ignoreErr (walCommit env entry.sequenceNumber)
              recoverLoop rest (replayed + 1) maxSector'
            | .error _ => return (replayed, maxSector)
          else recoverLoop rest replayed maxSector'

def recover : EngineM ℕ := do
  let e ← Prog.get
  let (replayed, maxSector) ← recoverLoop env
    (List.range' e.wal.tail (e.wal.head - e.wal.tail)) 0 e.dataNextSector
  Prog.modify fun e => { e with dataNextSector := max e.dataNextSector maxSector }
  return replayed

def fromSuperblock (sb : Superblock) (wal : Wal) (dataNext : ℕ) : Engine where
  superblock := sb
  wal := wal
  memtable := MemTable.withDefaultCapacity
  crypto := if 0 < sb.encryptionEpoch then
      some (DeviceKeyManager.fromPassphrase sb.nonceCounter sb.nonceRandomPrefix)
    else none
  dataNextSector := dataNext

/-- `BlockEngine::init`; `tick` is the tick counter read when a disk is formatted. -/
def init (tick : ℕ) : Prog sectorSize Unit StorageError Engine := do
  if env.capacity = 0 then Prog.throw .deviceNotFound
  else
    let disk ← Prog.disk
    match ← Prog.ofExcept (readSuperblock env disk) with
    | some sb =>
      let wal : Wal := ⟨sb.walStartSector, sb.walSizeSectors, sb.walHead, sb.walTail, sb.walHead + 1⟩
      let (_, engine) ← Prog.runFrom (fromSuperblock sb wal sb.dataNextSector) (recover env)
      return engine
    | none =>
      let sb := Superblock.format env.capacity tick
      writeSuperblock env sb
      return fromSuperblock sb (Wal.new sb.walStartSector sb.walSizeSectors) sb.dataStartSector

end Writing

end Aios.Storage
