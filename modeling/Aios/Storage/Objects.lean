import Aios.Lib.Slots
import Aios.Lib.Fallible
import Aios.Storage.Blocks

/-!
Objects, versions and spaces: `kernel/src/storage/{object_store,version_store,space}.rs` and their
records and tables in `shared/src/storage.rs`.

An object is a record in an index that is kept in memory. Its contents are blocks; every change
writes a version node, which is a block as well and points to the node before it. An operation
holds the lock of the engine from beginning to end. What it wrote before it failed stays.
-/

namespace Aios.Storage

open Aios.Lib Function Bytes

def maxObjectNameLen : ℕ := 64
def maxAuthorLen : ℕ := 32
def maxSpaces : ℕ := 16
def maxSpaceNameLen : ℕ := 32
def maxVersionMessageLen : ℕ := 64
def objectIndexMaxEntries : ℕ := 16384
def maxTextContentLen : ℕ := 128
/-- `max_depth` of the walks along the versions of an object. -/
def maxDepth : ℕ := 1024

instance : NeZero maxSpaces := ⟨by decide⟩

abbrev ObjectId := ByteArr 16
abbrev SpaceId := ByteArr 16
abbrev Timestamp := UInt64

inductive ContentType
  | directory | document | text | code | markdown | json | xml | image | video | audio | config
  | credential | executable | gameSave | cacheEntry | sessionToken | cookie | binary
  deriving DecidableEq, Repr

inductive SecurityZone
  | core | personal | collaborative | untrusted | ephemeral
  deriving DecidableEq, Repr

namespace ContentHash

def zero : ContentHash := ⟨List.replicate 32 0, rfl⟩

def isZero (h : ContentHash) : Bool := h == zero

end ContentHash

/-! ### Version nodes -/

structure Version where
  hash : ContentHash
  parent : ContentHash
  mergeParent : ContentHash
  contentHash : ContentHash
  objectId : ObjectId
  author : ByteArr maxAuthorLen
  message : ByteArr maxVersionMessageLen
  timestamp : Timestamp
  contentSize : UInt32
  messageLen : UInt8
  padding : ByteArr 3
  deriving DecidableEq

namespace Version

def size : ℕ := 256

def fields (v : Version) : List (List UInt8) :=
  [v.hash.bytes, v.parent.bytes, v.mergeParent.bytes, v.contentHash.bytes, v.objectId.bytes,
    v.author.bytes, v.message.bytes, Bytes.le 8 v.timestamp.toNat, Bytes.le 4 v.contentSize.toNat,
    Bytes.le 1 v.messageLen.toNat, v.padding.bytes]

def encode (v : Version) : List UInt8 := v.fields.flatten

def decode (l : List UInt8) : Version :=
  let f := Bytes.cut [32, 32, 32, 32, 16, 32, 64, 8, 4, 1, 3] l
  { hash := ContentHash.ofBytes (f.getD 0 [])
    parent := ContentHash.ofBytes (f.getD 1 [])
    mergeParent := ContentHash.ofBytes (f.getD 2 [])
    contentHash := ContentHash.ofBytes (f.getD 3 [])
    objectId := ByteArr.ofBytes 16 (f.getD 4 [])
    author := ByteArr.ofBytes maxAuthorLen (f.getD 5 [])
    message := ByteArr.ofBytes maxVersionMessageLen (f.getD 6 [])
    timestamp := UInt64.ofNat (Bytes.ofLe (f.getD 7 []))
    contentSize := UInt32.ofNat (Bytes.ofLe (f.getD 8 []))
    messageLen := UInt8.ofNat (Bytes.ofLe (f.getD 9 []))
    padding := ByteArr.ofBytes 3 (f.getD 10 []) }

lemma length_encode (v : Version) : v.encode.length = size := by
  simp [encode, fields, v.hash.length_bytes, v.parent.length_bytes, v.mergeParent.length_bytes,
    v.contentHash.length_bytes, v.objectId.length_bytes, v.author.length_bytes,
    v.message.length_bytes, v.padding.length_bytes, maxAuthorLen, maxVersionMessageLen, size]

lemma decode_encode (v : Version) : decode v.encode = v := by
  have hcut : Bytes.cut [32, 32, 32, 32, 16, 32, 64, 8, 4, 1, 3] v.encode = v.fields := by
    have := cut_flatten v.fields []
    simpa [fields, encode, v.hash.length_bytes, v.parent.length_bytes, v.mergeParent.length_bytes,
      v.contentHash.length_bytes, v.objectId.length_bytes, v.author.length_bytes,
      v.message.length_bytes, v.padding.length_bytes, maxAuthorLen, maxVersionMessageLen] using this
  unfold decode
  rw [hcut]
  have h8 := ofLe_le (n := 8) (v := v.timestamp.toNat) (by have := v.timestamp.toNat_lt; omega)
  have h4 := ofLe_le (n := 4) (v := v.contentSize.toNat) (by have := v.contentSize.toNat_lt; omega)
  have h1 := ofLe_le (n := 1) (v := v.messageLen.toNat) (by have := v.messageLen.toNat_lt; omega)
  simp [fields, h8, h4, h1, ContentHash.ofBytes_bytes, ByteArr.ofBytes_bytes]

lemma encode_injective : Injective encode :=
  Function.LeftInverse.injective decode_encode

end Version

/-! ### Objects and spaces -/

/-- `CompactObject`; the creator and the last modifier are not set by any operation. -/
structure CompactObject where
  id : ObjectId
  spaceId : SpaceId
  name : ByteBuf maxObjectNameLen
  contentHash : ContentHash
  versionHead : ContentHash
  textContent : ByteBuf maxTextContentLen
  createdAt : Timestamp
  modifiedAt : Timestamp
  contentSize : UInt32
  contentType : ContentType
  deriving DecidableEq

structure SpaceQuota where
  maxBytes : UInt64
  maxObjects : UInt32
  deriving DecidableEq

def SpaceQuota.unlimited : SpaceQuota := ⟨UInt64.ofNat (2 ^ 64 - 1), UInt32.ofNat (2 ^ 32 - 1)⟩

/-- `Space`; its parent is not set by any operation. -/
structure Space where
  id : SpaceId
  name : ByteBuf maxSpaceNameLen
  createdAt : Timestamp
  modifiedAt : Timestamp
  quotaMaxBytes : UInt64
  totalSize : ℕ
  objectCount : ℕ
  quotaMaxObjects : UInt32
  securityZone : SecurityZone
  deriving DecidableEq

/-- `would_exceed_quota`; the sum saturates. -/
def Space.wouldExceedQuota (s : Space) (bytes : ℕ) : Bool :=
  decide (s.quotaMaxObjects.toNat ≤ s.objectCount) ||
    decide (s.quotaMaxBytes.toNat < min (s.totalSize + bytes) (2 ^ 64 - 1))

abbrev SpaceTable := Slots maxSpaces Space

namespace SpaceTable

def index (t : SpaceTable) (id : SpaceId) : Option (Fin maxSpaces) :=
  (List.finRange maxSpaces).find? fun k => (t k).any (·.id == id)

def get (t : SpaceTable) (id : SpaceId) : Option Space := (index t id).bind t

def modify (t : SpaceTable) (id : SpaceId) (f : Space → Space) : SpaceTable :=
  match index t id with
  | some k => update t k ((t k).map f)
  | none => t

def findByName (t : SpaceTable) (name : List UInt8) : Option Space :=
  t.items.find? fun s => s.name.bytes == name

end SpaceTable

abbrev ObjectIndex := SortedTable ObjectId CompactObject

namespace ObjectIndex

def add (t : ObjectIndex) (obj : CompactObject) : Except StorageError ObjectIndex :=
  if objectIndexMaxEntries ≤ t.size then .error .memTableFull
  else if (t.get obj.id).isSome then .error .nameExists
  else .ok (t.insert obj.id obj)

def findByName (t : ObjectIndex) (spaceId : SpaceId) (name : List UInt8) : Option ObjectId :=
  (t.entries.find? fun e => e.2.spaceId == spaceId && e.2.name.bytes == name).map (·.1)

end ObjectIndex

structure Store where
  blocks : Blocks
  objects : ObjectIndex
  spaces : SpaceTable
  /-- `OBJECT_ID_COUNTER`. -/
  objectCounter : ℕ
  /-- `SPACE_ID_COUNTER`. -/
  spaceCounter : ℕ

/-- What a call meets outside: two readings of `TICK_COUNT`, for the id and for the timestamps,
and the device. -/
structure Outside where
  idTick : UInt64
  tick : UInt64
  device : Device.Answer

abbrev StoreM := EStateM StorageError Store

namespace Store

def start : Store := ⟨Blocks.start, SortedTable.empty, Slots.empty, 1, 1⟩

def onBlocks {α : Type} (f : Blocks → Except StorageError α × Blocks) : StoreM α := fun s =>
  match f s.blocks with
  | (.ok a, b) => .ok a { s with blocks := b }
  | (.error er, b) => .error er { s with blocks := b }

def idOf (tick : UInt64) (counter : ℕ) : ByteArr 16 :=
  ⟨Bytes.le 8 tick.toNat ++ Bytes.le 8 counter, by simp⟩

def generateObjectId (tick : UInt64) : StoreM ObjectId := fun s =>
  .ok (idOf tick s.objectCounter) { s with objectCounter := s.objectCounter + 1 }

def generateSpaceId (tick : UInt64) : StoreM SpaceId := fun s =>
  .ok (idOf tick s.spaceCounter) { s with spaceCounter := s.spaceCounter + 1 }

def getObject (id : ObjectId) : StoreM CompactObject := do
  match (← get).objects.get id with
  | some obj => return obj
  | none => throw .objectNotFound

section Operations

variable (sha256 : List UInt8 → ContentHash)

def computeVersionHash (parent contentHash : ContentHash) (timestamp : Timestamp)
    (objectId : ObjectId) : ContentHash :=
  sha256 (parent.bytes ++ contentHash.bytes ++ Bytes.le 8 timestamp.toNat ++ objectId.bytes)

/-- The node that an operation builds from `Version::ZERO`. -/
def newVersion (parent contentHash : ContentHash) (contentSize : UInt32) (objectId : ObjectId)
    (now : Timestamp) (author message : List UInt8) : Version where
  hash := computeVersionHash sha256 parent contentHash now objectId
  parent := parent
  mergeParent := ContentHash.zero
  contentHash := contentHash
  objectId := objectId
  author := ByteArr.ofBytes maxAuthorLen author
  message := ByteArr.ofBytes maxVersionMessageLen message
  timestamp := now
  contentSize := contentSize
  messageLen := UInt8.ofNat (min message.length maxVersionMessageLen)
  padding := ByteArr.ofBytes 3 []

/-- Does `object_create` keep the beginning of the contents for the text index? -/
def isText : ContentType → Bool
  | .text | .code | .markdown | .json => true
  | _ => false

/-- The quota check of `object_create`. -/
def checkQuota (spaceId : SpaceId) (bytes : ℕ) : StoreM Unit := do
  match SpaceTable.get (← get).spaces spaceId with
  | none => throw .spaceNotFound
  | some space => if space.wouldExceedQuota bytes then throw .quotaExceeded

def insertObject (obj : CompactObject) : StoreM Unit := fun s =>
  match ObjectIndex.add s.objects obj with
  | .ok t => .ok () { s with objects := t }
  | .error er => .error er s

/-- `space_table_mut().get_mut(..)` with an update of the space. -/
def modifySpace (spaceId : SpaceId) (f : Space → Space) : StoreM Unit :=
  modify fun s => { s with spaces := SpaceTable.modify s.spaces spaceId f }

def createdVersion (o : Outside) (id : ObjectId) (contentHash : ContentHash)
    (content : List UInt8) : Version :=
  newVersion sha256 ContentHash.zero contentHash (UInt32.ofNat content.length) id o.tick []
    (Bytes.ascii ['c', 'r', 'e', 'a', 't', 'e', 'd'])

def createdObject (o : Outside) (id : ObjectId) (spaceId : SpaceId) (name content : List UInt8)
    (contentType : ContentType) (contentHash blockHash : ContentHash) : CompactObject where
  id := id
  spaceId := spaceId
  name := ByteBuf.ofBytes maxObjectNameLen name
  contentHash := contentHash
  versionHead := blockHash
  textContent := ByteBuf.ofBytes maxTextContentLen (if isText contentType then content else [])
  createdAt := o.tick
  modifiedAt := o.tick
  contentSize := UInt32.ofNat content.length
  contentType := contentType

def charge (bytes : ℕ) (space : Space) : Space :=
  { space with
    objectCount := (space.objectCount + 1) % 2 ^ 32
    totalSize := (space.totalSize + bytes) % 2 ^ 64 }

def refund (bytes : ℕ) (space : Space) : Space :=
  { space with
    objectCount := space.objectCount - 1
    totalSize := space.totalSize - bytes }

def objectCreate (o : Outside) (spaceId : SpaceId) (name content : List UInt8)
    (contentType : ContentType) : StoreM (ObjectId × ContentHash) := do
  checkQuota spaceId content.length
  let (contentHash, _) ← onBlocks (Blocks.writeBlock sha256 o.device content)
  let id ← generateObjectId o.idTick
  let version := createdVersion sha256 o id contentHash content
  let (blockHash, _) ← onBlocks (Blocks.writeBlock sha256 o.device version.encode)
  insertObject (createdObject o id spaceId name content contentType contentHash blockHash)
  modifySpace spaceId (charge content.length)
  return (id, contentHash)

/-- `object_read`, into a buffer of `bufLen` bytes. -/
def objectRead (s : Store) (id : ObjectId) (bufLen : ℕ) :
    Except StorageError (CompactObject × List UInt8) :=
  match s.objects.get id with
  | none => .error .objectNotFound
  | some obj => (s.blocks.readBlockByHash obj.contentHash bufLen).map fun l => (obj, l)

def readVersion (b : Blocks) (hash : ContentHash) : Except StorageError (Option Version) :=
  if hash.isZero then .ok none
  else
    match b.readBlockByHash hash Version.size with
    | .error .blockNotFound => .ok none
    | .error er => .error er
    | .ok l => .ok (if l.length = Version.size then some (Version.decode l) else none)

/-- The walk of `object_delete`: the content and the node of every version are released. -/
def releaseChain : ℕ → ContentHash → Blocks → Blocks
  | 0, _, b => b
  | n + 1, hash, b =>
    match readVersion b hash with
    | .ok (some v) => releaseChain n v.parent ((b.decRef v.contentHash).2.decRef hash).2
    | _ => b

def objectDelete (id : ObjectId) : StoreM Unit := do
  let obj ← getObject id
  modify fun s => { s with objects := s.objects.erase id }
  modify fun s => { s with blocks := releaseChain maxDepth obj.versionHead s.blocks }
  modifySpace obj.spaceId (refund obj.contentSize.toNat)

/-- The walk of `version_rollback` to the version with a given logical hash. -/
def findVersion (b : Blocks) (objectId : ObjectId) (target : ContentHash) :
    ℕ → ContentHash → Except StorageError (Option Version)
  | 0, _ => .ok none
  | n + 1, hash =>
    match readVersion b hash with
    | .error er => .error er
    | .ok none => .ok none
    | .ok (some v) =>
      if v.hash = target ∧ v.objectId = objectId then .ok (some v)
      else findVersion b objectId target n v.parent

def rollbackTarget (s : Store) (id : ObjectId) (head target : ContentHash) :
    Except StorageError Version :=
  match findVersion s.blocks id target maxDepth head with
  | .error er => .error er
  | .ok none => .error .versionNotFound
  | .ok (some v) => .ok v

def advance (head : ContentHash) (v : Version) (obj : CompactObject) :
    CompactObject :=
  { obj with
    versionHead := head
    contentHash := v.contentHash
    contentSize := v.contentSize
    modifiedAt := v.timestamp }

def setVersion (id : ObjectId) (head : ContentHash) (v : Version) : StoreM Unit :=
  modify fun s => { s with objects := s.objects.adjust id (advance head v) }

def rollbackVersion (o : Outside) (id : ObjectId) (head : ContentHash) (old : Version) : Version :=
  newVersion sha256 head old.contentHash old.contentSize id o.tick []
    (Bytes.ascii ['r', 'o', 'l', 'l', 'b', 'a', 'c', 'k'])

def versionRollback (o : Outside) (id : ObjectId) (target : ContentHash) : StoreM ContentHash := do
  let obj ← getObject id
  match rollbackTarget (← get) id obj.versionHead target with
  | .error er => throw er
  | .ok old =>
    let version := rollbackVersion sha256 o id obj.versionHead old
    let (blockHash, _) ← onBlocks (Blocks.writeBlock sha256 o.device version.encode)
    onBlocks (Blocks.incRef old.contentHash)
    setVersion id blockHash version
    return version.hash

def objectUpdate (o : Outside) (id : ObjectId) (content author message : List UInt8) :
    StoreM ContentHash := do
  let obj ← getObject id
  let (newHash, _) ← onBlocks (Blocks.writeBlock sha256 o.device content)
  let version := newVersion sha256 obj.versionHead newHash (UInt32.ofNat content.length) id o.tick
    author message
  let (blockHash, _) ← onBlocks (Blocks.writeBlock sha256 o.device version.encode)
  setVersion id blockHash version
  return newHash

end Operations

def spaceCreate (o : Outside) (name : List UInt8) (zone : SecurityZone) (quota : SpaceQuota) :
    StoreM SpaceId := do
  let id ← generateSpaceId o.idTick
  let s ← get
  match s.spaces.firstFree with
  | none => throw .quotaExceeded
  | some k =>
    set { s with spaces := update s.spaces k (some
      { id := id
        name := ByteBuf.ofBytes maxSpaceNameLen name
        createdAt := o.tick
        modifiedAt := o.tick
        quotaMaxBytes := quota.maxBytes
        totalSize := 0
        objectCount := 0
        quotaMaxObjects := quota.maxObjects
        securityZone := zone }) }
    return id

/-! ### The machine -/

inductive Act
  | spaceCreate (o : Outside) (name : List UInt8) (zone : SecurityZone) (quota : SpaceQuota)
  | objectCreate (o : Outside) (spaceId : SpaceId) (name content : List UInt8)
    (contentType : ContentType)
  | objectUpdate (o : Outside) (id : ObjectId) (content author message : List UInt8)
  | versionRollback (o : Outside) (id : ObjectId) (target : ContentHash)
  | objectDelete (id : ObjectId)

def call (sha256 : List UInt8 → ContentHash) : Act → StoreM Unit
  | .spaceCreate o name zone quota => do
    let _ ← spaceCreate o name zone quota
  | .objectCreate o spaceId name content contentType => do
    let _ ← objectCreate sha256 o spaceId name content contentType
  | .objectUpdate o id content author message => do
    let _ ← objectUpdate sha256 o id content author message
  | .versionRollback o id target => do
    let _ ← versionRollback sha256 o id target
  | .objectDelete id => objectDelete id

def next (sha256 : List UInt8 → ContentHash) (s : Store) (a : Act) : Store :=
  Fallible.state (call sha256 a s)

def succeeds (sha256 : List UInt8 → ContentHash) (s : Store) (a : Act) : Bool :=
  Fallible.isOk (call sha256 a s)

end Store

end Aios.Storage
