import Aios.Storage.ObjectSpec

/-!
Files by path: `kernel/src/storage/posix_bridge.rs`.

A path is split into a space and the name of an object in it. Descriptors point to objects and
carry an offset; a read takes a range of the object's contents, and a write stores the whole
contents again. An operation that fails keeps what it did before, so that `open` can leave an
object behind when no descriptor is free.
-/

namespace Aios.Storage

open Aios.Lib

def maxFds : ℕ := 256

instance : NeZero maxFds := ⟨by decide⟩

/-! ### Flags of `open` -/

def oRdonly : UInt32 := 0
def oWronly : UInt32 := 1
def oRdwr : UInt32 := 2
def oCreat : UInt32 := 0x40
def oAppend : UInt32 := 0x400

def accessMode (flags : UInt32) : UInt32 := flags &&& 3

def isCreat (flags : UInt32) : Bool := flags &&& oCreat != 0

def isAppend (flags : UInt32) : Bool := flags &&& oAppend != 0

/-! ### Paths -/

def slash : UInt8 := 47

/-- `contains_traversal`: is a component of the path `.` or `..`? -/
def containsTraversal (path : List UInt8) : Bool :=
  (path.splitOn slash).any fun c => c == Bytes.ascii ['.'] || c == Bytes.ascii ['.', '.']

def findSpaceByName (spaces : SpaceTable) (name : List UInt8) : Except StorageError SpaceId :=
  match SpaceTable.findByName spaces name with
  | some space => .ok space.id
  | none => .error .spaceNotFound

/-- The loop of `split_first_component`: the first slash behind the name of a space. -/
def splitSpace (spaces : SpaceTable) :
    List UInt8 → List UInt8 → Option (List UInt8 × List UInt8)
  | _, [] => none
  | scanned, c :: rest =>
    if c = slash ∧ (SpaceTable.findByName spaces scanned).isSome then some (scanned, rest)
    else splitSpace spaces (scanned ++ [c]) rest

def splitFirstComponent (spaces : SpaceTable) (path : List UInt8) : List UInt8 × List UInt8 :=
  (splitSpace spaces [] path).getD (path, [])

def stripSlash : List UInt8 → List UInt8
  | [] => []
  | c :: rest => if c = slash then rest else c :: rest

/-- `resolve_path`, for a path without its leading slash: the name of the space, and the name in
it. -/
def splitPath (spaces : SpaceTable) (path : List UInt8) :
    Except StorageError (List UInt8 × List UInt8) :=
  if containsTraversal path then .error .spaceNotFound
  else if (Bytes.ascii ['s', 'p', 'a', 'c', 'e', 's', '/']).isPrefixOf path then
    .ok (splitFirstComponent spaces (path.drop 7))
  else if (Bytes.ascii ['h', 'o', 'm', 'e', '/', 'u', 's', 'e', 'r', '/']).isPrefixOf path then
    .ok (Bytes.ascii ['u', 's', 'e', 'r', '/', 'h', 'o', 'm', 'e'], path.drop 10)
  else if (Bytes.ascii ['h', 'o', 'm', 'e', '/', 'u', 's', 'e', 'r']).isPrefixOf path &&
      path.length == 9 then
    .ok (Bytes.ascii ['u', 's', 'e', 'r', '/', 'h', 'o', 'm', 'e'], [])
  else if (Bytes.ascii ['t', 'm', 'p', '/']).isPrefixOf path then
    .ok (Bytes.ascii ['e', 'p', 'h', 'e', 'm', 'e', 'r', 'a', 'l'], path.drop 4)
  else if path == Bytes.ascii ['t', 'm', 'p'] then
    .ok (Bytes.ascii ['e', 'p', 'h', 'e', 'm', 'e', 'r', 'a', 'l'], [])
  else .error .spaceNotFound

def resolvePath (spaces : SpaceTable) (path : List UInt8) :
    Except StorageError (SpaceId × List UInt8) := do
  let (space, name) ← splitPath spaces (stripSlash path)
  let id ← findSpaceByName spaces space
  return (id, name)

/-! ### The bridge -/

structure FdEntry where
  spaceId : SpaceId
  objectId : ObjectId
  offset : ℕ
  flags : UInt32
  isDirectory : Bool
  deriving DecidableEq

/-- `PosixSpaceBridge`. -/
structure Bridge where
  fdTable : Slots maxFds FdEntry
  nextFd : ℕ

structure Posix where
  store : Store
  bridge : Bridge

structure PosixStat where
  size : ℕ
  mode : ℕ
  modified : Timestamp
  nlink : ℕ
  deriving DecidableEq

abbrev PosixM := EStateM StorageError Posix

namespace Bridge

def new : Bridge := ⟨Slots.empty, 0⟩

def entry (b : Bridge) (fd : ℕ) : Option FdEntry :=
  if h : fd < maxFds then b.fdTable ⟨fd, h⟩ else none

def setEntry (b : Bridge) (fd : ℕ) (e : Option FdEntry) : Bridge :=
  if h : fd < maxFds then { b with fdTable := Function.update b.fdTable ⟨fd, h⟩ e } else b

/-- The scan of `alloc_fd`, from `next_fd` on and around. -/
def freeFd (b : Bridge) : Option (Fin maxFds) :=
  ((List.range maxFds).map fun i => Fin.ofNat maxFds (b.nextFd + i)).find? fun k =>
    (b.fdTable k).isNone

end Bridge

namespace Posix

def start : Posix := ⟨Store.start, Bridge.new⟩

def onStore {α : Type} (x : StoreM α) : PosixM α := fun p =>
  match x p.store with
  | .ok a s => .ok a { p with store := s }
  | .error er s => .error er { p with store := s }

def result {α : Type} (r : Except StorageError α) : PosixM α := fun p =>
  match r with
  | .ok a => .ok a p
  | .error er => .error er p

def allocFd : PosixM ℕ := fun p =>
  match p.bridge.freeFd with
  | some k => .ok k.val { p with bridge := { p.bridge with nextFd := (k.val + 1) % maxFds } }
  | none => .error .fdTableFull p

def setFd (fd : ℕ) (e : Option FdEntry) : PosixM Unit :=
  modify fun p => { p with bridge := p.bridge.setEntry fd e }

/-- `get` in the object index, of an id that was found there. -/
def indexed (s : Store) (id : ObjectId) : Except StorageError CompactObject :=
  match s.objects.get id with
  | some obj => .ok obj
  | none => .error .objectNotFound

section Operations

variable (sha256 : List UInt8 → ContentHash)

def sentinel : List UInt8 := [0]

/-- The object that `open` opens or creates, and whether it is a directory. -/
def openTarget (o : Outside) (spaceId : SpaceId) (objName : List UInt8) (flags : UInt32) :
    PosixM (ObjectId × Bool) := do
  let p ← get
  match ObjectIndex.findByName p.store.objects spaceId objName with
  | some id =>
    let obj ← result (indexed p.store id)
    return (id, obj.contentType == .directory)
  | none =>
    if isCreat flags then
      let (id, _) ← onStore (Store.objectCreate sha256 o spaceId objName sentinel .text)
      return (id, false)
    else throw .objectNotFound

def openFile (o : Outside) (path : List UInt8) (flags : UInt32) : PosixM ℕ := do
  let (spaceId, objName) ← result (resolvePath (← get).store.spaces path)
  let (objectId, isDir) ← openTarget sha256 o spaceId objName flags
  let fd ← allocFd
  setFd fd (some ⟨spaceId, objectId, 0, flags, isDir⟩)
  return fd

def bufferSize : ℕ := 4096

/-- `read`, into a buffer of `bufLen` bytes: the bytes copied to it. -/
def read (fd bufLen : ℕ) : PosixM (List UInt8) := do
  let p ← get
  match p.bridge.entry fd with
  | none => throw .invalidFd
  | some entry =>
    if accessMode entry.flags = oWronly then throw .ioError
    else
      let (_, full) ← result (Store.objectRead p.store entry.objectId bufferSize)
      if full.length ≤ entry.offset then return []
      else
        let copied := (full.drop entry.offset).take bufLen
        setFd fd (some { entry with offset := entry.offset + copied.length })
        return copied

/-- The contents that `write` starts from. -/
def currentContents (s : Store) (id : ObjectId) : Except StorageError (List UInt8) :=
  match Store.objectRead s id bufferSize with
  | .ok (_, l) => .ok l
  | .error .objectNotFound => .ok []
  | .error er => .error er

/-- Where `write` writes: at the end, or at the offset if that is not behind the end. -/
def writeOffset (entry : FdEntry) (current : List UInt8) : ℕ :=
  if isAppend entry.flags then current.length else min entry.offset current.length

/-- The contents with `data` written over them at an offset. -/
def overwrite (current : List UInt8) (offset : ℕ) (data : List UInt8) : List UInt8 :=
  current.take offset ++ data ++ current.drop (offset + data.length)

/-- `write`: the number of bytes written. -/
def write (o : Outside) (fd : ℕ) (data : List UInt8) : PosixM ℕ := do
  let p ← get
  match p.bridge.entry fd with
  | none => throw .invalidFd
  | some entry =>
    if accessMode entry.flags = oRdonly then throw .ioError
    else
      let current ← result (currentContents p.store entry.objectId)
      let offset := writeOffset entry current
      if bufferSize < data.length ∨ bufferSize < offset + data.length then throw .quotaExceeded
      else
        let _ ← onStore (Store.objectUpdate sha256 o entry.objectId
          (overwrite current offset data) (Bytes.ascii ['p', 'o', 's', 'i', 'x'])
          (Bytes.ascii ['w', 'r', 'i', 't', 'e']))
        setFd fd (some { entry with offset := offset + data.length })
        return data.length

def close (fd : ℕ) : PosixM Unit := do
  match (← get).bridge.entry fd with
  | none => throw .invalidFd
  | some _ => setFd fd none

def statOf (obj : CompactObject) : PosixStat where
  size := obj.contentSize.toNat
  mode := if obj.contentType = .directory then 0o755 else 0o644
  modified := obj.modifiedAt
  nlink := 1

/-- `stat`; the root of a space is a directory without an object. -/
def stat (p : Posix) (path : List UInt8) : Except StorageError PosixStat := do
  let (spaceId, objName) ← resolvePath p.store.spaces path
  if objName.isEmpty then return ⟨0, 0o755, 0, 1⟩
  else
    match ObjectIndex.findByName p.store.objects spaceId objName with
    | none => throw .objectNotFound
    | some id => return statOf (← indexed p.store id)

def mkdir (o : Outside) (path : List UInt8) : PosixM Unit := do
  let (spaceId, dirName) ← result (resolvePath (← get).store.spaces path)
  if dirName.isEmpty then throw .ioError
  else
    match ObjectIndex.findByName (← get).store.objects spaceId dirName with
    | some _ => throw .nameExists
    | none =>
      let _ ← onStore (Store.objectCreate sha256 o spaceId dirName sentinel .directory)

def unlink (path : List UInt8) : PosixM Unit := do
  let (spaceId, objName) ← result (resolvePath (← get).store.spaces path)
  match ObjectIndex.findByName (← get).store.objects spaceId objName with
  | none => throw .objectNotFound
  | some id => onStore (Store.objectDelete id)

end Operations

/-! ### The machine -/

inductive Act
  | store (a : Store.Act)
  | openFile (o : Outside) (path : List UInt8) (flags : UInt32)
  | read (fd bufLen : ℕ)
  | write (o : Outside) (fd : ℕ) (data : List UInt8)
  | close (fd : ℕ)
  | mkdir (o : Outside) (path : List UInt8)
  | unlink (path : List UInt8)

def call (sha256 : List UInt8 → ContentHash) : Act → PosixM Unit
  | .store a => onStore (Store.call sha256 a)
  | .openFile o path flags => do
    let _ ← openFile sha256 o path flags
  | .read fd bufLen => do
    let _ ← read fd bufLen
  | .write o fd data => do
    let _ ← write sha256 o fd data
  | .close fd => close fd
  | .mkdir o path => mkdir sha256 o path
  | .unlink path => unlink path

def next (sha256 : List UInt8 → ContentHash) (p : Posix) (a : Act) : Posix :=
  Fallible.state (call sha256 a p)

end Posix

end Aios.Storage
