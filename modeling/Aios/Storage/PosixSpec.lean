import Aios.Storage.Posix

/-!
What the operations of the bridge do, and which calls of the store they make.

Each operation is described by its two ends. An operation calls the store at most once, so that
what every call of the store keeps is kept by the bridge.
-/

namespace Aios.Storage

open Aios.Lib Fallible Option

namespace Posix

variable {sha256 : List UInt8 → ContentHash} {p p' : Posix} {er : StorageError} {o : Outside}
  {path : List UInt8} {flags : UInt32} {fd : ℕ}

/-! ### Steps -/

variable {α : Type} {r : Except StorageError α} {b : Bridge}

lemma result_ok {a : α} (h : result r p = .ok a p') : r = .ok a ∧ p' = p := by
  cases r with
  | ok b => cases h; exact ⟨rfl, rfl⟩
  | error e => cases h

lemma result_error (h : result r p = .error er p') : r = .error er ∧ p' = p := by
  cases r with
  | ok b => cases h
  | error e => cases h; exact ⟨rfl, rfl⟩

lemma onStore_ok {x : StoreM α} {a : α} (h : onStore x p = .ok a p') :
    ∃ s, x p.store = .ok a s ∧ p' = { p with store := s } := by
  unfold onStore at h
  cases hx : x p.store with
  | ok b s => rw [hx] at h; cases h; exact ⟨s, rfl, rfl⟩
  | error e s => rw [hx] at h; cases h

lemma onStore_error {x : StoreM α} (h : onStore x p = .error er p') :
    ∃ s, x p.store = .error er s ∧ p' = { p with store := s } := by
  unfold onStore at h
  cases hx : x p.store with
  | ok b s => rw [hx] at h; cases h
  | error e s => rw [hx] at h; cases h; exact ⟨s, rfl, rfl⟩

lemma indexed_ok {s : Store} {id : ObjectId} {obj : CompactObject} (h : indexed s id = .ok obj) :
    s.objects.get id = some obj := by
  unfold indexed at h
  cases hg : s.objects.get id with
  | some obj' => rw [hg] at h; cases h; rfl
  | none => rw [hg] at h; cases h

lemma indexed_error {s : Store} {id : ObjectId} (h : indexed s id = .error er) :
    s.objects.get id = none := by
  unfold indexed at h
  cases hg : s.objects.get id with
  | some obj' => rw [hg] at h; cases h
  | none => rfl

lemma allocFd_ok (h : allocFd p = .ok fd p') : ∃ k, p.bridge.freeFd = some k ∧ fd = k.val ∧
    p' = { p with bridge := { p.bridge with nextFd := (k.val + 1) % maxFds } } := by
  unfold allocFd at h
  cases hk : p.bridge.freeFd with
  | some k => rw [hk] at h; cases h; exact ⟨k, rfl, rfl, rfl⟩
  | none => rw [hk] at h; cases h

lemma allocFd_error (h : allocFd p = .error er p') :
    er = .fdTableFull ∧ p.bridge.freeFd = none ∧ p' = p := by
  unfold allocFd at h
  cases hk : p.bridge.freeFd with
  | some k => rw [hk] at h; cases h
  | none => rw [hk] at h; cases h; exact ⟨rfl, rfl, rfl⟩

/-! ### Descriptors -/

lemma freeFd_some {k : Fin maxFds} (h : b.freeFd = some k) : b.entry k.val = none := by
  have hnone : (b.fdTable k).isNone = true := by simpa using List.find?_some h
  rw [Bridge.entry, dif_pos k.isLt]
  simpa using hnone

lemma entry_setEntry (b : Bridge) (fd fd' : ℕ) (e : Option FdEntry) :
    (b.setEntry fd e).entry fd' = if fd' = fd ∧ fd < maxFds then e else b.entry fd' := by
  unfold Bridge.setEntry Bridge.entry
  by_cases hfd : fd < maxFds
  · by_cases heq : fd' = fd
    · subst heq
      simp [hfd]
    · simp only [hfd, dif_pos, heq, false_and, if_false]
      by_cases hfd' : fd' < maxFds
      · rw [dif_pos hfd', dif_pos hfd', Function.update_of_ne]
        exact fun hc => heq (Fin.mk.inj hc)
      · rw [dif_neg hfd', dif_neg hfd']
  · simp [hfd]

lemma setEntry_self {e : FdEntry} (h : b.entry fd = some e) : b.setEntry fd (some e) = b := by
  unfold Bridge.entry at h
  unfold Bridge.setEntry
  split_ifs at h ⊢ with hfd
  · rw [← h, Function.update_eq_self]

lemma entry_some_lt {e : FdEntry} (h : b.entry fd = some e) : fd < maxFds := by
  unfold Bridge.entry at h
  split_ifs at h with hfd
  exact hfd

/-! ### Operations -/

section OpenFile

variable {spaceId : SpaceId} {name : List UInt8} {id : ObjectId} {dir : Bool}

lemma openTarget_ok (h : openTarget sha256 o spaceId name flags p = .ok (id, dir) p') :
    (∃ obj, ObjectIndex.findByName p.store.objects spaceId name = some id ∧
      p.store.objects.get id = some obj ∧ p' = p) ∨
    (ObjectIndex.findByName p.store.objects spaceId name = none ∧ isCreat flags = true ∧
      ∃ hash s, Store.objectCreate sha256 o spaceId name sentinel .text p.store = .ok (id, hash) s ∧
        p' = { p with store := s }) := by
  unfold openTarget at h
  obtain ⟨q, q', hq, h1⟩ := bind_ok h
  cases hq
  cases hfind : ObjectIndex.findByName p.store.objects spaceId name with
  | some id' =>
    simp only [hfind] at h1
    obtain ⟨obj, p1, hr, h2⟩ := bind_ok h1
    obtain ⟨hobj, rfl⟩ := result_ok hr
    cases h2
    exact .inl ⟨obj, rfl, indexed_ok hobj, rfl⟩
  | none =>
    simp only [hfind] at h1
    cases hcreat : isCreat flags with
    | false => simp only [hcreat] at h1; cases h1
    | true =>
      simp only [hcreat, if_true] at h1
      obtain ⟨⟨id', hash⟩, p1, hc, h2⟩ := bind_ok h1
      obtain ⟨s, hs, rfl⟩ := onStore_ok hc
      cases h2
      exact .inr ⟨rfl, rfl, hash, s, hs, rfl⟩

lemma openTarget_error (h : openTarget sha256 o spaceId name flags p = .error er p') :
    (p' = p ∧ ∀ id, ObjectIndex.findByName p.store.objects spaceId name = some id →
      p.store.objects.get id = none) ∧
        (ObjectIndex.findByName p.store.objects spaceId name = none → isCreat flags = false) ∨
    (ObjectIndex.findByName p.store.objects spaceId name = none ∧ isCreat flags = true ∧
      ∃ s, Store.objectCreate sha256 o spaceId name sentinel .text p.store = .error er s ∧
        p' = { p with store := s }) := by
  unfold openTarget at h
  rcases bind_error h with hq | ⟨q, q', hq, h1⟩
  · cases hq
  cases hq
  cases hfind : ObjectIndex.findByName p.store.objects spaceId name with
  | some id' =>
    simp only [hfind] at h1
    rcases bind_error h1 with hr | ⟨obj, p1, -, h2⟩
    · obtain ⟨hobj, rfl⟩ := result_error hr
      refine .inl ⟨⟨rfl, fun id hid => ?_⟩, fun hc => (by cases hc)⟩
      cases hid
      exact indexed_error hobj
    · cases h2
  | none =>
    simp only [hfind] at h1
    cases hcreat : isCreat flags with
    | false =>
      simp only [hcreat] at h1
      cases h1
      exact .inl ⟨⟨rfl, fun _ hc => (by cases hc)⟩, fun _ => rfl⟩
    | true =>
      simp only [hcreat, if_true] at h1
      rcases bind_error h1 with hc | ⟨⟨id', hash⟩, p1, -, h2⟩
      · obtain ⟨s, hs, rfl⟩ := onStore_error hc
        exact .inr ⟨rfl, rfl, s, hs, rfl⟩
      · cases h2

def opened (b : Bridge) (k : Fin maxFds) (e : FdEntry) : Bridge :=
  ({ b with nextFd := (k.val + 1) % maxFds } : Bridge).setEntry k.val (some e)

lemma entry_opened (b : Bridge) (k : Fin maxFds) (e : FdEntry) (fd : ℕ) :
    (opened b k e).entry fd = if fd = k.val then some e else b.entry fd := by
  unfold opened
  rw [entry_setEntry]
  simp only [k.isLt, and_true]
  rfl

lemma openFile_ok (h : openFile sha256 o path flags p = .ok fd p') :
    ∃ spaceId name id dir p1 k, resolvePath p.store.spaces path = .ok (spaceId, name) ∧
      openTarget sha256 o spaceId name flags p = .ok (id, dir) p1 ∧
      p1.bridge = p.bridge ∧ p.bridge.freeFd = some k ∧ fd = k.val ∧
      p' = ⟨p1.store, opened p.bridge k ⟨spaceId, id, 0, flags, dir⟩⟩ := by
  unfold openFile at h
  obtain ⟨q, q', hq, h1⟩ := bind_ok h
  cases hq
  obtain ⟨⟨spaceId, name⟩, p0, hr, h2⟩ := bind_ok h1
  obtain ⟨hresolve, rfl⟩ := result_ok hr
  obtain ⟨⟨id, dir⟩, p1, ht, h3⟩ := bind_ok h2
  have hbridge : p1.bridge = p0.bridge := by
    rcases openTarget_ok ht with ⟨-, -, -, rfl⟩ | ⟨-, -, -, -, -, rfl⟩ <;> rfl
  obtain ⟨fd', p2, ha, h4⟩ := bind_ok h3
  obtain ⟨k, hk, rfl, rfl⟩ := allocFd_ok ha
  rw [hbridge] at hk
  cases h4
  exact ⟨spaceId, name, id, dir, p1, k, hresolve, ht, hbridge, hk, rfl, by rw [opened, hbridge]⟩

lemma openFile_error (h : openFile sha256 o path flags p = .error er p') :
    (resolvePath p.store.spaces path = .error er ∧ p' = p) ∨
    ∃ spaceId name, resolvePath p.store.spaces path = .ok (spaceId, name) ∧
      (openTarget sha256 o spaceId name flags p = .error er p' ∨
        er = .fdTableFull ∧ p'.bridge.freeFd = none ∧
          ∃ r, openTarget sha256 o spaceId name flags p = .ok r p') := by
  unfold openFile at h
  rcases bind_error h with hq | ⟨q, q', hq, h1⟩
  · cases hq
  cases hq
  rcases bind_error h1 with hr | ⟨⟨spaceId, name⟩, p0, hr, h2⟩
  · obtain ⟨hresolve, rfl⟩ := result_error hr
    exact .inl ⟨hresolve, rfl⟩
  obtain ⟨hresolve, rfl⟩ := result_ok hr
  rcases bind_error h2 with ht | ⟨⟨id, dir⟩, p1, ht, h3⟩
  · exact .inr ⟨spaceId, name, hresolve, .inl ht⟩
  rcases bind_error h3 with ha | ⟨fd', p2, -, h4⟩
  · obtain ⟨rfl, hfull, rfl⟩ := allocFd_error ha
    exact .inr ⟨spaceId, name, hresolve, .inr ⟨rfl, hfull, (id, dir), ht⟩⟩
  · cases h4

end OpenFile

section ReadWrite

variable {bufLen : ℕ} {data : List UInt8}

lemma read_ok {bytes : List UInt8} (h : read fd bufLen p = .ok bytes p') :
    ∃ entry obj full, p.bridge.entry fd = some entry ∧
      Store.objectRead p.store entry.objectId bufferSize = .ok (obj, full) ∧
      bytes = (full.drop entry.offset).take bufLen ∧
      p' = ⟨p.store, p.bridge.setEntry fd
        (some { entry with offset := entry.offset + bytes.length })⟩ := by
  unfold read at h
  obtain ⟨q, q', hq, h1⟩ := bind_ok h
  cases hq
  cases he : p.bridge.entry fd with
  | none => simp only [he] at h1; cases h1
  | some entry =>
    simp only [he] at h1
    split_ifs at h1 with hmode
    · cases h1
    obtain ⟨⟨obj, full⟩, p1, hr, h2⟩ := bind_ok h1
    obtain ⟨hread, rfl⟩ := result_ok hr
    dsimp only at h2
    split_ifs at h2 with hlen
    · -- nothing is left to read and the entry stays
      cases h2
      refine ⟨entry, obj, full, rfl, hread, by simp [List.drop_of_length_le hlen], ?_⟩
      rw [List.length_nil, Nat.add_zero, setEntry_self he]
    · cases h2
      exact ⟨entry, obj, full, rfl, hread, rfl, rfl⟩

lemma write_ok {n : ℕ} (h : write sha256 o fd data p = .ok n p') :
    ∃ entry current hash s, p.bridge.entry fd = some entry ∧
      currentContents p.store entry.objectId = .ok current ∧
      writeOffset entry current + data.length ≤ bufferSize ∧
      Store.objectUpdate sha256 o entry.objectId
        (overwrite current (writeOffset entry current) data)
        (Bytes.ascii ['p', 'o', 's', 'i', 'x']) (Bytes.ascii ['w', 'r', 'i', 't', 'e']) p.store
          = .ok hash s ∧
      n = data.length ∧
      p' = ⟨s, p.bridge.setEntry fd
        (some { entry with offset := writeOffset entry current + data.length })⟩ := by
  unfold write at h
  obtain ⟨q, q', hq, h1⟩ := bind_ok h
  cases hq
  cases he : p.bridge.entry fd with
  | none => simp only [he] at h1; cases h1
  | some entry =>
    simp only [he] at h1
    split_ifs at h1 with hmode
    · cases h1
    obtain ⟨current, p1, hc, h2⟩ := bind_ok h1
    obtain ⟨hcur, rfl⟩ := result_ok hc
    split_ifs at h2 with hlen
    · cases h2
    obtain ⟨hash, p2, hu, h3⟩ := bind_ok h2
    obtain ⟨s, hs, rfl⟩ := onStore_ok hu
    cases h3
    exact ⟨entry, current, hash, s, rfl, hcur, by omega, hs, rfl, rfl⟩

end ReadWrite

/-! ### Calls of the store -/

def storeCall (p : Posix) : Act → Option Store.Act
  | .store a => some a
  | .openFile o path flags =>
    match resolvePath p.store.spaces path with
    | .error _ => none
    | .ok (spaceId, name) =>
      match ObjectIndex.findByName p.store.objects spaceId name with
      | some _ => none
      | none => if isCreat flags then some (.objectCreate o spaceId name sentinel .text) else none
  | .write o fd data =>
    match p.bridge.entry fd with
    | none => none
    | some entry =>
      match currentContents p.store entry.objectId with
      | .error _ => none
      | .ok current =>
        if accessMode entry.flags = oRdonly ∨ bufferSize < data.length ∨
          bufferSize < writeOffset entry current + data.length then none
        else some (.objectUpdate o entry.objectId
          (overwrite current (writeOffset entry current) data)
          (Bytes.ascii ['p', 'o', 's', 'i', 'x']) (Bytes.ascii ['w', 'r', 'i', 't', 'e']))
  | .mkdir o path =>
    match resolvePath p.store.spaces path with
    | .error _ => none
    | .ok (spaceId, name) =>
      match ObjectIndex.findByName p.store.objects spaceId name with
      | some _ => none
      | none => if name.isEmpty then none else some (.objectCreate o spaceId name sentinel .directory)
  | .unlink path =>
    match resolvePath p.store.spaces path with
    | .error _ => none
    | .ok (spaceId, name) =>
      (ObjectIndex.findByName p.store.objects spaceId name).map .objectDelete
  | _ => none

inductive Calls (p : Posix) : Act → Store.Act → Prop
  | store (a : Store.Act) : Calls p (.store a) a
  | create {o path flags spaceId name}
    (hresolve : resolvePath p.store.spaces path = .ok (spaceId, name))
    (hnew : ObjectIndex.findByName p.store.objects spaceId name = none)
    (hcreat : isCreat flags = true) :
    Calls p (.openFile o path flags) (.objectCreate o spaceId name sentinel .text)
  | directory {o path spaceId name}
    (hresolve : resolvePath p.store.spaces path = .ok (spaceId, name))
    (hnew : ObjectIndex.findByName p.store.objects spaceId name = none) :
    Calls p (.mkdir o path) (.objectCreate o spaceId name sentinel .directory)
  | update {o fd data id content author message} :
    Calls p (.write o fd data) (.objectUpdate o id content author message)
  | delete {path spaceId name id}
    (hresolve : resolvePath p.store.spaces path = .ok (spaceId, name))
    (hfind : ObjectIndex.findByName p.store.objects spaceId name = some id) :
    Calls p (.unlink path) (.objectDelete id)

lemma storeCall_some {a : Act} {b : Store.Act} (h : p.storeCall a = some b) : Calls p a b := by
  cases a with
  | store a => cases h; exact .store b
  | read fd bufLen => cases h
  | close fd => cases h
  | openFile o path flags =>
    simp only [storeCall] at h
    split at h
    · cases h
    · rename_i spaceId name hresolve
      split at h
      · cases h
      · rename_i hnew
        split_ifs at h with hcreat
        cases h
        exact .create hresolve hnew hcreat
  | mkdir o path =>
    simp only [storeCall] at h
    split at h
    · cases h
    · rename_i spaceId name hresolve
      split at h
      · cases h
      · rename_i hnew
        split_ifs at h
        cases h
        exact .directory hresolve hnew
  | write o fd data =>
    simp only [storeCall] at h
    split at h
    · cases h
    · split at h
      · cases h
      · split_ifs at h
        cases h
        exact .update
  | unlink path =>
    simp only [storeCall] at h
    split at h
    · cases h
    · rename_i spaceId name hresolve
      obtain ⟨id, hfind, rfl⟩ := map_eq_some_iff.mp h
      exact .delete hresolve hfind

lemma state_onStore (x : StoreM α) (p : Posix) :
    (state (onStore x p)).store = state (x p.store) := by
  unfold onStore
  cases x p.store <;> rfl

lemma next_openFile_store (o : Outside) (path : List UInt8) (flags : UInt32) :
    (next sha256 p (.openFile o path flags)).store =
      ((storeCall p (.openFile o path flags)).map (Store.next sha256 p.store)).getD p.store := by
  have hcreate : ∀ spaceId name, Store.next sha256 p.store (.objectCreate o spaceId name sentinel
      .text) = state (Store.objectCreate sha256 o spaceId name sentinel .text p.store) :=
    fun _ _ => state_void _ _
  rw [next, call, state_void]
  cases hr : openFile sha256 o path flags p with
  | ok fd p' =>
    obtain ⟨spaceId, name, id, dir, p1, k, hresolve, ht, -, -, -, rfl⟩ := openFile_ok hr
    change p1.store = _
    rcases openTarget_ok ht with ⟨obj, hfind, -, rfl⟩ | ⟨hfind, hcreat, hash, s, hs, rfl⟩
    · simp [storeCall, hresolve, hfind]
    · simp [storeCall, hresolve, hfind, hcreat, hcreate, hs, state]
  | error er p' =>
    change p'.store = _
    rcases openFile_error hr with ⟨hresolve, rfl⟩ | ⟨spaceId, name, hresolve, ht | ⟨-, -, r, ht⟩⟩
    · simp [storeCall, hresolve]
    · rcases openTarget_error ht with ⟨⟨rfl, -⟩, hcreat⟩ | ⟨hfind, hcreat, s, hs, rfl⟩
      · cases hfind : ObjectIndex.findByName p'.store.objects spaceId name with
        | some id => simp [storeCall, hresolve, hfind]
        | none => simp [storeCall, hresolve, hfind, hcreat hfind]
      · simp [storeCall, hresolve, hfind, hcreat, hcreate, hs, state]
    · rcases openTarget_ok ht with ⟨obj, hfind, -, rfl⟩ | ⟨hfind, hcreat, hash, s, hs, rfl⟩
      · simp [storeCall, hresolve, hfind]
      · simp [storeCall, hresolve, hfind, hcreat, hcreate, hs, state]

lemma next_write_store (o : Outside) (fd : ℕ) (data : List UInt8) :
    (next sha256 p (.write o fd data)).store =
      ((storeCall p (.write o fd data)).map (Store.next sha256 p.store)).getD p.store := by
  have hupdate : ∀ id content author message, Store.next sha256 p.store (.objectUpdate o id content
      author message) = state (Store.objectUpdate sha256 o id content author message p.store) :=
    fun _ _ _ _ => state_void _ _
  have hget : (get : PosixM Posix) p = .ok p p := rfl
  rw [next, call, state_void, write, bind_eq hget]
  cases he : p.bridge.entry fd with
  | none => simp only [storeCall, he]; rfl
  | some entry =>
    simp only [storeCall, he]
    by_cases hmode : accessMode entry.flags = oRdonly
    · rw [if_pos hmode]
      cases currentContents p.store entry.objectId with
      | error er => rfl
      | ok current => simp only [hmode, true_or, if_true]; rfl
    rw [if_neg hmode]
    cases hcur : currentContents p.store entry.objectId with
    | error er => rfl
    | ok current =>
      rw [bind_eq (show result (.ok current) p = .ok current p from rfl)]
      by_cases hlen : bufferSize < data.length ∨ bufferSize < writeOffset entry current + data.length
      · simp only [hmode, hlen, false_or, if_true]
        rfl
      · simp only [hmode, hlen, false_or, if_false, map_some, getD_some, hupdate]
        cases hu : Store.objectUpdate sha256 o entry.objectId
            (overwrite current (writeOffset entry current) data)
            (Bytes.ascii ['p', 'o', 's', 'i', 'x']) (Bytes.ascii ['w', 'r', 'i', 't', 'e'])
            p.store with
        | ok hash s =>
          have hs : onStore (Store.objectUpdate sha256 o entry.objectId
            (overwrite current (writeOffset entry current) data)
            (Bytes.ascii ['p', 'o', 's', 'i', 'x']) (Bytes.ascii ['w', 'r', 'i', 't', 'e'])) p
              = .ok hash { p with store := s } := by rw [onStore, hu]
          rw [bind_eq hs]
          rfl
        | error er s =>
          have hs : onStore (Store.objectUpdate sha256 o entry.objectId
            (overwrite current (writeOffset entry current) data)
            (Bytes.ascii ['p', 'o', 's', 'i', 'x']) (Bytes.ascii ['w', 'r', 'i', 't', 'e'])) p
              = .error er { p with store := s } := by rw [onStore, hu]
          rw [bind_eq_error hs]
          rfl

lemma next_mkdir_store (o : Outside) (path : List UInt8) : (next sha256 p (.mkdir o path)).store =
    ((storeCall p (.mkdir o path)).map (Store.next sha256 p.store)).getD p.store := by
  have hget : (get : PosixM Posix) p = .ok p p := rfl
  rw [next, call, mkdir, bind_eq hget]
  cases hr : resolvePath p.store.spaces path with
  | error er => simp only [storeCall, hr]; rfl
  | ok r =>
    obtain ⟨spaceId, name⟩ := r
    rw [bind_eq (show result (.ok (spaceId, name)) p = .ok (spaceId, name) p from rfl)]
    simp only [storeCall, hr]
    cases hname : name.isEmpty with
    | true =>
      cases ObjectIndex.findByName p.store.objects spaceId name <;> rfl
    | false =>
      rw [if_neg Bool.false_ne_true, bind_eq hget]
      cases hfind : ObjectIndex.findByName p.store.objects spaceId name with
      | some id => rfl
      | none =>
        rw [state_void, state_onStore]
        exact (state_void _ _).symm

lemma next_unlink_store (path : List UInt8) : (next sha256 p (.unlink path)).store =
    ((storeCall p (.unlink path)).map (Store.next sha256 p.store)).getD p.store := by
  have hget : (get : PosixM Posix) p = .ok p p := rfl
  rw [next, call, unlink, bind_eq hget]
  cases hr : resolvePath p.store.spaces path with
  | error er => simp only [storeCall, hr]; rfl
  | ok r =>
    obtain ⟨spaceId, name⟩ := r
    rw [bind_eq (show result (.ok (spaceId, name)) p = .ok (spaceId, name) p from rfl)]
    dsimp only
    rw [bind_eq hget]
    simp only [storeCall, hr]
    cases hfind : ObjectIndex.findByName p.store.objects spaceId name with
    | none => rfl
    | some id =>
      simp only [map_some, getD_some]
      rw [state_onStore]
      rfl

lemma next_read_store (fd bufLen : ℕ) : (next sha256 p (.read fd bufLen)).store = p.store := by
  have hget : (get : PosixM Posix) p = .ok p p := rfl
  rw [next, call, state_void, read, bind_eq hget]
  cases he : p.bridge.entry fd with
  | none => rfl
  | some entry =>
    dsimp only
    split_ifs
    · rfl
    · cases hr : Store.objectRead p.store entry.objectId bufferSize with
      | error er => rfl
      | ok r =>
        obtain ⟨obj, full⟩ := r
        rw [bind_eq (show result (.ok (obj, full)) p = .ok (obj, full) p from rfl)]
        dsimp only
        split_ifs <;> rfl

lemma next_store_eq (sha256 : List UInt8 → ContentHash) (p : Posix) (a : Act) :
    (next sha256 p a).store = ((storeCall p a).map (Store.next sha256 p.store)).getD p.store := by
  cases a with
  | store a => exact state_onStore _ _
  | openFile o path flags => exact next_openFile_store o path flags
  | read fd bufLen => exact next_read_store fd bufLen
  | write o fd data => exact next_write_store o fd data
  | close fd =>
    have hget : (get : PosixM Posix) p = .ok p p := rfl
    rw [next, call, close, bind_eq hget]
    cases p.bridge.entry fd <;> rfl
  | mkdir o path => exact next_mkdir_store o path
  | unlink path => exact next_unlink_store path

/-- **What the store keeps, the bridge keeps.** -/
lemma next_store (sha256 : List UInt8 → ContentHash) (p : Posix) (a : Act) :
    (next sha256 p a).store = p.store ∨
      ∃ b, Calls p a b ∧ (next sha256 p a).store = Store.next sha256 p.store b := by
  rw [next_store_eq]
  cases hb : p.storeCall a with
  | none => exact .inl rfl
  | some b => exact .inr ⟨b, storeCall_some hb, rfl⟩

end Posix

end Aios.Storage
