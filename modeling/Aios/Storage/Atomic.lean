import Aios.Storage.PosixSpec

/-!
What a call that fails leaves behind.

`object_create`, `object_update` and `version_rollback` write a block and can fail after it, and
`open` can fail after it has created an object. Nothing is taken back. A call that fails changes
nothing exactly if it does not get as far as that.
-/

namespace Aios.Storage

open Aios.Lib Fallible SortedTable Option Bool

/-! ### Blocks -/

namespace Blocks

variable {sha256 : List UInt8 → ContentHash} {device : Device.Answer} {b b' : Blocks}
  {block second : List UInt8} {r : ContentHash × BlockLocation} {er : StorageError}

/-- Does `write_block` take this block? -/
def takes (sha256 : List UInt8 → ContentHash) (device : Device.Answer) (b : Blocks)
    (block : List UInt8) : Bool :=
  !block.isEmpty && ((b.memtable.get (sha256 block)).isSome ||
    (device block).isOk && decide (b.memtable.entries.size < b.memtable.capacity))

/-- Does `write_block` take the block `second` once it has taken `first`? -/
def takesAfter (sha256 : List UInt8 → ContentHash) (device : Device.Answer) (b : Blocks)
    (first second : List UInt8) : Bool :=
  !second.isEmpty && (sha256 second == sha256 first || (b.memtable.get (sha256 second)).isSome ||
    (device second).isOk && decide (b.memtable.entries.size +
      (if (b.memtable.get (sha256 first)).isSome then 0 else 1) < b.memtable.capacity))

lemma takes_of_ok (h : writeBlock sha256 device block b = (.ok r, b')) :
    takes sha256 device b block = true := by
  unfold writeBlock at h
  unfold takes
  split_ifs at h with hempty
  · cases h
  rw [not_eq_true] at hempty
  rw [hempty]
  cases hget : b.memtable.get (sha256 block) with
  | some e => rfl
  | none =>
    simp only [hget] at h
    cases hdev : device block with
    | error er => simp [hdev] at h
    | ok loc =>
      simp only [hdev] at h
      cases hins : b.memtable.insert (sha256 block) loc with
      | error er => simp [hins] at h
      | ok t =>
        obtain ⟨-, hroom⟩ := MemTable.insert_none hget hins
        simp [Except.isOk, Except.toBool, hroom]

lemma takes_of_error (h : writeBlock sha256 device block b = (.error er, b')) :
    takes sha256 device b block = false := by
  cases htakes : takes sha256 device b block with
  | false => rfl
  | true =>
    unfold takes at htakes
    rw [and_eq_true, not_eq_true', or_eq_true] at htakes
    obtain ⟨hne, hcase⟩ := htakes
    have hok : ∃ r b', writeBlock sha256 device block b = (.ok r, b') := by
      rcases hcase with hsome | hnew
      · obtain ⟨e, he⟩ := isSome_iff_exists.mp hsome
        unfold writeBlock
        rw [if_neg (by simp [hne]), he]
        exact ⟨_, _, rfl⟩
      · rw [and_eq_true, decide_eq_true_eq] at hnew
        cases hdev : device block with
        | error er => rw [hdev] at hnew; cases hnew.1
        | ok loc => exact writeBlock_succeeds (by simpa using hne) hdev hnew.2
    obtain ⟨r, b'', hw⟩ := hok
    rw [hw] at h
    cases h

lemma writeBlock_index (h : writeBlock sha256 device block b = (.ok r, b')) :
    (∀ k, (b'.memtable.get k).isSome = (k == sha256 block || (b.memtable.get k).isSome)) ∧
      b'.memtable.entries.size = b.memtable.entries.size +
        (if (b.memtable.get (sha256 block)).isSome then 0 else 1) ∧
      b'.memtable.capacity = b.memtable.capacity := by
  unfold writeBlock at h
  split_ifs at h
  · cases h
  cases hget : b.memtable.get (sha256 block) with
  | some e =>
    simp only [hget] at h
    cases h
    refine ⟨fun k => ?_, by simp [MemTable.bump], rfl⟩
    rw [MemTable.get_bump]
    by_cases hk : k = sha256 block
    · rw [if_pos hk, hk, hget]
      simp
    · rw [if_neg hk, beq_eq_false_iff_ne.mpr hk, Bool.false_or]
  | none =>
    simp only [hget] at h
    cases hdev : device block with
    | error er => simp [hdev] at h
    | ok loc =>
      simp only [hdev] at h
      cases hins : b.memtable.insert (sha256 block) loc with
      | error er => simp [hins] at h
      | ok t =>
        simp only [hins] at h
        cases h
        obtain ⟨rfl, -⟩ := MemTable.insert_none hget hins
        refine ⟨fun k => ?_, size_insert hget, rfl⟩
        by_cases hk : k = sha256 block
        · simp [MemTable.get, get_insert, hk]
        · simp [MemTable.get, get_insert, hk]

lemma takes_second (h : writeBlock sha256 device block b = (.ok r, b')) :
    takes sha256 device b' second = takesAfter sha256 device b block second := by
  obtain ⟨hget, hsize, hcap⟩ := writeBlock_index h
  unfold takes takesAfter
  rw [hget, hsize, hcap]

lemma Wrote.refcount_lt (h : Wrote sha256 block b b') :
    b.refcount (sha256 block) < b'.refcount (sha256 block) := by
  rw [h.refcount, if_pos rfl]
  omega

end Blocks

namespace Store

variable {sha256 : List UInt8 → ContentHash} {s s' : Store} {er : StorageError}

/-! ### Objects -/

def counters (s : Store) (k : Fin maxSpaces) : Option (ℕ × ℕ) :=
  (s.spaces k).map fun space => (space.objectCount, space.totalSize)

structure Same (s s' : Store) : Prop where
  refcount : ∀ k, s'.blocks.refcount k = s.blocks.refcount k
  objects : s'.objects = s.objects
  counters : s'.counters = s.counters

lemma Same.refl (s : Store) : Same s s := ⟨fun _ => rfl, rfl, rfl⟩

/-- The quota check of `object_create`. -/
def quotaFits (s : Store) (spaceId : SpaceId) (bytes : ℕ) : Bool :=
  (SpaceTable.get s.spaces spaceId).any fun space => !space.wouldExceedQuota bytes

def begins (sha256 : List UInt8 → ContentHash) (s : Store) : Act → Bool
  | .objectCreate o spaceId _ content _ =>
    s.quotaFits spaceId content.length && s.blocks.takes sha256 o.device content
  | .objectUpdate o id content _ _ =>
    (s.objects.get id).isSome && s.blocks.takes sha256 o.device content
  | .versionRollback o id target =>
    match s.objects.get id with
    | none => false
    | some obj =>
      match rollbackTarget s id obj.versionHead target with
      | .error _ => false
      | .ok old =>
        s.blocks.takes sha256 o.device (rollbackVersion sha256 o id obj.versionHead old).encode
  | .spaceCreate _ _ _ _ | .objectDelete _ => false

/-- Does the rest of the call find what it needs? For `object_create` and `object_update` this is
room for the version node, and for `object_create` an entry for a new id in the object index; for
`version_rollback` the content of the version it goes back to. -/
def completes (sha256 : List UInt8 → ContentHash) (s : Store) : Act → Bool
  | .objectCreate o _ _ content _ =>
    s.blocks.takesAfter sha256 o.device content
        (createdVersion sha256 o (idOf o.idTick s.objectCounter) (sha256 content) content).encode &&
      decide (s.objects.size < objectIndexMaxEntries) &&
      (s.objects.get (idOf o.idTick s.objectCounter)).isNone
  | .objectUpdate o id content author message =>
    (s.objects.get id).all fun obj => s.blocks.takesAfter sha256 o.device content
      (updateVersion sha256 o id obj.versionHead content author message).encode
  | .versionRollback o id target =>
    match s.objects.get id with
    | none => true
    | some obj =>
      match rollbackTarget s id obj.versionHead target with
      | .error _ => true
      | .ok old =>
        old.contentHash == sha256 (rollbackVersion sha256 o id obj.versionHead old).encode ||
          (s.blocks.memtable.get old.contentHash).isSome
  | .spaceCreate _ _ _ _ | .objectDelete _ => true

inductive Cut (sha256 : List UInt8 → ContentHash) (s : Store) (a : Act) (s' : Store) : Prop
  | early (hbegins : begins sha256 s a = false) (hsame : Same s s')
  | late (hbegins : begins sha256 s a = true) (hcompletes : completes sha256 s a = false)
    (hgrown : ∃ k, s.blocks.refcount k < s'.blocks.refcount k)

lemma quotaFits_of_ok {spaceId : SpaceId} {n : ℕ} (h : checkQuota spaceId n s = .ok () s') :
    s' = s ∧ s.quotaFits spaceId n = true := by
  obtain ⟨rfl, space, hspace, hquota⟩ := checkQuota_ok h
  refine ⟨rfl, ?_⟩
  rw [quotaFits, hspace]
  simp [hquota]

lemma quotaFits_of_error {spaceId : SpaceId} {n : ℕ} (h : checkQuota spaceId n s = .error er s') :
    s' = s ∧ s.quotaFits spaceId n = false := by
  refine ⟨checkQuota_error h, ?_⟩
  rw [checkQuota_eq] at h
  rw [quotaFits]
  cases hs : SpaceTable.get s.spaces spaceId with
  | none => rfl
  | some space =>
    rw [hs] at h
    cases hq : space.wouldExceedQuota n with
    | true => simp [hq]
    | false => simp [hq] at h

lemma block_ok {o : Outside} {block : List UInt8} {r : ContentHash × BlockLocation}
    (h : onBlocks (Blocks.writeBlock sha256 o.device block) s = .ok r s') :
    ∃ b, Blocks.writeBlock sha256 o.device block s.blocks = (.ok r, b) ∧ r.1 = sha256 block ∧
      Blocks.Wrote sha256 block s.blocks b ∧ s.blocks.takes sha256 o.device block = true ∧
      s' = { s with blocks := b } := by
  obtain ⟨b, hw, rfl⟩ := onBlocks_ok h
  obtain ⟨hr, hwrote⟩ := Blocks.writeBlock_ok hw
  exact ⟨b, hw, hr, hwrote, Blocks.takes_of_ok hw, rfl⟩

lemma block_error {o : Outside} {block : List UInt8}
    (h : onBlocks (Blocks.writeBlock sha256 o.device block) s = .error er s') :
    s' = s ∧ s.blocks.takes sha256 o.device block = false := by
  obtain ⟨b, hw, -⟩ := onBlocks_error h
  exact ⟨write_error h, Blocks.takes_of_error hw⟩

section Create

variable {o : Outside} {spaceId : SpaceId} {name content : List UInt8} {contentType : ContentType}

lemma objectCreate_completes {r : ObjectId × ContentHash}
    (h : objectCreate sha256 o spaceId name content contentType s = .ok r s') :
    begins sha256 s (.objectCreate o spaceId name content contentType) = true ∧
      completes sha256 s (.objectCreate o spaceId name content contentType) = true := by
  unfold objectCreate at h
  obtain ⟨_, s1, hq, h1⟩ := bind_ok h
  obtain ⟨rfl, hfits⟩ := quotaFits_of_ok hq
  obtain ⟨⟨hash, loc⟩, s2, hw1, h2⟩ := bind_ok h1
  obtain ⟨b1, hb1, hhash, -, htakes1, rfl⟩ := block_ok hw1
  obtain ⟨id, s3, hid, h3⟩ := bind_ok h2
  cases hid
  obtain ⟨⟨head, loc'⟩, s4, hw2, h4⟩ := bind_ok h3
  obtain ⟨b2, -, -, -, htakes2, rfl⟩ := block_ok hw2
  obtain ⟨_, s5, hins, -⟩ := bind_ok h4
  obtain ⟨hsize, hnone, -⟩ := insertObject_ok hins
  dsimp only at hhash htakes2 hsize hnone
  subst hhash
  rw [Blocks.takes_second hb1] at htakes2
  refine ⟨by rw [begins, hfits, htakes1]; rfl, ?_⟩
  have hnone' : s1.objects.get (idOf o.idTick s1.objectCounter) = none := hnone
  rw [completes, htakes2, decide_eq_true hsize, hnone']
  rfl

lemma objectCreate_cut
    (h : objectCreate sha256 o spaceId name content contentType s = .error er s') :
    Cut sha256 s (.objectCreate o spaceId name content contentType) s' := by
  unfold objectCreate at h
  rcases bind_error h with hq | ⟨_, s1, hq, h1⟩
  · obtain ⟨rfl, hfits⟩ := quotaFits_of_error hq
    exact .early (by rw [begins, hfits]; rfl) (.refl _)
  obtain ⟨rfl, hfits⟩ := quotaFits_of_ok hq
  rcases bind_error h1 with hw | ⟨⟨hash, loc⟩, s2, hw1, h2⟩
  · obtain ⟨rfl, htakes⟩ := block_error hw
    exact .early (by rw [begins, htakes, Bool.and_false]) (.refl _)
  obtain ⟨b1, hb1, hhash, hwrote1, htakes1, rfl⟩ := block_ok hw1
  have hbegins : begins sha256 s1 (.objectCreate o spaceId name content contentType) = true := by
    rw [begins, hfits, htakes1]
    rfl
  rcases bind_error h2 with hid | ⟨id, s3, hid, h3⟩
  · cases hid
  cases hid
  dsimp only at hhash
  subst hhash
  rcases bind_error h3 with hw | ⟨⟨head, loc'⟩, s4, hw2, h4⟩
  · -- the version node is not written
    obtain ⟨rfl, htakes⟩ := block_error hw
    dsimp only at htakes
    rw [Blocks.takes_second hb1] at htakes
    exact .late hbegins (by rw [completes, htakes]; rfl) ⟨_, hwrote1.refcount_lt⟩
  obtain ⟨b2, -, -, hwrote2, -, rfl⟩ := block_ok hw2
  rcases bind_error h4 with hins | ⟨_, s5, -, h5⟩
  · -- the object index does not take the object
    refine .late hbegins ?_ ⟨sha256 content, ?_⟩
    · unfold insertObject ObjectIndex.add at hins
      split_ifs at hins with hsize hsome
      · rw [completes, decide_eq_false (Nat.not_lt.mpr hsize), Bool.and_false, Bool.false_and]
      · have hnone : (s1.objects.get (idOf o.idTick s1.objectCounter)).isNone = false := by
          rw [← Option.not_isSome, Bool.not_eq_false']
          exact hsome
        rw [completes, hnone, Bool.and_false]
    · rw [insertObject_error hins]
      exact (hwrote1.refcount_lt).trans_le (hwrote2.grown.refcount _)
  · cases h5

end Create

section Change

variable {o : Outside} {id : ObjectId} {content author message : List UInt8}
  {target : ContentHash}

lemma objectUpdate_completes {r : ContentHash}
    (h : objectUpdate sha256 o id content author message s = .ok r s') :
    completes sha256 s (.objectUpdate o id content author message) = true := by
  unfold objectUpdate at h
  obtain ⟨obj, s1, hobj, h1⟩ := bind_ok h
  obtain ⟨rfl, hget⟩ := getObject_ok hobj
  obtain ⟨⟨hash, loc⟩, s2, hw1, h2⟩ := bind_ok h1
  obtain ⟨b1, hb1, hhash, -, -, rfl⟩ := block_ok hw1
  obtain ⟨⟨head, loc'⟩, s3, hw2, -⟩ := bind_ok h2
  obtain ⟨b2, -, -, -, htakes2, rfl⟩ := block_ok hw2
  dsimp only at hhash htakes2
  subst hhash
  rw [Blocks.takes_second hb1] at htakes2
  rw [completes, hget]
  exact htakes2

lemma objectUpdate_cut (h : objectUpdate sha256 o id content author message s = .error er s') :
    Cut sha256 s (.objectUpdate o id content author message) s' := by
  unfold objectUpdate at h
  rcases bind_error h with hobj | ⟨obj, s1, hobj, h1⟩
  · obtain ⟨rfl, hnone⟩ := getObject_error hobj
    exact .early (by rw [begins, hnone]; rfl) (.refl _)
  obtain ⟨rfl, hget⟩ := getObject_ok hobj
  rcases bind_error h1 with hw | ⟨⟨hash, loc⟩, s2, hw1, h2⟩
  · obtain ⟨rfl, htakes⟩ := block_error hw
    exact .early (by rw [begins, htakes, Bool.and_false]) (.refl _)
  obtain ⟨b1, hb1, hhash, hwrote1, htakes1, rfl⟩ := block_ok hw1
  dsimp only at hhash
  subst hhash
  rcases bind_error h2 with hw | ⟨r', s3, -, h3⟩
  · obtain ⟨rfl, htakes⟩ := block_error hw
    dsimp only at htakes
    rw [Blocks.takes_second hb1] at htakes
    refine .late (by rw [begins, hget, htakes1]; rfl) ?_ ⟨_, hwrote1.refcount_lt⟩
    rw [completes, hget]
    exact htakes
  · cases h3

lemma versionRollback_completes {r : ContentHash}
    (h : versionRollback sha256 o id target s = .ok r s') :
    completes sha256 s (.versionRollback o id target) = true := by
  unfold versionRollback at h
  obtain ⟨obj, s1, hobj, h1⟩ := bind_ok h
  obtain ⟨rfl, hget⟩ := getObject_ok hobj
  obtain ⟨_, s2, hst, h2⟩ := bind_ok h1
  cases hst
  cases hold : rollbackTarget s1 id obj.versionHead target with
  | error e => rw [hold] at h2; cases h2
  | ok old =>
    simp only [hold] at h2
    obtain ⟨⟨head, loc⟩, s3, hw1, h3⟩ := bind_ok h2
    obtain ⟨b1, hb1, -, -, -, rfl⟩ := block_ok hw1
    obtain ⟨_, s4, hinc, -⟩ := bind_ok h3
    obtain ⟨b2, hb2, -⟩ := onBlocks_ok hinc
    obtain ⟨hpres, -⟩ := Blocks.incRef_ok hb2
    rw [← isSome_iff_ne_none, (Blocks.writeBlock_index hb1).1] at hpres
    simp only [completes, hget, hold]
    exact hpres

lemma versionRollback_cut (h : versionRollback sha256 o id target s = .error er s') :
    Cut sha256 s (.versionRollback o id target) s' := by
  unfold versionRollback at h
  rcases bind_error h with hobj | ⟨obj, s1, hobj, h1⟩
  · obtain ⟨rfl, hnone⟩ := getObject_error hobj
    exact .early (by simp only [begins, hnone]) (.refl _)
  obtain ⟨rfl, hget⟩ := getObject_ok hobj
  rcases bind_error h1 with hst | ⟨_, s2, hst, h2⟩
  · cases hst
  cases hst
  cases hold : rollbackTarget s1 id obj.versionHead target with
  | error e =>
    rw [hold] at h2
    cases h2
    exact .early (by simp only [begins, hget, hold]) (.refl _)
  | ok old =>
    simp only [hold] at h2
    rcases bind_error h2 with hw | ⟨⟨head, loc⟩, s3, hw1, h3⟩
    · obtain ⟨rfl, htakes⟩ := block_error hw
      exact .early (by simp only [begins, hget, hold, htakes]) (.refl _)
    obtain ⟨b1, hb1, -, hwrote, htakes, rfl⟩ := block_ok hw1
    rcases bind_error h3 with hinc | ⟨_, s4, -, h4⟩
    · -- the content that the node refers to is not there
      obtain ⟨b2, hb2, rfl⟩ := onBlocks_error hinc
      have hnone : b1.memtable.get old.contentHash = none := by
        unfold Blocks.incRef at hb2
        cases hg : b1.memtable.get old.contentHash with
        | none => rfl
        | some e => simp [hg] at hb2
      have hindex := (Blocks.writeBlock_index hb1).1 old.contentHash
      rw [hnone] at hindex
      rw [Blocks.incRef_error hb2]
      refine .late (by simp only [begins, hget, hold, htakes]) ?_ ⟨_, hwrote.refcount_lt⟩
      simp only [completes, hget, hold]
      exact hindex.symm
    · cases h4

end Change

lemma call_completes {a : Act} {u : Unit} (h : call sha256 a s = .ok u s') :
    completes sha256 s a = true := by
  cases a with
  | spaceCreate o name zone quota => rfl
  | objectDelete id => rfl
  | objectCreate o spaceId name content contentType =>
    obtain ⟨r, s1, h1, -⟩ := bind_ok h
    exact (objectCreate_completes h1).2
  | objectUpdate o id content author message =>
    obtain ⟨r, s1, h1, -⟩ := bind_ok h
    exact objectUpdate_completes h1
  | versionRollback o id target =>
    obtain ⟨r, s1, h1, -⟩ := bind_ok h
    exact versionRollback_completes h1

lemma call_cut {a : Act} (h : call sha256 a s = .error er s') : Cut sha256 s a s' := by
  cases a with
  | spaceCreate o name zone quota =>
    rcases bind_error h with h1 | ⟨r, s1, -, h2⟩
    · obtain ⟨-, rfl⟩ := spaceCreate_error h1
      exact .early rfl ⟨fun _ => rfl, rfl, rfl⟩
    · cases h2
  | objectDelete id =>
    rw [objectDelete_error h]
    exact .early rfl (.refl s)
  | objectCreate o spaceId name content contentType =>
    rcases bind_error h with h1 | ⟨r, s1, -, h2⟩
    · exact objectCreate_cut h1
    · cases h2
  | objectUpdate o id content author message =>
    rcases bind_error h with h1 | ⟨r, s1, -, h2⟩
    · exact objectUpdate_cut h1
    · cases h2
  | versionRollback o id target =>
    rcases bind_error h with h1 | ⟨r, s1, -, h2⟩
    · exact versionRollback_cut h1
    · cases h2

/-- **A call that fails changes nothing, exactly if it is not cut off behind its first block.** -/
theorem failed_call_same (sha256 : List UInt8 → ContentHash) (s : Store) (a : Act) :
    (∀ er s', call sha256 a s = .error er s' → Same s s') ↔
      (begins sha256 s a = true → completes sha256 s a = true) := by
  constructor
  · intro hsame hbegins
    cases hcall : call sha256 a s with
    | ok u s' => exact call_completes hcall
    | error er s' =>
      cases call_cut hcall with
      | early hno _ => rw [hno] at hbegins; cases hbegins
      | late _ _ hgrown =>
        obtain ⟨k, hk⟩ := hgrown
        rw [(hsame er s' hcall).refcount k] at hk
        exact absurd hk (lt_irrefl _)
  · intro hcond er s' hcall
    cases call_cut hcall with
    | early _ hsame => exact hsame
    | late hbegins hno _ => rw [hcond hbegins] at hno; cases hno

def smallBlocks : Outside :=
  ⟨1, 1, fun block => if block.length = Version.size then .error .deviceFull else .ok ⟨0, 0, .hot⟩⟩

def emptySpace : Store := next stampHash start (.spaceCreate (.at 0) [1] .personal ⟨10, 4⟩)

/-- **A content block without an owner.** The version node of a new object is not written, and the
reference to its content stays. -/
theorem create_leaves_reference :
    succeeds stampHash emptySpace (.objectCreate smallBlocks (idOf 0 1) [1] [7] .binary) = false ∧
      emptySpace.blocks.refcount (stampHash [7]) = 0 ∧
      (next stampHash emptySpace
        (.objectCreate smallBlocks (idOf 0 1) [1] [7] .binary)).blocks.refcount (stampHash [7])
          = 1 := by
  decide +kernel

end Store

/-! ### Files -/

namespace Posix

variable {sha256 : List UInt8 → ContentHash} {p p' : Posix} {o : Outside} {path : List UInt8}
  {flags : UInt32} {er : StorageError}

structure Same (p p' : Posix) : Prop where
  objects : p'.store.objects = p.store.objects
  counters : p'.store.counters = p.store.counters
  fdTable : p'.bridge.fdTable = p.bridge.fdTable

/-- Does `open` create an object and then find no descriptor? -/
def createsInVain (sha256 : List UInt8 → ContentHash) (p : Posix) (o : Outside)
    (path : List UInt8) (flags : UInt32) : Bool :=
  match resolvePath p.store.spaces path with
  | .error _ => false
  | .ok (spaceId, name) =>
    (ObjectIndex.findByName p.store.objects spaceId name).isNone && isCreat flags &&
      p.bridge.freeFd.isNone &&
      p.store.begins sha256 (.objectCreate o spaceId name sentinel .text) &&
      p.store.completes sha256 (.objectCreate o spaceId name sentinel .text)

lemma objectCreate_succeeds {spaceId : SpaceId} {name content : List UInt8}
    {contentType : ContentType} {s : Store}
    (hbegins : s.begins sha256 (.objectCreate o spaceId name content contentType) = true)
    (hcompletes : s.completes sha256 (.objectCreate o spaceId name content contentType) = true) :
    ∃ r s', Store.objectCreate sha256 o spaceId name content contentType s = .ok r s' := by
  cases h : Store.objectCreate sha256 o spaceId name content contentType s with
  | ok r s' => exact ⟨r, s', rfl⟩
  | error er s' =>
    cases Store.objectCreate_cut h with
    | early hno _ => rw [hbegins] at hno; cases hno
    | late _ hno _ => rw [hcompletes] at hno; cases hno

lemma objectCreate_objects {spaceId : SpaceId} {name content : List UInt8}
    {contentType : ContentType} {s s' : Store} {r : ObjectId × ContentHash}
    (h : Store.objectCreate sha256 o spaceId name content contentType s = .ok r s') :
    s'.objects ≠ s.objects := by
  obtain ⟨b1, b2, space, -, -, rfl, -, -, -, hnew, rfl⟩ := Store.objectCreate_ok h
  intro hc
  have hget := congrArg (fun t => SortedTable.get t (Store.idOf o.idTick s.objectCounter)) hc
  simp only [Store.created, get_insert, if_true] at hget
  rw [hnew] at hget
  cases hget

lemma createsInVain_iff : createsInVain sha256 p o path flags = true ↔
    ∃ spaceId name r s', resolvePath p.store.spaces path = .ok (spaceId, name) ∧
      ObjectIndex.findByName p.store.objects spaceId name = none ∧ isCreat flags = true ∧
      p.bridge.freeFd = none ∧
      Store.objectCreate sha256 o spaceId name sentinel .text p.store = .ok r s' := by
  unfold createsInVain
  constructor
  · intro h
    cases hr : resolvePath p.store.spaces path with
    | error er => rw [hr] at h; cases h
    | ok t =>
      obtain ⟨spaceId, name⟩ := t
      simp only [hr, and_eq_true, isNone_iff_eq_none] at h
      obtain ⟨⟨⟨⟨hnew, hcreat⟩, hfull⟩, hbegins⟩, hcompletes⟩ := h
      obtain ⟨r, s', hcreate⟩ := objectCreate_succeeds hbegins hcompletes
      exact ⟨spaceId, name, r, s', rfl, hnew, hcreat, hfull, hcreate⟩
  · rintro ⟨spaceId, name, r, s', hr, hnew, hcreat, hfull, hcreate⟩
    obtain ⟨hbegins, hcompletes⟩ := Store.objectCreate_completes hcreate
    simp only [hr, hnew, hcreat, hfull, hbegins, hcompletes]
    rfl

lemma openFile_inVain (h : createsInVain sha256 p o path flags = true) :
    ∃ p', openFile sha256 o path flags p = .error .fdTableFull p' ∧
      p'.store.objects ≠ p.store.objects := by
  obtain ⟨spaceId, name, r, s', hr, hnew, hcreat, hfull, hcreate⟩ := createsInVain_iff.mp h
  have hne := objectCreate_objects hcreate
  cases hopen : openFile sha256 o path flags p with
  | ok fd p' =>
    obtain ⟨-, -, -, -, -, k, -, -, -, hfree, -⟩ := openFile_ok hopen
    rw [hfull] at hfree
    cases hfree
  | error er p' =>
    rcases openFile_error hopen with ⟨herr, -⟩ | ⟨spaceId', name', hr', ht | ⟨rfl, -, t, ht⟩⟩
    · rw [hr] at herr
      cases herr
    · rw [hr] at hr'
      cases hr'
      rcases openTarget_error ht with ⟨-, hno⟩ | ⟨-, -, s'', hs'', -⟩
      · rw [hno hnew] at hcreat
        cases hcreat
      · rw [hcreate] at hs''
        cases hs''
    · rw [hr] at hr'
      cases hr'
      obtain ⟨id, dir⟩ := t
      rcases openTarget_ok ht with ⟨-, hfind, -⟩ | ⟨-, -, hash, s'', hs'', rfl⟩
      · rw [hnew] at hfind
        cases hfind
      · rw [hcreate] at hs''
        cases hs''
        exact ⟨_, rfl, hne⟩

/-- **An `open` that fails creates nothing, exactly if it does not create an object for which
there is no descriptor.** -/
theorem failed_open_same (sha256 : List UInt8 → ContentHash) (p : Posix) (o : Outside)
    (path : List UInt8) (flags : UInt32) :
    (∀ er p', openFile sha256 o path flags p = .error er p' → Same p p') ↔
      createsInVain sha256 p o path flags = false := by
  constructor
  · intro hsame
    by_contra hvain
    rw [not_eq_false] at hvain
    obtain ⟨p', hopen, hne⟩ := openFile_inVain hvain
    exact hne (hsame _ p' hopen).objects
  · intro hno er p' hopen
    rcases openFile_error hopen with ⟨-, rfl⟩ | ⟨spaceId, name, hr, ht | ⟨-, hfull, ⟨id, dir⟩, ht⟩⟩
    · exact ⟨rfl, rfl, rfl⟩
    · rcases openTarget_error ht with ⟨⟨rfl, -⟩, -⟩ | ⟨-, -, s, hs, rfl⟩
      · exact ⟨rfl, rfl, rfl⟩
      · -- the blocks of an object that is not created are no objects
        have hidle := Store.objectCreate_error hs
        refine ⟨hidle.objects, ?_, rfl⟩
        funext k
        rw [Store.counters, Store.counters, hidle.spaces]
    · rcases openTarget_ok ht with ⟨-, -, -, rfl⟩ | ⟨hnew, hcreat, hash, s, hs, rfl⟩
      · exact ⟨rfl, rfl, rfl⟩
      · rw [createsInVain_iff.mpr ⟨spaceId, name, _, s, hr, hnew, hcreat, hfull, hs⟩] at hno
        cases hno

/-- `/tmp` with the file `a`, which all descriptors are open on. -/
def fullTable : Posix where
  store := [.spaceCreate (.at 0) (Bytes.ascii ['e', 'p', 'h', 'e', 'm', 'e', 'r', 'a', 'l'])
      .ephemeral .unlimited,
    .objectCreate (.at 1) (Store.idOf 0 1) [97] sentinel .text].foldl (Store.next stampHash)
      Store.start
  bridge := ⟨fun _ => some ⟨Store.idOf 0 1, Store.idOf 1 1, 0, oCreat, false⟩, 0⟩

/-- **A file that nobody could open.** No descriptor is free; `open` of the new file `b` fails, and
the file is there, counted in its space. -/
theorem open_leaves_file :
    answer (openFile stampHash (.at 2) (Bytes.ascii ['/', 't', 'm', 'p', '/', 'b']) oCreat fullTable)
        = none ∧
      fullTable.store.objects.size = 1 ∧
      (next stampHash fullTable
        (.openFile (.at 2) (Bytes.ascii ['/', 't', 'm', 'p', '/', 'b']) oCreat)).store.objects.size
          = 2 ∧
      fullTable.store.counters 0 = some (1, 1) ∧
      (next stampHash fullTable
        (.openFile (.at 2) (Bytes.ascii ['/', 't', 'm', 'p', '/', 'b']) oCreat)).store.counters 0
          = some (2, 2) := by
  decide +kernel

end Posix

end Aios.Storage
