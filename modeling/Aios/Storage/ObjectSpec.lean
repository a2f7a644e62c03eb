import Aios.Storage.Objects

/-!
What the operations on objects and spaces do: the steps of each, and its two ends.

An operation that succeeds is described completely. One that fails has at most added blocks, which
no object refers to, and used up an id.
-/

namespace Aios.Storage

open Aios.Lib Fallible

namespace Store

variable {sha256 : List UInt8 → ContentHash} {s s' : Store} {er : StorageError} {id : ObjectId}
  {o : Outside}

/-! ### Steps -/

lemma onBlocks_ok {α : Type} {f : Blocks → Except StorageError α × Blocks} {a : α}
    (h : onBlocks f s = .ok a s') : ∃ b, f s.blocks = (.ok a, b) ∧ s' = { s with blocks := b } := by
  unfold onBlocks at h
  split at h
  · rename_i a' b hf
    cases h
    exact ⟨b, hf, rfl⟩
  · cases h

lemma onBlocks_error {α : Type} {f : Blocks → Except StorageError α × Blocks}
    (h : onBlocks f s = .error er s') :
    ∃ b, f s.blocks = (.error er, b) ∧ s' = { s with blocks := b } := by
  unfold onBlocks at h
  split at h
  · cases h
  · rename_i e b hf
    cases h
    exact ⟨b, hf, rfl⟩

lemma write_ok {block : List UInt8} {r : ContentHash × BlockLocation}
    (h : onBlocks (Blocks.writeBlock sha256 o.device block) s = .ok r s') :
    r.1 = sha256 block ∧ ∃ b, Blocks.Wrote sha256 block s.blocks b ∧ s' = { s with blocks := b } := by
  obtain ⟨b, hf, rfl⟩ := onBlocks_ok h
  obtain ⟨hr, hw⟩ := Blocks.writeBlock_ok hf
  exact ⟨hr, b, hw, rfl⟩

lemma write_error {block : List UInt8}
    (h : onBlocks (Blocks.writeBlock sha256 o.device block) s = .error er s') : s' = s := by
  obtain ⟨b, hf, rfl⟩ := onBlocks_error h
  rw [Blocks.writeBlock_error hf]

lemma getObject_eq (id : ObjectId) (s : Store) : getObject id s =
    match s.objects.get id with
    | some obj => .ok obj s
    | none => .error .objectNotFound s := by
  unfold getObject
  change (match s.objects.get id with | some obj => pure obj | none => throw .objectNotFound :
    StoreM CompactObject) s = _
  cases s.objects.get id <;> rfl

lemma getObject_ok {obj : CompactObject} (h : getObject id s = .ok obj s') :
    s' = s ∧ s.objects.get id = some obj := by
  rw [getObject_eq] at h
  cases ho : s.objects.get id with
  | some obj' => rw [ho] at h; cases h; exact ⟨rfl, rfl⟩
  | none => rw [ho] at h; cases h

lemma getObject_error (h : getObject id s = .error er s') : s' = s ∧ s.objects.get id = none := by
  rw [getObject_eq] at h
  cases ho : s.objects.get id with
  | some obj' => rw [ho] at h; cases h
  | none => rw [ho] at h; cases h; exact ⟨rfl, rfl⟩

lemma checkQuota_eq (spaceId : SpaceId) (bytes : ℕ) (s : Store) : checkQuota spaceId bytes s =
    match SpaceTable.get s.spaces spaceId with
    | none => .error .spaceNotFound s
    | some space =>
      if space.wouldExceedQuota bytes then .error .quotaExceeded s else .ok () s := by
  unfold checkQuota
  change (match SpaceTable.get s.spaces spaceId with
    | none => throw .spaceNotFound
    | some space => if space.wouldExceedQuota bytes then throw .quotaExceeded else pure () :
      StoreM Unit) s = _
  cases SpaceTable.get s.spaces spaceId with
  | none => rfl
  | some space =>
    dsimp only
    cases space.wouldExceedQuota bytes <;> rfl

lemma checkQuota_ok {spaceId : SpaceId} {bytes : ℕ} (h : checkQuota spaceId bytes s = .ok () s') :
    s' = s ∧ ∃ space, SpaceTable.get s.spaces spaceId = some space ∧
      space.wouldExceedQuota bytes = false := by
  rw [checkQuota_eq] at h
  cases hs : SpaceTable.get s.spaces spaceId with
  | none => rw [hs] at h; cases h
  | some space =>
    rw [hs] at h
    cases hq : space.wouldExceedQuota bytes with
    | true => simp [hq] at h
    | false =>
      simp only [hq] at h
      cases h
      exact ⟨rfl, space, rfl, hq⟩

lemma checkQuota_error {spaceId : SpaceId} {bytes : ℕ}
    (h : checkQuota spaceId bytes s = .error er s') : s' = s := by
  rw [checkQuota_eq] at h
  cases hs : SpaceTable.get s.spaces spaceId with
  | none => rw [hs] at h; cases h; rfl
  | some space =>
    rw [hs] at h
    cases hq : space.wouldExceedQuota bytes with
    | true => simp only [hq] at h; cases h; rfl
    | false => simp [hq] at h

lemma insertObject_ok {obj : CompactObject} (h : insertObject obj s = .ok () s') :
    s.objects.size < objectIndexMaxEntries ∧ s.objects.get obj.id = none ∧
      s' = { s with objects := s.objects.insert obj.id obj } := by
  unfold insertObject ObjectIndex.add at h
  split_ifs at h with hsize hsome
  cases h
  exact ⟨by omega, by simpa using hsome, rfl⟩

lemma insertObject_error {obj : CompactObject} (h : insertObject obj s = .error er s') :
    s' = s := by
  unfold insertObject ObjectIndex.add at h
  split_ifs at h <;> cases h <;> rfl

/-! ### Operations -/

structure Idle (sha256 : List UInt8 → ContentHash) (s s' : Store) : Prop where
  blocks : Blocks.Grown sha256 s.blocks s'.blocks
  objects : s'.objects = s.objects
  spaces : s'.spaces = s.spaces
  spaceCounter : s'.spaceCounter = s.spaceCounter

lemma Idle.refl (s : Store) : Idle sha256 s s := ⟨.refl _, rfl, rfl, rfl⟩

section Create

variable {spaceId : SpaceId} {name content : List UInt8} {contentType : ContentType}

def created (s : Store) (o : Outside) (spaceId : SpaceId) (name content : List UInt8)
    (contentType : ContentType) (sha256 : List UInt8 → ContentHash) (b : Blocks) : Store :=
  let id := idOf o.idTick s.objectCounter
  let version := createdVersion sha256 o id (sha256 content) content
  { s with
    blocks := b
    objects := s.objects.insert id (createdObject o id spaceId name content contentType
      (sha256 content) (sha256 version.encode))
    spaces := SpaceTable.modify s.spaces spaceId (charge content.length)
    objectCounter := s.objectCounter + 1 }

lemma objectCreate_ok {r : ObjectId × ContentHash}
    (h : objectCreate sha256 o spaceId name content contentType s = .ok r s') :
    ∃ b1 b2 space, SpaceTable.get s.spaces spaceId = some space ∧
    space.wouldExceedQuota content.length = false ∧ r =
    (idOf o.idTick s.objectCounter, sha256 content) ∧ Blocks.Wrote sha256 content s.blocks b1 ∧
    Blocks.Wrote sha256 (createdVersion sha256 o r.1 (sha256 content) content).encode b1 b2 ∧
    s.objects.size < objectIndexMaxEntries ∧ s.objects.get r.1 = none ∧ s' =
    created s o spaceId name content contentType sha256 b2 := by
  unfold objectCreate at h
  obtain ⟨_, s1, hq, h1⟩ := bind_ok h
  obtain ⟨rfl, space, hspace, hquota⟩ := checkQuota_ok hq
  obtain ⟨⟨hash, loc⟩, s2, hw1, h2⟩ := bind_ok h1
  obtain ⟨hhash, b1, hwrote1, rfl⟩ := write_ok hw1
  obtain ⟨id, s3, hid, h3⟩ := bind_ok h2
  cases hid
  obtain ⟨⟨head, loc'⟩, s4, hw2, h4⟩ := bind_ok h3
  obtain ⟨hhead, b2, hwrote2, rfl⟩ := write_ok hw2
  obtain ⟨_, s5, hins, h5⟩ := bind_ok h4
  obtain ⟨hsize, hnone, rfl⟩ := insertObject_ok hins
  cases h5
  dsimp only at hhash hhead
  subst hhash hhead
  exact ⟨b1, b2, space, hspace, hquota, rfl, hwrote1, hwrote2, hsize, hnone, rfl⟩

lemma objectCreate_error
    (h : objectCreate sha256 o spaceId name content contentType s = .error er s') :
    Idle sha256 s s' := by
  unfold objectCreate at h
  rcases bind_error h with hq | ⟨_, s1, hq, h1⟩
  · rw [checkQuota_error hq]
    exact .refl s
  obtain ⟨rfl, -⟩ := checkQuota_ok hq
  rcases bind_error h1 with hw | ⟨r, s2, hw1, h2⟩
  · rw [write_error hw]
    exact .refl _
  obtain ⟨-, b1, hwrote1, rfl⟩ := write_ok hw1
  rcases bind_error h2 with hid | ⟨id, s3, hid, h3⟩
  · cases hid
  cases hid
  rcases bind_error h3 with hw | ⟨r', s4, hw2, h4⟩
  · rw [write_error hw]
    exact ⟨hwrote1.grown, rfl, rfl, rfl⟩
  obtain ⟨-, b2, hwrote2, rfl⟩ := write_ok hw2
  rcases bind_error h4 with hins | ⟨_, s5, -, h5⟩
  · rw [insertObject_error hins]
    exact ⟨hwrote1.grown.trans hwrote2.grown, rfl, rfl, rfl⟩
  · cases h5

end Create

section Change

variable {content author message : List UInt8} {target : ContentHash}

def updateVersion (sha256 : List UInt8 → ContentHash) (o : Outside) (id : ObjectId)
    (head : ContentHash) (content author message : List UInt8) : Version :=
  newVersion sha256 head (sha256 content) (UInt32.ofNat content.length) id o.tick author message

def advanced (s : Store) (id : ObjectId) (sha256 : List UInt8 → ContentHash) (v : Version)
    (b : Blocks) : Store :=
  { s with blocks := b, objects := s.objects.adjust id (advance (sha256 v.encode) v) }

lemma objectUpdate_ok {r : ContentHash}
    (h : objectUpdate sha256 o id content author message s = .ok r s') :
    ∃ obj b1 b2, s.objects.get id = some obj ∧ r = sha256 content ∧
      Blocks.Wrote sha256 content s.blocks b1 ∧
      Blocks.Wrote sha256
        (updateVersion sha256 o id obj.versionHead content author message).encode b1 b2 ∧
      s' = s.advanced id sha256 (updateVersion sha256 o id obj.versionHead content author message)
        b2 := by
  unfold objectUpdate at h
  obtain ⟨obj, s1, hobj, h1⟩ := bind_ok h
  obtain ⟨rfl, hget⟩ := getObject_ok hobj
  obtain ⟨⟨hash, loc⟩, s2, hw1, h2⟩ := bind_ok h1
  obtain ⟨hhash, b1, hwrote1, rfl⟩ := write_ok hw1
  obtain ⟨⟨head, loc'⟩, s3, hw2, h3⟩ := bind_ok h2
  obtain ⟨hhead, b2, hwrote2, rfl⟩ := write_ok hw2
  cases h3
  dsimp only at hhash hhead
  subst hhash hhead
  exact ⟨obj, b1, b2, hget, rfl, hwrote1, hwrote2, rfl⟩

lemma objectUpdate_error (h : objectUpdate sha256 o id content author message s = .error er s') :
    Idle sha256 s s' := by
  unfold objectUpdate at h
  rcases bind_error h with hobj | ⟨obj, s1, hobj, h1⟩
  · rw [(getObject_error hobj).1]
    exact .refl s
  obtain ⟨rfl, -⟩ := getObject_ok hobj
  rcases bind_error h1 with hw | ⟨r, s2, hw1, h2⟩
  · rw [write_error hw]
    exact .refl _
  obtain ⟨-, b1, hwrote1, rfl⟩ := write_ok hw1
  rcases bind_error h2 with hw | ⟨r', s3, -, h3⟩
  · rw [write_error hw]
    exact ⟨hwrote1.grown, rfl, rfl, rfl⟩
  · cases h3

lemma versionRollback_ok {r : ContentHash}
    (h : versionRollback sha256 o id target s = .ok r s') :
    ∃ obj old b1, s.objects.get id = some obj ∧
      rollbackTarget s id obj.versionHead target = .ok old ∧
      Blocks.Wrote sha256 (rollbackVersion sha256 o id obj.versionHead old).encode s.blocks b1 ∧
      b1.memtable.get old.contentHash ≠ none ∧
      s' = s.advanced id sha256 (rollbackVersion sha256 o id obj.versionHead old)
        { b1 with memtable := b1.memtable.bump old.contentHash } := by
  unfold versionRollback at h
  obtain ⟨obj, s1, hobj, h1⟩ := bind_ok h
  obtain ⟨rfl, hget⟩ := getObject_ok hobj
  obtain ⟨_, s2, hst, h2⟩ := bind_ok h1
  cases hst
  cases hold : rollbackTarget s1 id obj.versionHead target with
  | error e => rw [hold] at h2; cases h2
  | ok old =>
    simp only [hold] at h2
    obtain ⟨⟨head, loc⟩, s3, hw1, h3⟩ := bind_ok h2
    obtain ⟨hhead, b1, hwrote, rfl⟩ := write_ok hw1
    obtain ⟨_, s4, hinc, h4⟩ := bind_ok h3
    obtain ⟨b2, hb2, rfl⟩ := onBlocks_ok hinc
    obtain ⟨hpres, rfl⟩ := Blocks.incRef_ok hb2
    cases h4
    dsimp only at hhead
    subst hhead
    exact ⟨obj, old, b1, hget, hold, hwrote, hpres, rfl⟩

lemma versionRollback_error (h : versionRollback sha256 o id target s = .error er s') :
    Idle sha256 s s' := by
  unfold versionRollback at h
  rcases bind_error h with hobj | ⟨obj, s1, hobj, h1⟩
  · rw [(getObject_error hobj).1]
    exact .refl s
  obtain ⟨rfl, -⟩ := getObject_ok hobj
  rcases bind_error h1 with hst | ⟨_, s2, hst, h2⟩
  · cases hst
  cases hst
  cases hold : rollbackTarget s1 id obj.versionHead target with
  | error e => rw [hold] at h2; cases h2; exact .refl _
  | ok old =>
    simp only [hold] at h2
    rcases bind_error h2 with hw | ⟨r, s3, hw1, h3⟩
    · rw [write_error hw]
      exact .refl _
    obtain ⟨-, b1, hwrote, rfl⟩ := write_ok hw1
    rcases bind_error h3 with hinc | ⟨_, s4, -, h4⟩
    · obtain ⟨b2, hb2, rfl⟩ := onBlocks_error hinc
      rw [Blocks.incRef_error hb2]
      exact ⟨hwrote.grown, rfl, rfl, rfl⟩
    · cases h4

lemma objectDelete_ok (h : objectDelete id s = .ok () s') :
    ∃ obj, s.objects.get id = some obj ∧
      s' = { s with
        objects := s.objects.erase id
        blocks := releaseChain maxDepth obj.versionHead s.blocks
        spaces := SpaceTable.modify s.spaces obj.spaceId (refund obj.contentSize.toNat) } := by
  unfold objectDelete at h
  obtain ⟨obj, s1, hobj, h1⟩ := bind_ok h
  obtain ⟨rfl, hget⟩ := getObject_ok hobj
  cases h1
  exact ⟨obj, hget, rfl⟩

lemma objectDelete_error (h : objectDelete id s = .error er s') : s' = s := by
  unfold objectDelete at h
  rcases bind_error h with hobj | ⟨obj, s1, -, h1⟩
  · exact (getObject_error hobj).1
  · cases h1

end Change

section Spaces

variable {name : List UInt8} {zone : SecurityZone} {quota : SpaceQuota}

def newSpace (o : Outside) (id : SpaceId) (name : List UInt8) (zone : SecurityZone)
    (quota : SpaceQuota) : Space where
  id := id
  name := ByteBuf.ofBytes maxSpaceNameLen name
  createdAt := o.tick
  modifiedAt := o.tick
  quotaMaxBytes := quota.maxBytes
  totalSize := 0
  objectCount := 0
  quotaMaxObjects := quota.maxObjects
  securityZone := zone

lemma spaceCreate_ok {r : SpaceId} (h : spaceCreate o name zone quota s = .ok r s') :
    ∃ k, s.spaces.firstFree = some k ∧ s' = { s with
      spaces := Function.update s.spaces k
        (some (newSpace o (idOf o.idTick s.spaceCounter) name zone quota))
      spaceCounter := s.spaceCounter + 1 } := by
  unfold spaceCreate at h
  obtain ⟨id, s1, hid, h1⟩ := bind_ok h
  cases hid
  obtain ⟨s2, s3, hst, h2⟩ := bind_ok h1
  cases hst
  cases hfree : s.spaces.firstFree with
  | none => simp only [hfree] at h2; cases h2
  | some k =>
    simp only [hfree] at h2
    cases h2
    exact ⟨k, rfl, rfl⟩

lemma spaceCreate_error (h : spaceCreate o name zone quota s = .error er s') :
    s.spaces.firstFree = none ∧ s' = { s with spaceCounter := s.spaceCounter + 1 } := by
  unfold spaceCreate at h
  rcases bind_error h with hid | ⟨id, s1, hid, h1⟩
  · cases hid
  cases hid
  rcases bind_error h1 with hst | ⟨s2, s3, hst, h2⟩
  · cases hst
  cases hst
  cases hfree : s.spaces.firstFree with
  | none => simp only [hfree] at h2; cases h2; exact ⟨rfl, rfl⟩
  | some k => simp only [hfree] at h2; cases h2

end Spaces

/-! ### Calls -/

/-- **What a call does.** One case for each call that succeeds, and one for those that fail. -/
inductive Did (sha256 : List UInt8 → ContentHash) (s : Store) : Act → Store → Prop
  | failed {a s'} (hno : succeeds sha256 s a = false) (h : Idle sha256 s s') : Did sha256 s a s'
  | noSpace {o name zone quota} (hfull : s.spaces.firstFree = none) :
    Did sha256 s (.spaceCreate o name zone quota) { s with spaceCounter := s.spaceCounter + 1 }
  | space {o name zone quota k} (hfree : s.spaces.firstFree = some k) :
    Did sha256 s (.spaceCreate o name zone quota) { s with
      spaces := Function.update s.spaces k
        (some (newSpace o (idOf o.idTick s.spaceCounter) name zone quota))
      spaceCounter := s.spaceCounter + 1 }
  | create {o spaceId name content contentType b₁ b₂ space}
    (hspace : SpaceTable.get s.spaces spaceId = some space)
    (hquota : space.wouldExceedQuota content.length = false)
    (hcontent : Blocks.Wrote sha256 content s.blocks b₁)
    (hversion : Blocks.Wrote sha256 (createdVersion sha256 o (idOf o.idTick s.objectCounter)
      (sha256 content) content).encode b₁ b₂)
    (hsize : s.objects.size < objectIndexMaxEntries)
    (hnew : s.objects.get (idOf o.idTick s.objectCounter) = none) :
    Did sha256 s (.objectCreate o spaceId name content contentType)
      (created s o spaceId name content contentType sha256 b₂)
  | update {o id content author message obj b₁ b₂} (hobj : s.objects.get id = some obj)
    (hcontent : Blocks.Wrote sha256 content s.blocks b₁)
    (hversion : Blocks.Wrote sha256
      (updateVersion sha256 o id obj.versionHead content author message).encode b₁ b₂) :
    Did sha256 s (.objectUpdate o id content author message)
      (s.advanced id sha256 (updateVersion sha256 o id obj.versionHead content author message) b₂)
  | rollback {o id target obj old b₁} (hobj : s.objects.get id = some obj)
    (hold : rollbackTarget s id obj.versionHead target = .ok old)
    (hversion : Blocks.Wrote sha256
      (rollbackVersion sha256 o id obj.versionHead old).encode s.blocks b₁)
    (hcontent : b₁.memtable.get old.contentHash ≠ none) :
    Did sha256 s (.versionRollback o id target)
      (s.advanced id sha256 (rollbackVersion sha256 o id obj.versionHead old)
        { b₁ with memtable := b₁.memtable.bump old.contentHash })
  | delete {id obj} (hobj : s.objects.get id = some obj) :
    Did sha256 s (.objectDelete id) { s with
      objects := s.objects.erase id
      blocks := releaseChain maxDepth obj.versionHead s.blocks
      spaces := SpaceTable.modify s.spaces obj.spaceId (refund obj.contentSize.toNat) }

lemma next_did (sha256 : List UInt8 → ContentHash) (s : Store) (a : Act) :
    Did sha256 s a (next sha256 s a) := by
  unfold next
  cases hr : call sha256 a s with
  | ok u s' =>
    change Did sha256 s a s'
    cases a with
    | spaceCreate o name zone quota =>
      obtain ⟨r, s1, h1, h2⟩ := bind_ok hr
      cases h2
      obtain ⟨k, hfree, rfl⟩ := spaceCreate_ok h1
      exact .space hfree
    | objectCreate o spaceId name content contentType =>
      obtain ⟨r, s1, h1, h2⟩ := bind_ok hr
      cases h2
      obtain ⟨b1, b2, space, hspace, hquota, rfl, hc, hv, hsize, hnew, rfl⟩ := objectCreate_ok h1
      exact .create hspace hquota hc hv hsize hnew
    | objectUpdate o id content author message =>
      obtain ⟨r, s1, h1, h2⟩ := bind_ok hr
      cases h2
      obtain ⟨obj, b1, b2, hobj, -, hc, hv, rfl⟩ := objectUpdate_ok h1
      exact .update hobj hc hv
    | versionRollback o id target =>
      obtain ⟨r, s1, h1, h2⟩ := bind_ok hr
      cases h2
      obtain ⟨obj, old, b1, hobj, hold, hv, hc, rfl⟩ := versionRollback_ok h1
      exact .rollback hobj hold hv hc
    | objectDelete id =>
      obtain ⟨obj, hobj, rfl⟩ := objectDelete_ok hr
      exact .delete hobj
  | error er s' =>
    have hno : succeeds sha256 s a = false := by rw [succeeds, hr]; rfl
    change Did sha256 s a s'
    cases a with
    | spaceCreate o name zone quota =>
      rcases bind_error hr with h1 | ⟨r, s1, -, h2⟩
      · obtain ⟨hfull, rfl⟩ := spaceCreate_error h1
        exact .noSpace hfull
      · cases h2
    | objectCreate o spaceId name content contentType =>
      rcases bind_error hr with h1 | ⟨r, s1, -, h2⟩
      · exact .failed hno (objectCreate_error h1)
      · cases h2
    | objectUpdate o id content author message =>
      rcases bind_error hr with h1 | ⟨r, s1, -, h2⟩
      · exact .failed hno (objectUpdate_error h1)
      · cases h2
    | versionRollback o id target =>
      rcases bind_error hr with h1 | ⟨r, s1, -, h2⟩
      · exact .failed hno (versionRollback_error h1)
      · cases h2
    | objectDelete id =>
      rw [objectDelete_error hr]
      exact .failed hno (.refl s)

/-! ### Blocks over calls -/

lemma releaseChain_written (n : ℕ) (h : ContentHash) (b : Blocks) :
    (releaseChain n h b).written = b.written := by
  induction n generalizing h b with
  | zero => rfl
  | succ n ih =>
    unfold releaseChain
    split
    · rw [ih, Blocks.decRef_eq, Blocks.decRef_eq]
    · rfl

lemma releaseChain_ok (n : ℕ) (h : ContentHash) {b : Blocks} (hok : b.Ok sha256) :
    (releaseChain n h b).Ok sha256 := by
  induction n generalizing h b with
  | zero => exact hok
  | succ n ih =>
    unfold releaseChain
    split
    · exact ih _ ((hok.decRef _).decRef _)
    · exact hok

lemma blocks_next (sha256 : List UInt8 → ContentHash) (s : Store) (a : Act) :
    (s.blocks.Ok sha256 → (next sha256 s a).blocks.Ok sha256) ∧
      s.blocks.written ⊆ (next sha256 s a).blocks.written := by
  have hdid := next_did sha256 s a
  generalize Store.next sha256 s a = t at hdid ⊢
  cases hdid with
  | failed hno hidle => exact ⟨hidle.blocks.ok, hidle.blocks.written.subset⟩
  | noSpace hfull => exact ⟨fun h => h, List.Subset.refl _⟩
  | space hfree => exact ⟨fun h => h, List.Subset.refl _⟩
  | create hspace hquota hcontent hversion hsize hnew =>
    have hgrown := hcontent.grown.trans hversion.grown
    exact ⟨hgrown.ok, hgrown.written.subset⟩
  | update hobj hcontent hversion =>
    have hgrown := hcontent.grown.trans hversion.grown
    exact ⟨hgrown.ok, hgrown.written.subset⟩
  | rollback hobj hold hversion hcontent =>
    exact ⟨fun h => (hversion.ok h).bump _, hversion.grown.written.subset⟩
  | delete hobj =>
    refine ⟨releaseChain_ok _ _, ?_⟩
    dsimp only
    rw [releaseChain_written]
    exact List.Subset.refl _

end Store

/-! ### An environment to run the store in -/

def Outside.at (tick : UInt64) : Outside := ⟨tick, tick, fun _ => .ok ⟨0, 0, .hot⟩⟩

def stampHash (l : List UInt8) : ContentHash :=
  if l.length = Version.size then ContentHash.ofBytes (1 :: (l.drop 240).take 8)
  else ContentHash.ofBytes (2 :: l)

end Aios.Storage
