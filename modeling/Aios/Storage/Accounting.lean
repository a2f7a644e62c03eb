import Aios.Storage.Spaces

/-!
Space accounting: the running totals of a space against its objects.

`object_create` and `object_delete` keep the totals; `object_update` and `version_rollback` change
the size of an object and leave them, so that the totals are right as long as neither changes a
size.
-/

namespace Aios.Storage

open Aios.Lib SortedTable Slots Option

namespace Store

open SpaceTable

variable {sha256 : List UInt8 → ContentHash} {s s' : Store}

def sizeOf (s : Store) (spaceId : SpaceId) : ℕ :=
  s.objects.total fun _ obj => if obj.spaceId = spaceId then obj.contentSize.toNat else 0

def countOf (s : Store) (spaceId : SpaceId) : ℕ :=
  s.objects.total fun _ obj => if obj.spaceId = spaceId then 1 else 0

structure Consistent (s : Store) : Prop where
  counts : ∀ k sp, s.spaces k = some sp → sp.objectCount = s.countOf sp.id
  owned : ∀ id obj, s.objects.get id = some obj → ∃ k sp, s.spaces k = some sp ∧ sp.id = obj.spaceId

structure Orderly (s : Store) : Prop extends Consistent s where
  few : s.objects.size ≤ objectIndexMaxEntries
  distinct : ∀ k k' sp sp', s.spaces k = some sp → s.spaces k' = some sp' → sp.id = sp'.id → k = k'

lemma start_orderly : start.Orderly :=
  ⟨⟨fun _ _ h => (by cases h), fun _ _ h => (by cases h)⟩, Nat.zero_le _,
    fun _ _ _ _ h => (by cases h)⟩

lemma countOf_le (s : Store) (id : SpaceId) : s.countOf id ≤ s.objects.size := by
  refine (total_le (c := 1) _ fun _ obj _ => ?_).trans (by omega)
  split_ifs <;> omega

variable {k : Fin maxSpaces} {spaceId : SpaceId} {id : ObjectId} {sp : Space} {obj : CompactObject}
  {name : List UInt8}

lemma Consistent.countOf_eq_zero (h : s.Consistent)
    (hno : ∀ k sp, s.spaces k = some sp → sp.id ≠ spaceId) : s.countOf spaceId = 0 := by
  refine Nat.le_zero.mp ((total_le (c := 0) _ fun id obj hobj => ?_).trans (by simp))
  obtain ⟨k, sp, hsp, hid⟩ := h.owned id obj hobj
  rw [if_neg fun heq => hno k sp hsp (hid.trans heq)]

namespace Orderly

section

variable (h : s.Orderly)
include h

lemma congr (hobjects : s'.objects = s.objects) (hspaces : s'.spaces = s.spaces) : s'.Orderly := by
  have hcount : ∀ id, s'.countOf id = s.countOf id := fun id => by unfold countOf; rw [hobjects]
  refine ⟨⟨fun k sp hsp => ?_, ?_⟩, ?_, ?_⟩
  · rw [hspaces] at hsp
    exact (h.counts k sp hsp).trans (hcount _).symm
  · rw [hobjects, hspaces]
    exact h.owned
  · rw [hobjects]
    exact h.few
  · rw [hspaces]
    exact h.distinct

lemma modify_some {f : Space → Space} {sp' : Space}
    (hk : SpaceTable.modify s.spaces spaceId f k = some sp') : ∃ sp, s.spaces k = some sp ∧
    (sp.id = spaceId ∧ sp' = f sp ∨ sp.id ≠ spaceId ∧ sp' = sp) := by
  rw [modify_apply] at hk
  split_ifs at hk with hi
  · obtain ⟨sp, hsp, rfl⟩ := map_eq_some_iff.mp hk
    obtain ⟨sp2, hsp2, hid⟩ := index_some hi
    rw [hsp] at hsp2
    cases hsp2
    exact ⟨sp, hsp, .inl ⟨hid, rfl⟩⟩
  · refine ⟨sp', hk, .inr ⟨fun hid => ?_, rfl⟩⟩
    -- the index finds the one slot with this id
    obtain ⟨j, hj⟩ := ne_none_iff_exists'.mp (index_ne_none hk)
    rw [hid] at hj
    obtain ⟨sp2, hsp2, hid2⟩ := index_some hj
    exact hi (h.distinct k j sp' sp2 hk hsp2 (hid.trans hid2.symm) ▸ hj)

lemma modify (spaceId : SpaceId) (f : Space → Space) (hf : ∀ sp, (f sp).id = sp.id)
    (hspaces : s'.spaces = SpaceTable.modify s.spaces spaceId f)
    (hcount : ∀ k sp, s.spaces k = some sp → sp.id = spaceId →
      (f sp).objectCount = s'.countOf spaceId)
    (hother : ∀ id, id ≠ spaceId → s'.countOf id = s.countOf id)
    (howned : ∀ id obj, s'.objects.get id = some obj → ∃ k sp, s.spaces k = some sp ∧
      sp.id = obj.spaceId)
    (hfew : s'.objects.size ≤ objectIndexMaxEntries) : s'.Orderly := by
  -- every space is still in its slot, and those with the id have the new count
  have hspace : ∀ k sp', s'.spaces k = some sp' → ∃ sp, s.spaces k = some sp ∧ sp'.id = sp.id ∧
      sp'.objectCount = s'.countOf sp.id := by
    intro k sp' hk
    rw [hspaces] at hk
    obtain ⟨sp, hsp, ⟨hid, rfl⟩ | ⟨hid, rfl⟩⟩ := h.modify_some hk
    · exact ⟨sp, hsp, hf sp, (hcount k sp hsp hid).trans (by rw [hid])⟩
    · exact ⟨sp', hsp, rfl, (h.counts k sp' hsp).trans (hother _ hid).symm⟩
  have hstays : ∀ k sp, s.spaces k = some sp → ∃ sp', s'.spaces k = some sp' ∧ sp'.id = sp.id := by
    intro k sp hsp
    rw [hspaces, modify_apply, hsp]
    split_ifs
    · exact ⟨f sp, rfl, hf sp⟩
    · exact ⟨sp, rfl, rfl⟩
  refine ⟨⟨fun k sp' hk => ?_, fun id obj hobj => ?_⟩, hfew, fun k k' sp sp' hk hk' hid => ?_⟩
  · obtain ⟨sp, -, hid, hc⟩ := hspace k sp' hk
    rw [hc, hid]
  · obtain ⟨k, sp, hsp, hid⟩ := howned id obj hobj
    obtain ⟨sp', hsp', hid'⟩ := hstays k sp hsp
    exact ⟨k, sp', hsp', hid'.trans hid⟩
  · obtain ⟨sp1, hsp1, hid1, -⟩ := hspace k sp hk
    obtain ⟨sp2, hsp2, hid2, -⟩ := hspace k' sp' hk'
    exact h.distinct k k' sp1 sp2 hsp1 hsp2 (hid1.symm.trans (hid.trans hid2))

lemma space {o : Outside} {zone : SecurityZone} {quota : SpaceQuota}
    (hfree : s.spaces.firstFree = some k)
    (hnew : ∀ k sp, s.spaces k = some sp → sp.id ≠ idOf o.idTick s.spaceCounter) :
    Orderly { s with
      spaces := Function.update s.spaces k
        (some (newSpace o (idOf o.idTick s.spaceCounter) name zone quota))
      spaceCounter := s.spaceCounter + 1 } := by
  have hk : s.spaces k = none := firstFree_some hfree
  refine ⟨⟨fun j sp hsp => ?_, fun id obj hobj => ?_⟩, h.few, fun j j' sp sp' hsp hsp' hid => ?_⟩
  · rcases update_eq_some.mp hsp with ⟨-, hsome⟩ | ⟨-, hold⟩
    · cases hsome
      exact (h.countOf_eq_zero hnew).symm
    · exact h.counts j sp hold
  · obtain ⟨j, sp, hsp, hid⟩ := h.owned id obj hobj
    refine ⟨j, sp, update_eq_some.mpr (.inr ⟨?_, hsp⟩), hid⟩
    rintro rfl
    rw [hk] at hsp
    cases hsp
  · rcases update_eq_some.mp hsp with ⟨hj, hsome⟩ | ⟨-, hold⟩ <;>
      rcases update_eq_some.mp hsp' with ⟨hj', hsome'⟩ | ⟨-, hold'⟩
    · rw [hj, hj']
    · cases hsome
      exact absurd hid.symm (hnew j' sp' hold')
    · cases hsome'
      exact absurd hid (hnew j sp hold)
    · exact h.distinct j j' sp sp' hold hold' hid

lemma create {o : Outside} {spaceId : SpaceId} {content : List UInt8} {contentType : ContentType}
    {space : Space} {b : Blocks} (hspace : SpaceTable.get s.spaces spaceId = some space)
    (hsize : s.objects.size < objectIndexMaxEntries)
    (hnew : s.objects.get (idOf o.idTick s.objectCounter) = none) :
    (created s o spaceId name content contentType sha256 b).Orderly := by
  obtain ⟨k0, -, hk0, hid0⟩ := SpaceTable.get_some hspace
  have hct : ∀ id, (created s o spaceId name content contentType sha256 b).countOf id
      = s.countOf id + if spaceId = id then 1 else 0 := by
    intro id
    unfold countOf created
    rw [total_insert _ hnew]
    rfl
  refine h.modify spaceId (charge content.length) (fun _ => rfl) rfl (fun k sp hsp hid => ?_)
    (fun id hne => ?_) (fun id obj hobj => ?_) ?_
  · change (sp.objectCount + 1) % 2 ^ 32 = _
    have hle := countOf_le s sp.id
    unfold objectIndexMaxEntries at hsize
    rw [hct, h.counts k sp hsp, if_pos rfl, ← hid]
    omega
  · rw [hct, if_neg (Ne.symm hne), Nat.add_zero]
  · simp only [created, get_insert] at hobj
    split_ifs at hobj
    · cases hobj
      exact ⟨k0, space, hk0, hid0⟩
    · exact h.owned id obj hobj
  · change (s.objects.insert _ _).size ≤ _
    rw [size_insert hnew]
    exact hsize

lemma advance {id : ObjectId} {v : Version} {b : Blocks}
    (hobj : s.objects.get id = some obj) : (s.advanced id sha256 v b).Orderly := by
  have hct : ∀ i, (s.advanced id sha256 v b).countOf i = s.countOf i := by
    intro i
    have := total_adjust
      (fun _ (obj : CompactObject) => if obj.spaceId = i then 1 else 0)
      (Store.advance (sha256 v.encode) v) hobj
    simp only [Store.advance] at this
    exact Nat.add_right_cancel this
  refine ⟨⟨fun k sp hsp => (h.counts k sp hsp).trans (hct _).symm, fun i obj' hget => ?_⟩, ?_,
    h.distinct⟩
  · simp only [advanced, get_adjust] at hget
    split_ifs at hget with hi
    · obtain ⟨obj0, hobj0, rfl⟩ := map_eq_some_iff.mp hget
      exact h.owned i obj0 hobj0
    · exact h.owned i obj' hget
  · exact (size_adjust id _).le.trans h.few

lemma delete {id : ObjectId} (hobj : s.objects.get id = some obj) :
    Orderly { s with
      objects := s.objects.erase id
      blocks := releaseChain maxDepth obj.versionHead s.blocks
      spaces := SpaceTable.modify s.spaces obj.spaceId (refund obj.contentSize.toNat) } := by
  have hct : ∀ i, (s.objects.erase id).total (fun _ obj => if obj.spaceId = i then 1 else 0)
      + (if obj.spaceId = i then 1 else 0) = s.countOf i :=
    fun i => total_erase _ hobj
  refine h.modify obj.spaceId (refund obj.contentSize.toNat) (fun _ => rfl) rfl
    (fun k sp hsp hid => ?_) (fun i hne => ?_) (fun i obj' hget => ?_) ?_
  · have hc := hct sp.id
    rw [if_pos hid.symm, hid] at hc
    change sp.objectCount - 1 = SortedTable.total _ _
    rw [h.counts k sp hsp, hid, ← hc, Nat.add_sub_cancel]
  · have hc := hct i
    rwa [if_neg (Ne.symm hne), Nat.add_zero] at hc
  · simp only [get_erase] at hget
    split_ifs at hget
    exact h.owned i obj' hget
  · exact (size_erase_le id).trans h.few

lemma next {a : Act}
    (hnew : ∀ k o name zone quota, s.spaces.firstFree = some k → a = .spaceCreate o name zone quota →
      ∀ j sp, s.spaces j = some sp → sp.id ≠ idOf o.idTick s.spaceCounter) :
    (Store.next sha256 s a).Orderly := by
  have hdid := next_did sha256 s a
  generalize Store.next sha256 s a = t at hdid ⊢
  cases hdid with
  | failed hno hidle => exact h.congr hidle.objects hidle.spaces
  | noSpace hfull => exact h.congr rfl rfl
  | space hfree => exact h.space hfree (hnew _ _ _ _ _ hfree rfl)
  | create hspace hquota hcontent hversion hsize hnone => exact h.create hspace hsize hnone
  | update hobj hcontent hversion => exact h.advance hobj
  | rollback hobj hold hversion hcontent => exact h.advance hobj
  | delete hobj => exact h.delete hobj

end

end Orderly

structure Charged (s : Store) (sp : Space) : Prop where
  size : sp.totalSize = s.sizeOf sp.id
  count : sp.objectCount = s.countOf sp.id
  bytes : sp.totalSize ≤ sp.quotaMaxBytes.toNat
  objects : sp.objectCount ≤ sp.quotaMaxObjects.toNat

structure Accounted (s : Store) : Prop where
  charged : ∀ k sp, s.spaces k = some sp → s.Charged sp
  owned : ∀ id obj, s.objects.get id = some obj → ∃ k sp, s.spaces k = some sp ∧ sp.id = obj.spaceId
  few : s.objects.size ≤ objectIndexMaxEntries
  numbered : Numbered (labels s.spaces) s.spaceCounter

lemma start_accounted : start.Accounted :=
  ⟨fun _ _ h => (by cases h), fun _ _ h => (by cases h), Nat.zero_le _, numbered_empty⟩

lemma Accounted.orderly (h : s.Accounted) : s.Orderly where
  counts k sp hk := (h.charged k sp hk).count
  owned := h.owned
  few := h.few
  distinct k k' _ _ hk hk' := h.numbered.distinct k k' _ _ (labels_some hk) (labels_some hk')

/-- The contents of 16384 objects of less than 4 GiB are far below `2 ^ 64` bytes. -/
lemma Accounted.sizeOf_lt (h : s.Accounted) (id : SpaceId) : s.sizeOf id < 2 ^ 47 := by
  have hle : s.sizeOf id ≤ s.objects.size * 2 ^ 32 := by
    refine total_le _ fun _ obj _ => ?_
    have := obj.contentSize.toNat_lt
    split_ifs <;> omega
  have hfew := h.few
  unfold objectIndexMaxEntries at hfew
  omega

/-- What remains of `Charged` when the objects are counted. -/
def Sized (s : Store) (sp : Space) : Prop :=
  sp.totalSize = s.sizeOf sp.id ∧ sp.totalSize ≤ sp.quotaMaxBytes.toNat ∧
    sp.objectCount ≤ sp.quotaMaxObjects.toNat

lemma Accounted.sized (h : s.Accounted) (hsp : s.spaces k = some sp)
    (hsize : s'.sizeOf sp.id = s.sizeOf sp.id) : s'.Sized sp :=
  ⟨(h.charged k sp hsp).size.trans hsize.symm, (h.charged k sp hsp).bytes,
    (h.charged k sp hsp).objects⟩

lemma Accounted.create (h : s.Accounted) {o : Outside} {name content : List UInt8}
    {contentType : ContentType} {space : Space} {b : Blocks}
    (hspace : SpaceTable.get s.spaces spaceId = some space)
    (hquota : space.wouldExceedQuota content.length = false)
    (hnew : s.objects.get (idOf o.idTick s.objectCounter) = none) (hlen : content.length < 2 ^ 32)
    (hsp : (created s o spaceId name content contentType sha256 b).spaces k = some sp) :
    (created s o spaceId name content contentType sha256 b).Sized sp := by
  have hcs : (UInt32.ofNat content.length).toNat = content.length := by
    rw [UInt32.toNat_ofNat']
    exact Nat.mod_eq_of_lt hlen
  have hsz : ∀ id, (created s o spaceId name content contentType sha256 b).sizeOf id
      = s.sizeOf id + if spaceId = id then content.length else 0 := by
    intro id
    unfold sizeOf created
    rw [total_insert _ hnew]
    simp only [createdObject, hcs]
  obtain ⟨sp0, hsp0, ⟨hid, rfl⟩ | ⟨hid, rfl⟩⟩ := h.orderly.modify_some hsp
  · -- the space is the one whose quota was checked
    obtain ⟨k0, -, hk0, hid0⟩ := SpaceTable.get_some hspace
    obtain rfl : k = k0 := h.orderly.distinct k k0 _ _ hsp0 hk0 (hid.trans hid0.symm)
    rw [hk0] at hsp0
    cases hsp0
    obtain ⟨h1, h2, h3, h4⟩ := h.charged k space hk0
    have hlt := h.sizeOf_lt space.id
    simp only [Space.wouldExceedQuota, Bool.or_eq_false_iff, decide_eq_false_iff_not, not_le,
      not_lt] at hquota
    obtain ⟨hq1, hq2⟩ := hquota
    have hmin : min (space.totalSize + content.length) (2 ^ 64 - 1)
        = space.totalSize + content.length := by omega
    rw [hmin] at hq2
    refine ⟨?_, ?_, ?_⟩
    · change (space.totalSize + content.length) % 2 ^ 64 = _
      rw [hsz, h1, show (charge content.length space).id = space.id from rfl, if_pos hid.symm]
      omega
    · change (space.totalSize + content.length) % 2 ^ 64 ≤ space.quotaMaxBytes.toNat
      omega
    · change (space.objectCount + 1) % 2 ^ 32 ≤ space.quotaMaxObjects.toNat
      omega
  · exact h.sized hsp0 (by rw [hsz, if_neg (Ne.symm hid), add_zero])

lemma Accounted.advance (h : s.Accounted) {v : Version} {b : Blocks}
    (hobj : s.objects.get id = some obj) (hsize : v.contentSize = obj.contentSize)
    (hsp : s.spaces k = some sp) : (s.advanced id sha256 v b).Sized sp := by
  refine h.sized hsp ?_
  have := total_adjust
    (fun _ (obj : CompactObject) => if obj.spaceId = sp.id then obj.contentSize.toNat else 0)
    (Store.advance (sha256 v.encode) v) hobj
  simp only [Store.advance, hsize] at this
  exact Nat.add_right_cancel this

lemma Accounted.delete (h : s.Accounted) (hobj : s.objects.get id = some obj)
    (hobjects : s'.objects = s.objects.erase id)
    (hsp : SpaceTable.modify s.spaces obj.spaceId (refund obj.contentSize.toNat) k = some sp) :
    s'.Sized sp := by
  have hsz : ∀ i, s'.sizeOf i + (if obj.spaceId = i then obj.contentSize.toNat else 0)
      = s.sizeOf i := by
    intro i
    rw [sizeOf, hobjects]
    exact total_erase _ hobj
  obtain ⟨sp0, hsp0, ⟨hid, rfl⟩ | ⟨hid, rfl⟩⟩ := h.orderly.modify_some hsp
  · obtain ⟨h1, h2, h3, h4⟩ := h.charged k sp0 hsp0
    refine ⟨?_, (Nat.sub_le _ _).trans h3, (Nat.sub_le _ _).trans h4⟩
    have hs := hsz sp0.id
    rw [if_pos hid.symm, ← h1] at hs
    change sp0.totalSize - obj.contentSize.toNat = s'.sizeOf sp0.id
    omega
  · exact h.sized hsp0 (by rw [← hsz, if_neg (Ne.symm hid), add_zero])

/-- Calls that keep the sizes of objects: contents are shorter than 4 GiB, and an update or a
rollback gives the object contents of the size it has. -/
def KeepsSizes (s : Store) : Act → Prop
  | .objectCreate _ _ _ content _ => content.length < 2 ^ 32
  | .objectUpdate _ id content _ _ => ∀ obj ∈ s.objects.get id, content.length = obj.contentSize.toNat
  | .versionRollback _ id target => ∀ obj ∈ s.objects.get id,
      ∀ old ∈ (rollbackTarget s id obj.versionHead target).toOption,
        old.contentSize = obj.contentSize
  | _ => True

instance (s : Store) (a : Act) : Decidable (s.KeepsSizes a) := by
  unfold KeepsSizes
  split <;> infer_instance

lemma Accounted.sized_next (h : s.Accounted) {a : Act} (hok : s.KeepsSizes a)
    (hsp : (next sha256 s a).spaces k = some sp) : (next sha256 s a).Sized sp := by
  have hdid := next_did sha256 s a
  generalize Store.next sha256 s a = t at hdid hsp ⊢
  cases hdid with
  | failed hno hidle =>
    rw [hidle.spaces] at hsp
    exact h.sized hsp (by rw [sizeOf, hidle.objects]; rfl)
  | noSpace hfull => exact h.sized hsp rfl
  | @space o _ _ _ _ hfree =>
    rcases update_eq_some.mp hsp with ⟨-, hsome⟩ | ⟨-, hold⟩
    · cases hsome
      -- the id is that of no object's space
      refine ⟨(Nat.le_zero.mp ((total_le (c := 0) _ fun id obj hget => ?_).trans
        (by simp))).symm, Nat.zero_le _, Nat.zero_le _⟩
      obtain ⟨j, sp, hsp, hid⟩ := h.owned id obj hget
      rw [← firstFree_labels] at hfree
      have hfresh := h.numbered.fresh hfree o.idTick (labels_some hsp)
      exact (if_neg fun heq => hfresh (hid.trans heq)).le
    · exact h.sized hold rfl
  | create hspace hquota hcontent hversion hsize hnew => exact h.create hspace hquota hnew hok hsp
  | update hobj hcontent hversion =>
    refine h.advance hobj ?_ hsp
    have hlen := hok _ hobj
    change UInt32.ofNat _ = _
    rw [hlen, UInt32.ofNat_toNat]
  | @rollback o id target obj old b1 hobj hold hversion hcontent =>
    have hmem : old ∈ (rollbackTarget s id obj.versionHead target).toOption := by rw [hold]; rfl
    exact h.advance hobj (hok obj hobj old hmem) hsp
  | delete hobj => exact h.delete hobj rfl hsp

lemma Accounted.next (h : s.Accounted) {a : Act} (hok : s.KeepsSizes a) :
    (next sha256 s a).Accounted := by
  have horderly : (Store.next sha256 s a).Orderly := by
    refine h.orderly.next fun k o name zone quota hfree _ j sp hsp => ?_
    rw [← firstFree_labels] at hfree
    exact h.numbered.fresh hfree o.idTick (labels_some hsp)
  refine ⟨fun k sp hsp => ?_, horderly.owned, horderly.few, (h.numbered.next a).1⟩
  obtain ⟨h1, h2, h3⟩ := h.sized_next hok hsp
  exact ⟨h1, horderly.counts k sp hsp, h2, h3⟩

/-- **Space accounting.** After any sequence of calls, successful or not, in which updates and
rollbacks keep the sizes of objects, the total of every space is the sum over its objects, and the
total and the number of objects are within the quota. -/
theorem spaces_accounted {t : Store}
    (h : Runs (fun a i b => Store.next sha256 a i = b) KeepsSizes start t) {k : Fin maxSpaces}
    {sp : Space} (hsp : t.spaces k = some sp) : sp.totalSize = t.sizeOf sp.id ∧
    sp.totalSize ≤ sp.quotaMaxBytes.toNat ∧ sp.objectCount ≤ sp.quotaMaxObjects.toNat := by
  have hinv : t.Accounted := h.inv Accounted start_accounted fun a i b ha hok hb => by
    subst hb
    exact ha.next hok
  obtain ⟨h1, -, h3, h4⟩ := hinv.charged k sp hsp
  exact ⟨h1, h3, h4⟩


def oneObject : List Act :=
  [.spaceCreate (.at 0) [1] .personal ⟨10, 4⟩,
    .objectCreate (.at 1) (idOf 0 1) [1] [7] .binary]

def sameSizes : List Act :=
  oneObject ++ [.objectUpdate (.at 2) (idOf 1 1) [8] [] [],
    .versionRollback (.at 3) (idOf 1 1)
      (computeVersionHash stampHash .zero (stampHash [7]) 1 (idOf 1 1)),
    .objectCreate (.at 4) (idOf 0 1) [2] [1, 2] .binary]

theorem spaces_accounted_sameSizes : ∃ sp,
    (sameSizes.foldl (Store.next stampHash) start).spaces 0 = some sp ∧ sp.totalSize = 3 ∧
    sp.totalSize = (sameSizes.foldl (Store.next stampHash) start).sizeOf sp.id := by
  have hallowed : Runs.allowed KeepsSizes (Store.next stampHash) start sameSizes = true := by
    decide +kernel
  have hrun : Runs (fun a i b => Store.next stampHash a i = b) KeepsSizes start
      (sameSizes.foldl (Store.next stampHash) start) := Runs.of_foldl (fun _ _ _ => rfl) hallowed
  obtain ⟨sp, hsp, h⟩ := (any_eq_true _ _).mp
    (show (((sameSizes.foldl (Store.next stampHash) start).spaces 0).any
      fun sp => sp.totalSize == 3) = true by decide +kernel)
  exact ⟨sp, hsp, beq_iff_eq.mp h, (spaces_accounted hrun hsp).1⟩

def grownObject : List Act := oneObject ++ [.objectUpdate (.at 2) (idOf 1 1) [8, 8] [] []]

/-- **An update is not charged.** An object of one byte gets two; its space still counts one. -/
theorem update_not_charged : ∃ t sp,
    Runs (fun a i b => Store.next stampHash a i = b)
      (fun s a => succeeds stampHash s a = true) start t ∧
    t.spaces 0 = some sp ∧ sp.totalSize = 1 ∧ t.sizeOf sp.id = 2 := by
  have hallowed : Runs.allowed (fun s a => succeeds stampHash s a = true) (Store.next stampHash)
      start grownObject = true := by decide +kernel
  have hrun : Runs (fun a i b => Store.next stampHash a i = b)
      (fun s a => succeeds stampHash s a = true) start
      (grownObject.foldl (Store.next stampHash) start) := Runs.of_foldl (fun _ _ _ => rfl) hallowed
  obtain ⟨sp, hsp, h⟩ := (any_eq_true _ _).mp
    (show (((grownObject.foldl (Store.next stampHash) start).spaces 0).any fun sp =>
      sp.totalSize == 1 && (grownObject.foldl (Store.next stampHash) start).sizeOf sp.id == 2) =
        true by decide +kernel)
  rw [Bool.and_eq_true, beq_iff_eq, beq_iff_eq] at h
  exact ⟨_, sp, hrun, hsp, h.1, h.2⟩

end Store

end Aios.Storage
