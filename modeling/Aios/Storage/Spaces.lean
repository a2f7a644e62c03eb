import Aios.Storage.ObjectSpec

/-!
The table of spaces over the operations of the store.

What the rest of the store knows a space by is its id and its name. No operation changes the two
or takes a space away; `space_create` puts a new id into a free slot.
-/

namespace Aios.Storage

open Aios.Lib Slots Function List Option

namespace SpaceTable

variable {t : SpaceTable} {id : SpaceId} {k : Fin maxSpaces} {f : Space → Space}

lemma index_some (h : index t id = some k) : ∃ sp, t k = some sp ∧ sp.id = id := by
  have := find?_some h
  obtain ⟨sp, hsp, heq⟩ := (any_eq_true _ _).mp this
  exact ⟨sp, hsp, beq_iff_eq.mp heq⟩

lemma index_ne_none {sp : Space} (h : t k = some sp) : index t sp.id ≠ none := by
  intro hc
  have := find?_eq_none.mp hc k (mem_finRange k)
  simp [h] at this

lemma get_some {sp : Space} (h : get t id = some sp) :
    ∃ k, index t id = some k ∧ t k = some sp ∧ sp.id = id := by
  obtain ⟨k, hk, hsp⟩ := bind_eq_some_iff.mp h
  obtain ⟨sp', hsp', hid⟩ := index_some hk
  rw [hsp] at hsp'
  cases hsp'
  exact ⟨k, hk, hsp, hid⟩

lemma modify_apply (t : SpaceTable) (id : SpaceId) (f : Space → Space) (k : Fin maxSpaces) :
    modify t id f k = if index t id = some k then (t k).map f else t k := by
  unfold modify
  cases hi : index t id with
  | none => simp
  | some j =>
    dsimp only
    by_cases hk : k = j
    · subst hk
      simp
    · rw [update_of_ne hk, if_neg fun hc => hk (Option.some.inj hc).symm]

/-! ### Ids and names -/

abbrev Label := SpaceId × ByteBuf maxSpaceNameLen

def label (sp : Space) : Label := (sp.id, sp.name)

def labels (t : SpaceTable) : Slots maxSpaces Label := fun k => (t k).map label

lemma labels_some {sp : Space} (h : t k = some sp) : labels t k = some (label sp) := by
  rw [labels, h]
  rfl

lemma labels_modify (hf : ∀ sp, label (f sp) = label sp) : labels (modify t id f) = labels t := by
  funext k
  simp only [labels, modify_apply]
  split_ifs
  · rw [Option.map_map]
    exact congrArg (Option.map · (t k)) (funext hf)
  · rfl

lemma firstFree_labels (t : SpaceTable) : (labels t).firstFree = t.firstFree :=
  firstFree_congr fun k => by unfold labels; cases t k <;> rfl

lemma labels_update (t : SpaceTable) (k : Fin maxSpaces) (sp : Space) :
    labels (update t k (some sp)) = update (labels t) k (some (label sp)) := by
  funext j
  by_cases hj : j = k
  · subst hj
    simp [labels]
  · simp [labels, hj]

lemma map_findByName (t : SpaceTable) (name : List UInt8) :
    (findByName t name).map label = (labels t).items.find? fun x => x.2.bytes == name := by
  have hitems : (labels t).items = t.items.map label := by
    unfold Slots.items labels
    rw [map_filterMap]
  rw [hitems, find?_map]
  rfl

end SpaceTable

namespace Store

open SpaceTable

lemma idOf_inj {tick tick' : UInt64} {c c' : ℕ} (hc : c < 2 ^ 64) (hc' : c' < 2 ^ 64)
    (h : idOf tick c = idOf tick' c') : c = c' := by
  have hb : Bytes.le 8 tick.toNat ++ Bytes.le 8 c = Bytes.le 8 tick'.toNat ++ Bytes.le 8 c' :=
    congrArg ByteArr.bytes h
  have htail := (append_inj hb (by simp)).2
  have := congrArg Bytes.ofLe htail
  rwa [Bytes.ofLe_le (by omega), Bytes.ofLe_le (by omega)] at this

/-- No two spaces have the same id. While there is room for a space, ids were given to the spaces
in the table and to no others, so that the next id is new. -/
structure Numbered (l : Slots maxSpaces Label) (counter : ℕ) : Prop where
  distinct : ∀ k k' x x', l k = some x → l k' = some x' → x.1 = x'.1 → k = k'
  ids : l.firstFree ≠ none → counter = 1 + Slots.card (fun _ => true) l ∧
    ∀ k x, l k = some x → ∃ tick c, x.1 = idOf tick c ∧ c < counter

lemma numbered_empty : Numbered Slots.empty 1 := by
  refine ⟨fun k k' x x' h => ?_, fun _ => ⟨?_, fun k x h => ?_⟩⟩
  · cases h
  · rw [card_empty]
  · cases h

namespace Numbered

variable {l : Slots maxSpaces Label} {counter : ℕ} {k : Fin maxSpaces}

lemma fresh (h : Numbered l counter) (hfree : l.firstFree = some k) (tick : UInt64)
    {j : Fin maxSpaces} {x : Label} (hx : l j = some x) : x.1 ≠ idOf tick counter := by
  intro heq
  obtain ⟨hcount, hids⟩ := h.ids (by rw [hfree]; simp)
  have hroom : Slots.card (fun _ => true) l < maxSpaces :=
    card_lt_of_free (fun _ => true) (by rw [firstFree_some hfree]; rfl)
  have hmax : maxSpaces = 16 := rfl
  obtain ⟨tick', c, hid, hc⟩ := hids j x hx
  have := idOf_inj (by omega) (by omega) (hid.symm.trans heq)
  omega

lemma add (h : Numbered l counter) (hfree : l.firstFree = some k) (tick : UInt64)
    (name : ByteBuf maxSpaceNameLen) :
    Numbered (update l k (some (idOf tick counter, name))) (counter + 1) := by
  have hk : l k = none := firstFree_some hfree
  obtain ⟨hcount, hids⟩ := h.ids (by rw [hfree]; simp)
  refine ⟨fun j j' x x' hx hx' hid => ?_, fun _ => ⟨?_, fun j x hx => ?_⟩⟩
  · rcases update_eq_some.mp hx with ⟨hj, hnew⟩ | ⟨-, hold⟩ <;>
      rcases update_eq_some.mp hx' with ⟨hj', hnew'⟩ | ⟨-, hold'⟩
    · rw [hj, hj']
    · cases hnew
      exact absurd hid.symm (h.fresh hfree tick hold')
    · cases hnew'
      exact absurd hid (h.fresh hfree tick hold)
    · exact h.distinct j j' x x' hold hold' hid
  · have hcard := card_update (fun _ => true) l k (some (idOf tick counter, name))
    simp only [hk, any_none, any_some, if_true, Bool.false_eq_true, if_false] at hcard
    omega
  · rcases update_eq_some.mp hx with ⟨-, hnew⟩ | ⟨-, hold⟩
    · cases hnew
      exact ⟨tick, counter, rfl, Nat.lt_succ_self _⟩
    · obtain ⟨tick', c, hid, hc⟩ := hids j x hold
      exact ⟨tick', c, hid, Nat.lt_succ_of_lt hc⟩

end Numbered

/-! ### Calls -/

variable {sha256 : List UInt8 → ContentHash} {s : Store}

lemma labels_next {a : Act} (ha : ∀ o name zone quota, a ≠ .spaceCreate o name zone quota) :
    labels (next sha256 s a).spaces = labels s.spaces ∧
      (next sha256 s a).spaceCounter = s.spaceCounter := by
  have hdid := next_did sha256 s a
  generalize Store.next sha256 s a = t at hdid ⊢
  cases hdid with
  | failed hno hidle => exact ⟨by rw [hidle.spaces], hidle.spaceCounter⟩
  | noSpace hfull => exact absurd rfl (ha _ _ _ _)
  | space hfree => exact absurd rfl (ha _ _ _ _)
  | create hspace hquota hcontent hversion hsize hnew => exact ⟨labels_modify fun _ => rfl, rfl⟩
  | update hobj hcontent hversion => exact ⟨rfl, rfl⟩
  | rollback hobj hold hversion hcontent => exact ⟨rfl, rfl⟩
  | delete hobj => exact ⟨labels_modify fun _ => rfl, rfl⟩

/-- **Spaces stay.** No call changes or removes an id or a name, and new ids are new. -/
lemma Numbered.next (h : Numbered (labels s.spaces) s.spaceCounter) (a : Act) :
    Numbered (labels (Store.next sha256 s a).spaces) (Store.next sha256 s a).spaceCounter ∧
      ∀ k x, labels s.spaces k = some x → labels (Store.next sha256 s a).spaces k = some x := by
  by_cases ha : ∀ o name zone quota, a ≠ .spaceCreate o name zone quota
  · obtain ⟨hl, hc⟩ : labels (Store.next sha256 s a).spaces = labels s.spaces ∧
      (Store.next sha256 s a).spaceCounter = s.spaceCounter := labels_next ha
    rw [hl, hc]
    exact ⟨h, fun _ _ hx => hx⟩
  push Not at ha
  obtain ⟨o, name, zone, quota, rfl⟩ := ha
  have hdid := next_did sha256 s (.spaceCreate o name zone quota)
  generalize Store.next sha256 s _ = t at hdid ⊢
  cases hdid with
  | failed hno hidle =>
    rw [hidle.spaces, hidle.spaceCounter]
    exact ⟨h, fun _ _ hx => hx⟩
  | noSpace hfull =>
    refine ⟨⟨h.distinct, fun hne => absurd ?_ hne⟩, fun _ _ hx => hx⟩
    exact (firstFree_labels s.spaces).trans hfull
  | @space _ _ _ _ k hfree =>
    rw [← firstFree_labels] at hfree
    dsimp only
    rw [labels_update]
    refine ⟨h.add hfree o.idTick _, fun j x hx => ?_⟩
    have hk : labels s.spaces k = none := firstFree_some hfree
    refine update_eq_some.mpr (.inr ⟨?_, hx⟩)
    rintro rfl
    rw [hk] at hx
    cases hx

end Store

end Aios.Storage
