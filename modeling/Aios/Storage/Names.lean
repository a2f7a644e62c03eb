import Aios.Storage.Spaces
import Aios.Storage.PosixSpec

/-!
Paths and objects: which object a path reaches.

The index keeps at most 64 bytes of a name and compares them with the whole component of a path.
As long as the names of new objects are not longer, two objects of a space have different names,
and a path reaches the object that was created under it until its name is unlinked.
-/

namespace Aios.Storage

open Aios.Lib Fallible SpaceTable SortedTable Option List

/-! ### Names in the index -/

namespace ObjectIndex

variable {t : ObjectIndex} {spaceId : SpaceId} {name : List UInt8} {id : ObjectId}

lemma findByName_some (h : findByName t spaceId name = some id) :
    ∃ obj, t.get id = some obj ∧ obj.spaceId = spaceId ∧ obj.name.bytes = name := by
  obtain ⟨e, he, rfl⟩ := map_eq_some_iff.mp h
  have hmem := mem_of_find?_eq_some he
  have hp := find?_some he
  simp only [Bool.and_eq_true, beq_iff_eq] at hp
  exact ⟨e.2, get_of_mem hmem, hp.1, hp.2⟩

lemma findByName_none (h : findByName t spaceId name = none) {obj : CompactObject}
    (hobj : t.get id = some obj) : ¬ (obj.spaceId = spaceId ∧ obj.name.bytes = name) := by
  rintro ⟨h1, h2⟩
  have := find?_eq_none.mp (map_eq_none_iff.mp h) _ (mem_of_get hobj)
  simp [h1, h2] at this

end ObjectIndex

namespace Store

variable {sha256 : List UInt8 → ContentHash} {s : Store} {id id' : ObjectId} {spaceId : SpaceId}
  {name : List UInt8}

def Distinct (s : Store) : Prop := ∀ id id' obj obj', s.objects.get id = some obj →
  s.objects.get id' = some obj' → obj.spaceId = obj'.spaceId → obj.name.bytes = obj'.name.bytes →
    id = id'

def Named (s : Store) (id : ObjectId) (spaceId : SpaceId) (name : List UInt8) : Prop :=
  ∃ obj, s.objects.get id = some obj ∧ obj.spaceId = spaceId ∧ obj.name.bytes = name

lemma Distinct.find (h : s.Distinct) (hn : s.Named id spaceId name) :
    ObjectIndex.findByName s.objects spaceId name = some id := by
  obtain ⟨obj, hobj, hspace, hname⟩ := hn
  cases hf : ObjectIndex.findByName s.objects spaceId name with
  | none => exact absurd ⟨hspace, hname⟩ (ObjectIndex.findByName_none hf hobj)
  | some id' =>
    obtain ⟨obj', hobj', hspace', hname'⟩ := ObjectIndex.findByName_some hf
    rw [h id' id obj' obj hobj' hobj (hspace'.trans hspace.symm) (hname'.trans hname.symm)]

def NewName (s : Store) : Act → Prop
  | .objectCreate _ spaceId name _ _ =>
    name.length ≤ maxObjectNameLen ∧ ObjectIndex.findByName s.objects spaceId name = none
  | _ => True

variable {a : Act}

lemma named_of_next (h : (next sha256 s a).Named id spaceId name) :
    s.Named id spaceId name ∨ s.objects.get id = none ∧ ∃ o name' content contentType, a =
    .objectCreate o spaceId name' content contentType ∧
    (ByteBuf.ofBytes maxObjectNameLen name').bytes = name ∧ id = idOf o.idTick s.objectCounter := by
  obtain ⟨obj, hobj, rfl, rfl⟩ := h
  have hdid := next_did sha256 s a
  generalize Store.next sha256 s a = t at hdid hobj
  cases hdid with
  | failed hno hidle => exact .inl ⟨obj, hidle.objects ▸ hobj, rfl, rfl⟩
  | noSpace hfull => exact .inl ⟨obj, hobj, rfl, rfl⟩
  | space hfree => exact .inl ⟨obj, hobj, rfl, rfl⟩
  | create hspace hquota hcontent hversion hsize hnew =>
    simp only [created, get_insert] at hobj
    split_ifs at hobj with hid
    · cases hobj
      subst hid
      exact .inr ⟨hnew, _, _, _, _, rfl, rfl, rfl⟩
    · exact .inl ⟨obj, hobj, rfl, rfl⟩
  | update hobj0 hcontent hversion | rollback hobj0 hold hversion hcontent =>
    simp only [advanced, get_adjust] at hobj
    split_ifs at hobj
    · obtain ⟨obj1, hobj1, rfl⟩ := map_eq_some_iff.mp hobj
      exact .inl ⟨obj1, hobj1, rfl, rfl⟩
    · exact .inl ⟨obj, hobj, rfl, rfl⟩
  | delete hobj0 =>
    simp only [get_erase] at hobj
    split_ifs at hobj
    exact .inl ⟨obj, hobj, rfl, rfl⟩

lemma Named.advanced (h : s.Named id spaceId name) (id' : ObjectId) (v : Version) (b : Blocks) :
    (s.advanced id' sha256 v b).Named id spaceId name := by
  obtain ⟨obj, hobj, rfl, rfl⟩ := h
  by_cases hid : id = id'
  · subst hid
    exact ⟨Store.advance (sha256 v.encode) v obj,
      by simp [Store.advanced, get_adjust, hobj], rfl, rfl⟩
  · exact ⟨obj, by simp [Store.advanced, get_adjust, hid, hobj], rfl, rfl⟩

lemma Named.next (h : s.Named id spaceId name) (hd : a ≠ .objectDelete id) :
    (Store.next sha256 s a).Named id spaceId name := by
  obtain ⟨obj, hobj, rfl, rfl⟩ := h
  have hdid := next_did sha256 s a
  generalize Store.next sha256 s a = t at hdid ⊢
  cases hdid with
  | failed hno hidle => exact ⟨obj, hidle.objects ▸ hobj, rfl, rfl⟩
  | noSpace hfull => exact ⟨obj, hobj, rfl, rfl⟩
  | space hfree => exact ⟨obj, hobj, rfl, rfl⟩
  | create hspace hquota hcontent hversion hsize hnew =>
    refine ⟨obj, ?_, rfl, rfl⟩
    simp only [created, get_insert]
    rw [if_neg, hobj]
    rintro rfl
    rw [hnew] at hobj
    cases hobj
  | update hobj0 hcontent hversion | rollback hobj0 hold hversion hcontent =>
    exact Named.advanced ⟨obj, hobj, rfl, rfl⟩ _ _ _
  | @delete id' _ hobj0 =>
    refine ⟨obj, ?_, rfl, rfl⟩
    simp only [get_erase]
    rw [if_neg, hobj]
    rintro rfl
    exact hd rfl

/-- **One call** keeps names distinct. -/
lemma Distinct.next (h : s.Distinct) (hnew : s.NewName a) : (Store.next sha256 s a).Distinct := by
  -- an object that was created has a name that was not found
  have hfresh : ∀ {j o sid n content contentType},
      a = .objectCreate o sid n content contentType →
      ¬ s.Named j sid (ByteBuf.ofBytes maxObjectNameLen n).bytes := by
    rintro j o sid n content contentType rfl ⟨obj, hobj, hspace, hname⟩
    rw [ByteBuf.bytes_ofBytes hnew.1] at hname
    exact ObjectIndex.findByName_none hnew.2 hobj ⟨hspace, hname⟩
  intro i j obj obj' hi hj hspace hname
  have hni : (Store.next sha256 s a).Named i obj.spaceId obj.name.bytes := ⟨obj, hi, rfl, rfl⟩
  have hnj : (Store.next sha256 s a).Named j obj.spaceId obj.name.bytes :=
    ⟨obj', hj, hspace.symm, hname.symm⟩
  rcases named_of_next hni with hi' | ⟨-, o, n, c, ct, ha, hn, hid⟩ <;>
    rcases named_of_next hnj with hj' | ⟨-, o', n', c', ct', ha', hn', hid'⟩
  · obtain ⟨x, hx, hx1, hx2⟩ := hi'
    obtain ⟨y, hy, hy1, hy2⟩ := hj'
    exact h i j x y hx hy (hx1.trans hy1.symm) (hx2.trans hy2.symm)
  · exact absurd (hn' ▸ hi') (hfresh ha')
  · exact absurd (hn ▸ hj') (hfresh ha)
  · rw [ha] at ha'
    cases ha'
    rw [hid, hid']

end Store

/-! ### Paths -/

section Paths

variable {t t' : SpaceTable} {path n m m' name name' : List UInt8} {spaceId : SpaceId}

lemma splitSpace_some {scanned rest : List UInt8} (h : splitSpace t scanned rest = some (n, m)) :
    scanned ++ rest = n ++ slash :: m := by
  induction rest generalizing scanned with
  | nil => cases h
  | cons c rest ih =>
    unfold splitSpace at h
    split_ifs at h with hc
    · cases h
      rw [hc.1]
    · simpa using ih h

lemma splitFirstComponent_eq (h : splitFirstComponent t path = (n, m)) :
    path = n ++ slash :: m ∨ path = n ∧ m = [] := by
  unfold splitFirstComponent at h
  cases hs : splitSpace t [] path with
  | some r =>
    rw [hs] at h
    subst h
    exact .inl (splitSpace_some hs)
  | none =>
    rw [hs] at h
    cases h
    exact .inr ⟨rfl, rfl⟩

lemma splitPath_unique (h : splitPath t path = .ok (n, m)) (h' : splitPath t' path = .ok (n, m')) :
    m = m' := by
  have hname : ∀ {e e' : List UInt8 × List UInt8}, e = e' → (Except.ok e : Except StorageError _)
      = .ok (n, m) → (Except.ok e' : Except StorageError _) = .ok (n, m') → m = m' := by
    rintro e _ rfl he he'
    exact (Prod.mk.inj ((Except.ok.inj he).symm.trans (Except.ok.inj he'))).2
  unfold splitPath at h h'
  split_ifs at h h'
  · rcases splitFirstComponent_eq (Except.ok.inj h) with hs | ⟨hs, rfl⟩ <;>
      rcases splitFirstComponent_eq (Except.ok.inj h') with hs' | ⟨hs', rfl⟩
    · rw [hs, append_cancel_left_eq] at hs'
      exact (List.cons.inj hs').2
    · rw [hs] at hs'
      simp at hs'
    · rw [hs] at hs'
      simp at hs'
    · rfl
  all_goals exact hname rfl h h'

lemma resolvePath_ok (h : resolvePath t path = .ok (spaceId, name)) : ∃ n sp,
    splitPath t (stripSlash path) = .ok (n, name) ∧ findByName t n = some sp ∧ sp.id = spaceId := by
  unfold resolvePath at h
  cases hs : splitPath t (stripSlash path) with
  | error er => rw [hs] at h; cases h
  | ok r =>
    obtain ⟨n, m⟩ := r
    rw [hs] at h
    change (findSpaceByName t n >>= fun id => Except.ok (id, m)) = _ at h
    unfold findSpaceByName at h
    cases hf : findByName t n with
    | none => rw [hf] at h; cases h
    | some sp =>
      rw [hf] at h
      cases h
      exact ⟨n, sp, rfl, hf, rfl⟩

lemma labels_of_find {sp : Space} (h : findByName t n = some sp) :
    ∃ k, labels t k = some (sp.id, sp.name) ∧ sp.name.bytes = n := by
  obtain ⟨k, hk⟩ := Slots.mem_items.mp (mem_of_find?_eq_some h)
  have hname := find?_some h
  exact ⟨k, labels_some hk, beq_iff_eq.mp hname⟩

lemma resolvePath_congr (h : labels t = labels t') (path : List UInt8) :
    resolvePath t path = resolvePath t' path := by
  have hfind : ∀ n, (findByName t n).map label = (findByName t' n).map label := fun n => by
    rw [map_findByName, map_findByName, h]
  have hspace : ∀ n, findSpaceByName t n = findSpaceByName t' n := by
    intro n
    have hn := hfind n
    unfold findSpaceByName
    cases h1 : findByName t n <;> cases h2 : findByName t' n <;> simp [h1, h2, label] at hn ⊢
    exact hn.1
  have hsplit : ∀ rest scanned, splitSpace t scanned rest = splitSpace t' scanned rest := by
    intro rest
    induction rest with
    | nil => exact fun _ => rfl
    | cons c rest ih =>
      intro scanned
      have hsome : (findByName t scanned).isSome = (findByName t' scanned).isSome := by
        rw [← isSome_map (f := label), hfind, isSome_map]
      unfold splitSpace
      rw [hsome, ih]
  have hpath : ∀ path, splitPath t path = splitPath t' path := by
    intro path
    unfold splitPath splitFirstComponent
    rw [hsplit]
  unfold resolvePath
  rw [hpath]
  simp only [hspace]

lemma resolvePath_name {counter : ℕ} (hkeep : ∀ k x, labels t k = some x → labels t' k = some x)
    (hnum : Store.Numbered (labels t') counter) (h : resolvePath t path = .ok (spaceId, name))
    (h' : resolvePath t' path = .ok (spaceId, name')) : name' = name := by
  obtain ⟨n, sp, hs, hf, hid⟩ := resolvePath_ok h
  obtain ⟨n', sp', hs', hf', hid'⟩ := resolvePath_ok h'
  obtain ⟨k, hk, rfl⟩ := labels_of_find hf
  obtain ⟨k', hk', rfl⟩ := labels_of_find hf'
  have hk := hkeep k _ hk
  have hslot : k = k' := hnum.distinct k k' _ _ hk hk' (hid.trans hid'.symm)
  rw [hslot, hk'] at hk
  rw [(Prod.mk.inj (Option.some.inj hk)).2] at hs'
  exact (splitPath_unique hs hs').symm

end Paths

namespace Posix

variable {sha256 : List UInt8 → ContentHash} {p : Posix}

/-! ### Calls on the bridge -/

def Fits (p : Posix) (path : List UInt8) : Prop :=
  ∀ r ∈ (resolvePath p.store.spaces path).toOption, r.2.length ≤ maxObjectNameLen

instance (p : Posix) (path : List UInt8) : Decidable (p.Fits path) := by
  unfold Fits; infer_instance

def ShortNames (p : Posix) : Act → Prop
  | .store (.spaceCreate _ _ _ _) => True
  | .store _ => False
  | .openFile _ path flags => isCreat flags = true → p.Fits path
  | .mkdir _ path => p.Fits path
  | _ => True

instance (p : Posix) (a : Act) : Decidable (p.ShortNames a) := by
  unfold ShortNames
  split <;> infer_instance

variable {a : Act}

lemma ShortNames.newName (h : p.ShortNames a) {b : Store.Act} (hb : Calls p a b) :
    p.store.NewName b := by
  cases hb with
  | store => cases b <;> first | exact trivial | cases h
  | create hresolve hnew hcreat => exact ⟨h hcreat _ (by rw [hresolve]; rfl), hnew⟩
  | directory hresolve hnew => exact ⟨h _ (by rw [hresolve]; rfl), hnew⟩
  | update => exact trivial
  | delete hresolve hfind => exact trivial

def Spares (spaceId : SpaceId) (name : List UInt8) (p : Posix) : Act → Prop
  | .unlink path => ∀ r ∈ (resolvePath p.store.spaces path).toOption, r ≠ (spaceId, name)
  | _ => True

instance (spaceId : SpaceId) (name : List UInt8) (p : Posix) (a : Act) :
    Decidable (Spares spaceId name p a) := by
  unfold Spares
  split <;> infer_instance

structure Coherent (p : Posix) : Prop where
  distinct : p.store.Distinct
  numbered : Store.Numbered (labels p.store.spaces) p.store.spaceCounter

lemma start_coherent : start.Coherent := ⟨fun _ _ _ _ h => (by cases h), Store.numbered_empty⟩

lemma Coherent.next (h : p.Coherent) (ha : p.ShortNames a) :
    (Posix.next sha256 p a).Coherent ∧ ∀ k x, labels p.store.spaces k = some x →
      labels (Posix.next sha256 p a).store.spaces k = some x := by
  rcases next_store sha256 p a with hs | ⟨b, hb, hs⟩
  · exact ⟨⟨hs ▸ h.distinct, hs ▸ h.numbered⟩, fun k x hx => hs ▸ hx⟩
  · obtain ⟨hnum, hkeep⟩ : Store.Numbered (labels (Store.next sha256 p.store b).spaces)
        (Store.next sha256 p.store b).spaceCounter ∧ _ := h.numbered.next b
    exact ⟨⟨hs ▸ h.distinct.next (ha.newName hb), hs ▸ hnum⟩, hs ▸ hkeep⟩

lemma named_next (ha : p.ShortNames a) {id : ObjectId} {spaceId : SpaceId} {name : List UInt8}
    (hn : p.store.Named id spaceId name) (hspare : Spares spaceId name p a) :
    (Posix.next sha256 p a).store.Named id spaceId name := by
  rcases next_store sha256 p a with hs | ⟨b, hb, hs⟩
  · exact hs ▸ hn
  · rw [hs]
    refine hn.next ?_
    rintro rfl
    cases hb with
    | store => cases ha
    | @delete path spaceId' name' _ hresolve hfind =>
      -- the object that is deleted has another name, or it is in another space
      obtain ⟨obj, hobj, hspace, hname⟩ := hn
      obtain ⟨obj', hobj', hspace', hname'⟩ := ObjectIndex.findByName_some hfind
      rw [hobj] at hobj'
      cases hobj'
      refine hspare (spaceId', name') (by rw [hresolve]; rfl) ?_
      rw [← hspace, ← hname, hspace', hname']

lemma openFile_named {o : Outside} {path : List UInt8} {flags : UInt32} {fd : ℕ} {p' : Posix}
    {spaceId : SpaceId} {name : List UInt8} (h : openFile sha256 o path flags p = .ok fd p')
    (hr : resolvePath p.store.spaces path = .ok (spaceId, name))
    (hlen : name.length ≤ maxObjectNameLen) :
    ∃ e, p'.bridge.entry fd = some e ∧ p'.store.Named e.objectId spaceId name := by
  obtain ⟨spaceId', name', id, dir, p1, k, hr', ht, -, -, rfl, rfl⟩ := openFile_ok h
  rw [hr] at hr'
  cases hr'
  refine ⟨_, by rw [entry_opened, if_pos rfl], ?_⟩
  change p1.store.Named id spaceId name
  rcases openTarget_ok ht with ⟨obj, hfind, -, rfl⟩ | ⟨-, -, hash, s, hs, rfl⟩
  · exact ObjectIndex.findByName_some hfind
  · obtain ⟨b1, b2, space, -, -, hid, -, -, -, -, rfl⟩ := Store.objectCreate_ok hs
    cases hid
    exact ⟨_, by simp [Store.created, get_insert]; rfl, rfl, ByteBuf.bytes_ofBytes hlen⟩

/-- A name that is in the index is what `open` opens; it can only run out of descriptors. -/
lemma openFile_found {o : Outside} {path : List UInt8} {flags : UInt32} {spaceId : SpaceId}
    {name : List UInt8} {id : ObjectId} (h : p.Coherent)
    (hr : resolvePath p.store.spaces path = .ok (spaceId, name))
    (hn : p.store.Named id spaceId name) :
    (∀ fd p', openFile sha256 o path flags p = .ok fd p' →
      ∃ e, p'.bridge.entry fd = some e ∧ e.objectId = id) ∧
    ∀ er p', openFile sha256 o path flags p = .error er p' → er = .fdTableFull := by
  have hfind := h.distinct.find hn
  obtain ⟨obj, hobj, -⟩ := hn
  refine ⟨fun fd p' hopen => ?_, fun er p' hopen => ?_⟩
  · obtain ⟨spaceId', name', id', dir, p1, k, hr', ht, -, -, rfl, rfl⟩ := openFile_ok hopen
    rw [hr] at hr'
    cases hr'
    refine ⟨_, by rw [entry_opened, if_pos rfl], ?_⟩
    rcases openTarget_ok ht with ⟨-, hfind', -⟩ | ⟨hnone, -⟩
    · rw [hfind] at hfind'
      exact (Option.some.inj hfind').symm
    · rw [hfind] at hnone
      cases hnone
  · rcases openFile_error hopen with ⟨hr', -⟩ | ⟨spaceId', name', hr', ht | ⟨her, -⟩⟩
    · rw [hr] at hr'
      cases hr'
    · rw [hr] at hr'
      cases hr'
      rcases openTarget_error ht with ⟨⟨-, hnone⟩, -⟩ | ⟨hnone, -⟩
      · rw [hnone id hfind] at hobj
        cases hobj
      · rw [hfind] at hnone
        cases hnone
    · exact her

lemma stat_found {path : List UInt8} {spaceId : SpaceId} {name : List UInt8} {id : ObjectId}
    (h : p.Coherent) (hr : resolvePath p.store.spaces path = .ok (spaceId, name))
    (hn : p.store.Named id spaceId name) (hname : name ≠ []) :
    ∃ obj, p.store.objects.get id = some obj ∧ stat p path = .ok (statOf obj) := by
  have hfind := h.distinct.find hn
  obtain ⟨obj, hobj, -⟩ := hn
  refine ⟨obj, hobj, ?_⟩
  have hempty : name.isEmpty = false := by simpa using hname
  have hindexed : indexed p.store id = .ok obj := by rw [indexed, hobj]
  simp [stat, hr, hempty, hfind, hindexed, bind, Except.bind, pure, Except.pure]

/-! ### Runs -/

/-- **Path coherence.** After any sequence of calls in which new names fit, names of a space are
distinct. When `open` with `O_CREAT` then opens a path, every later `open` and `stat` of the path
that resolves to the same space reaches the object of that descriptor, until its name is
unlinked. -/
theorem paths_coherent {p : Posix}
    (h : Runs (fun a i b => Posix.next sha256 a i = b) ShortNames start p) :
    p.store.Distinct ∧
    ∀ o path flags fd p₁ spaceId name, isCreat flags = true →
      openFile sha256 o path flags p = .ok fd p₁ →
      resolvePath p.store.spaces path = .ok (spaceId, name) → name.length ≤ maxObjectNameLen →
      ∃ e, p₁.bridge.entry fd = some e ∧
        ∀ t, Runs (fun a i b => Posix.next sha256 a i = b)
            (fun a i => a.ShortNames i ∧ Spares spaceId name a i) p₁ t →
          ∀ name', resolvePath t.store.spaces path = .ok (spaceId, name') →
            (∀ o' flags' fd' t', openFile sha256 o' path flags' t = .ok fd' t' →
              ∃ e', t'.bridge.entry fd' = some e' ∧ e'.objectId = e.objectId) ∧
            (∀ o' flags' er t', openFile sha256 o' path flags' t = .error er t' →
              er = .fdTableFull) ∧
            (name ≠ [] → ∃ obj, t.store.objects.get e.objectId = some obj ∧
              stat t path = .ok (statOf obj)) := by
  have hcoh : p.Coherent := h.inv Coherent start_coherent fun a i b ha hok hb => by
    subst hb
    exact (ha.next hok).1
  refine ⟨hcoh.distinct, fun o path flags fd p₁ spaceId name hcreat hopen hr hlen => ?_⟩
  obtain ⟨e, he, hnamed⟩ := openFile_named hopen hr hlen
  refine ⟨e, he, fun t ht name' hr' => ?_⟩
  -- the state after the `open` is that of the machine
  have hp₁ : Posix.next sha256 p (.openFile o path flags) = p₁ := by
    rw [Posix.next, call, state_void, hopen]
    rfl
  have hfits : p.ShortNames (.openFile o path flags) := by
    intro _ r hmem
    rw [hr] at hmem
    cases hmem
    exact hlen
  have hcoh₁ : p₁.Coherent ∧ ∀ k x, labels p.store.spaces k = some x →
      labels p₁.store.spaces k = some x := hp₁ ▸ hcoh.next hfits
  -- from there on names stay distinct, spaces stay and the object keeps its name
  obtain ⟨hcoht, hkeep, hnamedt⟩ := ht.inv
    (fun t => t.Coherent ∧ (∀ k x, labels p.store.spaces k = some x →
      labels t.store.spaces k = some x) ∧ t.store.Named e.objectId spaceId name)
    ⟨hcoh₁.1, hcoh₁.2, hnamed⟩ fun a i b ha hok hb => by
      subst hb
      obtain ⟨hnext, hgrow⟩ : (Posix.next sha256 a i).Coherent ∧ _ := ha.1.next hok.1
      exact ⟨hnext, fun k x hx => hgrow k x (ha.2.1 k x hx), named_next hok.1 ha.2.2 hok.2⟩
  have hname : name' = name := resolvePath_name hkeep hcoht.numbered hr hr'
  subst hname
  exact ⟨fun o' flags' fd' t' hopen' => (openFile_found hcoht hr' hnamedt).1 fd' t' hopen',
    fun o' flags' er t' hopen' => (openFile_found hcoht hr' hnamedt).2 er t' hopen',
    stat_found hcoht hr' hnamedt⟩

def tmpSpace : Act :=
  .store (.spaceCreate (.at 0) (Bytes.ascii ['e', 'p', 'h', 'e', 'm', 'e', 'r', 'a', 'l']) .ephemeral
    .unlimited)

/-- `/tmp/` and a name. -/
def tmpPath (name : List UInt8) : List UInt8 := Bytes.ascii ['/', 't', 'm', 'p', '/'] ++ name

/-- `/tmp` with the file `/tmp/a`. -/
def withFile : Posix :=
  state (openFile stampHash (.at 1) (tmpPath [97]) oCreat (Posix.next stampHash start tmpSpace))

/-- The same with the directory `/tmp/b`. -/
def withDirectory : Posix := Posix.next stampHash withFile (.mkdir (.at 2) (tmpPath [98]))

theorem paths_coherent_reopened : ∃ e t e',
    openFile stampHash (.at 1) (tmpPath [97]) oCreat (Posix.next stampHash start tmpSpace)
      = .ok 0 withFile ∧ withFile.bridge.entry 0 = some e ∧
    openFile stampHash (.at 3) (tmpPath [97]) oRdonly withDirectory = .ok 1 t ∧
    t.bridge.entry 1 = some e' ∧ e'.objectId = e.objectId := by
  have hrun : Runs (fun a i b => Posix.next stampHash a i = b) ShortNames start
      (Posix.next stampHash start tmpSpace) :=
    (Runs.refl start).snoc (show start.ShortNames tmpSpace from trivial) rfl
  have hopen := eq_ok_state (show answer (openFile stampHash (.at 1) (tmpPath [97]) oCreat
    (Posix.next stampHash start tmpSpace)) = some 0 by decide +kernel)
  have hresolve : resolvePath (Posix.next stampHash start tmpSpace).store.spaces (tmpPath [97])
      = .ok (Store.idOf 0 1, [97]) := by decide +kernel
  obtain ⟨e, he, hlater⟩ := (paths_coherent hrun).2 _ _ _ _ _ _ _ (by decide) hopen hresolve
    (by decide)
  have hguard : withFile.ShortNames (.mkdir (.at 2) (tmpPath [98])) ∧
      Spares (Store.idOf 0 1) [97] withFile (.mkdir (.at 2) (tmpPath [98])) := by decide +kernel
  have hresolve' : resolvePath withDirectory.store.spaces (tmpPath [97])
      = .ok (Store.idOf 0 1, [97]) := by decide +kernel
  obtain ⟨hreopen, -⟩ := hlater withDirectory ((Runs.refl withFile).snoc hguard rfl) _ hresolve'
  have hopen' := eq_ok_state (show answer (openFile stampHash (.at 3) (tmpPath [97]) oRdonly
    withDirectory) = some 1 by decide +kernel)
  obtain ⟨e', he', hid⟩ := hreopen _ _ _ _ hopen'
  exact ⟨e, _, e', hopen, he, hopen', he', hid⟩

def openedTwice : List Act :=
  [tmpSpace, .openFile (.at 1) (tmpPath (List.replicate 65 97)) oCreat,
    .openFile (.at 2) (tmpPath (List.replicate 65 97)) oCreat]

/-- **A long name.** A path with a component of 65 bytes is opened twice with `O_CREAT`; the second
`open` does not find the object of the first and creates another one with the same stored name. -/
theorem long_name_created_twice : ∃ t id id' obj obj',
    Runs (fun a i b => Posix.next stampHash a i = b)
      (fun a i => isOk (call stampHash i a) = true) start t ∧
    t.store.objects.get id = some obj ∧ t.store.objects.get id' = some obj' ∧ id ≠ id' ∧
    obj.spaceId = obj'.spaceId ∧ obj.name.bytes = obj'.name.bytes := by
  have hallowed : Runs.allowed (fun a i => isOk (call stampHash i a) = true)
      (Posix.next stampHash) start openedTwice = true := by decide +kernel
  have hrun : Runs (fun a i b => Posix.next stampHash a i = b)
      (fun a i => isOk (call stampHash i a) = true) start
      (openedTwice.foldl (Posix.next stampHash) start) := Runs.of_foldl (fun _ _ _ => rfl) hallowed
  have hnames : ((openedTwice.foldl (Posix.next stampHash) start).store.objects.get
      (Store.idOf 1 1)).any (fun obj =>
        ((openedTwice.foldl (Posix.next stampHash) start).store.objects.get (Store.idOf 2 2)).any
          fun obj' => obj.spaceId == obj'.spaceId && obj.name.bytes == obj'.name.bytes) = true := by
    decide +kernel
  obtain ⟨obj, hobj, hrest⟩ := (any_eq_true _ _).mp hnames
  obtain ⟨obj', hobj', heq⟩ := (any_eq_true _ _).mp hrest
  rw [Bool.and_eq_true, beq_iff_eq, beq_iff_eq] at heq
  exact ⟨_, _, _, obj, obj', hrun, hobj, hobj', by decide, heq.1, heq.2⟩

end Posix

end Aios.Storage
