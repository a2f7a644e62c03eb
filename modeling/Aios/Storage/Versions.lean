import Aios.Storage.Chains

/-!
The history of an object: `version_list` over whole runs.

The nodes of an object are blocks in a store that other objects share, and deletions release
blocks. A node of an object in the index keeps at least the references that the chains in the index
hold, whatever calls fail and however long the chains are that were deleted. So `version_list` finds
the first 1024 nodes of the chain, and a new version is one node in front.
-/

namespace Aios.Storage

open Aios.Lib Function SortedTable

namespace Store

variable {sha256 : List UInt8 → ContentHash} {s s' : Store} {chains : ObjectId → List Version}
  {id : ObjectId} {obj : CompactObject}

/-- The walk of `version_list`. -/
def listVersions (b : Blocks) : ℕ → ContentHash → Except StorageError (List Version)
  | 0, _ => .ok []
  | n + 1, hash =>
    match readVersion b hash with
    | .error er => .error er
    | .ok none => .ok []
    | .ok (some v) => (listVersions b n v.parent).map (v :: ·)

def versionList (s : Store) (id : ObjectId) : Except StorageError (List Version) :=
  match s.objects.get id with
  | none => .error .objectNotFound
  | some obj => listVersions s.blocks maxDepth obj.versionHead

/-! ### What the walks find -/

section Walk

variable {b : Blocks} {h : ContentHash} {l : List Version}

lemma Nodes.listVersions (hn : Nodes b h l) (n : ℕ) : listVersions b n h = .ok (l.take n) := by
  induction hn generalizing n with
  | nil =>
    cases n with
    | zero => rfl
    | succ n => rw [Store.listVersions, readVersion_zero]; rfl
  | cons hz hread htail ih =>
    cases n with
    | zero => rfl
    | succ n =>
      rw [Store.listVersions, hread]
      dsimp only
      rw [ih n]
      rfl

lemma Nodes.findVersion (hn : Nodes b h l) {objectId : ObjectId} {target : ContentHash} {n : ℕ}
    {v : Version} (hfind : findVersion b objectId target n h = .ok (some v)) :
    v ∈ l.take n ∧ v.hash = target := by
  induction hn generalizing n with
  | nil =>
    cases n with
    | zero => cases hfind
    | succ n =>
      rw [Store.findVersion, readVersion_zero] at hfind
      cases hfind
  | @cons h w l hz hread htail ih =>
    cases n with
    | zero => cases hfind
    | succ n =>
      rw [Store.findVersion, hread] at hfind
      dsimp only at hfind
      split_ifs at hfind with hw
      · cases hfind
        exact ⟨List.mem_cons_self, hw.1⟩
      · obtain ⟨hmem, hhash⟩ := ih hfind
        exact ⟨List.mem_cons_of_mem _ hmem, hhash⟩

end Walk

/-! ### The invariant -/

structure Backed (sha256 : List UInt8 → ContentHash) (s : Store)
    (chains : ObjectId → List Version) : Prop where
  ok : s.blocks.Ok sha256
  threaded : Threaded sha256 s.objects s.blocks.written chains
  count : ∀ k, held sha256 s.objects chains k ≤ s.blocks.refcount k

lemma Spared.backed {spare : ContentHash → ℕ} (h : Spared sha256 s chains spare) :
    Backed sha256 s chains :=
  ⟨h.ok, h.threaded, fun k => by rw [h.count]; exact Nat.le_add_right _ _⟩

namespace Backed

lemma start (chains : ObjectId → List Version) : Backed sha256 start chains :=
  (start_exact chains).spared.backed

section

variable (h : Backed sha256 s chains)
include h

lemma spared : ∃ spare, Spared sha256 s chains spare :=
  ⟨_, h.ok, h.threaded, fun k => (Nat.add_sub_cancel' (h.count k)).symm⟩

section

variable (hinj : Set.InjOn sha256 {l | l ∈ s.blocks.written}) (hobj : s.objects.get id = some obj)
include hinj hobj

lemma nodes : Nodes s.blocks obj.versionHead (chains id) := by
  obtain ⟨spare, hspared⟩ := h.spared
  exact hspared.nodes hinj hobj

lemma versionList : versionList s id = .ok ((chains id).take maxDepth) := by
  rw [Store.versionList, hobj]
  exact Nodes.listVersions (h.nodes hinj hobj) maxDepth

end

lemma grow (hgrown : Blocks.Grown sha256 s.blocks s'.blocks)
    (hobjects : s'.objects = s.objects) : Backed sha256 s' chains := by
  refine ⟨hgrown.ok h.ok, ?_, fun k => ?_⟩
  · rw [hobjects]
    exact h.threaded.mono hgrown.written.subset
  · rw [hobjects]
    exact (h.count k).trans (hgrown.refcount k)

/-- **One call**, successful or not. -/
lemma next (a : Act) (hinj : Set.InjOn sha256 {l | l ∈ s.blocks.written})
    (hz : ∀ l ∈ (Store.next sha256 s a).blocks.written, sha256 l ≠ .zero) :
    ∃ chains', Backed sha256 (Store.next sha256 s a) chains' := by
  obtain ⟨spare, hspared⟩ := h.spared
  have hdid := next_did sha256 s a
  generalize Store.next sha256 s a = t at hdid hz ⊢
  cases hdid with
  | failed hno hidle => exact ⟨chains, h.grow hidle.blocks hidle.objects⟩
  | noSpace hfull => exact ⟨chains, h.grow (.refl _) rfl⟩
  | space hfree => exact ⟨chains, h.grow (.refl _) rfl⟩
  | create hspace hquota hcontent hversion hsize hnew =>
    exact ⟨_, (hspared.create hcontent hversion hnew hz).backed⟩
  | update hobj hcontent hversion => exact ⟨_, (hspared.update hobj hcontent hversion hz).backed⟩
  | rollback hobj hold hversion hcontent =>
    exact ⟨_, (hspared.rollback hobj hversion hcontent hz).backed⟩
  | delete hobj => exact ⟨chains, (hspared.delete hinj hobj maxDepth).backed⟩

end

end Backed

/-! ### Runs -/

def Act.advances : Act → Option ObjectId
  | .objectUpdate _ id _ _ _ => some id
  | .versionRollback _ id _ => some id
  | _ => none

lemma Backed.advances (h : Backed sha256 s chains) {a : Act} (ha : a.advances = some id)
    (hok : succeeds sha256 s a = true)
    (hz : ∀ l ∈ (Store.next sha256 s a).blocks.written, sha256 l ≠ .zero) :
    ∃ obj v b, s.objects.get id = some obj ∧ Store.next sha256 s a = s.advanced id sha256 v b ∧
    v.parent = obj.versionHead ∧ v.hash =
    computeVersionHash sha256 v.parent v.contentHash v.timestamp v.objectId ∧
    Backed sha256 (s.advanced id sha256 v b) (update chains id (v :: chains id)) ∧ ∀ o target, a =
    .versionRollback o id target → ∃ old, rollbackTarget s id obj.versionHead target = .ok old ∧
    v.contentHash = old.contentHash ∧ v.contentSize = old.contentSize := by
  obtain ⟨spare, hspared⟩ := h.spared
  have hdid := next_did sha256 s a
  generalize Store.next sha256 s a = t at hdid hz ⊢
  cases hdid with
  | failed hno hidle => rw [hno] at hok; cases hok
  | noSpace hfull => cases ha
  | space hfree => cases ha
  | create hspace hquota hcontent hversion hsize hnew => cases ha
  | delete hobj => cases ha
  | @update o i content author message obj b1 b2 hobj hcontent hversion =>
    cases ha
    exact ⟨obj, _, b2, hobj, rfl, rfl, rfl, (hspared.update hobj hcontent hversion hz).backed,
      fun _ _ hc => (by cases hc)⟩
  | @rollback o i target obj old b1 hobj hold hversion hcontent =>
    cases ha
    refine ⟨obj, _, _, hobj, rfl, rfl, rfl, (hspared.rollback hobj hversion hcontent hz).backed,
      fun _ _ hc => ?_⟩
    cases hc
    exact ⟨old, hold, rfl, rfl⟩

lemma backed_of_run {t : Store}
    (h : Runs (fun a i b => next sha256 a i = b) (fun _ _ => True) start t)
    (hinj : Set.InjOn sha256 {l | l ∈ t.blocks.written})
    (hz : ∀ l ∈ t.blocks.written, sha256 l ≠ .zero) : ∃ chains, Backed sha256 t chains := by
  refine h.inv (fun t => Set.InjOn sha256 {l | l ∈ t.blocks.written} →
      (∀ l ∈ t.blocks.written, sha256 l ≠ .zero) → ∃ chains, Backed sha256 t chains)
    (fun _ _ => ⟨fun _ => [], .start _⟩) (fun a i b ih _ hb hinj hz => ?_) hinj hz
  subst hb
  have hsub := (blocks_next sha256 a i).2
  have hinj' := hinj.mono hsub
  obtain ⟨chains, hbacked⟩ := ih hinj' fun l hl => hz l (hsub hl)
  exact hbacked.next i hinj' hz

/-- **History grows at the front.** After any calls, an update or a rollback that succeeds puts one
node in front of the list of versions of its object, whose parent is the old head and whose hash is
that of its fields, and changes no other list. A rollback gives the object the contents of a
version in the old list. -/
theorem history_grows {t : Store} {a : Act} {id : ObjectId}
    (h : Runs (fun a i b => next sha256 a i = b) (fun _ _ => True) start t)
    (ha : a.advances = some id) (hok : succeeds sha256 t a = true)
    (hinj : Set.InjOn sha256 {l | l ∈ (next sha256 t a).blocks.written})
    (hz : ∀ l ∈ (next sha256 t a).blocks.written, sha256 l ≠ .zero) :
    ∃ obj obj' v old, t.objects.get id = some obj ∧ (next sha256 t a).objects.get id = some obj' ∧
      versionList t id = .ok old ∧ versionList (next sha256 t a) id = .ok (v :: old.take 1023) ∧
      v.parent = obj.versionHead ∧
      v.hash = computeVersionHash sha256 v.parent v.contentHash v.timestamp v.objectId ∧
      (∀ i, i ≠ id → versionList (next sha256 t a) i = versionList t i) ∧
      ∀ o target, a = .versionRollback o id target → ∃ w ∈ old, w.hash = target ∧
        obj'.contentHash = w.contentHash ∧ obj'.contentSize = w.contentSize := by
  have hsub := (blocks_next sha256 t a).2
  have hinj' := hinj.mono hsub
  obtain ⟨chains, hbacked⟩ := backed_of_run h hinj' fun l hl => hz l (hsub hl)
  obtain ⟨obj, v, b, hobj, hnext, hparent, hhash, hbacked', hroll⟩ := hbacked.advances ha hok hz
  rw [hnext] at hinj ⊢
  have hobj' : (t.advanced id sha256 v b).objects.get id =
      some (Store.advance (sha256 v.encode) v obj) := by
    change (t.objects.adjust id _).get id = _
    rw [get_adjust, if_pos rfl, hobj]
    rfl
  have hsame : ∀ i, i ≠ id → (t.advanced id sha256 v b).objects.get i = t.objects.get i := by
    intro i hi
    change (t.objects.adjust id _).get i = _
    rw [get_adjust, if_neg hi]
  have hlist := hbacked.versionList hinj' hobj
  refine ⟨obj, _, v, _, hobj, hobj', hlist, ?_, hparent, hhash, fun i hi => ?_,
    fun o target hact => ?_⟩
  · rw [hbacked'.versionList hinj hobj', update_self, List.take_take]
    rfl
  · -- another object has its chain as before
    have hi' := hsame i hi
    cases hother : t.objects.get i with
    | none =>
      rw [hother] at hi'
      rw [Store.versionList, Store.versionList, hi', hother]
    | some other =>
      rw [hother] at hi'
      rw [hbacked'.versionList hinj hi', hbacked.versionList hinj' hother, update_of_ne hi]
  · obtain ⟨w, htarget, hcontent, hsize⟩ := hroll o target hact
    unfold rollbackTarget at htarget
    cases hfind : findVersion t.blocks id target maxDepth obj.versionHead with
    | error er => rw [hfind] at htarget; cases htarget
    | ok found =>
      rw [hfind] at htarget
      cases found with
      | none => cases htarget
      | some w' =>
        cases htarget
        obtain ⟨hmem, hhash'⟩ := Nodes.findVersion (hbacked.nodes hinj' hobj) hfind
        exact ⟨w, hmem, hhash', hcontent, hsize⟩

def twoVersions : List Act :=
  [.spaceCreate (.at 0) [1] .personal .unlimited,
    .objectCreate (.at 1) (idOf 0 1) [1] [7] .binary,
    .objectCreate (.at 2) (idOf 0 1) [2] [7] .binary,
    .objectUpdate (.at 3) (idOf 1 1) [8, 8] [] []]

def backToFirst : Act := .versionRollback (.at 4) (idOf 1 1)
  (computeVersionHash stampHash .zero (stampHash [7]) 1 (idOf 1 1))

theorem history_grows_back : ∃ obj' v old,
    (next stampHash (twoVersions.foldl (next stampHash) start) backToFirst).objects.get (idOf 1 1)
      = some obj' ∧
    versionList (twoVersions.foldl (next stampHash) start) (idOf 1 1) = .ok old ∧ old.length = 2 ∧
    versionList (next stampHash (twoVersions.foldl (next stampHash) start) backToFirst) (idOf 1 1)
      = .ok (v :: old.take 1023) ∧
    obj'.contentHash = stampHash [7] ∧ obj'.contentSize = 1 := by
  have hrun : Runs (fun a i b => next stampHash a i = b) (fun _ _ => True) start
      (twoVersions.foldl (next stampHash) start) :=
    Runs.of_foldl (fun _ _ _ => rfl) (by decide +kernel)
  have hok : succeeds stampHash (twoVersions.foldl (next stampHash) start) backToFirst = true := by
    decide +kernel
  have hwritten : (∀ l ∈ (next stampHash (twoVersions.foldl (next stampHash) start)
        backToFirst).blocks.written, stampHash l ≠ .zero) ∧
      ∀ l ∈ (next stampHash (twoVersions.foldl (next stampHash) start) backToFirst).blocks.written,
        ∀ l' ∈ (next stampHash (twoVersions.foldl (next stampHash) start)
          backToFirst).blocks.written, stampHash l = stampHash l' → l = l' := by
    decide +kernel
  have hlength : (versionList (twoVersions.foldl (next stampHash) start) (idOf 1 1)).map
      List.length = .ok 2 := by decide +kernel
  have hcontents : ((next stampHash (twoVersions.foldl (next stampHash) start)
      backToFirst).objects.get (idOf 1 1)).map (fun obj => (obj.contentHash, obj.contentSize)) =
        some (stampHash [7], 1) := by decide +kernel
  obtain ⟨obj, obj', v, old, -, hobj', hold, hnew, -⟩ := history_grows hrun
    (show backToFirst.advances = some (idOf 1 1) from rfl) hok
    (fun l hl l' hl' => hwritten.2 l hl l' hl') hwritten.1
  rw [hobj', Option.map_some, Option.some.injEq, Prod.mk.injEq] at hcontents
  rw [hold] at hlength
  exact ⟨obj', v, old, hobj', hold, Except.ok.inj hlength, hnew, hcontents.1, hcontents.2⟩

end Store

end Aios.Storage
