import Aios.Storage.ObjectSpec

/-!
Chains of version nodes and the references they hold.

The nodes of an object are blocks linked by hash. Each node holds a reference to its own block and
one to its contents. The reference counts are exact when they add up over the chains of all objects
in the index; each operation adds one node with its two references, and a deletion releases the
nodes from the head on, as many as its walk reaches.
-/

namespace Aios.Storage

open Aios.Lib SortedTable List Function

variable {sha256 : List UInt8 → ContentHash}

/-! ### Chains -/

def Linked (sha256 : List UInt8 → ContentHash) : ContentHash → List Version → Prop
  | h, [] => h = .zero
  | h, v :: l => h = sha256 v.encode ∧ h ≠ .zero ∧ Linked sha256 v.parent l

def refs (sha256 : List UInt8 → ContentHash) (l : List Version) (k : ContentHash) : ℕ :=
  l.countP (fun v => v.contentHash == k) + l.countP (fun v => sha256 v.encode == k)

@[simp] lemma refs_nil (k : ContentHash) : refs sha256 [] k = 0 := rfl

lemma refs_cons (v : Version) (l : List Version) (k : ContentHash) : refs sha256 (v :: l) k =
    refs sha256 l k + (if k = v.contentHash then 1 else 0) +
      if k = sha256 v.encode then 1 else 0 := by
  simp only [refs, countP_cons, beq_iff_eq, eq_comm (a := k)]
  omega

lemma refs_le (l : List Version) (k : ContentHash) : refs sha256 l k ≤ 2 * l.length := by
  have h1 := countP_le_length (p := fun v : Version => v.contentHash == k) (l := l)
  have h2 := countP_le_length (p := fun v : Version => sha256 v.encode == k) (l := l)
  unfold refs
  omega

lemma refs_pos {l : List Version} {v : Version} (hv : v ∈ l) :
    0 < refs sha256 l (sha256 v.encode) ∧ 0 < refs sha256 l v.contentHash := by
  have h1 : 0 < l.countP fun w => sha256 w.encode == sha256 v.encode :=
    countP_pos_iff.mpr ⟨v, hv, by simp⟩
  have h2 : 0 < l.countP fun w => w.contentHash == v.contentHash :=
    countP_pos_iff.mpr ⟨v, hv, by simp⟩
  unfold refs
  omega

namespace Linked

variable {h : ContentHash} {l l' : List Version} {S : Set (List UInt8)}

lemma unique (hinj : Set.InjOn sha256 S) (hl : Linked sha256 h l) (hl' : Linked sha256 h l')
    (hS : ∀ v ∈ l, v.encode ∈ S) (hS' : ∀ v ∈ l', v.encode ∈ S) : l = l' := by
  induction l generalizing h l' with
  | nil =>
    cases l' with
    | nil => rfl
    | cons v l' => exact absurd hl hl'.2.1
  | cons v l ih =>
    obtain ⟨rfl, hz, htail⟩ := hl
    cases l' with
    | nil => exact absurd hl' hz
    | cons w l' =>
      obtain ⟨heq, -, htail'⟩ := hl'
      have hvw : v = w := Version.encode_injective
        (hinj (hS v mem_cons_self) (hS' w mem_cons_self) heq)
      subst hvw
      rw [ih htail htail' (fun x hx => hS x (mem_cons_of_mem _ hx))
        fun x hx => hS' x (mem_cons_of_mem _ hx)]

lemma of_append {l1 : List Version} {v : Version} (hl : Linked sha256 h (l1 ++ v :: l)) :
    Linked sha256 v.parent l := by
  induction l1 generalizing h with
  | nil => exact hl.2.2
  | cons w l1 ih => exact ih hl.2.2

lemma nodup (hinj : Set.InjOn sha256 S) (hl : Linked sha256 h l) (hS : ∀ v ∈ l, v.encode ∈ S) :
    (l.map fun v => sha256 v.encode).Nodup := by
  induction l generalizing h with
  | nil => exact nodup_nil
  | cons v l ih =>
    obtain ⟨rfl, -, htail⟩ := hl
    have hS' : ∀ w ∈ l, w.encode ∈ S := fun w hw => hS w (mem_cons_of_mem _ hw)
    refine nodup_cons.mpr ⟨fun hmem => ?_, ih htail hS'⟩
    obtain ⟨w, hw, heq⟩ := mem_map.mp hmem
    have hvw : w = v :=
      Version.encode_injective (hinj (hS' w hw) (hS v mem_cons_self) heq)
    subst hvw
    obtain ⟨l1, l2, rfl⟩ := append_of_mem hw
    have hsame := htail.unique hinj (of_append htail) hS' fun x hx =>
      hS' x (mem_append_right _ (mem_cons_of_mem _ hx))
    have := congrArg List.length hsame
    simp at this
    omega

end Linked

/-! ### Reading and releasing a chain -/

section Walk

variable {b : Blocks} {h : ContentHash} {l : List Version}

lemma readVersion_zero (b : Blocks) : Store.readVersion b .zero = .ok none := by
  simp [Store.readVersion, ContentHash.isZero]

lemma readVersion_of (hok : b.Ok sha256) (hinj : Set.InjOn sha256 {l | l ∈ b.written}) {v : Version}
    (hw : v.encode ∈ b.written) (hpos : 0 < b.refcount (sha256 v.encode))
    (hz : sha256 v.encode ≠ .zero) : Store.readVersion b (sha256 v.encode) = .ok (some v) := by
  have hread := hok.read hinj hw hpos v.length_encode.le
  unfold Store.readVersion
  rw [hread]
  simp [ContentHash.isZero, hz, v.length_encode, v.decode_encode]

inductive Nodes (b : Blocks) : ContentHash → List Version → Prop
  | nil : Nodes b .zero []
  | cons {h : ContentHash} {v : Version} {l : List Version} (hz : h ≠ .zero)
    (hread : Store.readVersion b h = .ok (some v)) (htail : Nodes b v.parent l) :
    Nodes b h (v :: l)

lemma Linked.nodes (hl : Linked sha256 h l) (hok : b.Ok sha256)
    (hinj : Set.InjOn sha256 {l | l ∈ b.written}) (hw : ∀ v ∈ l, v.encode ∈ b.written)
    (hpos : ∀ v ∈ l, 0 < b.refcount (sha256 v.encode)) : Nodes b h l := by
  induction l generalizing h with
  | nil => rw [show h = .zero from hl]; exact .nil
  | cons v l ih =>
    obtain ⟨rfl, hz, htail⟩ := hl
    refine .cons hz (readVersion_of hok hinj (hw v mem_cons_self)
      (hpos v mem_cons_self) hz) (ih htail ?_ ?_)
    · exact fun w hmem => hw w (mem_cons_of_mem _ hmem)
    · exact fun w hmem => hpos w (mem_cons_of_mem _ hmem)

/-- Does the walk of `object_delete` come to the end of the chain? -/
def chainEnds (b : Blocks) : ℕ → ContentHash → Bool
  | 0, hash => hash.isZero
  | n + 1, hash =>
    match Store.readVersion b hash with
    | .ok (some v) => chainEnds b n v.parent
    | _ => true

lemma Nodes.chainEnds_iff (hn : Nodes b h l) (n : ℕ) : chainEnds b n h = true ↔ l.length ≤ n := by
  induction hn generalizing n with
  | nil =>
    cases n with
    | zero => simp [chainEnds, ContentHash.isZero]
    | succ n => simp [chainEnds, readVersion_zero]
  | cons hz hread htail ih =>
    cases n with
    | zero => simp [chainEnds, ContentHash.isZero, hz]
    | succ n => simp [chainEnds, hread, ih n]

/-- **The walk of a deletion.** Of the references that the nodes hold, those of the first `n` nodes
are released. -/
lemma releaseChain_spec (hok : b.Ok sha256) (hinj : Set.InjOn sha256 {l | l ∈ b.written})
    (hl : Linked sha256 h l) (hw : ∀ v ∈ l, v.encode ∈ b.written) {rest : ContentHash → ℕ}
    (hrefs : ∀ k, b.refcount k = refs sha256 l k + rest k) (n : ℕ) :
    (Store.releaseChain n h b).Ok sha256 ∧
      ∀ k, (Store.releaseChain n h b).refcount k = refs sha256 (l.drop n) k + rest k := by
  induction l generalizing h b n with
  | nil =>
    have hh : h = .zero := hl
    cases n with
    | zero => exact ⟨hok, hrefs⟩
    | succ n =>
      have hstop : Store.releaseChain (n + 1) h b = b := by
        simp [Store.releaseChain, hh, readVersion_zero]
      rw [hstop]
      exact ⟨hok, hrefs⟩
  | cons v l ih =>
    cases n with
    | zero => exact ⟨hok, hrefs⟩
    | succ n =>
      obtain ⟨rfl, hz, htail⟩ := hl
      have hpos : 0 < b.refcount (sha256 v.encode) := by
        rw [hrefs]
        exact Nat.add_pos_left (refs_pos mem_cons_self).1 _
      have hread := readVersion_of hok hinj (hw v mem_cons_self) hpos hz
      -- the two references of the first node go
      set b' := ((b.decRef v.contentHash).2.decRef (sha256 v.encode)).2
      have hwritten : b'.written = b.written := by
        simp only [b', Blocks.decRef_eq]
      have hcount : ∀ k, b'.refcount k = refs sha256 l k + rest k := by
        intro k
        have h1 := Blocks.refcount_decRef (hok.decRef v.contentHash) (sha256 v.encode) k
        have h2 := Blocks.refcount_decRef hok v.contentHash k
        have h3 := hrefs k
        rw [refs_cons] at h3
        change b'.refcount k = _ at h1
        omega
      have hstep : Store.releaseChain (n + 1) (sha256 v.encode) b
          = Store.releaseChain n v.parent b' := by
        rw [Store.releaseChain, hread]
      rw [hstep]
      refine ih ((hok.decRef _).decRef _) ?_ htail (fun w hmem => ?_) hcount n
      · rw [hwritten]; exact hinj
      · rw [hwritten]; exact hw w (mem_cons_of_mem _ hmem)

end Walk

/-! ### The chains of all objects -/

namespace Store

variable {s s' : Store} {chains : ObjectId → List Version} {id : ObjectId} {obj : CompactObject}

structure Threaded (sha256 : List UInt8 → ContentHash) (objects : ObjectIndex)
    (written : List (List UInt8)) (chains : ObjectId → List Version) : Prop where
  linked : ∀ id obj, objects.get id = some obj → Linked sha256 obj.versionHead (chains id)
  own : ∀ id obj, objects.get id = some obj → ∀ v ∈ chains id,
    v.objectId = id ∧ v.encode ∈ written
  head : ∀ id obj, objects.get id = some obj →
    (chains id).head?.map (·.contentHash) = some obj.contentHash

namespace Threaded

variable {objects : ObjectIndex} {written written' : List (List UInt8)} {v : Version}

section

variable (h : Threaded sha256 objects written chains)
include h

lemma update {objects' : ObjectIndex}
    {chain : List Version} (hwritten : written ⊆ written')
    (hother : ∀ i obj', i ≠ id → objects'.get i = some obj' → objects.get i = some obj')
    (hchain : ∀ obj', objects'.get id = some obj' → Linked sha256 obj'.versionHead chain ∧
      (∀ v ∈ chain, v.objectId = id ∧ v.encode ∈ written') ∧
      chain.head?.map (·.contentHash) = some obj'.contentHash) :
    Threaded sha256 objects' written' (update chains id chain) := by
  refine ⟨fun i obj' hobj' => ?_, fun i obj' hobj' w hw => ?_, fun i obj' hobj' => ?_⟩ <;>
    by_cases hi : i = id
  · subst hi
    rw [update_self]
    exact (hchain obj' hobj').1
  · rw [update_of_ne hi]
    exact h.linked i obj' (hother i obj' hi hobj')
  · subst hi
    rw [update_self] at hw
    exact (hchain obj' hobj').2.1 w hw
  · rw [update_of_ne hi] at hw
    obtain ⟨hid, hmem⟩ := h.own i obj' (hother i obj' hi hobj') w hw
    exact ⟨hid, hwritten hmem⟩
  · subst hi
    rw [update_self]
    exact (hchain obj' hobj').2.2
  · rw [update_of_ne hi]
    exact h.head i obj' (hother i obj' hi hobj')

lemma mono (hwritten : written ⊆ written') : Threaded sha256 objects written' chains :=
  ⟨h.linked, fun i obj hobj v hv => ⟨(h.own i obj hobj v hv).1, hwritten (h.own i obj hobj v hv).2⟩,
    h.head⟩

lemma erase (id : ObjectId) : Threaded sha256 (objects.erase id) written chains := by
  have hget : ∀ i obj, (objects.erase id).get i = some obj → objects.get i = some obj := by
    intro i obj hi
    rw [get_erase] at hi
    split_ifs at hi
    exact hi
  exact ⟨fun i obj hi => h.linked i obj (hget i obj hi), fun i obj hi => h.own i obj (hget i obj hi),
    fun i obj hi => h.head i obj (hget i obj hi)⟩

lemma insert (hwritten : written ⊆ written') (hw : v.encode ∈ written')
    (hz : sha256 v.encode ≠ .zero) (hid : v.objectId = id) (hparent : v.parent = .zero)
    (hhead : obj.versionHead = sha256 v.encode) (hcontent : obj.contentHash = v.contentHash) :
    Threaded sha256 (objects.insert id obj) written' (Function.update chains id [v]) := by
  refine h.update hwritten (fun i obj' hi hobj' => ?_) fun obj' hobj' => ?_
  · rwa [get_insert, if_neg hi] at hobj'
  · rw [get_insert, if_pos rfl, Option.some.injEq] at hobj'
    subst hobj'
    refine ⟨⟨hhead, hhead ▸ hz, hparent⟩, fun w hmem => ?_, by rw [hcontent]; rfl⟩
    rw [mem_singleton.mp hmem]
    exact ⟨hid, hw⟩

lemma advance (hobj : objects.get id = some obj)
    (hwritten : written ⊆ written') (hw : v.encode ∈ written') (hz : sha256 v.encode ≠ .zero)
    (hid : v.objectId = id) (hparent : v.parent = obj.versionHead) :
    Threaded sha256 (objects.adjust id (Store.advance (sha256 v.encode) v)) written'
      (Function.update chains id (v :: chains id)) := by
  refine h.update hwritten (fun i obj' hi hobj' => ?_) fun obj' hobj' => ?_
  · rwa [get_adjust, if_neg hi] at hobj'
  · rw [get_adjust, if_pos rfl, hobj, Option.map_some, Option.some.injEq] at hobj'
    subst hobj'
    refine ⟨⟨rfl, hz, hparent ▸ h.linked id obj hobj⟩, fun w hmem => ?_, rfl⟩
    rcases mem_cons.mp hmem with rfl | hmem
    · exact ⟨hid, hw⟩
    · exact ⟨(h.own id obj hobj w hmem).1, hwritten (h.own id obj hobj w hmem).2⟩

end

end Threaded

def held (sha256 : List UInt8 → ContentHash) (objects : ObjectIndex)
    (chains : ObjectId → List Version) (k : ContentHash) : ℕ :=
  objects.total fun id _ => refs sha256 (chains id) k

section Held

variable {objects : ObjectIndex} {v : Version}

lemma refs_le_held (hobj : objects.get id = some obj) (k : ContentHash) :
    refs sha256 (chains id) k ≤ held sha256 objects chains k :=
  le_total (fun i _ => refs sha256 (chains i) k) hobj

lemma held_insert (hnew : objects.get id = none) (k : ContentHash) :
    held sha256 (objects.insert id obj) (update chains id [v]) k =
      held sha256 objects chains k + (if k = v.contentHash then 1 else 0) +
        if k = sha256 v.encode then 1 else 0 := by
  have hsum : objects.total (fun i _ => refs sha256 (update chains id [v] i) k)
      = objects.total fun i _ => refs sha256 (chains i) k := by
    refine total_congr fun i obj hobj => ?_
    rw [update_of_ne fun hi => by rw [hi, hnew] at hobj; cases hobj]
  unfold held
  rw [total_insert _ hnew, update_self, refs_cons, refs_nil, hsum]
  omega

lemma held_advance (hobj : objects.get id = some obj) (f : CompactObject → CompactObject)
    (k : ContentHash) :
    held sha256 (objects.adjust id f) (update chains id (v :: chains id)) k =
      held sha256 objects chains k + (if k = v.contentHash then 1 else 0) +
        if k = sha256 v.encode then 1 else 0 := by
  have hadj := total_adjust
    (fun i (_ : CompactObject) => refs sha256 (update chains id (v :: chains id) i) k)
    f hobj
  have hchange := total_change
    (f := fun i (_ : CompactObject) => refs sha256 (chains i) k)
    (g := fun i (_ : CompactObject) =>
      refs sha256 (update chains id (v :: chains id) i) k) hobj
    fun i _ hi => by rw [update_of_ne hi]
  rw [update_self, refs_cons] at hchange
  unfold held
  omega

lemma held_erase (hobj : objects.get id = some obj) (k : ContentHash) :
    held sha256 (objects.erase id) chains k + refs sha256 (chains id) k =
      held sha256 objects chains k :=
  total_erase _ hobj

end Held

/-! ### Counts -/

/-- Every object in the index has its chain of nodes, and the reference counts are those that the
nodes hold, and some to spare. -/
structure Spared (sha256 : List UInt8 → ContentHash) (s : Store)
    (chains : ObjectId → List Version) (spare : ContentHash → ℕ) : Prop where
  ok : s.blocks.Ok sha256
  threaded : Threaded sha256 s.objects s.blocks.written chains
  count : ∀ k, s.blocks.refcount k = held sha256 s.objects chains k + spare k

namespace Spared

variable {spare : ContentHash → ℕ} {v : Version} {o : Outside} {b1 b2 : Blocks}
  {content : List UInt8}

section

variable (h : Spared sha256 s chains spare)
include h

lemma refcount_pos (hobj : s.objects.get id = some obj) (hv : v ∈ chains id) :
    0 < s.blocks.refcount (sha256 v.encode) ∧ 0 < s.blocks.refcount v.contentHash := by
  obtain ⟨h1, h2⟩ : 0 < refs sha256 (chains id) (sha256 v.encode) ∧
    0 < refs sha256 (chains id) v.contentHash := refs_pos hv
  rw [h.count, h.count]
  exact ⟨Nat.add_pos_left (h1.trans_le (refs_le_held hobj _)) _,
    Nat.add_pos_left (h2.trans_le (refs_le_held hobj _)) _⟩

lemma nodes (hinj : Set.InjOn sha256 {l | l ∈ s.blocks.written})
  (hobj : s.objects.get id = some obj) :
    Nodes s.blocks obj.versionHead (chains id) :=
  (h.threaded.linked id obj hobj).nodes h.ok hinj
    (fun v hv => (h.threaded.own id obj hobj v hv).2) fun _ hv => (h.refcount_pos hobj hv).1

lemma create {spaceId : SpaceId} {name : List UInt8}
    {contentType : ContentType} (hcontent : Blocks.Wrote sha256 content s.blocks b1)
    (hversion : Blocks.Wrote sha256 (createdVersion sha256 o (idOf o.idTick s.objectCounter)
      (sha256 content) content).encode b1 b2)
    (hnew : s.objects.get (idOf o.idTick s.objectCounter) = none)
    (hz : ∀ l ∈ b2.written, sha256 l ≠ .zero) :
    Spared sha256 (created s o spaceId name content contentType sha256 b2)
      (update chains (idOf o.idTick s.objectCounter)
        [createdVersion sha256 o (idOf o.idTick s.objectCounter) (sha256 content) content])
      spare := by
  have hw : (createdVersion sha256 o (idOf o.idTick s.objectCounter) (sha256 content)
      content).encode ∈ b2.written := by
    rw [hversion.written]
    simp
  refine ⟨hversion.ok (hcontent.ok h.ok), ?_, fun k => ?_⟩
  · exact h.threaded.insert (hcontent.grown.trans hversion.grown).written.subset hw (hz _ hw)
      rfl rfl rfl rfl
  · change b2.refcount k = held sha256 (s.objects.insert _ _) _ k + _
    rw [held_insert hnew, hversion.refcount, hcontent.refcount, h.count]
    change _ + (if k = sha256 content then 1 else 0) + _ =
      _ + (if k = sha256 content then 1 else 0) + _ + _
    omega

lemma advance {b : Blocks}
    (hobj : s.objects.get id = some obj) (hparent : v.parent = obj.versionHead)
    (hid : v.objectId = id) (hz : ∀ l ∈ b.written, sha256 l ≠ .zero) (hok : b.Ok sha256)
    (hwritten : s.blocks.written ⊆ b.written) (hw : v.encode ∈ b.written)
    (hcount : ∀ k, b.refcount k = s.blocks.refcount k + (if k = v.contentHash then 1 else 0) +
      if k = sha256 v.encode then 1 else 0) :
    Spared sha256 (s.advanced id sha256 v b) (update chains id (v :: chains id))
      spare := by
  refine ⟨hok, h.threaded.advance hobj hwritten hw (hz _ hw) hid hparent, fun k => ?_⟩
  change b.refcount k = held sha256 (s.objects.adjust _ _) _ k + _
  rw [held_advance hobj, hcount, h.count]
  omega

lemma update {author message : List UInt8}
    (hobj : s.objects.get id = some obj) (hcontent : Blocks.Wrote sha256 content s.blocks b1)
    (hversion : Blocks.Wrote sha256
      (updateVersion sha256 o id obj.versionHead content author message).encode b1 b2)
    (hz : ∀ l ∈ b2.written, sha256 l ≠ .zero) :
    Spared sha256 (s.advanced id sha256
        (updateVersion sha256 o id obj.versionHead content author message) b2)
      (update chains id
        (updateVersion sha256 o id obj.versionHead content author message :: chains id))
      spare := by
  refine h.advance hobj rfl rfl hz (hversion.ok (hcontent.ok h.ok))
    (hcontent.grown.trans hversion.grown).written.subset ?_ fun k => ?_
  · rw [hversion.written]
    simp
  · rw [hversion.refcount, hcontent.refcount]
    rfl

lemma rollback {old : Version}
    (hobj : s.objects.get id = some obj)
    (hversion : Blocks.Wrote sha256 (rollbackVersion sha256 o id obj.versionHead old).encode
      s.blocks b1)
    (hcontent : b1.memtable.get old.contentHash ≠ none)
    (hz : ∀ l ∈ b1.written, sha256 l ≠ .zero) :
    Spared sha256 (s.advanced id sha256 (rollbackVersion sha256 o id obj.versionHead old)
        { b1 with memtable := b1.memtable.bump old.contentHash })
      (Function.update chains id (rollbackVersion sha256 o id obj.versionHead old :: chains id))
      spare := by
  refine h.advance hobj rfl rfl hz ((hversion.ok h.ok).bump _) hversion.grown.written.subset ?_
    fun k => ?_
  · change _ ∈ b1.written
    rw [hversion.written]
    simp
  · have hbump := MemTable.refcount_bump hcontent k
    have hwrote := hversion.refcount k
    unfold Blocks.refcount at hwrote ⊢
    rw [hbump, hwrote]
    change _ = s.blocks.memtable.refcount k + (if k = old.contentHash then 1 else 0) + _
    omega

/-- A deleted object. Its nodes release what they hold, and those that the walk does not reach
nothing; the other chains keep theirs. -/
lemma delete (hinj : Set.InjOn sha256 {l | l ∈ s.blocks.written}) (hobj : s.objects.get id = some obj)
    (n : ℕ) :
    Spared sha256 { s with
      objects := s.objects.erase id
      blocks := releaseChain n obj.versionHead s.blocks
      spaces := SpaceTable.modify s.spaces obj.spaceId (refund obj.contentSize.toNat) } chains
      fun k => spare k + refs sha256 ((chains id).drop n) k := by
  have hrefs : ∀ k, s.blocks.refcount k = refs sha256 (chains id) k +
      (held sha256 (s.objects.erase id) chains k + spare k) := by
    intro k
    rw [h.count, ← held_erase hobj]
    omega
  obtain ⟨hok, hcount⟩ := releaseChain_spec h.ok hinj (h.threaded.linked id obj hobj)
    (fun v hv => (h.threaded.own id obj hobj v hv).2) hrefs n
  refine ⟨hok, ?_, fun k => ?_⟩
  · dsimp only
    rw [releaseChain_written]
    exact h.threaded.erase id
  · dsimp only
    rw [hcount]
    omega

end

end Spared

structure Exact (sha256 : List UInt8 → ContentHash) (s : Store)
    (chains : ObjectId → List Version) : Prop where
  ok : s.blocks.Ok sha256
  linked : ∀ id obj, s.objects.get id = some obj → Linked sha256 obj.versionHead (chains id)
  own : ∀ id obj, s.objects.get id = some obj → ∀ v ∈ chains id,
    v.objectId = id ∧ v.encode ∈ s.blocks.written
  head : ∀ id obj, s.objects.get id = some obj →
    (chains id).head?.map (·.contentHash) = some obj.contentHash
  count : ∀ k, s.blocks.refcount k = s.objects.total fun id _ => refs sha256 (chains id) k

lemma start_exact (chains : ObjectId → List Version) : Exact sha256 start chains :=
  ⟨Blocks.start_ok, fun _ _ h => (by cases h), fun _ _ h => (by cases h), fun _ _ h => (by cases h),
    fun _ => rfl⟩

lemma Exact.spared (h : Exact sha256 s chains) : Spared sha256 s chains fun _ => 0 :=
  ⟨h.ok, ⟨h.linked, h.own, h.head⟩, h.count⟩

lemma Spared.exact {spare : ContentHash → ℕ} (h : Spared sha256 s chains spare)
    (hspare : ∀ k, spare k = 0) : Exact sha256 s chains :=
  ⟨h.ok, h.threaded.linked, h.threaded.own, h.threaded.head, fun k => by
    rw [h.count, hspare]
    rfl⟩

lemma Exact.congr (h : Exact sha256 s chains) (hb : s'.blocks = s.blocks)
    (ho : s'.objects = s.objects) : Exact sha256 s' chains := by
  obtain ⟨hok, hthreaded, hcount⟩ := h.spared
  rw [← hb, ← ho] at hthreaded
  rw [← hb] at hok hcount
  rw [← ho] at hcount
  exact Spared.exact ⟨hok, hthreaded, hcount⟩ fun _ => rfl

end Store

end Aios.Storage
