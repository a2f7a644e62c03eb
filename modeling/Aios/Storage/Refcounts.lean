import Aios.Storage.Chains

/-!
Reference counts over whole runs.

As long as a deletion comes to the end of the chain it releases, the counts are exact: they are
the references that the version nodes of the objects in the index hold. A deletion follows at most
1024 nodes; the references of those behind are never released.
-/

namespace Aios.Storage

open Aios.Lib Fallible List Function SortedTable

namespace Store

variable {sha256 : List UInt8 → ContentHash} {s : Store} {chains : ObjectId → List Version}

/-! ### One call -/

def ShortChain (s : Store) : Act → Prop
  | .objectDelete id => ∀ obj ∈ s.objects.get id, chainEnds s.blocks maxDepth obj.versionHead = true
  | _ => True

instance (s : Store) (a : Act) : Decidable (s.ShortChain a) := by
  unfold ShortChain
  split <;> infer_instance

/-- **One successful call** keeps the counts exact. -/
lemma Exact.next (h : Exact sha256 s chains) {a : Act} (hok : succeeds sha256 s a = true)
    (hshort : s.ShortChain a) (hinj : Set.InjOn sha256 {l | l ∈ s.blocks.written})
    (hz : ∀ l ∈ (Store.next sha256 s a).blocks.written, sha256 l ≠ .zero) :
    ∃ chains', Exact sha256 (Store.next sha256 s a) chains' := by
  have hdid := next_did sha256 s a
  generalize Store.next sha256 s a = t at hdid hz ⊢
  cases hdid with
  | failed hno hidle => rw [hno] at hok; cases hok
  | noSpace hfull => exact ⟨chains, h.congr rfl rfl⟩
  | space hfree => exact ⟨chains, h.congr rfl rfl⟩
  | create hspace hquota hcontent hversion hsize hnew =>
    exact ⟨_, (h.spared.create hcontent hversion hnew hz).exact fun _ => rfl⟩
  | update hobj hcontent hversion =>
    exact ⟨_, (h.spared.update hobj hcontent hversion hz).exact fun _ => rfl⟩
  | rollback hobj hold hversion hcontent =>
    exact ⟨_, (h.spared.rollback hobj hversion hcontent hz).exact fun _ => rfl⟩
  | @delete id obj hobj =>
    -- the walk has come to the end of the chain, so nothing of it is left
    have hlen : (chains id).length ≤ maxDepth :=
      ((h.spared.nodes hinj hobj).chainEnds_iff maxDepth).mp (hshort obj hobj)
    refine ⟨chains, (h.spared.delete hinj hobj maxDepth).exact fun k => ?_⟩
    rw [drop_of_length_le hlen, refs_nil]

/-! ### Nodes are blocks of their own -/

def nodeHashes (sha256 : List UInt8 → ContentHash) (s : Store)
    (chains : ObjectId → List Version) : List ContentHash :=
  s.objects.entries.flatMap fun e => (chains e.1).map fun v => sha256 v.encode

section

variable (h : Exact sha256 s chains) (hinj : Set.InjOn sha256 {l | l ∈ s.blocks.written})
include h hinj

lemma Exact.nodup : (nodeHashes sha256 s chains).Nodup := by
  refine nodup_flatMap.mpr ⟨fun e he => ?_, ?_⟩
  · have hobj := SortedTable.get_of_mem he
    exact (h.linked e.1 e.2 hobj).nodup hinj fun v hv => (h.own e.1 e.2 hobj v hv).2
  · refine s.objects.sorted.imp_of_mem fun {e e'} he he' hlt k hk hk' => ?_
    obtain ⟨v, hv, rfl⟩ := mem_map.mp hk
    obtain ⟨w, hw, heq⟩ := mem_map.mp hk'
    obtain ⟨hid, hmem⟩ := h.own e.1 e.2 (get_of_mem he) v hv
    obtain ⟨hid', hmem'⟩ := h.own e'.1 e'.2 (get_of_mem he') w hw
    -- equal blocks are equal nodes, and a node has one object
    have hwv : w = v := Version.encode_injective (hinj hmem' hmem heq)
    rw [hwv, hid] at hid'
    exact absurd hid' hlt.ne

lemma Exact.nodes_le : (s.objects.total fun id _ => (chains id).length) ≤ memtableMaxEntries := by
  have hlen : (nodeHashes sha256 s chains).length
      = s.objects.total fun id _ => (chains id).length := by
    simp [nodeHashes, SortedTable.total, length_flatMap]
  have hsub : nodeHashes sha256 s chains ⊆ s.blocks.memtable.entries.entries.map (·.1) := by
    intro k hk
    obtain ⟨e, he, hk⟩ := mem_flatMap.mp hk
    obtain ⟨v, hv, rfl⟩ := mem_map.mp hk
    have hpos := (h.spared.refcount_pos (get_of_mem he) hv).1
    obtain ⟨entry, hentry⟩ := Option.ne_none_iff_exists'.mp (h.ok.counted.pos.mp hpos)
    exact mem_map.mpr ⟨_, mem_of_get hentry, rfl⟩
  calc (s.objects.total fun id _ => (chains id).length)
      = (nodeHashes sha256 s chains).length := hlen.symm
    _ ≤ (s.blocks.memtable.entries.entries.map (·.1)).length :=
      ((h.nodup hinj).subperm hsub).length_le
    _ = s.blocks.memtable.entries.size := length_map _
    _ ≤ memtableMaxEntries := h.ok.room.trans h.ok.capacity.le

lemma Exact.refcount_lt (k : ContentHash) : s.blocks.refcount k < 2 ^ 32 := by
  have hsum : (s.objects.total fun id _ => refs sha256 (chains id) k)
      ≤ 2 * s.objects.total fun id _ => (chains id).length := by
    unfold SortedTable.total
    rw [← sum_map_mul_left]
    exact sum_le_sum fun e _ => refs_le _ _
  have hnodes := h.nodes_le hinj
  rw [h.count]
  unfold memtableMaxEntries at hnodes
  omega

end

/-! ### Runs -/

/-- **Reference counts are exact.** After any sequence of successful calls in which deletions come
to the end of the chain, every object in the index has its chain of nodes with its contents in
front, each node and its contents can be read, and the count of every hash is the number of nodes
with these contents and
of nodes with this block. With all objects deleted the index of blocks is empty. -/
theorem refcounts_exact {t : Store}
    (h : Runs (fun a i b => Store.next sha256 a i = b)
      (fun s a => succeeds sha256 s a = true ∧ s.ShortChain a) start t)
    (hinj : Set.InjOn sha256 {l | l ∈ t.blocks.written})
    (hz : ∀ l ∈ t.blocks.written, sha256 l ≠ .zero) :
    ∃ chains : ObjectId → List Version,
      (∀ id obj, t.objects.get id = some obj →
        Nodes t.blocks obj.versionHead (chains id) ∧
        (chains id).head?.map (·.contentHash) = some obj.contentHash ∧
        ∀ v ∈ chains id, ∃ block, sha256 block = v.contentHash ∧
          ∀ n, block.length ≤ n → t.blocks.readBlockByHash v.contentHash n = .ok block) ∧
      (∀ k, t.blocks.refcount k = t.objects.total fun id _ =>
        (chains id).countP (fun v => v.contentHash == k) +
          (chains id).countP fun v => sha256 v.encode == k) ∧
      (∀ k, t.blocks.refcount k < 2 ^ 32) ∧
      (t.objects.size = 0 → t.blocks.memtable.entries.size = 0) := by
  have hinv := h.inv
    (fun t => Set.InjOn sha256 {l | l ∈ t.blocks.written} →
      (∀ l ∈ t.blocks.written, sha256 l ≠ .zero) → ∃ chains, Exact sha256 t chains)
    (fun _ _ => ⟨fun _ => [], start_exact _⟩) (fun a i b ih hok hb hinj hz => by
      subst hb
      have hsub := (blocks_next sha256 a i).2
      have hinj' := hinj.mono hsub
      obtain ⟨chains, hex⟩ := ih hinj' fun l hl => hz l (hsub hl)
      exact hex.next hok.1 hok.2 hinj' hz)
  obtain ⟨chains, hex⟩ := hinv hinj hz
  refine ⟨chains, fun id obj hobj => ⟨hex.spared.nodes hinj hobj, hex.head id obj hobj,
    fun v hv => ?_⟩, hex.count,
    hex.refcount_lt hinj, fun hempty => ?_⟩
  · have hne := hex.ok.counted.pos.mp (hex.spared.refcount_pos hobj hv).2
    obtain ⟨e, he⟩ := Option.ne_none_iff_exists'.mp hne
    refine ⟨_, (hex.ok.stored _ hne).2, fun n hn => ?_⟩
    unfold Blocks.readBlockByHash
    rw [he]
    exact if_neg (by omega)
  · refine size_eq_zero_iff.mpr fun k => ?_
    have hnone := size_eq_zero_iff.mp hempty
    have hzero : t.blocks.refcount k ≤ t.objects.size * 0 := by
      rw [hex.count]
      exact total_le _ fun id obj hobj => by rw [hnone id] at hobj; cases hobj
    by_contra hne
    have hpos : 0 < t.blocks.refcount k := hex.ok.counted.pos.mpr hne
    omega

def sharedContents : List Act :=
  [.spaceCreate (.at 0) [1] .personal .unlimited,
    .objectCreate (.at 1) (idOf 0 1) [1] [7] .binary,
    .objectUpdate (.at 2) (idOf 1 1) [8] [] [],
    .versionRollback (.at 3) (idOf 1 1)
      (computeVersionHash stampHash .zero (stampHash [7]) 1 (idOf 1 1)),
    .objectCreate (.at 4) (idOf 0 1) [2] [7] .binary,
    .objectDelete (idOf 1 1)]

theorem refcounts_exact_sharedContents :
    (sharedContents.foldl (Store.next stampHash) start).blocks.refcount (stampHash [7]) = 1 ∧
    ∃ chains : ObjectId → List Version, ∀ k,
      (sharedContents.foldl (Store.next stampHash) start).blocks.refcount k
        = (sharedContents.foldl (Store.next stampHash) start).objects.total fun id _ =>
          (chains id).countP (fun v => v.contentHash == k) +
            (chains id).countP fun v => stampHash v.encode == k := by
  have hallowed : Runs.allowed (fun s a => succeeds stampHash s a = true ∧ s.ShortChain a)
      (Store.next stampHash) start sharedContents = true := by decide +kernel
  have hrun : Runs (fun a i b => Store.next stampHash a i = b)
      (fun s a => succeeds stampHash s a = true ∧ s.ShortChain a) start
      (sharedContents.foldl (Store.next stampHash) start) :=
    Runs.of_foldl (fun _ _ _ => rfl) hallowed
  have hinj : ∀ l ∈ (sharedContents.foldl (Store.next stampHash) start).blocks.written,
      ∀ l' ∈ (sharedContents.foldl (Store.next stampHash) start).blocks.written,
        stampHash l = stampHash l' → l = l' := by decide +kernel
  have hz : ∀ l ∈ (sharedContents.foldl (Store.next stampHash) start).blocks.written,
      stampHash l ≠ .zero := by decide +kernel
  obtain ⟨chains, -, hcount, -⟩ := refcounts_exact hrun (fun l hl l' hl' => hinj l hl l' hl') hz
  exact ⟨by decide +kernel, chains, hcount⟩

/-! ### A chain that is too long -/

lemma stampHash_encode (v : Version) :
    stampHash v.encode = ContentHash.ofBytes (1 :: Bytes.le 8 v.timestamp.toNat) := by
  obtain ⟨front, back, heq, hlen⟩ : ∃ front back : List UInt8,
      v.encode = front ++ (Bytes.le 8 v.timestamp.toNat ++ back) ∧ front.length = 240 := by
    refine ⟨v.hash.bytes ++ v.parent.bytes ++ v.mergeParent.bytes ++ v.contentHash.bytes ++
      v.objectId.bytes ++ v.author.bytes ++ v.message.bytes,
      Bytes.le 4 v.contentSize.toNat ++ Bytes.le 1 v.messageLen.toNat ++ v.padding.bytes, ?_, ?_⟩
    · simp [Version.encode, Version.fields]
    · simp [v.hash.length_bytes, v.parent.length_bytes, v.mergeParent.length_bytes,
        v.contentHash.length_bytes, v.objectId.length_bytes, v.author.length_bytes,
        v.message.length_bytes, maxAuthorLen, maxVersionMessageLen]
  rw [stampHash, if_pos v.length_encode, heq, drop_left' hlen, take_left' (Bytes.length_le _ _)]

lemma stampHash_encode_inj {v w : Version} (h : stampHash v.encode = stampHash w.encode) :
    v.timestamp = w.timestamp := by
  rw [stampHash_encode, stampHash_encode] at h
  have hbytes := congrArg (fun x => (x.bytes.drop 1).take 8) h
  simp only [ContentHash.ofBytes, cons_append, take_succ_cons, drop_succ_cons,
    drop_zero, take_take] at hbytes
  rw [take_left' (by simp), take_left' (by simp)] at hbytes
  have hnat := congrArg Bytes.ofLe hbytes
  rw [Bytes.ofLe_le (by have := v.timestamp.toNat_lt; omega),
    Bytes.ofLe_le (by have := w.timestamp.toNat_lt; omega)] at hnat
  exact UInt64.toNat_inj.mp hnat

lemma stampHash_ne_zero (l : List UInt8) : stampHash l ≠ .zero := by
  intro h
  have hhead := congrArg (fun x => x.bytes.head?) h
  unfold stampHash at hhead
  split_ifs at hhead <;> simp [ContentHash.ofBytes, ContentHash.zero, List.replicate] at hhead

lemma Exact.delete_long (h : Exact sha256 s chains)
    (hinj : Set.InjOn sha256 {l | l ∈ s.blocks.written}) {id : ObjectId} {obj : CompactObject}
    (hobj : s.objects.get id = some obj) (hlong : maxDepth < (chains id).length) :
    ∃ k, 0 < (releaseChain maxDepth obj.versionHead s.blocks).refcount k := by
  have hcount := (h.spared.delete hinj hobj maxDepth).count
  obtain ⟨v, hv⟩ := exists_mem_of_length_pos
    (show 0 < ((chains id).drop maxDepth).length by rw [length_drop]; omega)
  have hpos : 0 < refs sha256 ((chains id).drop maxDepth) (sha256 v.encode) := (refs_pos hv).1
  refine ⟨sha256 v.encode, ?_⟩
  have := hcount (sha256 v.encode)
  dsimp only at this
  omega

/-- One object with the contents `[7]` in `n + 1` versions, stamped from 1 on. -/
structure Sevens (n : ℕ) (s : Store) (chains : ObjectId → List Version) : Prop where
  exact : Exact stampHash s chains
  present : ∃ obj, s.objects.get (idOf 1 1) = some obj
  single : s.objects.size = 1
  length : (chains (idOf 1 1)).length = n + 1
  stamped : ∀ v ∈ chains (idOf 1 1), v.timestamp.toNat ≤ n + 1
  distinct : ((chains (idOf 1 1)).map (·.timestamp)).Nodup
  written : ∀ l ∈ s.blocks.written, l = [7] ∨ ∃ v ∈ chains (idOf 1 1), l = v.encode
  size : s.blocks.memtable.entries.size ≤ 2 * (n + 1)

variable {n : ℕ}

lemma stampHash_seven_ne (v : Version) : stampHash [7] ≠ stampHash v.encode := by
  intro h
  rw [stampHash_encode] at h
  have hhead := congrArg (fun x => x.bytes.head?) h
  simp [stampHash, Version.size, ContentHash.ofBytes] at hhead

lemma Sevens.injOn (h : Sevens n s chains) : Set.InjOn stampHash {l | l ∈ s.blocks.written} := by
  intro l hl l' hl' heq
  rcases h.written l hl with rfl | ⟨v, hv, rfl⟩
  · rcases h.written l' hl' with rfl | ⟨w, hw, rfl⟩
    · rfl
    · exact absurd heq (stampHash_seven_ne w)
  · rcases h.written l' hl' with rfl | ⟨w, hw, rfl⟩
    · exact absurd heq.symm (stampHash_seven_ne v)
    · rw [inj_on_of_nodup_map h.distinct hv hw (stampHash_encode_inj heq)]

lemma succeeds_update {o : Outside} {id : ObjectId} {obj : CompactObject}
    {content author message : List UInt8} (hobj : s.objects.get id = some obj)
    (hne : content ≠ []) (hdev : ∀ l, ∃ loc, o.device l = .ok loc)
    (hroom : s.blocks.memtable.entries.size + 1 < s.blocks.memtable.capacity) :
    succeeds sha256 s (.objectUpdate o id content author message) = true := by
  have hget : getObject id s = .ok obj s := by rw [getObject_eq, hobj]
  -- the contents
  obtain ⟨loc1, hloc1⟩ := hdev content
  obtain ⟨⟨hash, loc⟩, b1, hw1⟩ : ∃ r b, Blocks.writeBlock sha256 o.device content s.blocks
      = (.ok r, b) := Blocks.writeBlock_succeeds hne hloc1 (by omega)
  obtain ⟨hhash, hwrote⟩ := Blocks.writeBlock_ok hw1
  -- the version
  set v := updateVersion sha256 o id obj.versionHead content author message
  obtain ⟨loc2, hloc2⟩ := hdev v.encode
  have hv : v.encode ≠ [] := by
    intro hnil
    have hlen := v.length_encode
    rw [hnil] at hlen
    cases hlen
  obtain ⟨⟨head, loc'⟩, b2, hw2⟩ : ∃ r b, Blocks.writeBlock sha256 o.device v.encode b1
      = (.ok r, b) := Blocks.writeBlock_succeeds hv hloc2 (by
        have h1 := hwrote.size
        have h2 := hwrote.capacity
        omega)
  have h₁ : onBlocks (Blocks.writeBlock sha256 o.device content) s
      = .ok (hash, loc) { s with blocks := b1 } := by rw [onBlocks, hw1]
  have h₂ : onBlocks (Blocks.writeBlock sha256 o.device v.encode) { s with blocks := b1 }
      = .ok (head, loc') { s with blocks := b2 } := by rw [onBlocks, hw2]
  have hall : objectUpdate sha256 o id content author message s
      = .ok hash (s.advanced id sha256 v b2) := by
    dsimp only at hhash
    have hhead := (Blocks.writeBlock_ok hw2).1
    dsimp only at hhead
    subst hhash hhead
    unfold objectUpdate
    rw [bind_eq hget, bind_eq h₁]
    dsimp only
    rw [show newVersion sha256 obj.versionHead (sha256 content) (UInt32.ofNat content.length) id
      o.tick author message = v from rfl, bind_eq h₂]
    rfl
  rw [succeeds, call, bind_eq hall]
  rfl

lemma Sevens.update (h : Sevens n s chains) (hn : n ≤ maxDepth) :
    succeeds stampHash s (.objectUpdate (.at (UInt64.ofNat (n + 2))) (idOf 1 1) [7] [] []) = true ∧
    ∃ chains', Sevens (n + 1)
      (Store.next stampHash s (.objectUpdate (.at (UInt64.ofNat (n + 2))) (idOf 1 1) [7] [] []))
      chains' := by
  obtain ⟨obj, hobj⟩ := h.present
  have hdepth : maxDepth = 1024 := rfl
  have hcap : s.blocks.memtable.capacity = 65536 := h.exact.ok.capacity
  have hsize := h.size
  have hok : succeeds stampHash s
      (.objectUpdate (.at (UInt64.ofNat (n + 2))) (idOf 1 1) [7] [] []) = true :=
    succeeds_update hobj (by simp) (fun _ => ⟨_, rfl⟩) (by omega)
  refine ⟨hok, ?_⟩
  have hdid := next_did stampHash s
    (.objectUpdate (.at (UInt64.ofNat (n + 2))) (idOf 1 1) [7] [] [])
  generalize Store.next stampHash s _ = t at hdid ⊢
  cases hdid with
  | failed hno hidle => rw [hno] at hok; cases hok
  | @update _ _ _ _ _ obj' b1 b2 hobj' hcontent hversion =>
    set v := updateVersion stampHash (.at (UInt64.ofNat (n + 2))) (idOf 1 1) obj'.versionHead [7]
      [] []
    have hex : Exact stampHash (s.advanced (idOf 1 1) stampHash v b2)
        (Function.update chains (idOf 1 1) (v :: chains (idOf 1 1))) :=
      (h.exact.spared.update hobj' hcontent hversion fun l _ => stampHash_ne_zero l).exact
        fun _ => rfl
    have hstamp : v.timestamp.toNat = n + 2 := by
      change (UInt64.ofNat (n + 2)).toNat = n + 2
      rw [UInt64.toNat_ofNat']
      omega
    refine ⟨_, hex, ⟨advance (stampHash v.encode) v obj', ?_⟩, ?_, ?_, ?_, ?_, ?_, ?_⟩
    · simp [advanced, get_adjust, hobj']
    · simpa [advanced] using h.single
    · simp [h.length]
    · intro w hmem
      rw [update_self] at hmem
      rcases mem_cons.mp hmem with rfl | hmem
      · omega
      · have := h.stamped w hmem
        omega
    · rw [update_self, map_cons, nodup_cons]
      refine ⟨fun hmem => ?_, h.distinct⟩
      obtain ⟨w, hw, heq⟩ := mem_map.mp hmem
      have hle := h.stamped w hw
      rw [heq] at hle
      omega
    · intro l hl
      change l ∈ b2.written at hl
      rw [hversion.written, hcontent.written, update_self] at *
      simp only [mem_append, mem_singleton] at hl
      rcases hl with (hl | rfl) | rfl
      · rcases h.written l hl with rfl | ⟨w, hw, rfl⟩
        · exact .inl rfl
        · exact .inr ⟨w, mem_cons_of_mem _ hw, rfl⟩
      · exact .inl rfl
      · exact .inr ⟨v, mem_cons_self, rfl⟩
    · have h1 := hcontent.size
      have h2 := hversion.size
      change b2.memtable.entries.size ≤ _
      omega

lemma sevens_create (hb : s.blocks = Blocks.start) (ho : s.objects = SortedTable.empty)
    (hc : s.objectCounter = 1)
    (hok : succeeds stampHash s (.objectCreate (.at 1) (idOf 0 1) [1] [7] .binary) = true) :
    ∃ chains, Sevens 0
      (Store.next stampHash s (.objectCreate (.at 1) (idOf 0 1) [1] [7] .binary)) chains := by
  have hex0 : Exact stampHash s fun _ => [] := (start_exact _).congr hb ho
  have hdid := next_did stampHash s (.objectCreate (.at 1) (idOf 0 1) [1] [7] .binary)
  generalize Store.next stampHash s _ = t at hdid ⊢
  cases hdid with
  | failed hno hidle => rw [hno] at hok; cases hok
  | @create _ _ _ _ _ b1 b2 space hspace hquota hcontent hversion hsize hnew =>
    have hex : Exact stampHash (created s (.at 1) (idOf 0 1) [1] [7] .binary stampHash b2) _ :=
      (hex0.spared.create hcontent hversion hnew fun l _ => stampHash_ne_zero l).exact fun _ => rfl
    have hid : idOf (Outside.at 1).idTick s.objectCounter = idOf 1 1 := by rw [hc]; rfl
    simp only [created, hid] at hnew hversion hex ⊢
    set v := createdVersion stampHash (.at 1) (idOf 1 1) (stampHash [7]) [7]
    have hchain : Function.update (fun _ => []) (idOf 1 1) [v] (idOf 1 1) = [v] :=
      update_self _ _ _
    refine ⟨_, hex, ⟨createdObject (.at 1) (idOf 1 1) (idOf 0 1) [1] [7] .binary (stampHash [7])
      (stampHash v.encode), ?_⟩, ?_, ?_, ?_, ?_, ?_, ?_⟩
    · simp [get_insert]
    · rw [size_insert hnew, ho]
      rfl
    · rw [hchain]
      rfl
    · intro w hw
      rw [hchain, mem_singleton] at hw
      subst hw
      exact le_rfl
    · rw [hchain]
      exact nodup_singleton _
    · intro l hl
      change l ∈ b2.written at hl
      rw [hversion.written, hcontent.written, hb] at hl
      rw [hchain]
      simp only [Blocks.start, nil_append, mem_append, mem_singleton] at hl
      rcases hl with rfl | rfl
      · exact .inl rfl
      · exact .inr ⟨v, mem_singleton_self v, rfl⟩
    · have h1 := hcontent.size
      have h2 := hversion.size
      have h3 : s.blocks.memtable.entries.size = 0 := by rw [hb]; rfl
      change b2.memtable.entries.size ≤ _
      omega

lemma sevens_run (hn : n ≤ maxDepth) : ∃ s chains,
    Runs (fun a i b => Store.next stampHash a i = b)
      (fun s a => succeeds stampHash s a = true) start s ∧ Sevens n s chains := by
  induction n with
  | zero =>
    obtain ⟨s1, hrun, hb, ho, hc, hok⟩ : ∃ s1, Runs (fun a i b => Store.next stampHash a i = b)
        (fun s a => succeeds stampHash s a = true) start s1 ∧ s1.blocks = Blocks.start ∧
        s1.objects = SortedTable.empty ∧ s1.objectCounter = 1 ∧
        succeeds stampHash s1 (.objectCreate (.at 1) (idOf 0 1) [1] [7] .binary) = true := by
      have hspace : succeeds stampHash start (.spaceCreate (.at 0) [1] .personal .unlimited)
        = true := by decide +kernel
      exact ⟨_, (Runs.refl start).snoc hspace rfl, rfl, rfl, rfl, by decide +kernel⟩
    obtain ⟨chains, h⟩ := sevens_create hb ho hc hok
    exact ⟨_, chains, hrun.snoc hok rfl, h⟩
  | succ n ih =>
    obtain ⟨s, chains, hrun, h⟩ := ih (by omega)
    obtain ⟨hok, chains', h'⟩ := h.update (by omega)
    exact ⟨_, chains', hrun.snoc hok rfl, h'⟩

/-- **Deleting an object with 1025 versions leaks.** Its last object deleted, the store still has
a block with a reference. -/
theorem long_chain_leaks : ∃ t,
    Runs (fun a i b => Store.next stampHash a i = b)
      (fun s a => succeeds stampHash s a = true) start t ∧
    Set.InjOn stampHash {l | l ∈ t.blocks.written} ∧
    (∀ l ∈ t.blocks.written, stampHash l ≠ .zero) ∧
    t.objects.size = 0 ∧ ∃ k, 0 < t.blocks.refcount k := by
  obtain ⟨s, chains, hrun, h⟩ := sevens_run (le_refl maxDepth)
  obtain ⟨obj, hobj⟩ := h.present
  have hcall : call stampHash (.objectDelete (idOf 1 1)) s = .ok () { s with
      objects := s.objects.erase (idOf 1 1)
      blocks := releaseChain maxDepth obj.versionHead s.blocks
      spaces := SpaceTable.modify s.spaces obj.spaceId (refund obj.contentSize.toNat) } := by
    have hget : getObject (idOf 1 1) s = .ok obj s := by rw [getObject_eq, hobj]
    rw [call, objectDelete, bind_eq hget]
    rfl
  have hok : succeeds stampHash s (.objectDelete (idOf 1 1)) = true := by rw [succeeds, hcall]; rfl
  refine ⟨_, hrun.snoc hok rfl, ?_, fun l _ => stampHash_ne_zero l, ?_, ?_⟩
  · rw [next, hcall]
    change Set.InjOn _ {l | l ∈ (releaseChain _ _ _).written}
    rw [releaseChain_written]
    exact h.injOn
  · rw [next, hcall]
    have herase := size_erase hobj
    rw [h.single] at herase
    exact Nat.succ.inj herase
  · rw [next, hcall]
    exact h.exact.delete_long h.injOn hobj (by rw [h.length]; omega)

end Store

end Aios.Storage
