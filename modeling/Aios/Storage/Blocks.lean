import Aios.Storage.Index

/-!
The block engine as the stores above it use it.

They write blocks, read them back by hash and count references; a block that is in the index can
be read. Where a new block goes and whether the device takes it is an answer from outside.
`written` records the blocks handed to `write_block`; nothing reads it.
-/

namespace Aios.Storage

open Aios.Lib SortedTable Option Function List

abbrev Device.Answer := List UInt8 → Except StorageError BlockLocation

structure Blocks where
  memtable : MemTable
  data : ContentHash → List UInt8
  written : List (List UInt8)

namespace MemTable

variable {t t' : MemTable} {k key : ContentHash} {loc : BlockLocation}

def refcount (t : MemTable) (k : ContentHash) : ℕ := ((t.get k).map (·.refcount)).getD 0

def Counted (t : MemTable) : Prop := ∀ k e, t.get k = some e → 1 ≤ e.refcount

lemma refcount_of_get {e : MemTableEntry} (h : t.get k = some e) : t.refcount k = e.refcount := by
  rw [refcount, h]; rfl

lemma refcount_of_none (h : t.get k = none) : t.refcount k = 0 := by
  rw [refcount, h]; rfl

lemma Counted.pos (h : t.Counted) : 0 < t.refcount k ↔ t.get k ≠ none := by
  cases hk : t.get k with
  | none => simp [refcount_of_none hk]
  | some e =>
    have := h k e hk
    simp only [refcount_of_get hk, ne_eq, reduceCtorEq, not_false_eq_true, iff_true]
    omega

lemma get_bump (t : MemTable) (key k : ContentHash) : (t.bump key).get k =
    if k = key then (t.get k).map fun e => { e with refcount := e.refcount + 1 }
    else t.get k := by
  simp only [get, bump, get_adjust]
  split_ifs <;> rfl

lemma refcount_bump (h : t.get key ≠ none) (k : ContentHash) :
    (t.bump key).refcount k = t.refcount k + if k = key then 1 else 0 := by
  obtain ⟨e, he⟩ := ne_none_iff_exists'.mp h
  by_cases hk : k = key
  · subst hk
    rw [refcount_of_get (e := { e with refcount := e.refcount + 1 }) (by simp [get_bump, he]),
      refcount_of_get he, if_pos rfl]
  · simp [refcount, get_bump, hk]

lemma Counted.bump (h : t.Counted) (key : ContentHash) : (t.bump key).Counted := by
  intro k e he
  rw [get_bump] at he
  split_ifs at he
  · obtain ⟨e', -, rfl⟩ := map_eq_some_iff.mp he
    exact Nat.le_add_left 1 _
  · exact h k e he

lemma insert_none (h : t.get key = none) (hi : t.insert key loc = .ok t') :
    t' = { t with entries := t.entries.insert key ⟨loc, 1⟩ } ∧ t.entries.size < t.capacity := by
  simp only [insert, h] at hi
  split_ifs at hi with hfull
  simp only [isFull, decide_eq_true_eq, not_le] at hfull
  cases hi
  exact ⟨rfl, hfull⟩

lemma refcount_insert (h : t.get key = none) (k : ContentHash) :
    ({ t with entries := t.entries.insert key ⟨loc, 1⟩ } : MemTable).refcount k
      = t.refcount k + if k = key then 1 else 0 := by
  by_cases hk : k = key
  · subst hk
    rw [refcount_of_none h, if_pos rfl]
    exact refcount_of_get (e := ⟨loc, 1⟩) (by simp [get, get_insert])
  · simp [refcount, get, get_insert, hk]

lemma Counted.insert (h : t.Counted) :
    ({ t with entries := t.entries.insert key ⟨loc, 1⟩ } : MemTable).Counted := by
  intro k e he
  simp only [get, get_insert] at he
  split_ifs at he
  · cases he
    exact le_rfl
  · exact h k e he

lemma get_decRef (t : MemTable) (key k : ContentHash) : (t.decRef key).2.get k =
    if k = key then (t.get k).bind fun e =>
      if e.refcount ≤ 1 then none else some { e with refcount := e.refcount - 1 }
    else t.get k := by
  unfold decRef
  cases he : t.get key with
  | none =>
    split_ifs with hk
    · simp [hk, he]
    · rfl
  | some e =>
    by_cases hle : e.refcount ≤ 1
    · simp only [hle, if_true, get, get_erase]
      split_ifs with hk
      · subst hk
        rw [show t.entries.get k = some e from he]
        simp [hle]
      · rfl
    · simp only [hle, if_false, get, get_adjust]
      split_ifs with hk
      · subst hk
        rw [show t.entries.get k = some e from he]
        simp [hle]
      · rfl

lemma refcount_decRef (h : t.Counted) (key k : ContentHash) :
    (t.decRef key).2.refcount k = t.refcount k - if k = key then 1 else 0 := by
  by_cases hk : k = key
  · subst hk
    rw [if_pos rfl]
    cases he : t.get k with
    | none => simp [refcount, get_decRef, he]
    | some e =>
      have hpos := h k e he
      by_cases hle : e.refcount ≤ 1
      · simp only [refcount, get_decRef, he, if_true, bind_some, hle, map_none,
          getD_none, map_some, getD_some]
        omega
      · simp only [refcount, get_decRef, he, if_true, bind_some, hle, if_false, map_some, getD_some]
  · simp [refcount, get_decRef, hk]

lemma Counted.decRef (h : t.Counted) (key : ContentHash) : (t.decRef key).2.Counted := by
  intro k e he
  rw [get_decRef] at he
  split_ifs at he
  · obtain ⟨e', -, he'⟩ := bind_eq_some_iff.mp he
    split_ifs at he' with hle
    cases he'
    change 1 ≤ e'.refcount - 1
    omega
  · exact h k e he

lemma size_decRef_le (t : MemTable) (key : ContentHash) :
    (t.decRef key).2.entries.size ≤ t.entries.size ∧ (t.decRef key).2.capacity = t.capacity := by
  unfold decRef
  cases t.get key with
  | none => exact ⟨le_rfl, rfl⟩
  | some e =>
    by_cases hle : e.refcount ≤ 1
    · simp only [hle, if_true]
      exact ⟨size_erase_le key, trivial⟩
    · simp only [hle, if_false, size_adjust]
      exact ⟨le_rfl, trivial⟩

end MemTable

namespace Blocks

variable (sha256 : List UInt8 → ContentHash) {b b' : Blocks} {k : ContentHash}

def start : Blocks := ⟨MemTable.withDefaultCapacity, fun _ => [], []⟩

def refcount (b : Blocks) (k : ContentHash) : ℕ := b.memtable.refcount k

def writeBlock (device : Device.Answer) (block : List UInt8) (b : Blocks) :
    Except StorageError (ContentHash × BlockLocation) × Blocks :=
  if block.isEmpty then (.error .ioError, b)
  else
    match b.memtable.get (sha256 block) with
    | some entry =>
      (.ok (sha256 block, entry.location),
        { b with memtable := b.memtable.bump (sha256 block), written := b.written ++ [block] })
    | none =>
      match device block with
      | .error er => (.error er, b)
      | .ok location =>
        match b.memtable.insert (sha256 block) location with
        | .error _ => (.error .memTableFull, b)
        | .ok t => (.ok (sha256 block, location),
            ⟨t, update b.data (sha256 block) block, b.written ++ [block]⟩)

/-- `read_block_by_hash`, into a buffer of `bufLen` bytes. -/
def readBlockByHash (b : Blocks) (hash : ContentHash) (bufLen : ℕ) :
    Except StorageError (List UInt8) :=
  match b.memtable.get hash with
  | none => .error .blockNotFound
  | some _ => if bufLen < (b.data hash).length then .error .ioError else .ok (b.data hash)

def incRef (hash : ContentHash) (b : Blocks) : Except StorageError Unit × Blocks :=
  match b.memtable.get hash with
  | none => (.error .blockNotFound, b)
  | some _ => (.ok (), { b with memtable := b.memtable.bump hash })

/-- `dec_ref`: whether the block was freed. -/
def decRef (hash : ContentHash) (b : Blocks) : Except StorageError Bool × Blocks :=
  match b.memtable.decRef hash with
  | (some (_, freed), t) => (.ok freed, { b with memtable := t })
  | (none, _) => (.error .blockNotFound, b)

lemma decRef_eq (hash : ContentHash) (b : Blocks) :
    (b.decRef hash).2 = { b with memtable := (b.memtable.decRef hash).2 } := by
  unfold decRef MemTable.decRef
  cases b.memtable.get hash with
  | none => rfl
  | some e => by_cases hle : e.refcount ≤ 1 <;> simp [hle]

/-- Every block in the index has a reference and is there with the data of its hash; the index
has not grown beyond its capacity. -/
structure Ok (b : Blocks) : Prop where
  counted : b.memtable.Counted
  stored : ∀ k, b.memtable.get k ≠ none → b.data k ∈ b.written ∧ sha256 (b.data k) = k
  room : b.memtable.entries.size ≤ b.memtable.capacity
  capacity : b.memtable.capacity = memtableMaxEntries

variable {sha256}

lemma start_ok : Ok sha256 start :=
  ⟨fun _ _ h => (by cases h), fun _ h => absurd rfl h, Nat.zero_le _, rfl⟩

variable {block : List UInt8} {device : Device.Answer} {er : StorageError}

lemma writeBlock_error (h : writeBlock sha256 device block b = (.error er, b')) : b' = b := by
  unfold writeBlock at h
  split_ifs at h
  · cases h; rfl
  · cases hget : b.memtable.get (sha256 block) with
    | some e => simp [hget] at h
    | none =>
      simp only [hget] at h
      cases hdev : device block with
      | error er' => simp only [hdev] at h; cases h; rfl
      | ok loc =>
        simp only [hdev] at h
        cases hins : b.memtable.insert (sha256 block) loc with
        | error er' => simp only [hins] at h; cases h; rfl
        | ok t => simp [hins] at h

structure Wrote (sha256 : List UInt8 → ContentHash) (block : List UInt8) (b b' : Blocks) : Prop
    where
  written : b'.written = b.written ++ [block]
  refcount : ∀ k, b'.refcount k = b.refcount k + if k = sha256 block then 1 else 0
  present : ∀ k, b.memtable.get k ≠ none → b'.memtable.get k ≠ none
  new : b'.memtable.get (sha256 block) ≠ none
  kept : ∀ k, b.memtable.get k ≠ none → b'.data k = b.data k
  ok : Ok sha256 b → Ok sha256 b'
  size : b'.memtable.entries.size ≤ b.memtable.entries.size + 1
  capacity : b'.memtable.capacity = b.memtable.capacity

lemma writeBlock_ok {r : ContentHash × BlockLocation}
    (h : writeBlock sha256 device block b = (.ok r, b')) :
    r.1 = sha256 block ∧ Wrote sha256 block b b' := by
  unfold writeBlock at h
  split_ifs at h
  · cases h
  cases hget : b.memtable.get (sha256 block) with
  | some e =>
    simp only [hget] at h
    cases h
    have hne : b.memtable.get (sha256 block) ≠ none := by simp [hget]
    refine ⟨rfl, rfl, MemTable.refcount_bump hne, fun k hk => ?_, by simp [MemTable.get_bump, hget],
      fun _ _ => rfl, fun hok => ⟨hok.counted.bump _, fun k hk => ?_, ?_, hok.capacity⟩, ?_, rfl⟩
    · simp only [MemTable.get_bump]
      split_ifs
      · simpa using hk
      · exact hk
    · have hk' : b.memtable.get k ≠ none := by
        intro hc
        simp [MemTable.get_bump, hc] at hk
      obtain ⟨hmem, hsha⟩ := hok.stored k hk'
      exact ⟨mem_append_left _ hmem, hsha⟩
    · simpa [MemTable.bump] using hok.room
    · simp [MemTable.bump]
  | none =>
    simp only [hget] at h
    cases hdev : device block with
    | error er => simp [hdev] at h
    | ok loc =>
      simp only [hdev] at h
      cases hins : b.memtable.insert (sha256 block) loc with
      | error er => simp [hins] at h
      | ok t =>
        simp only [hins] at h
        cases h
        obtain ⟨rfl, hroom⟩ := MemTable.insert_none hget hins
        refine ⟨rfl, rfl, MemTable.refcount_insert hget, fun k hk => ?_,
          by simp [MemTable.get, get_insert], fun k hk => ?_,
          fun hok => ⟨hok.counted.insert, fun k hk => ?_, ?_, hok.capacity⟩, ?_, rfl⟩
        · simp only [MemTable.get, get_insert]
          split_ifs
          · simp
          · exact hk
        · refine update_of_ne ?_ _ _
          rintro rfl
          exact hk hget
        · by_cases hkey : k = sha256 block
          · subst hkey
            simp
          · have hk' : b.memtable.get k ≠ none := by
              intro hc
              apply hk
              simpa [MemTable.get, get_insert, hkey] using hc
            obtain ⟨hmem, hsha⟩ := hok.stored k hk'
            simp only [update_of_ne hkey]
            exact ⟨mem_append_left _ hmem, hsha⟩
        · rw [size_insert hget]
          exact hroom
        · exact (size_insert hget).le

lemma writeBlock_succeeds {loc : BlockLocation} (hne : block ≠ []) (hdev : device block = .ok loc)
    (hroom : b.memtable.entries.size < b.memtable.capacity) :
    ∃ r b', writeBlock sha256 device block b = (.ok r, b') := by
  unfold writeBlock
  rw [if_neg (by simpa using hne)]
  cases hget : b.memtable.get (sha256 block) with
  | some e => exact ⟨_, _, rfl⟩
  | none =>
    have hins : b.memtable.insert (sha256 block) loc
        = .ok { b.memtable with entries := b.memtable.entries.insert (sha256 block) ⟨loc, 1⟩ } := by
      unfold MemTable.insert
      rw [hget]
      simp [MemTable.isFull, hroom]
    simp only [hdev, hins]
    exact ⟨_, _, rfl⟩

structure Grown (sha256 : List UInt8 → ContentHash) (b b' : Blocks) : Prop where
  written : b.written <+: b'.written
  refcount : ∀ k, b.refcount k ≤ b'.refcount k
  present : ∀ k, b.memtable.get k ≠ none → b'.memtable.get k ≠ none
  kept : ∀ k, b.memtable.get k ≠ none → b'.data k = b.data k
  ok : Ok sha256 b → Ok sha256 b'

lemma Grown.refl (b : Blocks) : Grown sha256 b b :=
  ⟨prefix_refl _, fun _ => le_rfl, fun _ h => h, fun _ _ => rfl, fun h => h⟩

lemma Grown.trans {b'' : Blocks} (h : Grown sha256 b b') (h' : Grown sha256 b' b'') :
    Grown sha256 b b'' :=
  ⟨h.written.trans h'.written, fun k => (h.refcount k).trans (h'.refcount k),
    fun k hk => h'.present k (h.present k hk),
    fun k hk => (h'.kept k (h.present k hk)).trans (h.kept k hk), fun hok => h'.ok (h.ok hok)⟩

lemma Wrote.grown (h : Wrote sha256 block b b') : Grown sha256 b b' :=
  ⟨h.written ▸ prefix_append _ _, fun k => by rw [h.refcount k]; omega, h.present, h.kept,
    h.ok⟩

lemma incRef_ok (h : incRef k b = (.ok (), b')) :
    b.memtable.get k ≠ none ∧ b' = { b with memtable := b.memtable.bump k } := by
  unfold incRef at h
  cases hget : b.memtable.get k with
  | none => simp [hget] at h
  | some e =>
    simp only [hget] at h
    cases h
    exact ⟨by simp, rfl⟩

lemma incRef_error (h : incRef k b = (.error er, b')) : b' = b := by
  unfold incRef at h
  cases hget : b.memtable.get k with
  | none => simp only [hget] at h; cases h; rfl
  | some e => simp [hget] at h

lemma Ok.bump (hok : Ok sha256 b) (k : ContentHash) :
    Ok sha256 { b with memtable := b.memtable.bump k } := by
  refine ⟨hok.counted.bump k, fun j hj => hok.stored j fun hc => ?_, ?_, hok.capacity⟩
  · simp [MemTable.get_bump, hc] at hj
  · simpa [MemTable.bump] using hok.room

lemma Ok.decRef (hok : Ok sha256 b) (k : ContentHash) : Ok sha256 (b.decRef k).2 := by
  rw [decRef_eq]
  obtain ⟨hsize, hcap⟩ := b.memtable.size_decRef_le k
  refine ⟨hok.counted.decRef k, fun j hj => hok.stored j fun hc => ?_, ?_, hcap.trans hok.capacity⟩
  · simp [MemTable.get_decRef, hc] at hj
  · exact hsize.trans (hok.room.trans hcap.ge)

lemma refcount_decRef (hok : Ok sha256 b) (k j : ContentHash) :
    (b.decRef k).2.refcount j = b.refcount j - if j = k then 1 else 0 := by
  rw [decRef_eq]
  exact MemTable.refcount_decRef hok.counted k j

lemma Ok.read (hok : Ok sha256 b) (hinj : Set.InjOn sha256 {l | l ∈ b.written})
    (hw : block ∈ b.written) (hpos : 0 < b.refcount (sha256 block)) {n : ℕ}
    (hn : block.length ≤ n) : b.readBlockByHash (sha256 block) n = .ok block := by
  have hne : b.memtable.get (sha256 block) ≠ none := hok.counted.pos.mp hpos
  obtain ⟨e, he⟩ := ne_none_iff_exists'.mp hne
  obtain ⟨hmem, hsha⟩ := hok.stored _ hne
  have hdata : b.data (sha256 block) = block := hinj hmem hw hsha
  unfold readBlockByHash
  rw [he, hdata]
  exact if_neg (by omega)

/-- **The engine's `write_block` is this one**, when the device answers with the place the engine
chose; a call that does not succeed leaves the index as it was. -/
theorem writeBlock_engine {env : Env} {tick : ℕ} {e e' : Engine} {d d' : Device} {recs : List Rec}
    {mk : Mark} {data : List UInt8} {out : Out StorageError (ContentHash × BlockLocation)}
    (h : Live env tick e (flat d.disk) recs mk) (hb : b.memtable = e.memtable)
    (hrun : Storage.writeBlock env data e d = (out, e', d')) :
    (∀ r, out = .ok r → ∃ b', writeBlock env.sha256 (fun _ => .ok r.2) data b = (.ok r, b') ∧
      b'.memtable = e'.memtable) ∧ ((∀ r, out ≠ .ok r) → e'.memtable = b.memtable) := by
  rw [hb]
  rcases writeBlock_cases data h with ⟨-, er, heq⟩ | ⟨entry, hget, hne, heq⟩ |
    ⟨hne, hget, hr, heq⟩ <;> rw [heq] at hrun
  · cases hrun
    exact ⟨nofun, fun _ => rfl⟩
  · cases hrun
    refine ⟨fun r hr => ?_, fun hno => absurd rfl (hno _)⟩
    cases hr
    exact ⟨_, by rw [writeBlock, if_neg (by simpa using hne), hb, hget], rfl⟩
  · obtain ⟨stage, C, out', e₁, d₁, hwrite, -, hans, -⟩ := writeNew_cases h hr
    cases hrun.symm.trans hwrite
    refine ⟨fun r hok => ?_, hans.kept⟩
    obtain ⟨-, rfl, hins⟩ := hans.ok r hok
    have hnew : e.memtable.insert (env.sha256 data) (newRec env e data).loc = .ok e'.memtable :=
      hins
    refine ⟨⟨e'.memtable, update b.data (env.sha256 data) data, b.written ++ [data]⟩, ?_, rfl⟩
    rw [writeBlock, if_neg (by simpa using hne), hb, hget]
    dsimp only
    rw [hnew]
    rfl

end Blocks

end Aios.Storage
