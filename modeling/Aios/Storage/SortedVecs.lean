import Aios.Lib.SortedVec
import Aios.Storage.Objects

/-!
`MemTable` and `ObjectIndex` as the vectors they are.

Every call searches the entries by bisection, which is right only while they are sorted. Over every
sequence of calls they stay sorted and the calls answer as they would on a finite map.
-/

namespace Aios.Storage

open Aios.Lib SortedTable

/-! ### `MemTable` -/

/-- The entries of a `MemTable`, by key. -/
abbrev MemVec := List (ContentHash × MemTableEntry)

abbrev BlockMap := Finmap fun _ : ContentHash => MemTableEntry

/-- `refcount += 1` on a `u32`. -/
def MemTableEntry.inc (e : MemTableEntry) : MemTableEntry :=
  { e with refcount := (e.refcount + 1) % 2 ^ 32 }

def MemTableEntry.dec (e : MemTableEntry) : MemTableEntry := { e with refcount := e.refcount - 1 }

inductive MemCall
  | insert (key : ContentHash) (location : BlockLocation)
  | get (key : ContentHash)
  | remove (key : ContentHash)
  | decRef (key : ContentHash)

inductive MemAnswer
  | inserted (r : Except StorageError Bool)
  | entry (r : Option MemTableEntry)
  | removed (r : Option BlockLocation)
  | released (r : Option (BlockLocation × Bool))

def MemVec.call (S : BinarySearch ContentHash MemTableEntry) (capacity : ℕ) (t : MemVec) :
    MemCall → MemAnswer × MemVec
  | .insert key location => S.act (fun e => (.inserted (.ok false), .put e.inc))
      (if capacity ≤ t.length then (.inserted (.error .memTableFull), .keep)
        else (.inserted (.ok true), .put ⟨location, 1⟩)) t key
  | .get key => S.act (fun e => (.entry (some e), .keep)) (.entry none, .keep) t key
  | .remove key => S.act (fun e => (.removed (some e.location), .erase)) (.removed none, .keep) t key
  | .decRef key => S.act (fun e =>
      if e.refcount ≤ 1 then (.released (some (e.location, true)), .erase)
      else (.released (some (e.location, false)), .put e.dec)) (.released none, .keep) t key

def BlockMap.call (capacity : ℕ) (m : BlockMap) : MemCall → MemAnswer × BlockMap
  | .insert key location =>
    match m.lookup key with
    | some e => (.inserted (.ok false), m.insert key ⟨e.location, (e.refcount + 1) % 2 ^ 32⟩)
    | none =>
      if capacity ≤ m.keys.card then (.inserted (.error .memTableFull), m)
      else (.inserted (.ok true), m.insert key ⟨location, 1⟩)
  | .get key => (.entry (m.lookup key), m)
  | .remove key =>
    match m.lookup key with
    | none => (.removed none, m)
    | some e => (.removed (some e.location), m.erase key)
  | .decRef key =>
    match m.lookup key with
    | none => (.released none, m)
    | some e =>
      if e.refcount ≤ 1 then (.released (some (e.location, true)), m.erase key)
      else (.released (some (e.location, false)), m.insert key ⟨e.location, e.refcount - 1⟩)

/-! ### `ObjectIndex` -/

/-- The entries of an `ObjectIndex`, by id. -/
abbrev IndexVec := List (ObjectId × CompactObject)

abbrev ObjectMap := Finmap fun _ : ObjectId => CompactObject

inductive IndexCall
  | insert (object : CompactObject)
  | get (id : ObjectId)
  | remove (id : ObjectId)

inductive IndexAnswer
  | inserted (r : Except StorageError Unit)
  | object (r : Option CompactObject)

def IndexVec.call (S : BinarySearch ObjectId CompactObject) (t : IndexVec) :
    IndexCall → IndexAnswer × IndexVec
  | .insert object =>
    if objectIndexMaxEntries ≤ t.length then (.inserted (.error .memTableFull), t)
    else S.act (fun _ => (.inserted (.error .nameExists), .keep))
      (.inserted (.ok ()), .put object) t object.id
  | .get id => S.act (fun o => (.object (some o), .keep)) (.object none, .keep) t id
  | .remove id => S.act (fun o => (.object (some o), .erase)) (.object none, .keep) t id

def ObjectMap.call (m : ObjectMap) : IndexCall → IndexAnswer × ObjectMap
  | .insert object =>
    if objectIndexMaxEntries ≤ m.keys.card then (.inserted (.error .memTableFull), m)
    else match m.lookup object.id with
      | some _ => (.inserted (.error .nameExists), m)
      | none => (.inserted (.ok ()), m.insert object.id object)
  | .get id => (.object (m.lookup id), m)
  | .remove id =>
    match m.lookup id with
    | none => (.object none, m)
    | some object => (.object (some object), m.erase id)

/-! ### The vectors read as the maps -/

lemma MemVec.reads_call {S : BinarySearch ContentHash MemTableEntry} {capacity : ℕ} {t : MemVec}
    {m : BlockMap} (h : Reads capacity t m) (c : MemCall) : (t.call S capacity c).1 =
    (m.call capacity c).1 ∧ Reads capacity (t.call S capacity c).2 (m.call capacity c).2 := by
  cases c with
  | insert key location =>
    refine h.act (fun e he => by rw [BlockMap.call, he]; rfl) fun hnone => ?_
    rw [BlockMap.call, hnone, h.card]
    split_ifs with hfull
    · exact ⟨rfl, .inl rfl⟩
    · exact ⟨rfl, .inr ⟨_, rfl, not_le.mp hfull⟩⟩
  | get key =>
    exact h.act (fun e he => by rw [BlockMap.call, he]; rfl)
      fun hnone => ⟨by rw [BlockMap.call, hnone]; rfl, .inl rfl⟩
  | remove key =>
    exact h.act (fun e he => by rw [BlockMap.call, he]; rfl)
      fun hnone => ⟨by rw [BlockMap.call, hnone]; rfl, .inl rfl⟩
  | decRef key =>
    refine h.act (fun e he => ?_) fun hnone => ⟨by rw [BlockMap.call, hnone]; rfl, .inl rfl⟩
    rw [BlockMap.call, he]
    dsimp only
    split_ifs <;> rfl

lemma IndexVec.reads_call {S : BinarySearch ObjectId CompactObject} {t : IndexVec} {m : ObjectMap}
    (h : Reads objectIndexMaxEntries t m) (c : IndexCall) : (t.call S c).1 = (m.call c).1 ∧
      Reads objectIndexMaxEntries (t.call S c).2 (m.call c).2 := by
  cases c with
  | insert object =>
    rw [IndexVec.call, ObjectMap.call, h.card]
    split_ifs with hfull
    · exact ⟨rfl, h⟩
    · exact h.act (fun e he => by rw [he]; rfl)
        fun hnone => ⟨by rw [hnone]; rfl, .inr ⟨_, rfl, not_le.mp hfull⟩⟩
  | get id =>
    exact h.act (fun e he => by rw [ObjectMap.call, he]; rfl)
      fun hnone => ⟨by rw [ObjectMap.call, hnone]; rfl, .inl rfl⟩
  | remove id =>
    exact h.act (fun e he => by rw [ObjectMap.call, he]; rfl)
      fun hnone => ⟨by rw [ObjectMap.call, hnone]; rfl, .inl rfl⟩

/-- **Sorted tables are finite maps.** Whatever the search does on entries that are not sorted, over
every sequence of calls both tables answer as the maps do, sorted and within their capacity. -/
theorem sorted_tables_are_maps (S : BinarySearch ContentHash MemTableEntry)
    (S' : BinarySearch ObjectId CompactObject) (capacity : ℕ) (calls : List MemCall)
    (calls' : List IndexCall) :
    let run := answers (MemVec.call S capacity) [] calls
    let run' := answers (IndexVec.call S') [] calls'
    (run.1 = (answers (BlockMap.call capacity) ∅ calls).1 ∧ Increasing run.2 ∧
        run.2.length ≤ capacity) ∧
      run'.1 = (answers ObjectMap.call ∅ calls').1 ∧ Increasing run'.2 ∧
        run'.2.length ≤ objectIndexMaxEntries := by
  obtain ⟨hanswers, hreads⟩ := answers_eq (MemVec.call S capacity) (BlockMap.call capacity)
    (Reads capacity) (fun _ _ c h => MemVec.reads_call h c) (reads_nil _) calls
  obtain ⟨hanswers', hreads'⟩ := answers_eq (IndexVec.call S') ObjectMap.call
    (Reads objectIndexMaxEntries) (fun _ _ c h => IndexVec.reads_call h c) (reads_nil _) calls'
  exact ⟨⟨hanswers, hreads.increasing, hreads.room⟩, hanswers', hreads'.increasing, hreads'.room⟩

/-! ### The table of the block engine -/

variable {t : MemTable} {m : BlockMap}

lemma reads_table {capacity : ℕ} {t : SortedTable ContentHash MemTableEntry} :
    Reads capacity t.entries m ↔ (∀ k, t.get k = m.lookup k) ∧ t.size ≤ capacity := by
  have hmem : ∀ k v, (k, v) ∈ t.entries ↔ t.get k = some v := fun k v => ⟨get_of_mem, mem_of_get⟩
  constructor
  · intro h
    refine ⟨fun k => Option.ext fun v => ?_, h.room⟩
    rw [h.lookup, hmem]
  · rintro ⟨h, hroom⟩
    exact ⟨t.sorted, fun k v => by rw [hmem, h], hroom⟩

lemma BlockMap.lookup_put (key k : ContentHash) (e : MemTableEntry) :
    Finmap.lookup k (Finmap.insert key e m) = if k = key then some e else m.lookup k := by
  split_ifs with heq
  · rw [heq, Finmap.lookup_insert]
  · exact Finmap.lookup_insert_of_ne _ heq

/-- **The engine's table is the same map**, as long as no count wraps. -/
theorem MemTable.reads_insert (h : Reads t.capacity t.entries.entries m) (key : ContentHash)
    (location : BlockLocation) (hc : ∀ e, t.get key = some e → e.refcount + 1 < 2 ^ 32) :
    match t.insert key location with
    | .error er => m.call t.capacity (.insert key location) = (.inserted (.error er), m)
    | .ok t' => (m.call t.capacity (.insert key location)).1 = .inserted (.ok (t.get key).isNone) ∧
      Reads t.capacity t'.entries.entries (m.call t.capacity (.insert key location)).2 := by
  have hcard : m.keys.card = t.entries.size := h.card
  obtain ⟨hget, hroom⟩ := reads_table.mp h
  rw [BlockMap.call, ← hget, hcard, insert]
  change ∀ k, t.get k = _ at hget
  cases hk : t.get key with
  | some e =>
    rw [show t.entries.get key = some e from hk]
    refine ⟨rfl, reads_table.mpr ⟨fun k => ?_, by simpa [bump] using hroom⟩⟩
    change (t.bump key).get k = _
    rw [get_bump, BlockMap.lookup_put, ← hget, Nat.mod_eq_of_lt (hc e hk)]
    split_ifs with heq
    · rw [heq, hk]
      rfl
    · rfl
  | none =>
    rw [show t.entries.get key = none from hk]
    dsimp only
    by_cases hfull : t.capacity ≤ t.entries.size
    · rw [if_pos (show t.isFull = true from decide_eq_true hfull), if_pos hfull]
    · rw [if_neg (show ¬t.isFull = true by simpa [isFull] using hfull), if_neg hfull]
      refine ⟨rfl, reads_table.mpr ⟨fun k => ?_, ?_⟩⟩
      · rw [get_insert, BlockMap.lookup_put, ← hget]
        split_ifs <;> rfl
      · rw [size_insert hk]
        omega

theorem MemTable.reads_decRef (h : Reads t.capacity t.entries.entries m) (key : ContentHash) :
    (m.call t.capacity (.decRef key)).1 = .released (t.decRef key).1 ∧
      Reads t.capacity (t.decRef key).2.entries.entries (m.call t.capacity (.decRef key)).2 := by
  obtain ⟨hget, hroom⟩ := reads_table.mp h
  change ∀ k, t.get k = _ at hget
  have hnew : ∀ k, (t.decRef key).2.entries.get k = _ := get_decRef t key
  simp only [reads_table, hnew, BlockMap.call, ← hget, (size_decRef_le t key).1.trans hroom,
    and_true]
  unfold decRef
  cases hk : t.get key with
  | none =>
    refine ⟨rfl, fun k => ?_⟩
    rw [← hget]
    split_ifs with heq
    · rw [heq, hk]
      rfl
    · rfl
  | some e =>
    dsimp only
    split_ifs with hone
    · refine ⟨rfl, fun k => ?_⟩
      split_ifs with heq
      · rw [heq, hk, Finmap.lookup_erase]
        exact if_pos hone
      · rw [Finmap.lookup_erase_ne heq, hget]
    · refine ⟨rfl, fun k => ?_⟩
      rw [BlockMap.lookup_put, ← hget]
      split_ifs with heq
      · rw [heq, hk]
        exact if_neg hone
      · rfl

end Aios.Storage
