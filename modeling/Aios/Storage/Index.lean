import Aios.Storage.System

/-!
The index: where it says blocks are.

The engine looks blocks up by hash, and what an operation on the index matters for is which
location it gives for which hash. Recovery fills the index from the log: every location comes
from an accepted record and, while the index has room, every record is visited.
-/

namespace Aios.Storage

open Aios.Lib SortedTable List

namespace MemTable

variable {t t' : MemTable} {key key' : ContentHash} {loc loc' : BlockLocation}

def locationOf (t : MemTable) (key : ContentHash) : Option BlockLocation :=
  (t.get key).map (·.location)

lemma locationOf_eq_none : t.locationOf key = none ↔ t.get key = none := Option.map_eq_none_iff

@[simp] lemma locationOf_empty (key : ContentHash) : withDefaultCapacity.locationOf key = none := rfl

lemma locationOf_bump (t : MemTable) (key key' : ContentHash) :
    (t.bump key).locationOf key' = t.locationOf key' := by
  simp only [locationOf, get, bump, get_adjust]
  split_ifs
  · rw [Option.map_map]
    rfl
  · rfl

lemma locationOf_insert (h : t.insert key loc = .ok t') (key' : ContentHash) : t'.locationOf key' =
    if key' = key ∧ t.locationOf key = none then some loc else t.locationOf key' := by
  unfold insert at h
  cases hget : t.get key with
  | some entry =>
    rw [hget] at h
    cases h
    rw [locationOf_bump, if_neg]
    rintro ⟨-, hnone⟩
    rw [locationOf_eq_none, hget] at hnone
    cases hnone
  | none =>
    rw [hget] at h
    dsimp only at h
    split_ifs at h
    cases h
    have hnone : t.locationOf key = none := locationOf_eq_none.mpr hget
    simp only [locationOf, get, get_insert]
    by_cases hkey : key' = key
    · simp only [hkey, if_true, true_and]
      exact (if_pos hnone).symm
    · simp only [hkey, if_false, false_and]

lemma insert_capacity (h : t.insert key loc = .ok t') : t'.capacity = t.capacity := by
  unfold insert at h
  split at h
  · cases h
    rfl
  · split_ifs at h
    cases h
    rfl

lemma locationOf_decRef (h : (t.decRef key).2.locationOf key' = some loc) :
    t.locationOf key' = some loc := by
  unfold decRef at h
  cases hget : t.get key with
  | none =>
    rw [hget] at h
    exact h
  | some entry =>
    rw [hget] at h
    dsimp only at h
    split_ifs at h
    · simp only [locationOf, get, get_erase] at h
      split_ifs at h
      · cases h
      · exact h
    · simp only [locationOf, get, get_adjust] at h
      split_ifs at h
      · rw [Option.map_map] at h
        exact h
      · exact h

lemma insert_of_room {S : Finset ContentHash}
    (hsub : ∀ key loc, t.locationOf key = some loc → key ∈ S) (hcap : S.card ≤ t.capacity)
    (hkey : key ∈ S) (loc : BlockLocation) : ∃ t', t.insert key loc = .ok t' := by
  unfold insert
  cases hget : t.get key with
  | some entry => exact ⟨_, rfl⟩
  | none =>
    have hlt : t.entries.size < S.card := size_lt_card
      (fun k entry hk => hsub k entry.location (by simp only [locationOf, get, hk, Option.map_some]))
      hkey hget
    have hroom : t.isFull = false := decide_eq_false (by omega)
    exact ⟨_, by rw [hroom]; rfl⟩

end MemTable

lemma readBlockByHash_eq {env : Env} {tick : ℕ} {e : Engine} {disk : Disk} {recs : List Rec}
    {mk : Mark} {r : Rec} {key : ContentHash} {bufLen : ℕ} (h : Live env tick e (flat disk) recs mk)
    (hr : r.Ok env) (hloc : e.memtable.locationOf key = some r.loc) :
    readBlockByHash env disk e key bufLen = r.load env (flat disk) bufLen := by
  obtain ⟨c, hk, -, -⟩ := h.crypto
  obtain ⟨entry, hget, hentry⟩ := Option.map_eq_some_iff.mp hloc
  unfold readBlockByHash
  rw [hget, hk]
  change readBlock env disk (some _) entry.location bufLen = _
  rw [hentry]
  exact readBlock_eq hr disk _ bufLen

section Replay

variable {acc : Rec → Bool} {recs : List Rec} {t : MemTable} {maxSector : ℕ}

/-- **Where the index of a boot comes from.** -/
lemma replay_origin {key : ContentHash} {loc : BlockLocation}
    (h : (replay acc recs t maxSector).1.locationOf key = some loc) :
    t.locationOf key = some loc ∨ ∃ r ∈ recs, acc r = true ∧ r.hash = key ∧ r.loc = loc := by
  induction recs generalizing t maxSector with
  | nil => exact .inl h
  | cons r recs ih =>
    rw [replay] at h
    have hlift : ∀ r' ∈ recs, acc r' = true ∧ r'.hash = key ∧ r'.loc = loc →
        ∃ r' ∈ r :: recs, acc r' = true ∧ r'.hash = key ∧ r'.loc = loc :=
      fun r' hr' hcond => ⟨r', mem_cons_of_mem _ hr', hcond⟩
    split_ifs at h with hacc
    · cases hins : t.insert r.hash r.loc with
      | error er =>
        rw [hins] at h
        exact .inl h
      | ok t' =>
        rw [hins] at h
        rcases ih h with h' | ⟨r', hr', hcond⟩
        · rw [MemTable.locationOf_insert hins] at h'
          split_ifs at h' with hnew
          · cases h'
            exact .inr ⟨r, mem_cons_self, hacc, hnew.1.symm, rfl⟩
          · exact .inl h'
        · exact .inr (hlift r' hr' hcond)
    · rcases ih h with h' | ⟨r', hr', hcond⟩
      · exact .inl h'
      · exact .inr (hlift r' hr' hcond)

lemma replay_complete {S : Finset ContentHash} (maxSector : ℕ)
    (hsub : ∀ key loc, t.locationOf key = some loc → key ∈ S) (hcap : S.card ≤ t.capacity)
    (hS : ∀ r ∈ recs, acc r = true → r.hash ∈ S) :
    (∀ r ∈ recs, r.endSector ≤ (replay acc recs t maxSector).2) ∧
      (∀ key, t.locationOf key ≠ none → (replay acc recs t maxSector).1.locationOf key ≠ none) ∧
      ∀ r ∈ recs, acc r = true → (replay acc recs t maxSector).1.locationOf r.hash ≠ none := by
  induction recs generalizing t maxSector with
  | nil => exact ⟨by simp, fun _ h => h, by simp⟩
  | cons r recs ih =>
    have htail := fun r' hr' => hS r' (mem_cons_of_mem _ hr')
    rw [replay]
    split_ifs with hacc
    · have hin := hS r mem_cons_self hacc
      obtain ⟨t', hins⟩ := MemTable.insert_of_room hsub hcap hin r.loc
      rw [hins]
      have hget := MemTable.locationOf_insert hins
      have hsub' : ∀ key loc, t'.locationOf key = some loc → key ∈ S := by
        intro key loc hk
        rw [hget] at hk
        split_ifs at hk with hnew
        · rw [hnew.1]
          exact hin
        · exact hsub key loc hk
      have hkeep : ∀ key, t.locationOf key ≠ none → t'.locationOf key ≠ none := by
        intro key hk
        rw [hget]
        split_ifs
        · simp
        · exact hk
      have hself : t'.locationOf r.hash ≠ none := by
        rw [hget]
        split_ifs with hnew
        · simp
        · exact fun hnone => hnew ⟨rfl, hnone⟩
      obtain ⟨hend, hkeys, haccd⟩ := ih (max maxSector r.endSector) hsub'
        (by rwa [MemTable.insert_capacity hins]) htail
      refine ⟨fun r' hr' => ?_, fun key hk => hkeys key (hkeep key hk), fun r' hr' ha => ?_⟩
      · rcases mem_cons.mp hr' with rfl | hr'
        · exact le_trans (le_max_right _ _) (le_replay _ _ _ _)
        · exact hend r' hr'
      · rcases mem_cons.mp hr' with rfl | hr'
        · exact hkeys _ hself
        · exact haccd r' hr' ha
    · obtain ⟨hend, hkeys, haccd⟩ := ih (max maxSector r.endSector) hsub hcap htail
      refine ⟨fun r' hr' => ?_, hkeys, fun r' hr' ha => ?_⟩
      · rcases mem_cons.mp hr' with rfl | hr'
        · exact le_trans (le_max_right _ _) (le_replay _ _ _ _)
        · exact hend r' hr'
      · rcases mem_cons.mp hr' with rfl | hr'
        · exact absurd ha hacc
        · exact haccd r' hr' ha

end Replay

end Aios.Storage
