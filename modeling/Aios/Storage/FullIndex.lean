import Aios.Storage.Overwrite

/-!
What a full index does to recovery.

The index holds `MEMTABLE_MAX_ENTRIES` blocks. When as many are written, one is released and
one more is written, the log has an entry more than the index holds. The scan of the next
boot ends there without having seen the last block, and the append pointer stays where the
superblock has it: at the start of that block.
-/

namespace Aios.Storage

open Aios.Lib Prog List SortedTable

def Act.NeverFails : Act → Prop
  | .init _ fates => ∀ w, Fate.err w ∉ fates
  | .write _ fates => ∀ w, Fate.err w ∉ fates
  | .decRef _ => True

section Replay

variable {acc : Rec → Bool} {recs : List Rec} {t : MemTable} {maxSector bound : ℕ} {r : Rec}

variable {key : ContentHash}

lemma MemTable.insert_full {loc : BlockLocation} (hget : t.get key = none)
    (hfull : t.capacity ≤ t.entries.size) : t.insert key loc = .error .memTableFull := by
  unfold MemTable.insert
  rw [hget]
  have : t.isFull = true := decide_eq_true hfull
  simp only [this, if_true]

lemma MemTable.insert_new (loc : BlockLocation) (hget : t.get key = none)
    (hroom : t.entries.size < t.capacity) :
    t.insert key loc = .ok { t with entries := t.entries.insert key ⟨loc, 1⟩ } := by
  unfold MemTable.insert
  rw [hget]
  have : t.isFull = false := decide_eq_false (by omega)
  simp only [this, Bool.false_eq_true, if_false]

lemma replay_full (hacc : ∀ r' ∈ recs ++ [r], acc r' = true)
    (hnodup : ((recs ++ [r]).map Rec.hash).Nodup)
    (habsent : ∀ r' ∈ recs ++ [r], t.get r'.hash = none)
    (hsize : t.entries.size + recs.length = t.capacity)
    (hmax : maxSector ≤ bound) (hend : ∀ r' ∈ recs, r'.endSector ≤ bound) :
    (replay acc (recs ++ [r]) t maxSector).2 ≤ bound := by
  induction recs generalizing t maxSector with
  | nil =>
    have hr := habsent r (mem_singleton_self r)
    rw [nil_append, replay, if_pos (hacc r (mem_singleton_self r)),
      MemTable.insert_full hr (by simp only [length_nil] at hsize; omega)]
    exact hmax
  | cons x recs ih =>
    have hx := habsent x mem_cons_self
    rw [length_cons] at hsize
    rw [cons_append, map_cons, nodup_cons] at hnodup
    rw [cons_append, replay, if_pos (hacc x mem_cons_self), MemTable.insert_new x.loc hx (by omega)]
    refine ih (fun r' hr' => hacc r' (mem_cons_of_mem _ hr')) hnodup.2 ?_ ?_
      (max_le hmax (hend x mem_cons_self))
      fun r' hr' => hend r' (mem_cons_of_mem _ hr')
    · intro r' hr'
      have hne : r'.hash ≠ x.hash := fun heq =>
        hnodup.1 (heq ▸ mem_map_of_mem hr')
      change (t.entries.insert x.hash _).get r'.hash = none
      rw [get_insert, if_neg hne]
      exact habsent r' (mem_cons_of_mem _ hr')
    · change (t.entries.insert x.hash _).size + _ = t.capacity
      rw [size_insert hx]
      omega

end Replay

/-! ### Filling the index -/

def blockData (i : ℕ) : List UInt8 := Bytes.le 4 i

/-- The record of block `i` when the blocks are written in order. -/
def blockRec (i : ℕ) : Rec := ⟨plainEnv.sha256 (blockData i), dataStartSector + i, 9, true⟩

variable {e : Engine} {mk : Mark} {i : ℕ}

lemma blockRec_hash_inj {j : ℕ} (hi : i < 2 ^ 32) (hj : j < 2 ^ 32)
    (h : (blockRec i).hash = (blockRec j).hash) : i = j := by
  have hbytes : ∀ k, (blockRec k).hash.bytes.take 4 = Bytes.le 4 k := by
    intro k
    change ((Bytes.le 4 k ++ List.replicate 32 0).take 32).take 4 = _
    rw [take_take, take_left' (by simp)]
  have hle := congrArg (fun x : ContentHash => Bytes.ofLe (x.bytes.take 4)) h
  simp only [hbytes] at hle
  rwa [Bytes.ofLe_le (by omega), Bytes.ofLe_le (by omega)] at hle

lemma wrappedLen_blockData (i : ℕ) : wrappedLen plainEnv (blockData i) = 9 := by
  have hlen : (blockData i).length = 4 := Bytes.length_le 4 i
  have hpay : payloadOf plainEnv (blockData i) = (0, blockData i) := by
    refine if_neg ?_
    change ¬ (blockData i).length < (blockData i).length * 9 / 10
    omega
  rw [wrappedLen, hpay]
  change 5 + (blockData i).length = 9
  omega

lemma newRec_blockData (h : e.dataNextSector = dataStartSector + i) :
    (newRec plainEnv e (blockData i)).commit = blockRec i := by
  unfold newRec Rec.commit blockRec
  rw [h, wrappedLen_blockData]

lemma blockRec_end (i : ℕ) : (blockRec i).endSector = dataStartSector + i + 1 := by
  have hsec : (blockRec i).sectors = 1 := show divCeil (8 + 9 + encryptionOverhead) sectorSize = 1
    by decide
  rw [Rec.endSector, hsec]
  rfl

lemma blockRec_ok (hi : i < 2 ^ 17) : (blockRec i).Ok plainEnv := by
  refine ⟨Nat.le_add_right _ _, ?_, show 9 < 2 ^ 32 by decide⟩
  rw [blockRec_end]
  change _ ≤ 1048576
  unfold dataStartSector walStartSector walSizeSectors
  omega

lemma sealed_plainEnv {tick : ℕ} {m : Mem} {recs : List Rec} (h : Live plainEnv tick e m recs mk)
    (data : List UInt8) : ∃ C, Sealed plainEnv e data C := by
  obtain ⟨c, hk, -, -⟩ := h.crypto
  exact ⟨_, _, _, hk, rfl, rfl⟩

/-- Blocks `0 .. n - 1` are written and indexed. -/
structure Filled (n : ℕ) (s : Sys) (e : Engine) (mk : Mark) : Prop where
  engine : s.engine = some e
  ok : Sys.Ok plainEnv 7 s ((List.range n).map blockRec) mk
  dataNext : e.dataNextSector = dataStartSector + n
  get : ∀ i < n, e.memtable.get (blockRec i).hash = some ⟨(blockRec i).loc, 1⟩
  absent : ∀ key, (∀ i < n, key ≠ (blockRec i).hash) → e.memtable.get key = none
  size : e.memtable.entries.size = n
  capacity : e.memtable.capacity = memtableMaxEntries

lemma write_next {n : ℕ} {s : Sys} (hn : n < 2 ^ 17) (he : s.engine = some e)
    (hok : Sys.Ok plainEnv 7 s ((List.range n).map blockRec) mk)
    (hdn : e.dataNextSector = dataStartSector + n)
    (hget : e.memtable.get (blockRec n).hash = none)
    (hroom : e.memtable.entries.size < e.memtable.capacity) :
    ∃ s' e' mk' call, Sys.step plainEnv s (.write (blockData n) []) = some s' ∧
      s'.engine = some e' ∧ Sys.Ok plainEnv 7 s' ((List.range (n + 1)).map blockRec) mk' ∧
      e'.dataNextSector = dataStartSector + (n + 1) ∧ mk'.head = n + 1 ∧
      mk'.dataNext = dataStartSector + n ∧
      e'.memtable = { e.memtable with
        entries := e.memtable.entries.insert (blockRec n).hash ⟨(blockRec n).loc, 1⟩ } ∧
      s'.calls = s.calls ++ [call] ∧ call.result = some ((blockRec n).hash, (blockRec n).loc) := by
  have hrec : (newRec plainEnv e (blockData n)).commit = blockRec n := newRec_blockData hdn
  have hloc : (newRec plainEnv e (blockData n)).loc = (blockRec n).loc := by
    rw [← hrec, Rec.commit_loc]
  have hend : (newRec plainEnv e (blockData n)).endSector = dataStartSector + (n + 1) :=
    by rw [← Rec.commit_endSector, hrec, blockRec_end, Nat.add_assoc]
  have hrok : (newRec plainEnv e (blockData n)).Ok plainEnv := by
    have := blockRec_ok hn
    rw [← hrec] at this
    exact ⟨this.start_ge, this.end_le, this.size_lt⟩
  have hne : blockData n ≠ [] := by
    intro hnil
    have := congrArg List.length hnil
    rw [blockData, Bytes.length_le] at this
    cases this
  obtain ⟨C, out, e', d', hstep, hw, hstop, hok'⟩ := step_write_done hok he hne hget hrok
    (by rw [length_map, length_range]; unfold walCapacity; omega)
    (sealed_plainEnv (hok.live e he) _)
  have hins := MemTable.insert_new (newRec plainEnv e (blockData n)).loc hget hroom
  have hout : ∃ res, out = .ok res := by
    cases hout : out with
    | ok res => exact ⟨res, rfl⟩
    | stop => rw [hout] at hstop; cases hstop
    | err er =>
      rcases hw.err er hout (by simp [Steady, Sys.device]) with ⟨hst, -⟩ | ⟨hst, -⟩ | ⟨-, er', her⟩
      · cases hst
      · cases hst
      · change e.memtable.insert (blockRec n).hash _ = _ at her
        rw [hins] at her
        cases her
  obtain ⟨res, rfl⟩ := hout
  obtain ⟨-, hres, ht⟩ := hw.answer.ok res rfl
  refine ⟨_, e', e.nextMark, _, hstep, rfl, ?_, ?_, ?_, hdn, ?_, rfl, ?_⟩
  · rw [range_succ, map_append, map_singleton, ← hrec]
    exact hok'
  · rw [hw.effect.dataNext]
    exact hend
  · simp [Engine.nextMark, (hok.live e he).wal]
  · change e.memtable.insert (blockRec n).hash _ = _ at ht
    rw [hins, Except.ok.injEq] at ht
    rw [← ht, hloc]
  · rw [hres, ← hloc]
    rfl

lemma filled_run {n : ℕ} (hn : n ≤ memtableMaxEntries) :
    ∃ s e mk, Sys.Reaches plainEnv (fun _ a => a.NeverFails) (Sys.start plainEnv 7 blankDisk) s ∧
      Filled n s e mk := by
  induction n with
  | zero =>
    obtain ⟨d', hstart, -, hok⟩ := start_ok (show readSuperblock plainEnv blankDisk = .ok none by
      decide +kernel) 7
    refine ⟨_, bootEngine plainEnv 7 freshMark (List.replicate 3984 0), freshMark, Runs.refl _,
      ?_, hok, rfl, fun i hi => absurd hi (Nat.not_lt_zero i), fun _ _ => rfl, rfl, rfl⟩
    rw [hstart]
    rfl
  | succ n ih =>
    obtain ⟨s, e, mk, hrun, hf⟩ := ih (by omega)
    have hsmall : n < 2 ^ 17 := by unfold memtableMaxEntries at hn; omega
    have hget : e.memtable.get (blockRec n).hash = none := by
      refine hf.absent _ fun i hi heq => ?_
      have := blockRec_hash_inj (by omega) (by omega) heq
      omega
    obtain ⟨s', e', mk', call, hstep, he', hok', hdn', -, -, ht, -, -⟩ := write_next hsmall hf.engine
      hf.ok hf.dataNext hget (by rw [hf.size, hf.capacity]; omega)
    refine ⟨s', e', mk', hrun.snoc (by simp [Act.NeverFails]) hstep,
      ⟨he', hok', hdn', fun i hi => ?_, fun key hkey => ?_, ?_, ?_⟩⟩
    · rw [ht]
      change (e.memtable.entries.insert _ _).get _ = _
      rw [get_insert]
      split_ifs with heq
      · have := blockRec_hash_inj (by omega) (by omega) heq
        rw [this]
      · refine hf.get i ?_
        rcases Nat.lt_succ_iff_lt_or_eq.mp hi with hlt | rfl
        · exact hlt
        · exact absurd rfl heq
    · rw [ht]
      change (e.memtable.entries.insert _ _).get _ = _
      rw [get_insert, if_neg (hkey n (Nat.lt_succ_self n))]
      exact hf.absent key fun i hi => hkey i (Nat.lt_succ_of_lt hi)
    · rw [ht]
      change (e.memtable.entries.insert _ _).size = _
      rw [size_insert hget, hf.size]
    · rw [ht]
      exact hf.capacity

lemma overfull_run :
    ∃ s e mk call, Sys.Reaches plainEnv (fun _ a => a.NeverFails)
        (Sys.start plainEnv 7 blankDisk) s ∧ s.engine = some e ∧
      Sys.Ok plainEnv 7 s ((List.range (memtableMaxEntries + 1)).map blockRec) mk ∧
      mk.head = memtableMaxEntries + 1 ∧ mk.dataNext = dataStartSector + memtableMaxEntries ∧
      call ∈ s.calls ∧ call.result = some ((blockRec memtableMaxEntries).hash,
        (blockRec memtableMaxEntries).loc) := by
  obtain ⟨s, e, mk, hrun, hf⟩ := filled_run le_rfl
  have hzero := hf.get 0 (by decide)
  -- release block 0
  have hrel : (e.memtable.decRef (blockRec 0).hash).2 =
      { e.memtable with entries := e.memtable.entries.erase (blockRec 0).hash } := by
    unfold MemTable.decRef
    rw [hzero]
    rfl
  have hstep : Sys.step plainEnv s (.decRef (blockRec 0).hash) = some { s with
      engine := some (e.withTable (e.memtable.decRef (blockRec 0).hash).2) } := by
    simp only [Sys.step, hf.engine, Option.map_some, decRef_eq]
  have hok : Sys.Ok plainEnv 7 ⟨s.disk, _, s.calls⟩ _ mk :=
    .of_live ((hf.ok.live e hf.engine).withTable (e.memtable.decRef (blockRec 0).hash).2)
  have hsize : (e.memtable.entries.erase (blockRec 0).hash).size + 1 = memtableMaxEntries :=
    (size_erase hzero).trans hf.size
  have hget : (e.memtable.decRef (blockRec 0).hash).2.get (blockRec memtableMaxEntries).hash =
      none := by
    rw [hrel]
    change (e.memtable.entries.erase _).get _ = none
    rw [get_erase]
    split_ifs
    · rfl
    · refine hf.absent _ fun i hi heq => ?_
      have := blockRec_hash_inj (by decide) (by unfold memtableMaxEntries at hi; omega) heq
      omega
  have hroom : (e.memtable.decRef (blockRec 0).hash).2.entries.size <
      (e.memtable.decRef (blockRec 0).hash).2.capacity := by
    rw [hrel]
    change (e.memtable.entries.erase _).size < e.memtable.capacity
    rw [hf.capacity]
    omega
  obtain ⟨s', e', mk', call, hstep', he', hok', -, hhead, hnext, -, hcalls, hres⟩ :=
    write_next (e := e.withTable (e.memtable.decRef (blockRec 0).hash).2)
      (by decide) rfl hok hf.dataNext
      hget hroom
  refine ⟨s', e', mk', call,
    (hrun.snoc (by simp [Act.NeverFails]) hstep).snoc (by simp [Act.NeverFails]) hstep',
    he', hok', hhead, hnext, ?_, hres⟩
  rw [hcalls]
  exact mem_append_right _ (mem_singleton_self _)

lemma boot_overfull {s s' : Sys} {fates : List Fate} {t : ℕ}
    (hok : Sys.Ok plainEnv 7 s ((List.range (memtableMaxEntries + 1)).map blockRec) mk)
    (hhead : mk.head = memtableMaxEntries + 1)
    (hnext : mk.dataNext = dataStartSector + memtableMaxEntries)
    (hstep : Sys.step plainEnv s (.init t fates) = some s') (hlast : Lasting (s.device fates)) :
    ∃ e recs, s'.engine = some e ∧ Sys.Ok plainEnv 7 s' recs mk ∧
      recs.length = memtableMaxEntries + 1 ∧
      e.dataNextSector = dataStartSector + memtableMaxEntries ∧
      (∀ key loc, e.memtable.locationOf key = some loc →
        ∃ i ≤ memtableMaxEntries, (blockRec i).hash = key) ∧
      ∃ call, s'.calls = s.calls ++ [call] := by
  have htake : ((List.range (memtableMaxEntries + 1)).map blockRec).take mk.head =
      (List.range memtableMaxEntries).map blockRec ++ [blockRec memtableMaxEntries] := by
    rw [take_of_length_le (by rw [length_map, length_range, hhead]),
      range_succ, map_append, map_singleton]
  obtain ⟨recs', mk', hm, hok'⟩ := move_of_step hok hstep
  cases hm with
  | stopped ha hmarked hl =>
    obtain ⟨r, hr, hc, -⟩ := hl.resolve_left (absurd hlast)
    obtain ⟨i, -, rfl⟩ := mem_map.mp (mem_of_mem_take hr)
    cases hc
  | @booted _ _ d' _ e ha hmarked ht hdn =>
    rw [htake] at hmarked ht hdn
    have hle : e.dataNextSector ≤ dataStartSector + memtableMaxEntries := by
      rw [hdn]
      refine replay_full ?_ ?_ (fun _ _ => rfl) ?_ hnext.le ?_
      · intro r hr
        have : r.committed = true := by
          rw [← map_singleton, ← map_append] at hr
          obtain ⟨i, -, rfl⟩ := mem_map.mp hr
          rfl
        rw [accept, this, Bool.true_or]
      · rw [← map_singleton, ← map_append, ← range_succ, map_map]
        refine List.Nodup.map_on ?_ nodup_range
        intro i hi j hj hij
        rw [mem_range] at hi hj
        unfold memtableMaxEntries at hi hj
        exact blockRec_hash_inj (by omega) (by omega) hij
      · rw [length_map, length_range]
        rfl
      · intro r hr
        obtain ⟨i, hi, rfl⟩ := mem_map.mp hr
        rw [mem_range] at hi
        rw [blockRec_end]
        omega
    have hge : dataStartSector + memtableMaxEntries ≤ e.dataNextSector := by
      rw [hdn, ← hnext]
      exact le_replay _ _ _ _
    refine ⟨e, recs', rfl, hok', ?_, le_antisymm hle hge, fun key loc hloc => ?_, _, rfl⟩
    · rw [hmarked.length, length_append, length_map, length_range]
      rfl
    · rw [ht] at hloc
      rcases replay_origin hloc with hloc | ⟨r, hr, -, hkey, -⟩
      · rw [MemTable.locationOf_empty] at hloc
        cases hloc
      · rw [← map_singleton, ← map_append, ← range_succ] at hr
        obtain ⟨i, hi, rfl⟩ := mem_map.mp hr
        exact ⟨i, Nat.lt_succ_iff.mp (mem_range.mp hi), hkey⟩

/-- **An acknowledged block is overwritten.** No sector write fails: the index is filled, one
block is released and one more is written and acknowledged; after a boot the next write goes
over that block. -/
theorem Sys.acknowledged_overwritten :
    ∃ s, Sys.Reaches plainEnv (fun _ a => a.NeverFails) (Sys.start plainEnv 7 blankDisk) s ∧
      ¬ s.calls.Pairwise Call.Spares := by
  obtain ⟨s, e, mk, call, hrun, he, hok, hhead, hnext, hcall, hres⟩ := overfull_run
  have hinit : Sys.step plainEnv s (.init 0 []) = some (s.boot plainEnv 0 []) := rfl
  obtain ⟨e₁, recs, he₁, hok₁, hlen, hdn, hkeys, call₁, hcalls₁⟩ :=
    boot_overfull hok hhead hnext hinit (by simp [Lasting, Sys.device])
  -- the write of another block starts where the acknowledged one does
  have hdata : (newRec plainEnv e₁ (blockData (memtableMaxEntries + 1))).Ok plainEnv := by
    have hok' := blockRec_ok (i := memtableMaxEntries) (by decide)
    refine ⟨(hok₁.live e₁ he₁).dataNext_ge, ?_, ?_⟩
    · have : (newRec plainEnv e₁ (blockData (memtableMaxEntries + 1))).endSector =
          (blockRec memtableMaxEntries).endSector := by
        unfold Rec.endSector Rec.sectors newRec blockRec
        rw [hdn, wrappedLen_blockData]
      rw [this]
      exact hok'.end_le
    · change wrappedLen plainEnv _ < _
      rw [wrappedLen_blockData]
      decide
  have hget : e₁.memtable.get (blockRec (memtableMaxEntries + 1)).hash = none := by
    rw [← MemTable.locationOf_eq_none, Option.eq_none_iff_forall_ne_some]
    intro loc hloc
    obtain ⟨i, hi, heq⟩ := hkeys _ loc hloc
    have := blockRec_hash_inj (by unfold memtableMaxEntries at hi; omega) (by decide) heq
    omega
  obtain ⟨C, out, e₂, d₂, hstep, hw, -, -⟩ := step_write_done hok₁ he₁
    (show blockData (memtableMaxEntries + 1) ≠ [] by decide) hget hdata
    (by rw [hlen]; decide) (sealed_plainEnv (hok₁.live e₁ he₁) _)
  refine ⟨_, (hrun.snoc (by simp [Act.NeverFails]) hinit).snoc (by simp [Act.NeverFails]) hstep,
    fun hpair => ?_⟩
  have hspares := (pairwise_append.mp hpair).2.2 call
    (by rw [hcalls₁]; exact mem_append_left _ hcall) _ (mem_singleton_self _)
  obtain ⟨ws, hws, hdat⟩ := hw.effect.trace.filter_eq
  have hsealed : Sealed plainEnv e₁ (blockData (memtableMaxEntries + 1)) C :=
    (hw.notes.resolve_left fun hno => by cases hno.1).1
  -- its first data sector
  obtain ⟨b, bs, hbs⟩ : ∃ b bs, sectorsOf sectorSize C = b :: bs := by
    refine exists_cons_of_length_pos ?_
    rw [hsealed.sectors]
    change 0 < divCeil (8 + wrappedLen plainEnv _ + encryptionOverhead) sectorSize
    rw [wrappedLen_blockData]
    decide
  have hmem : (e₁.dataNextSector, b) ∈ d₂.trace := by
    have hfirst : (e₁.dataNextSector, b) ∈
        (numbered e₁.dataNextSector (sectorsOf sectorSize C)).take
          (newRec plainEnv e₁ (blockData (memtableMaxEntries + 1))).sectors := by
      rw [← hsealed.sectors, ← length_numbered e₁.dataNextSector, take_length, hbs]
      exact mem_cons_self
    have hfilter : (e₁.dataNextSector, b) ∈ ws.filter fun w => decide (dataStartSector ≤ w.1) := by
      rw [hdat]
      exact hfirst
    rw [hws]
    exact mem_append_right _ (mem_filter.mp hfilter).1
  refine hspares _ hres _ hmem ?_
  rw [Rec.covers_iff, blockRec_end]
  change dataStartSector + memtableMaxEntries ≤ e₁.dataNextSector ∧ _
  omega

end Aios.Storage
