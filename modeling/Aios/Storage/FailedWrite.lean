import Aios.Storage.FullIndex

/-!
What a block write that fails leaves behind.

`write_block` has one exit behind the commit: the index is full. The entry is committed and the
append pointer has moved by then. Every other exit leaves the index, the append pointer and the
committed entries as they were, provided that a sector write that reports an error has not written
its sector; a commit that is reported as failed and is on disk is not known to the engine.
-/

namespace Aios.Storage

open Aios.Lib Prog List

/-- Entry `i` of the log, if it is valid and committed. -/
def committedEntry (env : Env) (disk : Disk) (w : Wal) (i : ℕ) : Option WalEntry :=
  match readEntry env disk w i with
  | .ok entry => if entry.isValid && entry.committed == 1 then some entry else none
  | .error _ => none

def committedEntries (env : Env) (disk : Disk) (w : Wal) : List WalEntry :=
  (List.range' w.tail (w.head - w.tail)).filterMap (committedEntry env disk w)

/-- From an engine `e` on its disk to `e'` on `disk'`, the index, the append pointer and the
committed entries are the same. -/
structure Kept (env : Env) (e : Engine) (disk : Disk) (e' : Engine) (disk' : Disk) : Prop where
  memtable : e'.memtable = e.memtable
  dataNext : e'.dataNextSector = e.dataNextSector
  committed : committedEntries env disk' e'.wal = committedEntries env disk e.wal

structure Overflows (env : Env) (e : Engine) (data : List UInt8) : Prop where
  ne_nil : data ≠ []
  absent : e.memtable.get (env.sha256 data) = none
  fits : (newRec env e data).Ok env
  log : e.wal.head - e.wal.tail < e.wal.capacityEntries
  seals : ∃ C, Sealed env e data C
  full : e.memtable.isFull = true

section Entries

variable {env : Env} {tick : ℕ} {e e' : Engine} {disk : Disk} {recs recs' : List Rec} {mk : Mark}
  {r : Rec}

/-- The entries of the committed records among `recs`, which are in the log from `k` on. -/
def flaggedFrom (k : ℕ) : List Rec → List WalEntry
  | [] => []
  | r :: recs => if r.committed then r.entry k :: flaggedFrom (k + 1) recs
    else flaggedFrom (k + 1) recs

lemma committedEntry_eq {i : ℕ} (h : Live env tick e (flat disk) recs mk) (hr : recs[i]? = some r) :
    committedEntry env disk e.wal i = if r.committed then some (r.entry i) else none := by
  have hentry : readEntry env disk e.wal i = .ok (r.entry i) :=
    Live.entry (d := ⟨disk, [], [], []⟩) h hr
  have hflag : ((r.entry i).committed == 1) = r.committed := by
    change ((if r.committed then 1 else 0) == 1) = r.committed
    cases r.committed <;> rfl
  unfold committedEntry
  rw [hentry]
  dsimp only
  rw [r.entry_valid, hflag, Bool.true_and]

variable {k : ℕ}

lemma filterMap_flagged {f : ℕ → Option WalEntry}
    (h : ∀ i r, recs[i]? = some r →
      f (k + i) = if r.committed then some (r.entry (k + i)) else none) :
    (List.range' k recs.length).filterMap f = flaggedFrom k recs := by
  induction recs generalizing k with
  | nil => rfl
  | cons r recs ih =>
    have hhead := h 0 r rfl
    have htail := ih (k := k + 1) fun i r' hr' => by
      have := h (i + 1) r' hr'
      rwa [← Nat.add_assoc, Nat.add_right_comm] at this
    rw [Nat.add_zero] at hhead
    rw [length_cons, range'_succ, filterMap_cons, hhead, htail, flaggedFrom]
    cases r.committed <;> rfl

lemma committedEntries_eq (h : Live env tick e (flat disk) recs mk) :
    committedEntries env disk e.wal = flaggedFrom 0 recs := by
  have hlen : e.wal.head - e.wal.tail = recs.length := by rw [h.wal]; rfl
  have htail : e.wal.tail = 0 := by rw [h.wal]
  unfold committedEntries
  rw [hlen, htail]
  refine filterMap_flagged fun i r hr => ?_
  rw [Nat.zero_add]
  exact committedEntry_eq h hr

lemma flaggedFrom_logged (hr : r.committed = false) :
    flaggedFrom k (recs ++ [r]) = flaggedFrom k recs := by
  induction recs generalizing k with
  | nil => simp [flaggedFrom, hr]
  | cons x recs ih => simp only [cons_append, flaggedFrom, ih]

lemma length_flaggedFrom (h : ∀ r ∈ recs, r.committed = true) :
    (flaggedFrom k recs).length = recs.length := by
  induction recs generalizing k with
  | nil => rfl
  | cons r recs ih =>
    rw [flaggedFrom, if_pos (h r mem_cons_self), length_cons, length_cons,
      ih fun r' hr' => h r' (mem_cons_of_mem _ hr')]

end Entries

section Writes

variable {env : Env} {tick : ℕ} {e : Engine} {recs : List Rec} {mk : Mark} {d : Device}
  {data : List UInt8}

lemma Effect.kept {mk' : Mark} {C : List UInt8} {stage : Stage} {e' : Engine} {d' : Device}
    (h : Live env tick e (flat d.disk) recs mk)
    (heff : Effect env tick recs mk mk' (newRec env e data) C d stage e' d')
    (hst : stage ≠ .committed) (hst' : stage ≠ .done) (ht : e'.memtable = e.memtable) :
    Kept env e d.disk e' d'.disk := by
  have hrecs : flaggedFrom 0 (stage.recs recs (newRec env e data)) = flaggedFrom 0 recs := by
    cases stage with
    | idle => rfl
    | logged => exact flaggedFrom_logged rfl
    | placed k => exact flaggedFrom_logged rfl
    | committed => exact absurd rfl hst
    | done => exact absurd rfl hst'
  refine ⟨ht, ?_, ?_⟩
  · rw [heff.dataNext]
    cases stage with
    | done => exact absurd rfl hst'
    | _ => rfl
  · rw [committedEntries_eq heff.live, committedEntries_eq h, hrecs]

variable {er : StorageError}

lemma MemTable.isFull_of_insert {t : MemTable} {key : ContentHash} {loc : BlockLocation}
    (hget : t.get key = none) (h : t.insert key loc = .error er) : t.isFull = true := by
  cases hfull : t.isFull with
  | true => rfl
  | false =>
    unfold MemTable.insert at h
    rw [hget] at h
    simp [hfull] at h

lemma writeBlock_kept {e' : Engine} {d' : Device} (h : Live env tick e (flat d.disk) recs mk)
    (hno : ¬ Overflows env e data) (hhonest : Fate.err true ∉ d.fates)
    (hrun : writeBlock env data e d = (.err er, e', d')) : Kept env e d.disk e' d'.disk := by
  rcases writeBlock_cases data h with ⟨-, er', hw⟩ | ⟨entry, -, -, hw⟩ | ⟨hne, hget, hok, hw⟩
  · -- refused
    rw [hw] at hrun
    cases hrun
    exact ⟨rfl, rfl, rfl⟩
  · rw [hw] at hrun
    cases hrun
  · obtain ⟨stage, C, out, e1, d1, hnew, heff, hans, -, hnotes, -, hlate⟩ := writeNew_cases h hok
    rw [hw, hnew] at hrun
    cases hrun
    have ht : e'.memtable = e.memtable := hans.kept fun res hres => (by cases hres)
    refine heff.kept h (fun hst => hhonest ((hlate er rfl).1 hst)) (fun hst => hno ?_) ht
    -- behind the commit only the index can fail
    obtain ⟨er', hins⟩ := (hlate er rfl).2 hst
    subst hst
    have hlive := heff.live
    have hlen : recs.length + 1 ≤ walCapacity := by
      have := hlive.onDisk.recs_le
      rwa [Stage.recs, length_append] at this
    refine ⟨hne, hget, hok, ?_, ?_, MemTable.isFull_of_insert hget hins⟩
    · rw [h.placed.capacity, h.wal]
      change recs.length - 0 < walCapacity
      omega
    · rcases hnotes with ⟨hno', -⟩ | ⟨hsealed, -⟩
      · cases hno'
      · exact ⟨C, hsealed⟩

lemma writeBlock_overflows (h : Live env tick e (flat d.disk) recs mk)
    (hover : Overflows env e data) (hfates : d.fates = []) : ∃ er e' d', writeBlock env data e d =
    (.err er, e', d') ∧ e'.dataNextSector = (newRec env e data).endSector ∧
    Live env tick e' (flat d'.disk) (recs ++ [(newRec env e data).commit]) e.nextMark := by
  have hroom : recs.length < walCapacity := by
    have := hover.log
    rw [h.placed.capacity, h.wal] at this
    exact this
  have hsteady : Steady d := fun w hw => by rw [hfates] at hw; cases hw
  have hlasting : Lasting d := fun w hw => by rw [hfates] at hw; cases hw
  rcases writeBlock_cases data h with ⟨hno, -⟩ | ⟨entry, hget, -, -⟩ | ⟨-, hget, hok, hw⟩
  · exact absurd hover.fits (hno.resolve_left hover.ne_nil)
  · rw [hover.absent] at hget
    cases hget
  · obtain ⟨stage, C, out, e', d', hnew, heff, hans, -, -, herr, -⟩ := writeNew_cases h hok
    cases out with
    | stop => exact absurd hlasting (hans.stop rfl)
    | ok res =>
      obtain ⟨-, -, hins⟩ := hans.ok res rfl
      rw [show (newRec env e data).hash = env.sha256 data from rfl,
        MemTable.insert_full hget (of_decide_eq_true hover.full)] at hins
      cases hins
    | err er =>
      have hdone : stage = .done := by
        rcases herr er rfl hsteady with ⟨-, hfull⟩ | ⟨-, hno⟩ | ⟨hst, -⟩
        · omega
        · obtain ⟨C', hC'⟩ := hover.seals
          exact absurd hC' (hno C')
        · exact hst
      subst hdone
      exact ⟨er, e', d', hw.trans hnew, heff.dataNext, heff.live⟩

lemma newRec_sectors_pos (env : Env) (e : Engine) (data : List UInt8) :
    0 < (newRec env e data).sectors := by
  change 0 < divCeil (8 + wrappedLen env data + encryptionOverhead) sectorSize
  unfold divCeil sectorSize encryptionOverhead
  omega

end Writes

/-- **A block write that fails changes nothing, exactly if it does not overflow the index.** -/
theorem Sys.failed_write_kept {env : Env} {tick : ℕ} {disk : Disk} {s : Sys} {e : Engine}
    (hd : readSuperblock env disk = .ok none)
    (hrun : Sys.Reaches env (fun _ _ => True) (Sys.start env tick disk) s)
    (he : s.engine = some e) (data : List UInt8) :
    (∀ fates, Fate.err true ∉ fates → ∀ er e' d',
      writeBlock env data e (s.device fates) = (.err er, e', d') → Kept env e s.disk e' d'.disk) ↔
      ¬ Overflows env e data := by
  obtain ⟨recs, mk, hok, -⟩ := Sys.Reaches.inv (fun _ _ _ => True) hd trivial
    (fun _ _ _ _ _ _ _ _ _ _ _ _ => trivial) hrun
  have hlive : Live env tick e (flat s.disk) recs mk := hok.live e he
  constructor
  · intro hkept hover
    obtain ⟨er, e', d', hw, hdn, -⟩ := writeBlock_overflows (d := s.device []) hlive hover rfl
    have hsame := (hkept [] (by simp) er e' d' hw).dataNext
    rw [hdn] at hsame
    have := newRec_sectors_pos env e data
    change e.dataNextSector + (newRec env e data).sectors = e.dataNextSector at hsame
    omega
  · intro hno fates hhonest er e' d' hw
    exact writeBlock_kept (d := s.device fates) hlive hno hhonest hw

theorem Sys.failed_write_kept_fresh : ∃ e, (Sys.start plainEnv 7 blankDisk).engine = some e ∧
    ∀ fates, Fate.err true ∉ fates → ∀ er e' d',
      writeBlock plainEnv [1] e ((Sys.start plainEnv 7 blankDisk).device fates) = (.err er, e', d') →
        Kept plainEnv e (Sys.start plainEnv 7 blankDisk).disk e' d'.disk := by
  have hd : readSuperblock plainEnv blankDisk = .ok none := by decide +kernel
  obtain ⟨d', hstart, -, -⟩ := start_ok hd 7
  have he : (Sys.start plainEnv 7 blankDisk).engine =
      some (bootEngine plainEnv 7 freshMark (List.replicate 3984 0)) := by
    rw [hstart]
    rfl
  refine ⟨_, he, (Sys.failed_write_kept hd (Runs.refl _) he [1]).mpr fun hover => ?_⟩
  exact absurd hover.full (by decide)

/-- **A write fails and its block is committed.** The index is full. The write of one more block
fails; its entry is committed and the append pointer has moved. -/
theorem Sys.failed_write_committed : ∃ s e er e' d',
    Sys.Reaches plainEnv (fun _ a => a.NeverFails) (Sys.start plainEnv 7 blankDisk) s ∧
      s.engine = some e ∧
      writeBlock plainEnv (blockData memtableMaxEntries) e (s.device []) = (.err er, e', d') ∧
      e'.dataNextSector = e.dataNextSector + 1 ∧
      (committedEntries plainEnv s.disk e.wal).length = memtableMaxEntries ∧
      (committedEntries plainEnv d'.disk e'.wal).length = memtableMaxEntries + 1 := by
  obtain ⟨s, e, mk, hrun, hf⟩ := filled_run le_rfl
  have hlive : Live plainEnv 7 e (flat (s.device []).disk) _ mk := hf.ok.live e hf.engine
  have hrec := newRec_blockData hf.dataNext
  have hover : Overflows plainEnv e (blockData memtableMaxEntries) := by
    have hok := blockRec_ok (i := memtableMaxEntries) (by decide)
    rw [← hrec] at hok
    refine ⟨by decide, hf.absent _ fun i hi heq => ?_, ⟨hok.start_ge, hok.end_le, hok.size_lt⟩, ?_,
      sealed_plainEnv hlive _, decide_eq_true ?_⟩
    · have := blockRec_hash_inj (i := memtableMaxEntries) (by decide)
        (by unfold memtableMaxEntries at hi; omega) heq
      omega
    · rw [hlive.placed.capacity, hlive.wal, length_map, length_range]
      decide
    · rw [hf.size, hf.capacity]
  obtain ⟨er, e', d', hw, hdn, hlive'⟩ := writeBlock_overflows hlive hover rfl
  have hflagged : ∀ n, (flaggedFrom 0 ((List.range n).map blockRec)).length = n := by
    intro n
    rw [length_flaggedFrom, length_map, length_range]
    intro r hr
    obtain ⟨i, -, rfl⟩ := mem_map.mp hr
    rfl
  refine ⟨s, e, er, e', d', hrun, hf.engine, hw, ?_, ?_, ?_⟩
  · rw [hdn, ← Rec.commit_endSector, hrec, blockRec_end, hf.dataNext]
  · rw [show s.disk = (s.device []).disk from rfl, committedEntries_eq hlive, hflagged]
  · rw [committedEntries_eq hlive', hrec, ← map_singleton, ← map_append, ← range_succ, hflagged]

end Aios.Storage
