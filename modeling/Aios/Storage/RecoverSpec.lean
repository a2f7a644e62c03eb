import Aios.Storage.WriteSpec

/-!
What `init` does on a formatted disk.

Recovery walks the log and indexes the accepted records: the committed ones and those whose
block can be read. Its only writes set commit flags of accepted records, so the data region
stays as it was and what is accepted does not change on the way; the index and the append
pointer are those of `replay`, a fold over the records.
-/

namespace Aios.Storage

open Aios.Lib Prog List Bool

def Rec.raw (r : Rec) (m : Mem) : List UInt8 :=
  m.read (sectorSize * r.start) (8 + r.size + encryptionOverhead)

def Rec.load (env : Env) (r : Rec) (m : Mem) (bufLen : ℕ) : Except StorageError (List UInt8) :=
  openBlock env (some ⟨0, 0⟩) (r.raw m) r.size bufLen

def accept (env : Env) (m : Mem) (r : Rec) : Bool :=
  r.committed || (decide (0 < r.size) && (r.load env m (verifyBufSize r.size)).isOk)

/-- Recovery has to verify the record, and the heap has no buffer large enough for it. -/
def Rec.Halts (r : Rec) : Prop := r.committed = false ∧ maxAllocation < verifyBufSize r.size

instance (r : Rec) : Decidable r.Halts := inferInstanceAs (Decidable (_ ∧ _))

/-- The index and the end of the last block when the records have been replayed; a full index
ends the replay. -/
def replay (acc : Rec → Bool) : List Rec → MemTable → ℕ → MemTable × ℕ
  | [], t, maxSector => (t, maxSector)
  | r :: rs, t, maxSector =>
    if acc r then
      match t.insert r.hash r.loc with
      | .ok t' => replay acc rs t' (max maxSector r.endSector)
      | .error _ => (t, maxSector)
    else replay acc rs t (max maxSector r.endSector)

structure Marked (acc : Rec → Bool) (recs recs' : List Rec) : Prop where
  length : recs'.length = recs.length
  get : ∀ (i : ℕ) (r' : Rec), recs'[i]? = some r' →
    ∃ r, recs[i]? = some r ∧ (r' = r ∨ (acc r = true ∧ r' = r.commit))

namespace Marked

variable {acc : Rec → Bool} {recs recs' recs'' : List Rec} {r : Rec} {i : ℕ}

lemma refl (acc : Rec → Bool) (recs : List Rec) : Marked acc recs recs :=
  ⟨rfl, fun _ r hr => ⟨r, hr, .inl rfl⟩⟩

lemma set (hr : recs[i]? = some r) (ha : acc r = true) : Marked acc recs (recs.set i r.commit) := by
  refine ⟨length_set, fun j r' hj => ?_⟩
  by_cases hji : j = i
  · subst hji
    have hlt := (List.getElem?_eq_some_iff.mp hr).1
    rw [List.getElem?_set_self hlt, Option.some.injEq] at hj
    exact ⟨r, hr, .inr ⟨ha, hj.symm⟩⟩
  · rw [getElem?_set_ne (Ne.symm hji)] at hj
    exact ⟨r', hj, .inl rfl⟩

section

variable (h : Marked acc recs recs')
include h

lemma trans (h' : Marked acc recs' recs'') : Marked acc recs recs'' := by
  refine ⟨h'.length.trans h.length, fun i r'' hr'' => ?_⟩
  obtain ⟨r', hr', hcase'⟩ := h'.get i r'' hr''
  obtain ⟨r, hr, hcase⟩ := h.get i r' hr'
  refine ⟨r, hr, ?_⟩
  rcases hcase with rfl | ⟨ha, rfl⟩
  · exact hcase'
  · rcases hcase' with rfl | ⟨-, rfl⟩
    · exact .inr ⟨ha, rfl⟩
    · exact .inr ⟨ha, rfl⟩

lemma mem (hr : r ∈ recs) : ∃ r' ∈ recs', r' = r ∨ (acc r = true ∧ r' = r.commit) := by
  obtain ⟨i, hi⟩ := mem_iff_getElem?.mp hr
  have hlt : i < recs'.length := by
    rw [h.length]
    exact (List.getElem?_eq_some_iff.mp hi).1
  obtain ⟨r0, hr0, hcase⟩ := h.get i recs'[i] (List.getElem?_eq_getElem hlt)
  rw [hi, Option.some.injEq] at hr0
  subst hr0
  exact ⟨_, getElem_mem hlt, hcase⟩

lemma mem_back (hr : r ∈ recs') : ∃ r0 ∈ recs, r = r0 ∨ (acc r0 = true ∧ r = r0.commit) := by
  obtain ⟨i, hi⟩ := mem_iff_getElem?.mp hr
  obtain ⟨r0, hr0, hcase⟩ := h.get i r hi
  exact ⟨r0, mem_of_getElem? hr0, hcase⟩

end

end Marked

variable {env : Env} {tick : ℕ} {e : Engine} {recs : List Rec} {mk : Mark} {d d' : Device}

section Blocks

lemma readBlock_eq {r : Rec} (hr : r.Ok env) (disk : Disk) (k : DeviceKeyManager) (bufLen : ℕ) :
    readBlock env disk (some k) r.loc bufLen = r.load env (flat disk) bufLen := by
  have hstart : r.loc.offset / sectorSize = r.start := Nat.mul_div_cancel _ (by decide)
  have hs : readSectors env disk r.start r.sectors =
      .ok ((flat disk).read (sectorSize * r.start) (sectorSize * r.sectors)) :=
    readSectors_eq hr.end_le
  have hle : 8 + r.size + encryptionOverhead ≤ sectorSize * r.sectors := by
    unfold Rec.sectors divCeil sectorSize
    omega
  have hraw : ((flat disk).read (sectorSize * r.start) (sectorSize * r.sectors)).take
      (8 + r.size + encryptionOverhead) = r.raw (flat disk) := Mem.take_read _ _ hle
  unfold readBlock
  rw [hstart]
  change (readSectors env disk r.start r.sectors >>= fun raw =>
    openBlock env (some k) (raw.take (8 + r.size + encryptionOverhead)) r.size bufLen) = _
  rw [hs]
  change openBlock env (some k) (((flat disk).read _ _).take _) r.size bufLen = _
  rw [hraw]
  rfl

lemma readsBack_eq {r : Rec} (hr : r.Ok env) (disk : Disk) (k : DeviceKeyManager) :
    readsBack env disk (some k) r.loc = (r.load env (flat disk) (verifyBufSize r.size)).isOk := by
  unfold readsBack
  rw [readBlock_eq hr]
  rfl

lemma salvageable_eq {r : Rec} (hr : r.Ok env) (hc : r.committed = false) (k : DeviceKeyManager)
    (e : Engine) (d : Device) : salvageable env (some k) r.loc e d =
      if r.Halts then (.stop, e, d) else (.ok (accept env (flat d.disk) r), e, d) := by
  have hacc : accept env (flat d.disk) r =
      (decide (0 < r.size) && readsBack env d.disk (some k) r.loc) := by
    rw [accept, hc, Bool.false_or, readsBack_eq hr]
  rw [hacc]
  by_cases hpos : 0 < r.size
  · rw [salvageable, if_pos (show 0 < r.loc.size from hpos), verifyBlockCrc, decide_eq_true hpos, Bool.true_and]
    by_cases hbuf : maxAllocation < verifyBufSize r.size
    · rw [if_pos (show _ < verifyBufSize r.loc.size from hbuf), if_pos ⟨hc, hbuf⟩]
      rfl
    · rw [if_neg (show ¬ _ < verifyBufSize r.loc.size from hbuf), if_neg fun h => hbuf h.2]
      rfl
  · have hno : ¬ r.Halts := by
      rintro ⟨-, hbuf⟩
      unfold maxAllocation verifyBufSize at hbuf
      omega
    rw [salvageable, if_neg (show ¬ 0 < r.loc.size from hpos), if_neg hno, decide_eq_false hpos, Bool.false_and]
    rfl

lemma Rec.Ok.raw_congr {r : Rec} {m m' : Mem} (hr : r.Ok env)
    (h : ∀ x, dataBase ≤ x → m' x = m x) : r.raw m' = r.raw m := by
  have := hr.start_ge
  refine Mem.read_congr fun x hx _ => h x ?_
  unfold dataStartSector walStartSector walSizeSectors sectorSize dataBase at *
  omega

lemma accept_congr {r : Rec} {m m' : Mem} (hr : r.Ok env)
    (h : ∀ x, dataBase ≤ x → m' x = m x) : accept env m' r = accept env m r := by
  unfold accept Rec.load
  rw [hr.raw_congr h]

end Blocks

section Loop

variable {i : ℕ} {r : Rec}

lemma entryEnd_eq (r : Rec) (i : ℕ) (k : DeviceKeyManager) :
    entryEnd (some k) (r.entry i) = r.endSector := by
  have hstart : r.start * sectorSize / sectorSize = r.start := Nat.mul_div_cancel _ (by decide)
  change r.start * sectorSize / sectorSize + r.sectors = _
  rw [hstart]
  rfl

lemma recoverLoop_cons (h : Live env tick e (flat d.disk) recs mk) (hr : recs[i]? = some r)
    {k : DeviceKeyManager} (hk : e.crypto = some k) (rest : List ℕ) (replayed maxSector : ℕ) :
    recoverLoop env (i :: rest) replayed maxSector e d =
      if r.Halts then (.stop, e, d)
      else if accept env (flat d.disk) r then
        match e.memtable.insert r.hash r.loc with
        | .error _ => (.ok (replayed, maxSector), e, d)
        | .ok t =>
          ((if r.committed then pure () else Prog.ignoreErr (walCommit env (i + 1))) >>= fun _ =>
            recoverLoop env rest (replayed + 1) (max maxSector r.endSector))
              (e.withTable t) d
      else recoverLoop env rest replayed (max maxSector r.endSector) e d := by
  have hvalid := r.entry_valid i
  have hflag : (r.entry i).committed = if r.committed then 1 else 0 := rfl
  have hloc : (⟨r.start * sectorSize, r.size, .hot⟩ : BlockLocation) = r.loc := rfl
  have hoff : (r.entry i).dataOffset = r.start * sectorSize := rfl
  have hhash : (r.entry i).blockId = r.hash := rfl
  have hsize : (r.entry i).dataSize = r.size := rfl
  have hseq : (r.entry i).sequenceNumber = i + 1 := rfl
  have hok := h.onDisk.recOk r (mem_of_getElem? hr)
  rw [recoverLoop, get_bind, disk_bind, h.entry hr]
  simp only [hvalid, Bool.not_true, Bool.false_eq_true, if_false, hk, entryEnd_eq, hoff, hsize, hhash,
    hseq, hflag, hloc]
  cases hc : r.committed with
  | true =>
    have hno : ¬ r.Halts := fun hh => Bool.false_ne_true (hh.1.symm.trans hc)
    rw [if_neg hno, accept, hc, Bool.true_or]
    simp only [if_true]
    cases hins : e.memtable.insert r.hash r.loc with
    | error er => rfl
    | ok t => rfl
  | false =>
    have hverify := salvageable_eq hok hc k e d
    simp only [Bool.false_eq_true, if_false, Nat.zero_ne_one]
    by_cases hhalts : r.Halts
    · rw [if_pos hhalts] at hverify ⊢
      exact bind_stop hverify
    · rw [if_neg hhalts] at hverify ⊢
      rw [bind_ok hverify]
      cases accept env (flat d.disk) r with
      | false => rfl
      | true => cases e.memtable.insert r.hash r.loc <;> rfl

lemma flagStep_cases {acc : Rec → Bool} (h : Live env tick e (flat d.disk) recs mk)
    (hr : recs[i]? = some r) (ha : acc r = true) :
    ∃ out d' recs', (if r.committed then pure () else
        Prog.ignoreErr (walCommit env (i + 1)) : EngineM Unit) e d = (out, e, d') ∧
      Ahead env d d' ∧ Live env tick e (flat d'.disk) recs' mk ∧
      Marked acc recs recs' ∧ recs'.drop (i + 1) = recs.drop (i + 1) ∧
      (out = .ok () ∨ (out = .stop ∧ ¬ Lasting d)) := by
  cases hc : r.committed with
  | true => exact ⟨_, d, recs, rfl, Ahead.refl env d, h, Marked.refl acc recs, rfl, .inl rfl⟩
  | false =>
    have hdrop : (recs.set i r.commit).drop (i + 1) = recs.drop (i + 1) :=
      drop_set_of_lt (Nat.lt_succ_self i)
    have hset := Marked.set hr ha
    simp only [false_eq_true, if_false]
    obtain ⟨out, d', hw, hah, hcase⟩ := commit_cases h hr
    rw [← walCommit_eq h hr] at hw
    rcases hcase with ⟨rfl, h'⟩ | ⟨hfail, h'⟩
    · exact ⟨.ok (), d', _, ignoreErr_ok hw, hah, h', hset, hdrop, .inl rfl⟩
    · obtain ⟨out', hrun, hout'⟩ : ∃ out', Prog.ignoreErr (walCommit env (i + 1)) e d =
          (out', e, d') ∧ (out' = .ok () ∨ (out' = .stop ∧ ¬ Lasting d)) := by
        cases hfail with
        | err hs => exact ⟨_, ignoreErr_err hw, .inl rfl⟩
        | stop hl => exact ⟨_, ignoreErr_stop hw, .inr ⟨rfl, hl⟩⟩
      rcases h' with h' | ⟨h', -⟩
      · exact ⟨out', d', recs, hrun, hah, h', Marked.refl acc recs, rfl, hout'⟩
      · exact ⟨out', d', _, hrun, hah, h', hset, hdrop, hout'⟩

/-- **The loop of `recover`.** From record `i` on it indexes as `replay` does, setting flags of
accepted records on the way. -/
lemma recoverLoop_cases {acc : Rec → Bool} {k : DeviceKeyManager} (n i replayed maxSector : ℕ)
    (hi : i + n = recs.length) (h : Live env tick e (flat d.disk) recs mk)
    (hk : e.crypto = some k)
    (hacc : ∀ r ∈ recs.drop i, accept env (flat d.disk) r = acc r) :
    ∃ out e' d' recs', recoverLoop env (List.range' i n) replayed maxSector e d = (out, e', d') ∧
      Ahead env d d' ∧ Live env tick e' (flat d'.disk) recs' mk ∧ Marked acc recs recs' ∧
      e'.crypto = e.crypto ∧ e'.dataNextSector = e.dataNextSector ∧
      ((out = .stop ∧ (¬ Lasting d ∨ ∃ r ∈ recs.drop i, r.Halts)) ∨
        ∃ rep, out = .ok (rep, (replay acc (recs.drop i) e.memtable maxSector).2) ∧
          e'.memtable = (replay acc (recs.drop i) e.memtable maxSector).1) := by
  induction n generalizing i replayed maxSector e d recs with
  | zero =>
    rw [drop_of_length_le (by omega)]
    exact ⟨_, e, d, recs, rfl, Ahead.refl env d, h, Marked.refl acc recs, rfl, rfl,
      .inr ⟨replayed, rfl, rfl⟩⟩
  | succ n ih =>
    have hlt : i < recs.length := by omega
    have hr : recs[i]? = some recs[i] := getElem?_eq_getElem hlt
    have hdrop : recs.drop i = recs[i] :: recs.drop (i + 1) := drop_eq_getElem_cons hlt
    have hok : ∀ r ∈ recs.drop (i + 1), r.Ok env := fun r hr =>
      h.onDisk.recOk r (mem_of_mem_drop hr)
    rw [hdrop] at hacc ⊢
    have hhead := hacc _ mem_cons_self
    have htail := fun r hr => hacc r (mem_cons_of_mem _ hr)
    rw [range'_succ, recoverLoop_cons h hr hk, hhead, replay]
    by_cases hhalts : recs[i].Halts
    · rw [if_pos hhalts]
      exact ⟨_, e, d, recs, rfl, Ahead.refl env d, h, Marked.refl acc recs, rfl, rfl,
        .inl ⟨rfl, .inr ⟨_, mem_cons_self, hhalts⟩⟩⟩
    rw [if_neg hhalts]
    have hlater : ∀ {P : Prop}, (P ∨ ∃ r ∈ recs.drop (i + 1), r.Halts) →
        P ∨ ∃ r ∈ recs[i] :: recs.drop (i + 1), r.Halts :=
      fun hcase => hcase.imp_right fun ⟨r, hr, hh⟩ => ⟨r, mem_cons_of_mem _ hr, hh⟩
    cases ha : acc recs[i] with
    | false =>
      -- skipped, but its range counts
      simp only [false_eq_true, if_false]
      obtain ⟨out, e', d', recs', hrun, ha', h', hm, hk', hdn, hcase⟩ :=
        ih (i + 1) replayed (max maxSector recs[i].endSector) (by omega) h hk htail
      exact ⟨out, e', d', recs', hrun, ha', h', hm, hk', hdn,
        hcase.imp_left (And.imp_right hlater)⟩
    | true =>
      simp only [if_true]
      cases hins : e.memtable.insert recs[i].hash recs[i].loc with
      | error er =>
        exact ⟨_, e, d, recs, rfl, Ahead.refl env d, h, Marked.refl acc recs, rfl, rfl,
          .inr ⟨replayed, rfl, rfl⟩⟩
      | ok t =>
        obtain ⟨out1, d1, recs1, hrun, ha1, h1, hm1, hd1, rfl | ⟨rfl, hl⟩⟩ :=
          flagStep_cases (h.withTable t) hr ha
        · dsimp only
          rw [bind_ok hrun, ← hd1]
          rw [← hd1] at hok htail
          obtain ⟨out, e', d', recs', hrun', ha', h', hm', hk', hdn', hcase⟩ :=
            ih (i + 1) (replayed + 1) (max maxSector recs[i].endSector)
              (by rw [hm1.length]; omega) h1 hk fun r hr => by
                rw [accept_congr (hok r hr) ha1.mem, htail r hr]
          refine ⟨out, e', d', recs', hrun', ha1.trans ha', h', hm1.trans hm', hk', hdn',
            hcase.imp_left (And.imp_right fun hstop => ?_)⟩
          rw [hd1] at hstop ⊢
          exact hlater (hstop.imp_left fun hl hlast => hl fun w hw => hlast w (ha1.fates hw))
        · exact ⟨.stop, _, d1, recs1, bind_stop hrun, ha1, h1, hm1, rfl, rfl,
            .inl ⟨rfl, .inl hl⟩⟩

end Loop

section Replay

variable {acc : Rec → Bool} {t : MemTable} {maxSector bound : ℕ}

lemma le_replay (acc : Rec → Bool) (recs : List Rec) (t : MemTable) (maxSector : ℕ) :
    maxSector ≤ (replay acc recs t maxSector).2 := by
  induction recs generalizing t maxSector with
  | nil => exact le_rfl
  | cons r recs ih =>
    rw [replay]
    split_ifs
    · cases t.insert r.hash r.loc with
      | ok t' => exact le_trans (le_max_left _ _) (ih t' _)
      | error er => exact le_rfl
    · exact le_trans (le_max_left _ _) (ih t _)

lemma replay_le (hrecs : ∀ r ∈ recs, r.endSector ≤ bound) (hmax : maxSector ≤ bound) :
    (replay acc recs t maxSector).2 ≤ bound := by
  induction recs generalizing t maxSector with
  | nil => exact hmax
  | cons r recs ih =>
    have hnext := max_le hmax (hrecs r mem_cons_self)
    have htail := fun r' hr' => hrecs r' (mem_cons_of_mem _ hr')
    rw [replay]
    split_ifs
    · cases t.insert r.hash r.loc with
      | ok t' => exact ih htail hnext
      | error er => exact hmax
    · exact ih htail hnext

end Replay

section Init

/-- The engine `init` builds from a superblock, before recovery. -/
def bootEngine (env : Env) (tick : ℕ) (mk : Mark) (pad : List UInt8) : Engine where
  superblock := (sbOf env tick mk).withPad pad
  wal := ⟨walStartSector, walSizeSectors, mk.head, 0, mk.head + 1⟩
  memtable := MemTable.withDefaultCapacity
  crypto := some ⟨mk.nonce + crashRecoveryGap, tick % 2 ^ 32⟩
  dataNextSector := mk.dataNext

/-- The engine with its append pointer moved up to `sector`. -/
def Engine.atLeast (sector : ℕ) (e : Engine) : Engine :=
  { e with dataNextSector := max e.dataNextSector sector }

lemma bootEngine_live {m : Mem} {pad : List UInt8} (h : OnDisk env tick m recs mk)
    (hp : pad.length = 3984) :
    Live env tick (bootEngine env tick mk pad) m (recs.take mk.head) mk := by
  have hlen : (recs.take mk.head).length = mk.head := by
    rw [length_take, min_eq_left h.head_le]
  have hnonce := h.fits.nonce
  refine ⟨h.reboot, by rw [hlen]; rfl, ⟨mk, pad, hp, rfl⟩, ⟨_, rfl, Nat.le_add_right _ _, ?_⟩,
    h.fits.dataNext_ge, h.fits.dataNext_le, fun k hk => ?_⟩
  · rw [hlen]
    exact Nat.add_le_add_right hnonce _
  · cases hk
    exact Nat.le_add_left _ _

lemma fromSuperblock_eq (hmk : mk.Fits env) (pad : List UInt8) :
    fromSuperblock ((sbOf env tick mk).withPad pad)
      ⟨walStartSector, walSizeSectors, mk.head, 0, mk.head + 1⟩ mk.dataNext =
      bootEngine env tick mk pad := by
  have hmin : min (mk.nonce + crashRecoveryGap) (2 ^ 64 - 1) = mk.nonce + crashRecoveryGap := by
    have h1 := hmk.nonce
    have h2 := hmk.head
    unfold walCapacity at h2
    unfold crashRecoveryGap
    omega
  have hkey : DeviceKeyManager.fromPassphrase mk.nonce (tick % 2 ^ 32) =
      ⟨mk.nonce + crashRecoveryGap, tick % 2 ^ 32⟩ := by
    unfold DeviceKeyManager.fromPassphrase
    rw [hmin]
  unfold bootEngine
  rw [← hkey]
  rfl

section

variable (h : OnDisk env tick (flat d.disk) recs mk) (t : ℕ)
include h t

lemma init_eq : ∃ pad, pad.length = 3984 ∧ init env t () d =
    (Prog.runFrom (bootEngine env tick mk pad) (recover env) >>= fun r => pure r.2) () d := by
  have hread : readSuperblock env d.disk = _ := readSuperblock_eq h.capacity
  rw [h.header, if_pos (isValid_sbOf env tick mk)] at hread
  refine ⟨(flat d.disk).read 112 3984, Mem.length_read _ _ _, ?_⟩
  have hcap := h.capacity
  unfold init
  rw [if_neg (by omega), disk_bind, hread, ofExcept_ok_bind]
  dsimp only
  rw [← fromSuperblock_eq h.fits]
  rfl

/-- **Recovery.** On a formatted disk `init` gives an engine whose index and append pointer
are those of the replayed records, or the machine stops, by itself if a record halts it; only
flags of accepted records have changed on disk. -/
lemma init_cases :
    ∃ out d' recs', init env t () d = (out, (), d') ∧ Ahead env d d' ∧
      Marked (accept env (flat d.disk)) (recs.take mk.head) recs' ∧
      ((out = .stop ∧ (¬ Lasting d ∨ ∃ r ∈ recs.take mk.head, r.Halts) ∧
          OnDisk env tick (flat d'.disk) recs' mk) ∨
        ∃ e', out = .ok e' ∧ Live env tick e' (flat d'.disk) recs' mk ∧
          e'.memtable = (replay (accept env (flat d.disk)) (recs.take mk.head)
            MemTable.withDefaultCapacity mk.dataNext).1 ∧
          e'.dataNextSector = (replay (accept env (flat d.disk)) (recs.take mk.head)
            MemTable.withDefaultCapacity mk.dataNext).2) := by
  obtain ⟨pad, hp, hinit⟩ := init_eq h t
  have hlive := bootEngine_live h hp
  have hlen : (recs.take mk.head).length = mk.head := by
    rw [length_take, min_eq_left h.head_le]
  obtain ⟨out, e', d', recs', hrun, ha, h', hm, hk', hdn, hcase⟩ :=
    recoverLoop_cases mk.head 0 0 mk.dataNext (by omega) hlive rfl
      (show ∀ r ∈ _, accept env (flat d.disk) r = accept env (flat d.disk) r from fun _ _ => rfl)
  rw [drop_zero] at hcase
  have hloop : recover env (bootEngine env tick mk pad) d =
      (recoverLoop env (List.range' 0 mk.head) 0 mk.dataNext >>= fun p =>
        Prog.modify (Engine.atLeast p.2) >>= fun _ => pure p.1) (bootEngine env tick mk pad) d := rfl
  rcases hcase with ⟨rfl, hl⟩ | ⟨rep, rfl, ht⟩
  · refine ⟨.stop, d', recs', ?_, ha, hm, .inl ⟨rfl, hl, h'.onDisk⟩⟩
    rw [bind_stop hrun] at hloop
    rw [hinit, bind_run, Prog.runFrom, hloop]
  · rw [bind_ok hrun] at hloop
    have hle := le_replay (accept env (flat d.disk)) (recs.take mk.head)
      MemTable.withDefaultCapacity mk.dataNext
    have hend : ∀ r ∈ recs.take mk.head, r.endSector ≤ max dataStartSector env.capacity :=
      fun r hr => le_trans (h.recOk r (mem_of_mem_take hr)).end_le (le_max_right _ _)
    have hmax : (e'.atLeast (replay (accept env (flat d.disk)) (recs.take mk.head)
        MemTable.withDefaultCapacity mk.dataNext).2).dataNextSector =
        (replay (accept env (flat d.disk)) (recs.take mk.head)
          MemTable.withDefaultCapacity mk.dataNext).2 := by
      simp only [Engine.atLeast, hdn]
      exact max_eq_right hle
    refine ⟨_, d', recs', ?_, ha, hm, .inr ⟨e'.atLeast _, rfl, ?_, ht, hmax⟩⟩
    · rw [hinit, bind_run, Prog.runFrom, hloop]
      rfl
    · refine ⟨h'.onDisk, h'.wal, h'.superblock, h'.crypto,
        le_trans h'.dataNext_ge (le_max_left _ _), ?_, h'.gap_le⟩
      exact max_le h'.dataNext_le (replay_le hend h.fits.dataNext_le)

end

def freshMark : Mark := ⟨0, dataStartSector, 0⟩

lemma format_eq (env : Env) (tick : ℕ) :
    Superblock.format env.capacity tick =
      (sbOf env tick freshMark).withPad (List.replicate 3984 0) := rfl

lemma freshMark_fits (env : Env) : freshMark.Fits env :=
  ⟨Nat.zero_le _, le_rfl, le_max_left _ _, Nat.zero_le _⟩

lemma readSectors_error {disk : Disk} {start k : ℕ} (h : env.capacity < start + k) (hk : 0 < k) :
    ∃ er, readSectors env disk start k = .error er := by
  obtain ⟨k, rfl⟩ := Nat.exists_eq_succ_of_ne_zero hk.ne'
  rw [readSectors]
  cases readSectors env disk start k with
  | error er => exact ⟨er, rfl⟩
  | ok l =>
    have hs : readSector env disk (start + k) = .error .ioError := if_neg (by omega)
    exact ⟨.ioError, by rw [hs]; rfl⟩

lemma init_fresh (hd : readSuperblock env d.disk = .ok none) (hf : d.fates = []) (tick : ℕ) :
    ∃ d', init env tick () d =
        (.ok (bootEngine env tick freshMark (List.replicate 3984 0)), (), d') ∧
      Ahead env d d' ∧ Live env tick (bootEngine env tick freshMark (List.replicate 3984 0))
        (flat d'.disk) [] freshMark := by
  have hcap : 8 ≤ env.capacity := by
    by_contra hlt
    obtain ⟨er, her⟩ : ∃ er, readSectors env d.disk 0 8 = .error er :=
      readSectors_error (by omega) (by decide)
    rw [readSuperblock, her] at hd
    cases hd
  have hp : (List.replicate 3984 (0 : UInt8)).length = 3984 := length_replicate
  have hlen := length_encode_withPad env tick freshMark hp
  have hin : ∀ w ∈ numbered 0 (sectorsOf sectorSize
      ((sbOf env tick freshMark).withPad (List.replicate 3984 0)).encode), w.1 < env.capacity := by
    intro w hw
    have := mem_numbered hw
    rw [length_sectorsOf, hlen] at this
    unfold sectorSize at this
    omega
  have hrun : init env tick () d =
      (writeSuperblock env ((sbOf env tick freshMark).withPad (List.replicate 3984 0)) >>= fun _ =>
        pure (bootEngine env tick freshMark (List.replicate 3984 0))) () d := by
    have hboot : fromSuperblock (Superblock.format env.capacity tick)
        (Wal.new walStartSector walSizeSectors) dataStartSector =
        bootEngine env tick freshMark (List.replicate 3984 0) := by
      rw [format_eq]
      exact fromSuperblock_eq (freshMark_fits env) _
    unfold init
    rw [if_neg (by omega), disk_bind, hd, ofExcept_ok_bind, ← hboot, ← format_eq]
    rfl
  obtain ⟨out, d', hw, hcase⟩ := writeAll_cases StorageError.ioError _ hin () d
  rcases hcase with ⟨rfl, hwr⟩ | ⟨hfail, -⟩
  · rw [← take_of_length_le (l := numbered _ _) (i := 8)
      (by rw [length_numbered, length_sectorsOf, hlen]; decide)] at hwr
    obtain ⟨hm, ha⟩ := wrote_superblock hp hcap hwr
    rw [take_of_length_le (by rw [hlen]; decide)] at hm
    refine ⟨d', ?_, ha, ?_⟩
    · rw [hrun]
      exact bind_ok hw
    · have hdisk : OnDisk env tick (flat d'.disk) [] freshMark := by
        refine ⟨?_, by simp, by simp, le_rfl, Nat.zero_le _, freshMark_fits env, hcap⟩
        rw [hm]
        exact header_write (freshMark_fits env) (by omega) rfl
      exact bootEngine_live hdisk hp
  · -- no write fails
    have hnone : ∀ f, f ∉ d.fates := fun f hf' => by
      rw [hf] at hf'
      cases hf'
    cases hfail with
    | err hs => exact absurd (fun w => hnone _) hs
    | stop hl => exact absurd (fun w => hnone _) hl

end Init

end Aios.Storage
