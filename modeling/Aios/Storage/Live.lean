import Aios.Storage.Log

/-!
A running engine beside its disk, and what each of its sector writes does to the two.

`Live` ties the engine in memory to the records on disk and bounds its nonce counter. The
log and the superblock lie in front of the data region; a part of an operation that writes
only there is `Ahead`.
-/

namespace Aios.Storage

open Aios.Lib Prog List

abbrev Device := Dev sectorSize

/-- The engine works on a disk with records `recs` and mark `mk`. -/
structure Live (env : Env) (tick : ℕ) (e : Engine) (m : Mem) (recs : List Rec) (mk : Mark) :
    Prop where
  onDisk : OnDisk env tick m recs mk
  wal : e.wal = ⟨walStartSector, walSizeSectors, recs.length, 0, recs.length + 1⟩
  superblock : ∃ mk' pad, pad.length = 3984 ∧ e.superblock = (sbOf env tick mk').withPad pad
  crypto : ∃ c, e.crypto = some ⟨c, tick % 2 ^ 32⟩ ∧ mk.nonce ≤ c ∧
    c ≤ 1001 * recs.length + 1000
  dataNext_ge : dataStartSector ≤ e.dataNextSector
  dataNext_le : e.dataNextSector ≤ max dataStartSector env.capacity
  gap_le : ∀ k, e.crypto = some k → crashRecoveryGap ≤ k.nonceCounter

/-- Between `d` and `d'` only sectors in front of the data region were written. -/
structure Ahead (env : Env) (d d' : Device) : Prop where
  mem : ∀ x, dataBase ≤ x → flat d'.disk x = flat d.disk x
  trace : ∃ ws, d'.trace = d.trace ++ ws ∧ ∀ w ∈ ws, w.1 < dataStartSector ∧ w.1 < env.capacity
  notes : d'.notes = d.notes
  fates : d'.fates ⊆ d.fates

namespace Ahead

variable {env : Env} {d d' d'' : Device}

lemma refl (env : Env) (d : Device) : Ahead env d d :=
  ⟨fun _ _ => rfl, ⟨[], by simp, by simp⟩, rfl, fun _ h => h⟩

lemma trans (h : Ahead env d d') (h' : Ahead env d' d'') : Ahead env d d'' := by
  obtain ⟨ws, hws, hlt⟩ := h.trace
  obtain ⟨ws', hws', hlt'⟩ := h'.trace
  refine ⟨fun x hx => (h'.mem x hx).trans (h.mem x hx), ⟨ws ++ ws', ?_, ?_⟩,
    h'.notes.trans h.notes, fun _ hf => h.fates (h'.fates hf)⟩
  · rw [hws', hws, append_assoc]
  · intro w hw
    rcases mem_append.mp hw with hw | hw
    · exact hlt w hw
    · exact hlt' w hw

lemma length_trace (h : Ahead env d d') : d.trace.length ≤ d'.trace.length := by
  obtain ⟨ws, hws, -⟩ := h.trace
  simp [hws]

end Ahead

variable {env : Env} {tick : ℕ} {e : Engine} {recs : List Rec} {mk : Mark} {d d' : Device}

def Engine.withTable (e : Engine) (t : MemTable) : Engine := { e with memtable := t }

namespace Live

variable {m m' : Mem}

section

variable (h : Live env tick e m recs mk)
include h

lemma placed : e.wal.Placed := by
  rw [h.wal]
  exact ⟨rfl, rfl⟩

lemma withDisk (ho : OnDisk env tick m' recs mk) :
    Live env tick e m' recs mk := { h with onDisk := ho }

lemma withTable (t : MemTable) : Live env tick (e.withTable t) m recs mk :=
  ⟨h.onDisk, h.wal, h.superblock, h.crypto, h.dataNext_ge, h.dataNext_le, h.gap_le⟩

lemma frame (hm : ∀ x < dataBase, m' x = m x) :
    Live env tick e m' recs mk := h.withDisk (h.onDisk.frame hm)

end

end Live

/-! ### Writing an entry of the log -/

section Entry

variable {i : ℕ} {entry : WalEntry}

lemma wrote_entry (hi : i < walCapacity) (hc : dataStartSector ≤ env.capacity)
    (hlen : entry.encode.length = walEntrySize)
    (h : Wrote d d' [(8 + i / 8, (d.disk (8 + i / 8)).patch (i % 8 * 64) entry.encode)]) :
    flat d'.disk = (flat d.disk).write (walAddr i) entry.encode ∧ Ahead env d d' := by
  have hmem : flat d'.disk = (flat d.disk).write (walAddr i) entry.encode := by
    rw [h.disk, ← place_addr]
    refine flat_patch d.disk (8 + i / 8) (by decide) ?_
    rw [hlen]
    unfold walEntrySize sectorSize
    omega
  refine ⟨hmem, fun x hx => ?_, ⟨_, h.trace, fun w hw => ?_⟩, h.notes, h.fates⟩
  · have := OnDisk.walAddr_bound hi
    rw [hmem, Mem.write_outside]
    rw [hlen]
    unfold walEntrySize
    omega
  · rw [mem_singleton.mp hw]
    simp only [walCapacity, dataStartSector, walStartSector, walSizeSectors] at *
    omega

section

variable (hw : e.wal.Placed) (hi : i < walCapacity) (hc : dataStartSector ≤ env.capacity)
include hw hi hc

lemma writeEntry_eq (d : Device) : writeEntry env i entry e d =
    writeSector env (8 + i / 8) ((d.disk (8 + i / 8)).patch (i % 8 * 64) entry.encode) e d := by
  have hs : readSector env d.disk (8 + i / 8) = .ok (d.disk (8 + i / 8)).bytes := by
    refine if_pos ?_
    simp only [walCapacity, dataStartSector, walStartSector, walSizeSectors] at *
    omega
  unfold writeEntry
  rw [get_bind, disk_bind, hw.place hi]
  simp only [hs, ofExcept_ok_bind]

lemma writeEntry_cases (hlen : entry.encode.length = walEntrySize)
    (d : Device) :
    ∃ out d', writeEntry env i entry e d = (out, e, d') ∧ Ahead env d d' ∧
      ((out = .ok () ∧ d.trace.length < d'.trace.length ∧
          flat d'.disk = (flat d.disk).write (walAddr i) entry.encode) ∨
        (Failed d .ioError out ∧ (flat d'.disk = flat d.disk ∨
          flat d'.disk = (flat d.disk).write (walAddr i) entry.encode ∧
            ∀ er, out = .err er → Fate.err true ∈ d.fates))) := by
  have hcap : 8 + i / 8 < env.capacity := by
    simp only [walCapacity, dataStartSector, walStartSector, walSizeSectors] at *
    omega
  rw [writeEntry_eq hw hi hc]
  obtain ⟨out, d', hrun, ⟨hout, hwr⟩ | ⟨hfail, k, hk, hwr, hwritten⟩⟩ :=
    writeSector_cases hcap StorageError.ioError
      ((d.disk (8 + i / 8)).patch (i % 8 * 64) entry.encode) e d
  · obtain ⟨hmem, ha⟩ := wrote_entry hi hc hlen hwr
    exact ⟨out, d', hrun, ha, .inl ⟨hout, by simp [hwr.trace], hmem⟩⟩
  · interval_cases k
    · have hmem : flat d'.disk = flat d.disk := congrArg flat hwr.disk
      refine ⟨out, d', hrun, ⟨fun x _ => by rw [hmem], ⟨[], hwr.trace, by simp⟩, hwr.notes,
        hwr.fates⟩, .inr ⟨hfail, .inl hmem⟩⟩
    · obtain ⟨hmem, ha⟩ := wrote_entry hi hc hlen hwr
      exact ⟨out, d', hrun, ha, .inr ⟨hfail, .inr ⟨hmem, hwritten rfl⟩⟩⟩

end

end Entry

/-! ### The log -/

lemma new_entry (hash : ContentHash) (start size i : ℕ) :
    (WalEntry.new (i + 1) hash (start * sectorSize) size 0).sealed =
      (Rec.mk hash start size false).entry i := rfl

def Engine.appended (e : Engine) : Engine :=
  { e with wal := { e.wal with head := e.wal.head + 1, nextSequence := e.wal.nextSequence + 1 } }

lemma Rec.Ok.capacity {r : Rec} (h : r.Ok env) : dataStartSector ≤ env.capacity := by
  have h1 := h.start_ge
  have h2 := h.end_le
  unfold Rec.endSector at h2
  omega

lemma Live.appended {m : Mem} {r : Rec} (h : Live env tick e m recs mk)
    (hi : recs.length < walCapacity) (hr : r.Ok env) :
    Live env tick e.appended (m.write (walAddr recs.length) (r.entry recs.length).encode)
      (recs ++ [r]) mk where
  onDisk := h.onDisk.append hi hr
  wal := by
    rw [length_append]
    simp only [Engine.appended, h.wal]
    rfl
  superblock := h.superblock
  crypto := by
    obtain ⟨c, hc, hle, hlt⟩ := h.crypto
    refine ⟨c, hc, hle, ?_⟩
    simp only [length_append, length_singleton]
    omega
  dataNext_ge := h.dataNext_ge
  dataNext_le := h.dataNext_le
  gap_le := h.gap_le

/-- `walAppend` is refused by a full log, or logs the record, or fails with its entry
written behind the log or not. -/
lemma walAppend_cases {r : Rec} (h : Live env tick e (flat d.disk) recs mk) (hr : r.Ok env)
    (hu : r.committed = false) :
    (recs.length = walCapacity ∧
      walAppend env r.hash (r.start * sectorSize) r.size e d = (.err .walFull, e, d)) ∨
    ∃ out e' d', walAppend env r.hash (r.start * sectorSize) r.size e d = (out, e', d') ∧
      Ahead env d d' ∧
      ((out = .ok recs.length ∧ e' = e.appended ∧ d.trace.length < d'.trace.length ∧
          Live env tick e' (flat d'.disk) (recs ++ [r]) mk) ∨
        (Failed d .ioError out ∧ e' = e ∧ Live env tick e' (flat d'.disk) recs mk)) := by
  have hrun : walAppend env r.hash (r.start * sectorSize) r.size e d =
      if walCapacity ≤ recs.length then (.err .walFull, e, d)
      else (writeEntry env recs.length (r.entry recs.length) >>= fun _ =>
        Prog.modify Engine.appended >>= fun _ => pure recs.length) e d := by
    have hent := new_entry r.hash r.start r.size recs.length
    have hrec : Rec.mk r.hash r.start r.size false = r := by rw [← hu]
    rw [hrec] at hent
    unfold walAppend
    rw [get_bind, h.placed.capacity]
    simp only [h.wal, Nat.sub_zero, hent]
    split_ifs <;> rfl
  rcases Nat.lt_or_ge recs.length walCapacity with hlt | hge
  · right
    rw [if_neg (by omega)] at hrun
    rw [hrun]
    obtain ⟨out, d', hw, ha, ⟨rfl, hlen, hm⟩ | ⟨hfail, hm⟩⟩ :=
      writeEntry_cases h.placed hlt hr.capacity (hr.length_encode hlt) d
    · refine ⟨_, _, d', bind_ok hw, ha, .inl ⟨rfl, rfl, hlen, ?_⟩⟩
      rw [hm]
      exact h.appended hlt hr
    · obtain ⟨out', hout, hfail'⟩ := hfail.bind (f := fun _ =>
        Prog.modify Engine.appended >>= fun _ => pure recs.length) hw
      refine ⟨out', e, d', hout, ha, .inr ⟨hfail', rfl, ?_⟩⟩
      rcases hm with hm | ⟨hm, -⟩
      · rw [hm]
        exact h
      · rw [hm]
        exact h.withDisk (h.onDisk.scratch hlt hr)
  · refine .inl ⟨le_antisymm h.onDisk.recs_le hge, ?_⟩
    rw [hrun, if_pos hge]

section Commit

variable {i : ℕ} {r : Rec}

lemma Live.entry (h : Live env tick e (flat d.disk) recs mk) (hr : recs[i]? = some r) :
    readEntry env d.disk e.wal i = .ok (r.entry i) := by
  have hlt := (List.getElem?_eq_some_iff.mp hr).1
  have hok := h.onDisk.recOk r (List.mem_of_getElem? hr)
  rw [readEntry_eq h.placed (lt_of_lt_of_le hlt h.onDisk.recs_le) hok.capacity,
    h.onDisk.logged i r hr]

lemma Live.commit {m : Mem} (h : Live env tick e m recs mk) (hr : recs[i]? = some r) :
    Live env tick e (m.write (walAddr i) (r.commit.entry i).encode) (recs.set i r.commit) mk where
  onDisk := h.onDisk.commit hr
  wal := by rw [length_set, h.wal]
  superblock := h.superblock
  crypto := by rw [length_set]; exact h.crypto
  dataNext_ge := h.dataNext_ge
  dataNext_le := h.dataNext_le
  gap_le := h.gap_le

section

variable (h : Live env tick e (flat d.disk) recs mk) (hr : recs[i]? = some r)
include h hr

lemma commitAt_eq : commitAt env i e d = writeEntry env i (r.commit.entry i) e d := by
  unfold commitAt
  rw [get_bind, disk_bind, h.entry hr, ofExcept_ok_bind, Rec.entry_commit]

lemma commitScan_eq (k : ℕ) (hk : k ≤ i) (n : ℕ) (hn : i < k + n) (hlen : k + n ≤ recs.length) :
    commitScan env (i + 1) (List.range' k n) e d = writeEntry env i (r.commit.entry i) e d := by
  induction n generalizing k with
  | zero => omega
  | succ n ih =>
    have hrk : recs[k]? = some recs[k] := getElem?_eq_getElem (by omega)
    rw [range'_succ, commitScan, get_bind, disk_bind, h.entry hrk, ofExcept_ok_bind]
    have hseq : (recs[k].entry k).sequenceNumber = k + 1 := rfl
    rw [hseq]
    by_cases hki : k = i
    · subst hki
      rw [hrk, Option.some.injEq] at hr
      rw [if_pos rfl, hr]
      exact congrArg (fun x => writeEntry env k x e d) (Rec.entry_commit r k)
    · rw [if_neg (by omega)]
      exact ih (k + 1) (by omega) (by omega) (by omega)

lemma walCommit_eq : walCommit env (i + 1) e d = writeEntry env i (r.commit.entry i) e d := by
  have hlt := (List.getElem?_eq_some_iff.mp hr).1
  have hhead : e.wal.head - e.wal.tail = recs.length := by rw [h.wal]; rfl
  have htail : e.wal.tail = 0 := by rw [h.wal]
  unfold walCommit
  rw [get_bind, hhead, htail]
  exact commitScan_eq h hr 0 (Nat.zero_le _) _ (by omega) (by omega)

lemma commit_cases :
    ∃ out d', writeEntry env i (r.commit.entry i) e d = (out, e, d') ∧ Ahead env d d' ∧
      ((out = .ok () ∧ Live env tick e (flat d'.disk) (recs.set i r.commit) mk) ∨
        (Failed d .ioError out ∧ (Live env tick e (flat d'.disk) recs mk ∨
          Live env tick e (flat d'.disk) (recs.set i r.commit) mk ∧
            ∀ er, out = .err er → Fate.err true ∈ d.fates))) := by
  have hlt : i < walCapacity :=
    lt_of_lt_of_le (List.getElem?_eq_some_iff.mp hr).1 h.onDisk.recs_le
  have hok := h.onDisk.recOk r (List.mem_of_getElem? hr)
  obtain ⟨out, d', hw, ha, ⟨hout, -, hm⟩ | ⟨hfail, hm⟩⟩ :=
    writeEntry_cases h.placed hlt hok.capacity (hok.commit.length_encode hlt) d
  · refine ⟨out, d', hw, ha, .inl ⟨hout, ?_⟩⟩
    rw [hm]
    exact h.commit hr
  · refine ⟨out, d', hw, ha, .inr ⟨hfail, ?_⟩⟩
    rcases hm with hm | ⟨hm, hwritten⟩ <;> rw [hm]
    · exact .inl h
    · exact .inr ⟨h.commit hr, hwritten⟩

end

end Commit

/-! ### The superblock -/

section Flush

/-- The mark `flushSuperblock` persists. -/
def Engine.mark (e : Engine) : Mark where
  head := e.wal.head
  dataNext := e.dataNextSector
  nonce := (e.crypto.map (·.nonceCounter)).getD 0

/-- The engine with the superblock `flushSuperblock` writes. -/
def Engine.synced (e : Engine) : Engine := { e with superblock := flushed e }

lemma sealed_withPad (sb : Superblock) (pad : List UInt8) (dataNext head tail free nonce : ℕ) :
    Superblock.sealed { sb.sealed.withPad pad with
        dataNextSector := dataNext
        walHead := head
        walTail := tail
        freeDataSectors := free
        nonceCounter := nonce } =
      (Superblock.sealed { sb with
        dataNextSector := dataNext
        walHead := head
        walTail := tail
        freeDataSectors := free
        nonceCounter := nonce }).withPad pad := rfl

lemma flushed_eq {mk' : Mark} {pad : List UInt8} (h : Live env tick e (flat d.disk) recs mk)
    (hsb : e.superblock = (sbOf env tick mk').withPad pad) :
    flushed e = (sbOf env tick e.mark).withPad pad := by
  obtain ⟨c, hc, -, -⟩ := h.crypto
  unfold flushed Engine.mark
  rw [hsb, hc, h.wal, sbOf, sealed_withPad]
  exact congrArg (fun sb => (Superblock.sealed sb).withPad pad) rfl

lemma wrote_superblock {pad : List UInt8} (hp : pad.length = 3984) (hc : 8 ≤ env.capacity)
    {mk' : Mark} {k : ℕ}
    (h : Wrote d d' ((numbered 0 (sectorsOf sectorSize
      ((sbOf env tick mk').withPad pad).encode)).take k)) :
    flat d'.disk = (flat d.disk).write 0
        ((((sbOf env tick mk').withPad pad).encode).take (sectorSize * k)) ∧ Ahead env d d' := by
  have hlen := length_encode_withPad env tick mk' hp
  have hpadded : padded sectorSize ((sbOf env tick mk').withPad pad).encode =
      ((sbOf env tick mk').withPad pad).encode := by
    unfold padded
    rw [hlen]
    exact append_nil _
  have hmem : flat d'.disk = (flat d.disk).write 0
      ((((sbOf env tick mk').withPad pad).encode).take (sectorSize * k)) := by
    rw [h.disk, take_numbered, flat_numbered (by decide), flatten_sectorsOf (by decide), hpadded]
    rfl
  refine ⟨hmem, fun x hx => ?_, ⟨_, h.trace, fun w hw => ?_⟩, h.notes, h.fates⟩
  · rw [hmem, Mem.write_outside]
    rw [length_take, hlen]
    unfold dataBase at hx
    omega
  · have hw' := mem_numbered (mem_of_mem_take hw)
    rw [length_sectorsOf, hlen] at hw'
    simp only [sectorSize, dataStartSector, walStartSector, walSizeSectors] at *
    omega

/-- `flushSuperblock` persists the engine's mark, or fails with the mark persisted or not. -/
lemma flushSuperblock_cases (h : Live env tick e (flat d.disk) recs mk)
    (hmk : e.mark.Fits env) :
    ∃ out d', flushSuperblock env e d = (out, e.synced, d') ∧ Ahead env d d' ∧
      ((out = .ok () ∧ Live env tick e.synced (flat d'.disk) recs e.mark) ∨
        (Failed d .ioError out ∧ (Live env tick e.synced (flat d'.disk) recs mk ∨
          Live env tick e.synced (flat d'.disk) recs e.mark))) := by
  obtain ⟨mk', pad, hp, hsb⟩ := h.superblock
  have hc := h.onDisk.capacity
  have hfl := flushed_eq h hsb
  have hlen := length_encode_withPad env tick e.mark hp
  have hlive : ∀ m mk1, OnDisk env tick m recs mk1 → mk1.nonce ≤ e.mark.nonce →
      Live env tick e.synced m recs mk1 := by
    intro m mk1 ho hn
    obtain ⟨c, hcr, -, hlt⟩ := h.crypto
    refine ⟨ho, h.wal, ⟨_, pad, hp, hfl⟩, ⟨c, hcr, ?_, hlt⟩, h.dataNext_ge, h.dataNext_le, h.gap_le⟩
    simpa [Engine.mark, hcr] using hn
  have hold : mk.nonce ≤ e.mark.nonce := by
    obtain ⟨c, hcr, hle, -⟩ := h.crypto
    simpa [Engine.mark, hcr] using hle
  have hhead : e.mark.head ≤ recs.length := by
    simp [Engine.mark, h.wal]
  -- one sector is enough for the new mark
  have hpersist : ∀ k, 1 ≤ k → ∀ d' : Device, flat d'.disk = (flat d.disk).write 0
      ((((sbOf env tick e.mark).withPad pad).encode).take (sectorSize * k)) →
      Live env tick e.synced (flat d'.disk) recs e.mark := by
    intro k hk d' hm
    have hfields : (((sbOf env tick e.mark).withPad pad).encode.take (sectorSize * k)).take 112 =
        ((sbOf env tick e.mark).withPad pad).encode.take 112 := by
      rw [take_take, min_eq_left]
      unfold sectorSize
      omega
    rw [hm]
    refine hlive _ _ (h.onDisk.persist hmk hhead ?_ ?_ hfields) le_rfl
    · rw [length_take, hlen]
      unfold sectorSize
      omega
    · rw [length_take, hlen]
      omega
  have hrun : flushSuperblock env e d = writeSuperblock env ((sbOf env tick e.mark).withPad pad)
      e.synced d := by
    rw [← hfl]
    rfl
  have hws : (numbered 0 (sectorsOf sectorSize
      ((sbOf env tick e.mark).withPad pad).encode)).length = 8 := by
    rw [length_numbered, length_sectorsOf, hlen]
    rfl
  have hin : ∀ w ∈ numbered 0 (sectorsOf sectorSize
      ((sbOf env tick e.mark).withPad pad).encode), w.1 < env.capacity := by
    intro w hw
    have := mem_numbered hw
    rw [← length_numbered 0, hws] at this
    omega
  rw [hrun]
  obtain ⟨out, d', hw, ⟨hout, hwr⟩ | ⟨hfail, k, -, hwr⟩⟩ :=
    writeAll_cases StorageError.ioError _ hin e.synced d
  · rw [← take_of_length_le (l := numbered _ _) hws.le] at hwr
    obtain ⟨hm, ha⟩ := wrote_superblock hp hc hwr
    exact ⟨out, d', hw, ha, .inl ⟨hout, hpersist 8 (by decide) d' hm⟩⟩
  · obtain ⟨hm, ha⟩ := wrote_superblock hp hc hwr
    refine ⟨out, d', hw, ha, .inr ⟨hfail, ?_⟩⟩
    rcases Nat.eq_zero_or_pos k with hk | hk
    · subst hk
      left
      have hsame : flat d'.disk = flat d.disk := congrArg flat hwr.disk
      rw [hsame]
      exact hlive _ _ h.onDisk hold
    · exact .inr (hpersist k hk d' hm)

end Flush

end Aios.Storage
