import Aios.Storage.Live

/-!
What a call of `writeBlock` can do.

A write that passes the checks goes through stages: it logs its record, persists the
advanced nonce counter, writes the sectors of the sealed block, commits the record and moves
the append pointer. Whatever fails, and wherever the machine stops, the call has got to one
of the stages, and the engine and its disk fit together again.
-/

namespace Aios.Storage

open Aios.Lib Prog List

inductive Stage
  | idle
  | logged
  | placed (k : ℕ)
  | committed
  | done
  deriving DecidableEq

def newRec (env : Env) (e : Engine) (data : List UInt8) : Rec :=
  ⟨env.sha256 data, e.dataNextSector, wrappedLen env data, false⟩

def Engine.counter (e : Engine) : ℕ := (e.crypto.map (·.nonceCounter)).getD 0

def Engine.withKey (e : Engine) (k : DeviceKeyManager) : Engine := { e with crypto := some k }

def Engine.nextMark (e : Engine) : Mark := ⟨e.wal.head + 1, e.dataNextSector, e.counter + 1⟩

/-- `C` is the sealed block of `data` under the engine's next nonce. -/
def Sealed (env : Env) (e : Engine) (data C : List UInt8) : Prop :=
  ∃ k c, e.crypto = some k ∧ env.encrypt k.nonce (envelope env data) = some c ∧ C = k.nonce ++ c

namespace Stage

def recs (stage : Stage) (recs : List Rec) (r : Rec) : List Rec :=
  match stage with
  | idle => recs
  | logged => recs ++ [r]
  | placed _ => recs ++ [r]
  | committed => recs ++ [r.commit]
  | done => recs ++ [r.commit]

def mark (stage : Stage) (mk mk' : Mark) : Mark :=
  match stage with
  | idle => mk
  | logged => mk
  | _ => mk'

def sectors (stage : Stage) (r : Rec) : ℕ :=
  match stage with
  | idle => 0
  | logged => 0
  | placed k => k
  | committed => r.sectors
  | done => r.sectors

def dataNext (stage : Stage) (r : Rec) : ℕ :=
  match stage with
  | done => r.endSector
  | _ => r.start

def persisted : Stage → Bool
  | idle => false
  | logged => false
  | _ => true

lemma mem_take {stage : Stage} {l : List Rec} {r r' : Rec} {mk mk' : Mark}
    (hhead : mk'.head = l.length + 1) (hr' : r' ∈ l.take mk.head) :
    r' ∈ (stage.recs l r).take (stage.mark mk mk').head := by
  have hmem := mem_of_mem_take hr'
  have hold : ∀ x, r' ∈ (l ++ [x]).take mk.head := fun x => by
    rw [take_append]
    exact mem_append_left _ hr'
  have hnew : ∀ x, r' ∈ (l ++ [x]).take mk'.head := fun x => by
    rw [hhead, take_of_length_le (by simp)]
    exact mem_append_left _ hmem
  cases stage with
  | idle => exact hr'
  | logged => exact hold r
  | placed k => exact hnew r
  | committed => exact hnew r.commit
  | done => exact hnew r.commit

lemma start_le_dataNext (stage : Stage) (r : Rec) : r.start ≤ stage.dataNext r := by
  cases stage <;> simp [dataNext, Rec.endSector]

end Stage

/-- From `d` to `d'` the sectors `dat` of the data region were written, in this order, and
sectors in front of it before and after. -/
def DataTrace (env : Env) (d d' : Device) (dat : List (ℕ × Sector sectorSize)) : Prop :=
  ∃ before after, d'.trace = d.trace ++ (before ++ dat ++ after) ∧
    (∀ w ∈ before ++ after, w.1 < dataStartSector ∧ w.1 < env.capacity) ∧
    ∀ w ∈ dat, dataStartSector ≤ w.1 ∧ w.1 < env.capacity

namespace DataTrace

variable {env : Env} {d d' d'' : Device} {dat : List (ℕ × Sector sectorSize)}

lemma of_ahead (h : Ahead env d d') : DataTrace env d d' [] := by
  obtain ⟨ws, hws, hlt⟩ := h.trace
  exact ⟨ws, [], by simpa using hws, by simpa using hlt, by simp⟩

lemma ahead_trans (ha : Ahead env d d') (h : DataTrace env d' d'' dat) :
    DataTrace env d d'' dat := by
  obtain ⟨ws, hws, hlt⟩ := ha.trace
  obtain ⟨before, after, htr, hout, hin⟩ := h
  refine ⟨ws ++ before, after, by simp [htr, hws], fun w hw => ?_, hin⟩
  rw [append_assoc] at hw
  exact (mem_append.mp hw).elim (hlt w) (hout w)

lemma trans_ahead (h : DataTrace env d d' dat) (ha : Ahead env d' d'') :
    DataTrace env d d'' dat := by
  obtain ⟨ws, hws, hlt⟩ := ha.trace
  obtain ⟨before, after, htr, hout, hin⟩ := h
  refine ⟨before, after ++ ws, by simp [htr, hws], fun w hw => ?_, hin⟩
  rw [← append_assoc] at hw
  exact (mem_append.mp hw).elim (hout w) (hlt w)

lemma filter_eq (h : DataTrace env d d' dat) : ∃ ws, d'.trace = d.trace ++ ws ∧
    ws.filter (fun w => dataStartSector ≤ w.1) = dat := by
  obtain ⟨before, after, htr, hout, hin⟩ := h
  have hnil : ∀ l ⊆ before ++ after, l.filter (fun w => dataStartSector ≤ w.1) = [] :=
    fun l hl => filter_eq_nil_iff.mpr fun w hw => by simpa using (hout w (hl hw)).1
  refine ⟨_, htr, ?_⟩
  rw [filter_append, filter_append, hnil _ (subset_append_left _ _),
    hnil _ (subset_append_right _ _), append_nil, nil_append, filter_eq_self]
  exact fun w hw => decide_eq_true (hin w hw).1

lemma length_trace (h : DataTrace env d d' dat) : d.trace.length ≤ d'.trace.length := by
  obtain ⟨before, after, htr, -⟩ := h
  simp [htr]

end DataTrace

/-- What a write with record `r` has done when it got to `stage`: the engine and the disk
after it and what it wrote to the data region. -/
structure Effect (env : Env) (tick : ℕ) (recs : List Rec) (mk mk' : Mark) (r : Rec)
    (C : List UInt8) (d : Device) (stage : Stage) (e' : Engine) (d' : Device) : Prop where
  live : Live env tick e' (flat d'.disk) (stage.recs recs r) (stage.mark mk mk')
  bytes : ∀ x, dataBase ≤ x → flat d'.disk x = (flat d.disk).write (sectorSize * r.start)
    ((padded sectorSize C).take (sectorSize * stage.sectors r)) x
  trace : DataTrace env d d' ((numbered r.start (sectorsOf sectorSize C)).take (stage.sectors r))
  dataNext : e'.dataNextSector = stage.dataNext r
  sectors_le : stage.sectors r ≤ r.sectors

/-- What a write with record `r` answers at its stage, from an engine with index `t`. -/
structure Answer (r : Rec) (t : MemTable) (d : Device) (stage : Stage)
    (out : Out StorageError (ContentHash × BlockLocation)) (e' : Engine) : Prop where
  ok : ∀ res, out = .ok res →
    stage = .done ∧ res = (r.hash, r.loc) ∧ t.insert r.hash r.loc = .ok e'.memtable
  kept : (∀ res, out ≠ .ok res) → e'.memtable = t
  stop : out = .stop → ¬ Lasting d

section Parts

variable {env : Env} {tick : ℕ} {e : Engine} {recs : List Rec} {mk : Mark} {d d' : Device}

lemma sealData_cases {c : ℕ} (plain : List UInt8) (h : Live env tick e (flat d.disk) recs mk)
    (hk : e.crypto = some ⟨c, tick % 2 ^ 32⟩) (hc : c + 1 ≤ 1001 * recs.length) :
    ∃ out e' d', sealData env e.crypto plain e d = (out, e', d') ∧
      e'.memtable = e.memtable ∧ e'.dataNextSector = e.dataNextSector ∧
      ((env.encrypt (DeviceKeyManager.nonce ⟨c, tick % 2 ^ 32⟩) plain = none ∧
          out = .err .ioError ∧ d' = d ∧ Live env tick e' (flat d.disk) recs mk) ∨
        ∃ ct C, env.encrypt (DeviceKeyManager.nonce ⟨c, tick % 2 ^ 32⟩) plain = some ct ∧
          C = DeviceKeyManager.nonce ⟨c, tick % 2 ^ 32⟩ ++ ct ∧
          Ahead env { d with notes := d.notes ++ [C] } d' ∧
          ((out = .ok C ∧
              Live env tick e' (flat d'.disk) recs ⟨recs.length, e.dataNextSector, c + 1⟩) ∨
            (Failed d .ioError out ∧ (Live env tick e' (flat d'.disk) recs mk ∨
              Live env tick e' (flat d'.disk) recs ⟨recs.length, e.dataNextSector, c + 1⟩)))) := by
  have hrecs := h.onDisk.recs_le
  have hadv : DeviceKeyManager.advance ⟨c, tick % 2 ^ 32⟩ = ⟨c + 1, tick % 2 ^ 32⟩ := by
    simp only [DeviceKeyManager.advance, DeviceKeyManager.mk.injEq, and_true]
    unfold walCapacity at hrecs
    omega
  have hlive : Live env tick (e.withKey ⟨c + 1, tick % 2 ^ 32⟩) (flat d.disk)
      recs mk := by
    obtain ⟨c', hc', hle, -⟩ := h.crypto
    rw [hk, Option.some.injEq, DeviceKeyManager.mk.injEq] at hc'
    refine ⟨h.onDisk, h.wal, h.superblock, ⟨c + 1, rfl, by omega, by omega⟩, h.dataNext_ge,
      h.dataNext_le, fun k hk' => ?_⟩
    cases hk'
    exact le_trans (h.gap_le _ hk) (Nat.le_succ c)
  rw [hk]
  cases henc : env.encrypt (DeviceKeyManager.nonce ⟨c, tick % 2 ^ 32⟩) plain with
  | none =>
    refine ⟨.err .ioError, e.withKey ⟨c + 1, tick % 2 ^ 32⟩, d, ?_, rfl, rfl,
      .inl ⟨rfl, rfl, rfl, hlive⟩⟩
    rw [← hadv]
    simp only [sealData, encrypt, bind_run, henc]
    rfl
  | some ct =>
    have hmark : Engine.mark (e.withKey ⟨c + 1, tick % 2 ^ 32⟩) =
        ⟨recs.length, e.dataNextSector, c + 1⟩ := by
      simp only [Engine.mark, Engine.withKey, h.wal]
      rfl
    have hfits : Mark.Fits env ⟨recs.length, e.dataNextSector, c + 1⟩ :=
      ⟨hrecs, h.dataNext_ge, h.dataNext_le, hc⟩
    have hrun : sealData env (some ⟨c, tick % 2 ^ 32⟩) plain e d =
        (flushSuperblock env >>= fun _ =>
          pure (DeviceKeyManager.nonce ⟨c, tick % 2 ^ 32⟩ ++ ct))
          (e.withKey ⟨c + 1, tick % 2 ^ 32⟩)
          { d with notes := d.notes ++ [DeviceKeyManager.nonce ⟨c, tick % 2 ^ 32⟩ ++ ct] } := by
      rw [← hadv]
      simp only [sealData, encrypt, bind_run, henc]
      rfl
    rw [← hmark] at hfits
    obtain ⟨out, d', hf, ha, hcases⟩ := flushSuperblock_cases (d := { d with
      notes := d.notes ++ [DeviceKeyManager.nonce ⟨c, tick % 2 ^ 32⟩ ++ ct] }) hlive hfits
    rw [hmark] at hcases
    rw [hrun]
    rcases hcases with ⟨rfl, hl⟩ | ⟨hfail, hl⟩
    · exact ⟨_, _, d', bind_ok hf, rfl, rfl, .inr ⟨ct, _, rfl, rfl, ha, .inl ⟨rfl, hl⟩⟩⟩
    · obtain ⟨out', hout, hfail'⟩ := hfail.bind (f := fun _ =>
        pure (DeviceKeyManager.nonce ⟨c, tick % 2 ^ 32⟩ ++ ct)) hf
      exact ⟨out', _, d', hout, rfl, rfl, .inr ⟨ct, _, rfl, rfl, ha,
        .inr ⟨hfail'.mono fun _ hf => hf, hl⟩⟩⟩

variable {C data : List UInt8} {r : Rec} {e' : Engine}
  {out : Out StorageError (ContentHash × BlockLocation)} {stage : Stage} {mk' : Mark}

lemma writeData_cases {start : ℕ} (h : Live env tick e (flat d.disk) recs mk)
    (hstart : dataStartSector ≤ start)
    (hend : start + (sectorsOf sectorSize C).length ≤ env.capacity) :
    ∃ out d' k, writeAll env.capacity StorageError.ioError
        (numbered start (sectorsOf sectorSize C)) e d = (out, e, d') ∧
      k ≤ (sectorsOf sectorSize C).length ∧ Live env tick e (flat d'.disk) recs mk ∧
      flat d'.disk = (flat d.disk).write (sectorSize * start)
        ((padded sectorSize C).take (sectorSize * k)) ∧
      d'.trace = d.trace ++ (numbered start (sectorsOf sectorSize C)).take k ∧
      d'.notes = d.notes ∧ d'.fates ⊆ d.fates ∧
      ((out = .ok () ∧ k = (sectorsOf sectorSize C).length) ∨ Failed d .ioError out) := by
  have hin : ∀ w ∈ numbered start (sectorsOf sectorSize C), w.1 < env.capacity := fun w hw => by
    have := mem_numbered hw
    omega
  have hmem : ∀ k d', Wrote d d' ((numbered start (sectorsOf sectorSize C)).take k) →
      flat d'.disk = (flat d.disk).write (sectorSize * start)
        ((padded sectorSize C).take (sectorSize * k)) ∧
      Live env tick e (flat d'.disk) recs mk := by
    intro k d' hw
    have hm : flat d'.disk = (flat d.disk).write (sectorSize * start)
        ((padded sectorSize C).take (sectorSize * k)) := by
      rw [hw.disk, take_numbered, flat_numbered (by decide), flatten_sectorsOf (by decide)]
    refine ⟨hm, ?_⟩
    rw [hm]
    refine h.frame fun x hx => Mem.write_outside (.inl ?_)
    unfold dataBase at hx
    unfold dataStartSector walStartSector walSizeSectors at hstart
    unfold sectorSize
    omega
  obtain ⟨out, d', hrun, ⟨hout, hw⟩ | ⟨hfail, k, hk, hw⟩⟩ :=
    writeAll_cases StorageError.ioError _ hin e d
  · have hlen := (length_numbered start (sectorsOf sectorSize C)).le
    rw [← take_of_length_le hlen] at hw
    obtain ⟨hm, hl⟩ := hmem _ d' hw
    exact ⟨out, d', _, hrun, le_rfl, hl, hm, hw.trace, hw.notes, hw.fates, .inl ⟨hout, rfl⟩⟩
  · obtain ⟨hm, hl⟩ := hmem k d' hw
    rw [length_numbered] at hk
    exact ⟨out, d', k, hrun, hk, hl, hm, hw.trace, hw.notes, hw.fates, .inr hfail⟩

def placeBlock (env : Env) (r : Rec) (C : List UInt8) (walIndex : ℕ) :
    EngineM (ContentHash × BlockLocation) := do
  Prog.writeAll env.capacity .ioError (numbered r.start (sectorsOf sectorSize C))
  commitAt env walIndex
  indexBlock r.hash r.loc r.sectors

lemma Live.moved {m : Mem} {n : ℕ} (h : Live env tick e m recs mk)
    (hn : e.dataNextSector + n ≤ env.capacity) :
    Live env tick { e with dataNextSector := e.dataNextSector + n } m recs mk :=
  ⟨h.onDisk, h.wal, h.superblock, h.crypto, le_trans h.dataNext_ge (Nat.le_add_right _ _),
    le_trans hn (le_max_right _ _), h.gap_le⟩

lemma indexBlock_cases (h : Live env tick e (flat d.disk) recs mk)
    (hdn : e.dataNextSector = r.start) (hr : r.Ok env) :
    ∃ out e', indexBlock r.hash r.loc r.sectors e d = (out, e', d) ∧
      Live env tick e' (flat d.disk) recs mk ∧ e'.dataNextSector = r.endSector ∧
      Answer r e.memtable d .done out e' ∧
      ∀ er, out = .err er → ∃ er', e.memtable.insert r.hash r.loc = .error er' := by
  have hmoved := h.moved (n := r.sectors) (by rw [hdn]; exact hr.end_le)
  unfold indexBlock
  rw [modify_bind, get_bind]
  cases hins : e.memtable.insert r.hash r.loc with
  | error er =>
    refine ⟨.err .memTableFull, _, ?_, hmoved, ?_, ⟨?_, fun _ => rfl, ?_⟩, fun _ _ => ⟨er, rfl⟩⟩
    · rfl
    · exact congrArg (· + r.sectors) hdn
    · intro res hres
      cases hres
    · intro hstop
      cases hstop
  | ok t =>
    refine ⟨.ok (r.hash, r.loc), _, ?_, hmoved.withTable t, ?_, ⟨?_, ?_, ?_⟩, ?_⟩
    · rfl
    · exact congrArg (· + r.sectors) hdn
    · intro res hres
      cases hres
      exact ⟨rfl, rfl, hins⟩
    · exact fun hne => absurd rfl (hne _)
    · intro hstop
      cases hstop
    · intro er her
      cases her

lemma Answer.of_failed {t : MemTable} (h : Failed d .ioError out) (ht : e'.memtable = t) :
    Answer r t d stage out e' :=
  ⟨fun res hres => absurd hres (h.ne_ok res), fun _ => ht, h.not_lasting⟩

lemma Answer.mono {t : MemTable} (hf : d'.fates ⊆ d.fates) (h : Answer r t d' stage out e') :
    Answer r t d stage out e' :=
  ⟨h.ok, h.kept, fun hout hl => h.stop hout fun w hw => hl w (hf hw)⟩

lemma placeBlock_cases (mk0 : Mark) (h : Live env tick e (flat d.disk) (recs ++ [r]) mk)
    (hdn : e.dataNextSector = r.start) (hr : r.Ok env)
    (hlen : (sectorsOf sectorSize C).length = r.sectors) :
    ∃ stage out e' d', placeBlock env r C recs.length e d = (out, e', d') ∧
      stage.persisted = true ∧ Effect env tick recs mk0 mk r C d stage e' d' ∧
      Answer r e.memtable d stage out e' ∧ d'.notes = d.notes ∧
      (∀ er, out = .err er → Steady d →
        stage = .done ∧ ∃ er', e.memtable.insert r.hash r.loc = .error er') ∧
      ∀ er, out = .err er →
        (stage = .committed → Fate.err true ∈ d.fates) ∧
        (stage = .done → ∃ er', e.memtable.insert r.hash r.loc = .error er') := by
  have hlast : (recs ++ [r])[recs.length]? = some r := getElem?_concat_length
  have hset : (recs ++ [r]).set recs.length r.commit = recs ++ [r.commit] := by
    rw [set_append_right _ _ le_rfl, Nat.sub_self]
    rfl
  have hend : r.start + (sectorsOf sectorSize C).length ≤ env.capacity := by
    rw [hlen]
    exact hr.end_le
  obtain ⟨out1, d1, k, hrun1, hk, h1, hm1, ht1, hn1, hf1, hcase1⟩ :=
    writeData_cases h hr.start_ge hend
  have htr1 : DataTrace env d d1 ((numbered r.start (sectorsOf sectorSize C)).take k) := by
    refine ⟨[], [], by simpa using ht1, by simp, fun w hw => ?_⟩
    have hw' := mem_numbered (mem_of_mem_take hw)
    have := hr.start_ge
    omega
  unfold placeBlock
  rcases hcase1 with ⟨rfl, hkn⟩ | hfail
  · rw [bind_ok hrun1]
    subst hkn
    rw [hlen] at hm1 htr1
    obtain ⟨out2, d2, hw, ha, hcase2⟩ := commit_cases h1 hlast
    rw [← commitAt_eq h1 hlast] at hw
    have hbytes : ∀ x, dataBase ≤ x → flat d2.disk x =
        (flat d.disk).write (sectorSize * r.start)
          ((padded sectorSize C).take (sectorSize * r.sectors)) x := fun x hx => by
      rw [ha.mem x hx, hm1]
    have htr := htr1.trans_ahead ha
    rw [hset] at hcase2
    rcases hcase2 with ⟨rfl, h2⟩ | ⟨hfail, h2⟩
    · -- committed
      rw [bind_ok hw]
      obtain ⟨out, e', hidx, h3, hdn3, hans, herr⟩ := indexBlock_cases h2 hdn hr
      exact ⟨.done, out, e', d2, hidx, rfl, ⟨h3, hbytes, htr, hdn3, le_rfl⟩,
        hans.mono fun _ hf => hf1 (ha.fates hf), ha.notes.trans hn1,
        fun er her _ => ⟨rfl, herr er her⟩, fun er her => ⟨fun hst => (by cases hst),
          fun _ => herr er her⟩⟩
    · -- the write of the commit flag failed
      obtain ⟨out, hrun, hfail'⟩ := hfail.bind (f := fun _ =>
        indexBlock r.hash r.loc r.sectors) hw
      replace hfail' := hfail'.mono hf1
      have herr := fun er (her : out = .err er) hst => hfail'.not_steady her hst
      rcases h2 with h2 | ⟨h2, hwritten⟩
      · exact ⟨.placed r.sectors, out, e, d2, hrun, rfl, ⟨h2, hbytes, htr, hdn, le_rfl⟩,
          .of_failed hfail' rfl, ha.notes.trans hn1, fun er her hst => (herr er her hst).elim,
          fun _ _ => ⟨fun hst => (by cases hst), fun hst => (by cases hst)⟩⟩
      · refine ⟨.committed, out, e, d2, hrun, rfl, ⟨h2, hbytes, htr, hdn, le_rfl⟩,
          .of_failed hfail' rfl, ha.notes.trans hn1, fun er her hst => (herr er her hst).elim,
          fun er her => ⟨fun _ => hf1 (hwritten .ioError ?_), fun hst => (by cases hst)⟩⟩
        cases hfail with
        | err _ => rfl
        | stop _ => rw [bind_stop hw, Prod.mk.injEq] at hrun; rw [← hrun.1] at her; cases her
  · obtain ⟨out, hrun, hfail'⟩ := hfail.bind (f := fun _ => commitAt env recs.length >>=
      fun _ => indexBlock r.hash r.loc r.sectors) hrun1
    exact ⟨.placed k, out, e, d1, hrun, rfl,
      ⟨h1, fun x _ => by rw [hm1]; rfl, htr1, hdn, hlen ▸ hk⟩, .of_failed hfail' rfl, hn1,
      fun er her hst => (hfail'.not_steady her hst).elim,
      fun _ _ => ⟨fun hst => (by cases hst), fun hst => (by cases hst)⟩⟩

@[simp] lemma length_nonce (k : DeviceKeyManager) : k.nonce.length = 12 := by
  simp [DeviceKeyManager.nonce]

lemma length_envelope (env : Env) (data : List UInt8) :
    (envelope env data).length = 8 + wrappedLen env data := by
  simp only [envelope, wrappedLen, compressionHeaderSize, length_append, Bytes.length_le]
  omega

lemma Sealed.length (h : Sealed env e data C) :
    C.length = 8 + wrappedLen env data + encryptionOverhead := by
  obtain ⟨k, c, -, hc, rfl⟩ := h
  rw [length_append, length_nonce, env.encrypt_length _ _ _ hc, length_envelope]
  unfold encryptionOverhead
  omega

lemma Sealed.sectors (h : Sealed env e data C) :
    (sectorsOf sectorSize C).length = (newRec env e data).sectors := by
  rw [length_sectorsOf, h.length]
  rfl

lemma effect_ahead (stage : Stage) (ha : Ahead env d d') (hst : stage.sectors r = 0)
    (hdn : e'.dataNextSector = stage.dataNext r)
    (h : Live env tick e' (flat d'.disk) (stage.recs recs r) (stage.mark mk mk')) :
    Effect env tick recs mk mk' r C d stage e' d' := by
  refine ⟨h, fun x hx => ?_, ?_, hdn, by omega⟩
  · rw [ha.mem x hx, hst, Nat.mul_zero, take_zero, Mem.write_outside]
    exact lt_or_ge x _
  · rw [hst]
    exact DataTrace.of_ahead ha

lemma Effect.of_ahead {d0 : Device} (ha : Ahead env d0 d)
    (h : Effect env tick recs mk mk' r C d stage e' d') :
    Effect env tick recs mk mk' r C d0 stage e' d' := by
  refine ⟨h.live, fun x hx => ?_, h.trace.ahead_trans ha, h.dataNext, h.sectors_le⟩
  rw [h.bytes x hx]
  unfold Mem.write
  rw [ha.mem x hx]

lemma Effect.of_note {notes : List (List UInt8)}
    (h : Effect env tick recs mk mk' r C { d with notes := notes } stage e' d') :
    Effect env tick recs mk mk' r C d stage e' d' :=
  ⟨h.live, h.bytes, h.trace, h.dataNext, h.sectors_le⟩

/-- **The stages of a write.** -/
lemma writeNew_cases (h : Live env tick e (flat d.disk) recs mk) (hr : (newRec env e data).Ok env) :
    ∃ stage C out e' d', writeNew env data e d = (out, e', d') ∧
      Effect env tick recs mk e.nextMark (newRec env e data) C d stage e' d' ∧
      Answer (newRec env e data) e.memtable d stage out e' ∧
      (stage ≠ .idle → d.trace.length < d'.trace.length) ∧
      ((stage.persisted = false ∧ d'.notes = d.notes) ∨
        (Sealed env e data C ∧ d'.notes = d.notes ++ [C])) ∧
      (∀ er, out = .err er → Steady d →
        (stage = .idle ∧ recs.length = walCapacity) ∨
        (stage = .logged ∧ ∀ C, ¬ Sealed env e data C) ∨
        (stage = .done ∧ ∃ er', e.memtable.insert (env.sha256 data)
          (newRec env e data).loc = .error er')) ∧
      ∀ er, out = .err er →
        (stage = .committed → Fate.err true ∈ d.fates) ∧
        (stage = .done → ∃ er', e.memtable.insert (env.sha256 data)
          (newRec env e data).loc = .error er') := by
  have hearly : ∀ {stage : Stage} {P Q : Prop}, stage ≠ .committed → stage ≠ .done →
      (stage = .committed → P) ∧ (stage = .done → Q) :=
    fun h h' => ⟨fun hst => absurd hst h, fun hst => absurd hst h'⟩
  obtain ⟨c, hk, -, hc⟩ := h.crypto
  have hsealed : ∀ {ct}, env.encrypt (DeviceKeyManager.nonce ⟨c, tick % 2 ^ 32⟩)
      (envelope env data) = some ct →
      Sealed env e data (DeviceKeyManager.nonce ⟨c, tick % 2 ^ 32⟩ ++ ct) :=
    fun hct => ⟨_, _, hk, hct, rfl⟩
  have hrun : writeNew env data e d =
      (walAppend env (newRec env e data).hash ((newRec env e data).start * sectorSize)
        (newRec env e data).size >>= fun i => sealData env e.crypto (envelope env data) >>=
          fun C => placeBlock env (newRec env e data) C i) e d := by
    unfold writeNew
    rw [get_bind, hk]
    rfl
  rw [hrun]
  obtain ⟨hfull, hw⟩ | ⟨out1, e1, d1, hw, ha1, ⟨rfl, rfl, hgrow, h1⟩ | ⟨hfail, rfl, h1⟩⟩ :=
    walAppend_cases h hr rfl
  · -- the log is full
    exact ⟨.idle, [], _, e, d, bind_err hw, effect_ahead .idle (Ahead.refl env d) rfl rfl h,
      ⟨by simp, fun _ => rfl, by simp⟩, by simp, .inl ⟨rfl, rfl⟩,
      fun _ _ _ => .inl ⟨rfl, hfull⟩, fun _ _ => hearly (by simp) (by simp)⟩
  · rw [bind_ok hw]
    obtain ⟨out2, e2, d2, hs, ht, hdn, ⟨hnone, rfl, rfl, h2⟩ | ⟨ct, C, hct, rfl, ha2, hcase⟩⟩ :=
      sealData_cases (envelope env data) h1 (show e.appended.crypto = _ from hk)
        (by rw [length_append, length_singleton]; omega) <;>
      rw [show e.appended.crypto = e.crypto from rfl] at hs
    · -- the cipher failed
      refine ⟨.logged, [], _, e2, d2, bind_err hs, effect_ahead .logged ha1 rfl hdn h2,
        ⟨by simp, fun _ => ht, by simp⟩, fun _ => hgrow, .inl ⟨rfl, ha1.notes⟩,
        fun _ _ _ => .inr (.inl ⟨rfl, ?_⟩), fun _ _ => hearly (by simp) (by simp)⟩
      rintro C ⟨k, c', hk', hc', -⟩
      rw [hk, Option.some.injEq] at hk'
      rw [← hk', hnone] at hc'
      cases hc'
    · have hmark : (⟨(recs ++ [newRec env e data]).length, e.appended.dataNextSector, c + 1⟩ :
          Mark) = e.nextMark := by
        simp [Engine.nextMark, Engine.counter, hk, h.wal, Engine.appended]
      rw [hmark] at hcase
      have hnotes : d2.notes = d.notes ++ [_] := ha2.notes.trans (congrArg (· ++ [_]) ha1.notes)
      have hfates : d2.fates ⊆ d.fates := fun _ hf => ha1.fates (ha2.fates hf)
      have hgrow2 : d.trace.length < d2.trace.length := lt_of_lt_of_le hgrow ha2.length_trace
      rcases hcase with ⟨rfl, h2⟩ | ⟨hfail, h2⟩
      · -- the counter is on disk
        rw [bind_ok hs]
        obtain ⟨stage, out, e', d3, hrun, hst, heff, hans, hn, herr, hlate⟩ :=
          placeBlock_cases mk h2 hdn hr (hsealed hct).sectors
        rw [ht] at herr hans hlate
        exact ⟨stage, _, out, e', d3, hrun, (heff.of_ahead ha2).of_note.of_ahead ha1,
          hans.mono hfates, fun _ => lt_of_lt_of_le hgrow2 heff.trace.length_trace,
          .inr ⟨hsealed hct, hn.trans hnotes⟩,
          fun er her hsteady => .inr (.inr (herr er her fun w hw => hsteady w (hfates hw))),
          fun er her => ⟨fun hst => hfates ((hlate er her).1 hst), (hlate er her).2⟩⟩
      · obtain ⟨out, hrun, hfail'⟩ := hfail.bind (f := fun C =>
          placeBlock env (newRec env e data) C recs.length) hs
        replace hfail' := hfail'.mono ha1.fates
        have herr := fun er (her : out = .err er) hst => hfail'.not_steady her hst
        rcases h2 with h2 | h2
        · exact ⟨.logged, _, out, e2, d2, hrun,
            (effect_ahead .logged ha2 rfl hdn h2).of_note.of_ahead ha1,
            .of_failed hfail' ht, fun _ => hgrow2, .inr ⟨hsealed hct, hnotes⟩,
            fun er her hst => (herr er her hst).elim, fun _ _ => hearly (by simp) (by simp)⟩
        · exact ⟨.placed 0, _, out, e2, d2, hrun,
            (effect_ahead (.placed 0) ha2 rfl hdn h2).of_note.of_ahead ha1,
            .of_failed hfail' ht, fun _ => hgrow2, .inr ⟨hsealed hct, hnotes⟩,
            fun er her hst => (herr er her hst).elim, fun _ _ => hearly (by simp) (by simp)⟩
  · obtain ⟨out, hrun, hfail'⟩ := hfail.bind (f := fun i =>
      sealData env e1.crypto (envelope env data) >>=
        fun C => placeBlock env (newRec env e1 data) C i) hw
    exact ⟨.idle, [], out, e1, d1, hrun, effect_ahead .idle ha1 rfl rfl h1,
      .of_failed hfail' rfl, by simp, .inl ⟨rfl, ha1.notes⟩,
      fun er her hst => (hfail'.not_steady her hst).elim, fun _ _ => hearly (by simp) (by simp)⟩

/-- **The answers of `writeBlock`.** It is refused before anything is written, or it finds
the block in the index, or it is a new write. -/
lemma writeBlock_cases (data : List UInt8) (h : Live env tick e (flat d.disk) recs mk) :
    ((data = [] ∨ ¬ (newRec env e data).Ok env) ∧
      ∃ er, writeBlock env data e d = (.err er, e, d)) ∨
    (∃ entry, e.memtable.get (env.sha256 data) = some entry ∧ data ≠ [] ∧
      writeBlock env data e d = (.ok (env.sha256 data, entry.location),
        { e with memtable := e.memtable.bump (env.sha256 data) }, d)) ∨
    (data ≠ [] ∧ e.memtable.get (env.sha256 data) = none ∧ (newRec env e data).Ok env ∧
      writeBlock env data e d = writeNew env data e d) := by
  obtain ⟨c, hk, -, -⟩ := h.crypto
  obtain ⟨mk', pad, -, hsb⟩ := h.superblock
  have htotal : e.superblock.totalSectors = env.capacity := by
    rw [hsb]
    rfl
  have hsectors : divCeil (onDiskSize e.crypto (wrappedLen env data)) sectorSize =
      (newRec env e data).sectors := by
    rw [hk]
    rfl
  unfold writeBlock
  by_cases hempty : data = []
  · subst hempty
    exact .inl ⟨.inl rfl, _, rfl⟩
  · rw [if_neg (by simpa using hempty), get_bind]
    cases hget : e.memtable.get (env.sha256 data) with
    | some entry => exact .inr (.inl ⟨entry, rfl, hempty, rfl⟩)
    | none =>
      dsimp only
      rw [hsectors, htotal]
      split_ifs with hfull hlarge
      · exact .inl ⟨.inr fun hr => absurd hr.end_le (not_le.mpr hfull), _, rfl⟩
      · exact .inl ⟨.inr fun hr => absurd hr.size_lt (not_lt.mpr hlarge), _, rfl⟩
      · refine .inr (.inr ⟨hempty, rfl, ⟨h.dataNext_ge, not_lt.mp hfull, not_le.mp hlarge⟩, rfl⟩)

end Parts

end Aios.Storage
