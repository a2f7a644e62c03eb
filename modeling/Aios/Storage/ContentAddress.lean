import Aios.Storage.Block
import Aios.Storage.Nonce

/-!
What is read by hash has that hash.

A record of the log belongs to some data with its hash, and its range on disk holds the
sealed block of that data, or a part of it, or nothing. Recovery takes an uncommitted record
for complete when its bytes can be decrypted. Such bytes were sealed and written under one
nonce, and nonces on disk are unique, so they are the record's own block; this fails as soon
as a write goes over the range of a record that is still in the log.
-/

namespace Aios.Storage

open Aios.Lib Prog Option List

def loggedEntries (env : Env) (disk : Disk) (wal : Wal) : List WalEntry :=
  (List.range' wal.tail (wal.head - wal.tail)).filterMap fun i => (readEntry env disk wal i).toOption

def blockBytes (env : Env) (disk : Disk) (loc : BlockLocation) : Except StorageError (List UInt8) :=
  let size := 8 + loc.size + encryptionOverhead
  (readSectors env disk (loc.offset / sectorSize) (divCeil size sectorSize)).map (·.take size)

def recoveredBlocks (env : Env) (disk : Disk) : List (List UInt8) :=
  match readSuperblock env disk with
  | .ok (some sb) =>
    (loggedEntries env disk ⟨sb.walStartSector, sb.walSizeSectors, sb.walHead, sb.walTail,
      sb.walHead + 1⟩).filterMap fun entry =>
        (blockBytes env disk ⟨entry.dataOffset, entry.dataSize, .hot⟩).toOption
  | _ => []

def Authentic (env : Env) (s : Sys) : Prop :=
  ∀ raw ∈ recoveredBlocks env s.disk, (decrypt env raw).isOk = true → raw ∈ s.reached

def LogBelow (env : Env) (s : Sys) : Prop :=
  ∀ e ∈ s.engine, ∀ entry ∈ loggedEntries env s.disk e.wal,
    entryEnd e.crypto entry ≤ e.dataNextSector

instance (env : Env) (s : Sys) : Decidable (Authentic env s) := by
  unfold Authentic
  infer_instance

instance (env : Env) (s : Sys) : Decidable (LogBelow env s) := by
  unfold LogBelow
  infer_instance

def AuthenticBoots (env : Env) (s : Sys) : Act → Prop
  | .init _ _ => Authentic env s
  | _ => True

def WritesBehind (env : Env) (s : Sys) : Act → Prop
  | .write _ _ => LogBelow env s
  | _ => True

instance (env : Env) (s : Sys) (a : Act) : Decidable (AuthenticBoots env s a) := by
  unfold AuthenticBoots
  split <;> infer_instance

instance (env : Env) (s : Sys) (a : Act) : Decidable (WritesBehind env s a) := by
  unfold WritesBehind
  split <;> infer_instance

section Logged

variable {env : Env} {tick : ℕ} {disk : Disk} {e : Engine} {recs : List Rec} {mk : Mark} {r : Rec}

lemma mem_loggedEntries (h : Live env tick e (flat disk) recs mk) (hr : r ∈ recs) :
    ∃ i, r.entry i ∈ loggedEntries env disk e.wal := by
  obtain ⟨i, hi⟩ := mem_iff_getElem?.mp hr
  have hentry : readEntry env disk e.wal i = .ok (r.entry i) :=
    Live.entry (d := ⟨disk, [], [], []⟩) h hi
  have hlt : i < recs.length := (List.getElem?_eq_some_iff.mp hi).1
  refine ⟨i, List.mem_filterMap.mpr ⟨i, ?_, by rw [hentry]; rfl⟩⟩
  rw [h.wal]
  refine mem_range'_1.mpr ⟨Nat.zero_le i, ?_⟩
  change i < 0 + (recs.length - 0)
  omega

lemma LogBelow.end_le {s : Sys} (h : LogBelow env s) (he : s.engine = some e)
    (hlive : Live env tick e (flat s.disk) recs mk) (hr : r ∈ recs) :
    r.endSector ≤ e.dataNextSector := by
  obtain ⟨i, hi⟩ := mem_loggedEntries hlive hr
  obtain ⟨c, hk, -, -⟩ := hlive.crypto
  have := h e he _ hi
  rwa [hk, entryEnd_eq] at this

lemma blockBytes_eq (hr : r.Ok env) (i : ℕ) :
    blockBytes env disk ⟨(r.entry i).dataOffset, (r.entry i).dataSize, .hot⟩ =
      .ok (r.raw (flat disk)) := by
  have hstart : r.start * sectorSize / sectorSize = r.start := Nat.mul_div_cancel _ (by decide)
  have hs : readSectors env disk r.start r.sectors =
      .ok ((flat disk).read (sectorSize * r.start) (sectorSize * r.sectors)) :=
    readSectors_eq hr.end_le
  change (readSectors env disk (r.start * sectorSize / sectorSize) r.sectors).map
    (·.take (8 + r.size + encryptionOverhead)) = _
  rw [hstart, hs]
  exact congrArg _ (Mem.take_read _ _ r.size_le_sectors)

lemma mem_recoveredBlocks (h : OnDisk env tick (flat disk) recs mk) (hr : r ∈ recs.take mk.head) :
    r.raw (flat disk) ∈ recoveredBlocks env disk := by
  have hread : readSuperblock env disk = _ := readSuperblock_eq h.capacity
  rw [h.header, if_pos (isValid_sbOf env tick mk)] at hread
  have hboot : Live env tick _ (flat disk) _ mk :=
    bootEngine_live h (Mem.length_read (flat disk) 112 3984)
  obtain ⟨i, hi⟩ := mem_loggedEntries hboot hr
  unfold recoveredBlocks
  rw [hread]
  refine mem_filterMap.mpr ⟨r.entry i, hi, ?_⟩
  rw [blockBytes_eq (h.recOk r (mem_of_mem_take hr))]
  rfl

lemma decrypt_of_load {m : Mem} {bufLen : ℕ} (h : (r.load env m bufLen).isOk = true) :
    (decrypt env (r.raw m)).isOk = true := by
  unfold Rec.load openBlock at h
  simp only [isSome_some, if_true] at h
  cases hd : decrypt env (r.raw m) with
  | ok p => rfl
  | error er =>
    rw [hd] at h
    cases h

end Logged

def blankNonce : List UInt8 := List.replicate 12 0

def Sound (env : Env) (m : Mem) (r : Rec) : Prop :=
  ∃ data, r.hash = env.sha256 data ∧ r.size = wrappedLen env data ∧ SealedAs env data (r.raw m)

/-- What a record may look like: it is sound, or uncommitted and its range starts with nothing
or with the nonce of its own block. -/
def Credible (env : Env) (reached : List (List UInt8)) (m : Mem) (r : Rec) : Prop :=
  Sound env m r ∨ r.committed = false ∧ ∃ data, r.hash = env.sha256 data ∧
    r.size = wrappedLen env data ∧ (nonceOf (r.raw m) = blankNonce ∨
      ∃ C ∈ reached, SealedAs env data C ∧ nonceOf (r.raw m) = nonceOf C)

def Rec.Holds (r : Rec) (x : ℕ) : Prop :=
  sectorSize * r.start ≤ x ∧ x < sectorSize * r.endSector

/-- **Records and their blocks.** Bytes outside the ranges the superblock covers are blank. -/
structure ContentInv (env : Env) (tick : ℕ) (s : Sys) (recs : List Rec) (mk : Mark) : Prop where
  nonces : NonceInv tick s mk
  written : ∀ C ∈ s.reached, nonceOf C ≠ blankNonce
  blocks : ∀ r ∈ recs, Credible env s.reached (flat s.disk) r
  blank : ∀ x, dataBase ≤ x → (∀ r ∈ recs.take mk.head, ¬ r.Holds x) → flat s.disk x = 0
  indexed : ∀ e, s.engine = some e → ∀ key loc, e.memtable.locationOf key = some loc →
    ∃ r ∈ recs, r.hash = key ∧ r.loc = loc ∧ Sound env (flat s.disk) r

section Salvage

variable {env : Env} {tick : ℕ} {s : Sys} {recs : List Rec} {mk : Mark} {r : Rec} {m m' : Mem}

lemma Sound.congr (h : Sound env m r) (hraw : r.raw m' = r.raw m) : Sound env m' r := by
  obtain ⟨data, hhash, hsize, hC⟩ := h
  exact ⟨data, hhash, hsize, hraw ▸ hC⟩

lemma Sound.commit (h : Sound env m r) : Sound env m r.commit := h

lemma Credible.congr {reached reached' : List (List UInt8)} (h : Credible env reached m r)
    (hsub : reached ⊆ reached') (hraw : r.raw m' = r.raw m) : Credible env reached' m' r := by
  rcases h with h | ⟨hc, data, hhash, hsize, hcase⟩
  · exact .inl (h.congr hraw)
  · rw [← hraw] at hcase
    exact .inr ⟨hc, data, hhash, hsize,
      hcase.imp_right fun ⟨C, hC, hseal, hn⟩ => ⟨C, hsub hC, hseal, hn⟩⟩

section

variable (h : ContentInv env tick s recs mk) (hok : Sys.Ok env tick s recs mk)
include h hok

/-- **Salvage.** A record that recovery accepts is sound. -/
lemma ContentInv.accepted (hauth : Authentic env s) (hr : r ∈ recs.take mk.head)
    (hacc : accept env (flat s.disk) r = true) : Sound env (flat s.disk) r := by
  rcases h.blocks r (mem_of_mem_take hr) with hs | ⟨hc, data, hhash, hsize, hcase⟩
  · exact hs
  · unfold accept at hacc
    rw [hc, Bool.false_or, Bool.and_eq_true] at hacc
    have hreach : r.raw (flat s.disk) ∈ s.reached :=
      hauth _ (mem_recoveredBlocks hok.onDisk hr) (decrypt_of_load hacc.2)
    rcases hcase with hblank | ⟨C, hC, hseal, hn⟩
    · exact absurd hblank (h.written _ hreach)
    · -- one nonce, one string
      have heq : r.raw (flat s.disk) = C := inj_on_of_nodup_map h.nonces.nodup hreach hC hn
      exact ⟨data, hhash, hsize, heq ▸ hseal⟩

lemma ContentInv.kept {s' : Sys} {recs' : List Rec} (hn : NonceInv tick s' mk)
  (hreach : s'.reached = s.reached)
    (hmem : ∀ x, dataBase ≤ x → flat s'.disk x = flat s.disk x)
    (hrecs : ∀ r' ∈ recs', ∃ r ∈ recs, r' = r ∨ Sound env (flat s.disk) r ∧ r' = r.commit)
    (htake : ∀ r ∈ recs.take mk.head, ∃ r' ∈ recs'.take mk.head, r' = r ∨ r' = r.commit)
    (hidx : ∀ e, s'.engine = some e → ∀ key loc, e.memtable.locationOf key = some loc →
      ∃ r' ∈ recs', r'.hash = key ∧ r'.loc = loc ∧ Sound env (flat s.disk) r') :
    ContentInv env tick s' recs' mk := by
  have hraw : ∀ r' ∈ recs', r'.raw (flat s'.disk) = r'.raw (flat s.disk) := by
    intro r' hr'
    obtain ⟨r, hr, hcase⟩ := hrecs r' hr'
    have hsame : r.raw (flat s'.disk) = r.raw (flat s.disk) :=
      (hok.onDisk.recOk r hr).raw_congr hmem
    rcases hcase with rfl | ⟨-, rfl⟩ <;> exact hsame
  refine ⟨hn, hreach ▸ h.written, fun r' hr' => ?_, fun x hx hout => ?_, fun e he key loc hloc => ?_⟩
  · obtain ⟨r, hr, rfl | ⟨hs, rfl⟩⟩ := hrecs r' hr'
    · exact (h.blocks r' hr).congr (hreach ▸ List.Subset.refl _) (hraw r' hr')
    · exact .inl (hs.commit.congr (hraw _ hr'))
  · rw [hmem x hx]
    refine h.blank x hx fun r hr hin => ?_
    obtain ⟨r', hr', rfl | rfl⟩ := htake r hr
    · exact hout _ hr' hin
    · exact hout _ hr' hin
  · obtain ⟨r', hr', hkey, hrloc, hs⟩ := hidx e he key loc hloc
    exact ⟨r', hr', hkey, hrloc, hs.congr (hraw r' hr')⟩

end

end Salvage

section Write

variable {env : Env} {tick : ℕ} {s : Sys} {recs : List Rec} {mk : Mark} {e e' : Engine}
  {data C : List UInt8} {fates : List Fate} {stage : Stage} {d' : Device}
  {out : Out StorageError (ContentHash × BlockLocation)}

lemma nonceAt_ne_blank {c : ℕ} (hpos : 0 < c) (hlt : c < 2 ^ 64) : nonceAt tick c ≠ blankNonce := by
  intro h
  have h8 : Bytes.le 8 c = Bytes.le 8 0 := by
    have := congrArg (List.drop 4) h
    rwa [nonceAt, DeviceKeyManager.nonce, drop_left' (Bytes.length_le 4 _)] at this
  have := congrArg Bytes.ofLe h8
  rw [Bytes.ofLe_le (by omega), Bytes.ofLe_le (by decide)] at this
  omega

lemma ContentInv.blank_start (h : ContentInv env tick s recs mk)
    (hbelow : ∀ r ∈ recs, r.endSector ≤ e.dataNextSector) (hr : (newRec env e data).Ok env) :
    nonceOf ((newRec env e data).raw (flat s.disk)) = blankNonce := by
  have hstart := hr.start_ge
  unfold nonceOf Rec.raw
  rw [Mem.take_read _ _ (by unfold encryptionOverhead; omega)]
  refine Mem.read_eq_replicate fun x hx _ => h.blank x ?_ fun r hrec hin => ?_
  · unfold dataStartSector walStartSector walSizeSectors sectorSize at *
    unfold dataBase
    omega
  · have hle := hbelow r (mem_of_mem_take hrec)
    have : sectorSize * r.endSector ≤ sectorSize * (newRec env e data).start :=
      Nat.mul_le_mul_left _ hle
    exact absurd hin.2 (by omega)

lemma NewWrite.sound (hw : NewWrite env tick s recs mk e data fates stage C out e' d')
    (hall : stage.sectors (newRec env e data) = (newRec env e data).sectors)
    (hseal : Sealed env e data C) : Sound env (flat d'.disk) (newRec env e data) := by
  have hbytes := hw.effect.bytes
  rw [hall] at hbytes
  have hraw : (newRec env e data).raw (flat d'.disk) = C :=
    raw_written hw.recOk hseal.length hbytes
  exact ⟨data, rfl, rfl, hraw.symm ▸ hseal.sealedAs⟩

lemma ContentInv.new_credible (h : ContentInv env tick s recs mk)
    (hbelow : ∀ r ∈ recs, r.endSector ≤ e.dataNextSector)
    (hw : NewWrite env tick s recs mk e data fates stage C out e' d') {reached : List (List UInt8)}
    (hcov : stage.sectors (newRec env e data) ≠ 0 → Sealed env e data C ∧ C ∈ reached) :
    Credible env reached (flat d'.disk) (newRec env e data) := by
  have hblank := h.blank_start hbelow hw.recOk
  have hbytes := hw.effect.bytes
  refine .inr ⟨rfl, data, rfl, rfl, ?_⟩
  by_cases hzero : stage.sectors (newRec env e data) = 0
  · -- nothing was written
    refine .inl ?_
    rw [hzero, Nat.mul_zero, take_zero] at hbytes
    rw [hw.recOk.raw_congr hbytes, ← hblank]
    unfold Rec.raw
    rw [Mem.read_write_outside (.inr (by simp))]
    rfl
  · -- at least the first sector, with the nonce
    obtain ⟨hseal, hC⟩ := hcov hzero
    refine .inr ⟨C, hC, hseal.sealedAs, ?_⟩
    have hlen : 12 ≤ C.length := by
      rw [hseal.length]
      unfold encryptionOverhead
      omega
    have hk : 12 ≤ sectorSize * stage.sectors (newRec env e data) := by
      unfold sectorSize
      omega
    rw [hw.recOk.raw_congr hbytes]
    unfold nonceOf Rec.raw
    rw [Mem.take_read _ _ (by unfold encryptionOverhead; omega), Mem.read_write_take, take_take,
      min_eq_left hk]
    · exact take_append_of_le_length hlen
    · rw [length_take, padded, length_append]
      omega

section

variable (hw : NewWrite env tick s recs mk e data fates stage C out e' d')
include hw

lemma NewWrite.reached_eq {C' : List UInt8} (hC' : C' ∈ Call.reached ⟨some data, out.value?,
  d'.trace, d'.notes⟩) :
    C' = C ∧ Sealed env e data C := by
  have hmem : C' ∈ d'.notes := (mem_filter.mp hC').1
  rcases hw.notes with ⟨-, hno⟩ | ⟨hseal, hno⟩
  · rw [hno] at hmem
    cases hmem
  · rw [hno] at hmem
    exact ⟨mem_singleton.mp hmem, hseal⟩

lemma NewWrite.mem_reached (hn : NonceInv tick (s.wrote data out e' d') (stage.mark mk e.nextMark))
    (hne : stage.sectors (newRec env e data) ≠ 0) :
    Sealed env e data C ∧ C ∈ (s.wrote data out e' d').reached := by
  obtain ⟨ws, hws, hdat⟩ := hw.effect.trace.filter_eq
  have hpers : stage.persisted = true := by
    cases stage <;> simp_all [Stage.sectors, Stage.persisted]
  have hseal : Sealed env e data C :=
    (hw.notes.resolve_left fun hno => by rw [hpers] at hno; exact Bool.noConfusion hno.1).1
  obtain ⟨w, hwmem⟩ : ∃ w, w ∈ (numbered (newRec env e data).start (sectorsOf sectorSize C)).take
      (stage.sectors (newRec env e data)) := by
    refine exists_mem_of_ne_nil _ fun hnil => ?_
    have hlen := congrArg List.length hnil
    have hle := hw.effect.sectors_le
    rw [length_take, length_numbered, hseal.sectors, min_eq_left hle] at hlen
    exact hne hlen
  rw [← hdat, mem_filter] at hwmem
  obtain ⟨C', hC', -⟩ := hn.covers _ (mem_append_right _ (mem_singleton_self _)) w
    (by rw [hws]; exact hwmem.1) (of_decide_eq_true hwmem.2)
  obtain ⟨rfl, -⟩ := hw.reached_eq hC'
  exact ⟨hseal, mem_flatMap.mpr ⟨_, mem_append_right _ (mem_singleton_self _), hC'⟩⟩

end

/-- **A write behind the log keeps records and blocks together.** -/
lemma ContentInv.wrote (h : ContentInv env tick s recs mk) (hok : Sys.Ok env tick s recs mk)
    (he : s.engine = some e) (hbelow : ∀ r ∈ recs, r.endSector ≤ e.dataNextSector)
    (hw : NewWrite env tick s recs mk e data fates stage C out e' d') :
    ContentInv env tick (s.wrote data out e' d') (stage.recs recs (newRec env e data))
      (stage.mark mk e.nextMark) := by
  have hlive := hok.live e he
  have hn := h.nonces.wrote hlive hw
  have hhead : e.nextMark.head = recs.length + 1 := by
    simp [Engine.nextMark, hlive.wal]
  have hreach : (s.wrote data out e' d').reached =
      s.reached ++ Call.reached ⟨some data, out.value?, d'.trace, d'.notes⟩ := reached_append
  have hsub : s.reached ⊆ (s.wrote data out e' d').reached := by
    rw [hreach]
    exact subset_append_left _ _
  have hpers : stage.persisted = true → Sealed env e data C := fun hp =>
    (hw.notes.resolve_left fun hno => by rw [hp] at hno; exact Bool.noConfusion hno.1).1
  have hold : ∀ r ∈ recs, r.raw (flat d'.disk) = r.raw (flat s.disk) := fun r hr =>
    raw_below (hok.onDisk.recOk r hr) (hbelow r hr) hw.effect.bytes
  have hmem : recs ⊆ stage.recs recs (newRec env e data) := by
    cases stage <;> simp [Stage.recs]
  have hall : stage = .committed ∨ stage = .done →
      Sound env (flat d'.disk) (newRec env e data) := by
    rintro (rfl | rfl) <;> exact hw.sound rfl (hpers rfl)
  refine ⟨hn, fun C' hC' => ?_, fun r hr => ?_, fun x hx hout => ?_, fun e1 he1 key loc hloc => ?_⟩
  · rw [hreach] at hC'
    rcases mem_append.mp hC' with hC' | hC'
    · exact h.written C' hC'
    · obtain ⟨rfl, hseal⟩ := hw.reached_eq hC'
      obtain ⟨hlt, -, hk⟩ := hlive.counter_lt
      have hgap : crashRecoveryGap ≤ e.counter := hlive.gap_le _ hk
      rw [hseal.nonceOf hk]
      exact nonceAt_ne_blank (lt_of_lt_of_le (by decide) hgap) hlt
  · have hnew := h.new_credible hbelow hw (hw.mem_reached hn)
    have hkeep : r ∈ recs → Credible env (s.wrote data out e' d').reached (flat d'.disk) r :=
      fun hr => (h.blocks r hr).congr hsub (hold r hr)
    cases stage with
    | idle => exact hkeep hr
    | logged | placed k =>
      rcases mem_append.mp hr with hr | hr
      · exact hkeep hr
      · exact mem_singleton.mp hr ▸ hnew
    | committed =>
      rcases mem_append.mp hr with hr | hr
      · exact hkeep hr
      · exact mem_singleton.mp hr ▸ .inl (hall (.inl rfl)).commit
    | done =>
      rcases mem_append.mp hr with hr | hr
      · exact hkeep hr
      · exact mem_singleton.mp hr ▸ .inl (hall (.inr rfl)).commit
  · -- what lies outside the new block has not changed
    have hnew : stage.sectors (newRec env e data) ≠ 0 → ¬ (newRec env e data).Holds x := by
      have hlast : ∀ r, r ∈ (recs ++ [r]).take e.nextMark.head := fun r => by
        rw [hhead, take_of_length_le (by simp)]
        exact mem_append_right _ (mem_singleton_self r)
      cases stage with
      | idle | logged => exact fun hne => absurd rfl hne
      | placed k => exact fun _ => hout _ (hlast _)
      | committed | done => exact fun _ => hout (newRec env e data).commit (hlast _)
    have hsame : flat d'.disk x = flat s.disk x := by
      rw [hw.effect.bytes x hx]
      refine Mem.write_outside ?_
      rw [length_take]
      by_cases hzero : stage.sectors (newRec env e data) = 0
      · rw [hzero]
        omega
      · have hle : sectorSize * stage.sectors (newRec env e data) ≤
            sectorSize * (newRec env e data).sectors := Nat.mul_le_mul_left _ hw.effect.sectors_le
        have hout' := hnew hzero
        unfold Rec.Holds Rec.endSector at hout'
        rw [Nat.mul_add] at hout'
        omega
    exact hsame.trans (h.blank x hx fun r hr => hout r (Stage.mem_take hhead hr))
  · have he' : e1 = e' := by
      simp only [Sys.wrote] at he1
      split_ifs at he1
      exact (Option.some.inj he1).symm
    subst he'
    have hfound : e.memtable.locationOf key = some loc →
        ∃ r ∈ stage.recs recs (newRec env e data), r.hash = key ∧ r.loc = loc ∧
          Sound env (flat d'.disk) r := by
      intro hold'
      obtain ⟨r, hr, hkey, hrloc, hs⟩ := h.indexed e he key loc hold'
      exact ⟨r, hmem hr, hkey, hrloc, hs.congr (hold r hr)⟩
    by_cases hans : ∃ res, out = .ok res
    · obtain ⟨res, hres⟩ := hans
      obtain ⟨rfl, -, hins⟩ := hw.answer.ok res hres
      rw [MemTable.locationOf_insert hins] at hloc
      split_ifs at hloc with hkey
      · cases hloc
        exact ⟨(newRec env e data).commit, mem_append_right _ (mem_singleton_self _),
          hkey.1.symm, rfl, (hall (.inr rfl)).commit⟩
      · exact hfound hloc
    · rw [hw.answer.kept fun res hres => hans ⟨res, hres⟩] at hloc
      exact hfound hloc

end Write

lemma ContentInv.booted {env : Env} {tick : ℕ} {s : Sys} {recs recs' : List Rec} {mk : Mark}
    {fates : List Fate} {d' : Device} {out : Out StorageError Engine}
    (h : ContentInv env tick s recs mk) (hok : Sys.Ok env tick s recs mk)
    (hauth : Authentic env s) (hah : Ahead env (s.device fates) d')
    (hmarked : Marked (accept env (flat s.disk)) (recs.take mk.head) recs')
    (hn : NonceInv tick (s.booted out d') mk)
    (hidx : ∀ e, out.value? = some e → e.memtable = (replay (accept env (flat s.disk))
      (recs.take mk.head) MemTable.withDefaultCapacity mk.dataNext).1) :
    ContentInv env tick (s.booted out d') recs' mk := by
  have hreach : (s.booted out d').reached = s.reached := by
    unfold Sys.booted
    rw [reached_append, Call.reached_eq_nil (hah.trace_lt rfl), append_nil]
  have hfull : recs'.take mk.head = recs' := by
    refine take_of_length_le ?_
    rw [hmarked.length, length_take]
    exact min_le_left _ _
  refine h.kept hok hn hreach hah.mem (fun r' hr' => ?_) (fun r hr => ?_)
    (fun e he key loc hloc => ?_)
  · obtain ⟨r, hr, hcase⟩ := hmarked.mem_back hr'
    exact ⟨r, mem_of_mem_take hr, hcase.imp_right fun hc => ⟨h.accepted hok hauth hr hc.1, hc.2⟩⟩
  · obtain ⟨r', hr', hcase⟩ := hmarked.mem hr
    exact ⟨r', hfull.symm ▸ hr', hcase.imp_right And.right⟩
  · rw [hidx e he] at hloc
    rcases replay_origin hloc with hloc | ⟨r, hr, hacc, hkey, hrloc⟩
    · rw [MemTable.locationOf_empty] at hloc
      cases hloc
    · have hs := h.accepted hok hauth hr hacc
      obtain ⟨r', hr', hcase⟩ := hmarked.mem hr
      refine ⟨r', hr', ?_⟩
      rcases hcase with rfl | ⟨-, rfl⟩
      · exact ⟨hkey, hrloc, hs⟩
      · exact ⟨hkey, hrloc, hs.commit⟩

/-- **Every move keeps records and blocks together**, as long as writes go behind the log and
the cipher is authentic. -/
lemma ContentInv.move {env : Env} {tick : ℕ} {s s' : Sys} {recs recs' : List Rec} {mk mk' : Mark}
    {a : Act} (h : ContentInv env tick s recs mk) (hok : Sys.Ok env tick s recs mk)
    (hauth : AuthenticBoots env s a) (hbehind : WritesBehind env s a)
    (hm : Move env tick s recs mk a s' recs' mk') : ContentInv env tick s' recs' mk' := by
  have hn := h.nonces.move hok hm
  have hself : ∀ r ∈ recs, ∃ r0 ∈ recs, r = r0 ∨ Sound env (flat s.disk) r0 ∧ r = r0.commit :=
    fun r hr => ⟨r, hr, .inl rfl⟩
  have htake : ∀ r ∈ recs.take mk.head, ∃ r' ∈ recs.take mk.head, r' = r ∨ r' = r.commit :=
    fun r hr => ⟨r, hr, .inl rfl⟩
  cases hm with
  | refused er he hno =>
    refine h.kept hok hn ?_ (fun _ _ => rfl) hself htake fun e' he' => ?_
    · exact reached_append.trans (by rw [Call.reached_eq_nil (by simp [Sys.device])]; simp)
    · cases he'
      exact h.indexed _ he
  | found he hget =>
    refine h.kept hok hn ?_ (fun _ _ => rfl) hself htake fun e' he' key loc hloc => ?_
    · exact reached_append.trans (by rw [Call.reached_eq_nil (by simp [Sys.device])]; simp)
    · cases he'
      exact h.indexed _ he key loc (by rwa [← MemTable.locationOf_bump])
  | wrote he hw =>
    exact h.wrote hok he (fun r hr => hbehind.end_le he (hok.live _ he) hr) hw
  | decRef he =>
    refine h.kept hok hn rfl (fun _ _ => rfl) hself htake fun e' he' key loc hloc => ?_
    cases he'
    exact h.indexed _ he key loc (MemTable.locationOf_decRef hloc)
  | stopped hah hmarked hl => exact h.booted hok hauth hah hmarked hn fun e he => by cases he
  | booted hah hmarked ht hdn =>
    refine h.booted hok hauth hah hmarked hn fun e he => ?_
    cases he
    exact ht

lemma ContentInv.start {env : Env} {disk : Disk} (hd : readSuperblock env disk = .ok none)
    (hempty : ∀ x, dataBase ≤ x → flat disk x = 0) (tick : ℕ) :
    ContentInv env tick (Sys.start env tick disk) [] freshMark := by
  obtain ⟨d', hstart, hah, -⟩ := start_ok hd tick
  have hn := NonceInv.start hd tick
  have hreach : (Sys.start env tick disk).reached = [] := by
    rw [hstart]
    exact (append_nil _).trans (Call.reached_eq_nil (hah.trace_lt rfl))
  refine ⟨hn, fun C hC => ?_, fun r hr => ?_, fun x hx _ => ?_, fun e he key loc hloc => ?_⟩
  · rw [hreach] at hC
    cases hC
  · cases hr
  · rw [hstart]
    exact (hah.mem x hx).trans (hempty x hx)
  · rw [hstart] at he
    cases he
    cases hloc

/-- **Content addressing.** A run starts on a formatted disk with nothing in its data region;
sector writes may fail and the machine may stop anywhere. Provided every `write_block` starts
with the append pointer behind all blocks in the log, what is read by a hash has that hash.
AES-GCM is taken to decrypt what it encrypted and, at every boot, to accept nothing but what
this key has encrypted and the engine has put on the disk; LZ4 to restore what it
compressed. -/
theorem Sys.content_addressed (env : Env)
    (hdec : ∀ n p c, env.encrypt n p = some c → env.decrypt n c = some p)
    (hlz4 : ∀ data n out, env.decompressInto (env.compress data) n = some out → out = data)
    {tick : ℕ} {disk : Disk} (hd : readSuperblock env disk = .ok none)
    (hempty : ∀ x, dataBase ≤ x → flat disk x = 0) {s : Sys}
    (h : Sys.Reaches env (fun s a => AuthenticBoots env s a ∧ WritesBehind env s a)
      (Sys.start env tick disk) s)
    {e : Engine} (he : s.engine = some e) {hash : ContentHash} {bufLen : ℕ} {data : List UInt8}
    (hread : readBlockByHash env s.disk e hash bufLen = .ok data) : env.sha256 data = hash := by
  obtain ⟨recs, mk, hok, hinv⟩ := h.inv (ContentInv env tick) hd (.start hd hempty tick)
    fun s recs mk a s' recs' mk' hok hI ha hm _ => hI.move hok ha.1 ha.2 hm
  have hloc : e.memtable.locationOf hash ≠ none := by
    intro hnone
    unfold readBlockByHash at hread
    rw [MemTable.locationOf_eq_none.mp hnone] at hread
    cases hread
  obtain ⟨loc, hloc⟩ := ne_none_iff_exists'.mp hloc
  obtain ⟨r, hr, hkey, rfl, data', hhash, hsize, hseal⟩ := hinv.indexed e he hash loc hloc
  have hrok := hok.onDisk.recOk r hr
  rw [readBlockByHash_eq (hok.live e he) hrok hloc, Rec.load,
    openBlock_sealed hdec hseal hsize hrok.size_lt] at hread
  rw [decompress_sound hlz4 hread, ← hkey, hhash]

lemma blankDisk_empty (x : ℕ) : flat blankDisk x = 0 := by
  simp [flat, blankDisk, Sector.ofBytes]

def salvagedRun : List Act :=
  [.write [1] [], .write [2] (List.replicate 10 .ok ++ [.stop false]), .init 0 [], .write [3] []]

theorem Sys.content_addressed_salvaged : ∃ s e data,
    Runs.exec (fun s a => AuthenticBoots plainEnv s a ∧ WritesBehind plainEnv s a)
      (Sys.step plainEnv) (Sys.start plainEnv 7 blankDisk) salvagedRun = some s ∧
    s.engine = some e ∧ readBlockByHash plainEnv s.disk e (plainEnv.sha256 [2]) 8 = .ok data ∧
    plainEnv.sha256 data = plainEnv.sha256 [2] := by
  obtain ⟨s, hs, hsome⟩ := (any_eq_true _ _).mp
    (show ((Runs.exec (fun s a => AuthenticBoots plainEnv s a ∧ WritesBehind plainEnv s a)
      (Sys.step plainEnv) (Sys.start plainEnv 7 blankDisk) salvagedRun).any fun s =>
        s.engine.any fun e =>
          (readBlockByHash plainEnv s.disk e (plainEnv.sha256 [2]) 8).isOk) = true by
        decide +kernel)
  obtain ⟨e, he, hok⟩ := (any_eq_true _ _).mp hsome
  cases hread : readBlockByHash plainEnv s.disk e (plainEnv.sha256 [2]) 8 with
  | error er =>
    rw [hread] at hok
    cases hok
  | ok data =>
    refine ⟨s, e, data, hs, he, hread, Sys.content_addressed plainEnv plainEnv_decrypt ?_
      (by decide +kernel) (fun x _ => blankDisk_empty x) (Runs.of_exec hs) he hread⟩
    intro data n out hout
    simp only [plainEnv] at hout
    split_ifs at hout
    exact (Option.some.inj hout).symm

def salvagedTwice : List Act := [.write [1] [.ok, .err false], .write [2] [], .init 0 []]

/-- **A read by hash gives other data.** The first write fails after its entry was logged; the
second is written over the same sectors and acknowledged; recovery takes the bytes for the
block of the first. -/
theorem Sys.content_misaddressed : ∃ s e,
    Runs.exec (AuthenticBoots plainEnv) (Sys.step plainEnv) (Sys.start plainEnv 7 blankDisk)
      salvagedTwice = some s ∧ s.engine = some e ∧
    readBlockByHash plainEnv s.disk e (plainEnv.sha256 [1]) 8 = .ok [2] ∧
    plainEnv.sha256 [2] ≠ plainEnv.sha256 [1] := by
  obtain ⟨s, hs, hsome⟩ := (any_eq_true _ _).mp
    (show ((Runs.exec (AuthenticBoots plainEnv) (Sys.step plainEnv)
      (Sys.start plainEnv 7 blankDisk) salvagedTwice).any fun s => s.engine.any fun e =>
        (readBlockByHash plainEnv s.disk e (plainEnv.sha256 [1]) 8).toOption == some [2]) = true by
        decide +kernel)
  obtain ⟨e, he, hok⟩ := (any_eq_true _ _).mp hsome
  refine ⟨s, e, hs, he, ?_, by decide +kernel⟩
  cases hread : readBlockByHash plainEnv s.disk e (plainEnv.sha256 [1]) 8 with
  | error er =>
    rw [hread] at hok
    cases hok
  | ok data =>
    rw [hread] at hok
    exact congrArg _ (Option.some.inj (eq_of_beq hok))

end Aios.Storage
