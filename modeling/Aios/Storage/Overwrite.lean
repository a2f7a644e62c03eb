import Aios.Storage.Index

/-!
Acknowledged blocks are not overwritten.

The append pointer on disk lags behind the one in memory; a boot makes up for it by scanning
the log. As long as that scan is not cut short by a full index, the pointer of a running
engine is behind every block it ever acknowledged or has in its index, and new blocks are
written from the pointer on.
-/

namespace Aios.Storage

open Aios.Lib Prog List

/-- Does sector `i` belong to the block at this location? -/
def BlockLocation.Covers (loc : BlockLocation) (i : ℕ) : Prop :=
  loc.offset / sectorSize ≤ i ∧
    i < loc.offset / sectorSize + divCeil (8 + loc.size + encryptionOverhead) sectorSize

instance (loc : BlockLocation) (i : ℕ) : Decidable (loc.Covers i) := by
  unfold BlockLocation.Covers
  infer_instance

lemma Rec.covers_iff (r : Rec) (i : ℕ) : r.loc.Covers i ↔ r.start ≤ i ∧ i < r.endSector := by
  have hstart : r.start * sectorSize / sectorSize = r.start := Nat.mul_div_cancel _ (by decide)
  change r.start * sectorSize / sectorSize ≤ i ∧ i < r.start * sectorSize / sectorSize + _ ↔ _
  rw [hstart]
  rfl

/-- The hash recovery takes from entry `i`: the entry must be valid, and committed or its
block readable. -/
def acceptedHash (env : Env) (disk : Disk) (e : Engine) (i : ℕ) : Option ContentHash :=
  match readEntry env disk e.wal i with
  | .ok entry =>
    if entry.isValid && (entry.committed == 1 || (decide (0 < entry.dataSize) &&
        readsBack env disk e.crypto ⟨entry.dataOffset, entry.dataSize, .hot⟩)) then
      some entry.blockId
    else none
  | .error _ => none

def acceptedHashes (env : Env) (disk : Disk) : List ContentHash :=
  match readSuperblock env disk with
  | .ok (some sb) =>
    let wal : Wal := ⟨sb.walStartSector, sb.walSizeSectors, sb.walHead, sb.walTail, sb.walHead + 1⟩
    (List.range' sb.walTail (sb.walHead - sb.walTail)).filterMap
      (acceptedHash env disk (fromSuperblock sb wal sb.dataNextSector))
  | _ => []

def IndexFits (env : Env) (disk : Disk) : Prop :=
  (acceptedHashes env disk).toFinset.card ≤ memtableMaxEntries

instance (env : Env) (disk : Disk) : Decidable (IndexFits env disk) := by
  unfold IndexFits
  infer_instance

def BootsFit (env : Env) (s : Sys) : Act → Prop
  | .init _ _ => IndexFits env s.disk
  | _ => True

instance (env : Env) (s : Sys) (a : Act) : Decidable (BootsFit env s a) :=
  match a with
  | .init _ _ => inferInstanceAs (Decidable (IndexFits _ _))
  | .write _ _ | .decRef _ => .isTrue trivial

section Accepted

variable {env : Env} {tick : ℕ} {disk : Disk} {recs : List Rec} {mk : Mark}

lemma filterMap_range' {α β : Type} (l : List β) (f : ℕ → Option α) (g : β → Option α) (k : ℕ)
    (h : ∀ (i : ℕ) (r : β), l[i]? = some r → f (k + i) = g r) :
    (List.range' k l.length).filterMap f = l.filterMap g := by
  induction l generalizing k with
  | nil => rfl
  | cons r l ih =>
    have hhead : f k = g r := h 0 r rfl
    have htail := ih (k + 1) fun i r' hr' => by
      rw [← h (i + 1) r' hr', Nat.add_assoc, Nat.add_comm 1]
    rw [length_cons, range'_succ, filterMap_cons, filterMap_cons, hhead, htail]

lemma acceptedHash_eq {e : Engine} {k : DeviceKeyManager} {i : ℕ} {r : Rec}
    (h : Live env tick e (flat disk) recs mk) (hk : e.crypto = some k) (hr : recs[i]? = some r) :
    acceptedHash env disk e i = if accept env (flat disk) r then some r.hash else none := by
  have hentry : readEntry env disk e.wal i = .ok (r.entry i) :=
    Live.entry (d := ⟨disk, [], [], []⟩) h hr
  have hok := h.onDisk.recOk r (mem_of_getElem? hr)
  have hverify := readsBack_eq hok disk k
  have hflag : ((r.entry i).committed == 1) = r.committed := by
    change ((if r.committed then 1 else 0) == 1) = r.committed
    cases r.committed <;> rfl
  unfold acceptedHash accept
  rw [hentry, hk]
  dsimp only
  rw [r.entry_valid, hflag, Bool.true_and, ← hverify]
  rfl

lemma acceptedHashes_eq (h : OnDisk env tick (flat disk) recs mk) : acceptedHashes env disk =
    ((recs.take mk.head).filter (accept env (flat disk))).map Rec.hash := by
  have hread : readSuperblock env disk = _ := readSuperblock_eq h.capacity
  rw [h.header, if_pos (isValid_sbOf env tick mk)] at hread
  have hlen : (recs.take mk.head).length = mk.head := by
    rw [length_take, min_eq_left h.head_le]
  have hboot : Live env tick _ (flat disk) _ mk :=
    bootEngine_live h (Mem.length_read (flat disk) 112 3984)
  have hrange : acceptedHashes env disk = (List.range' 0 (recs.take mk.head).length).filterMap
      (acceptedHash env disk (bootEngine env tick mk ((flat disk).read 112 3984))) := by
    rw [hlen, ← fromSuperblock_eq h.fits]
    unfold acceptedHashes
    rw [hread]
    rfl
  rw [hrange, filterMap_range' _ _ (fun r => if accept env (flat disk) r then some r.hash else none)
    0 fun i r hr => by rw [Nat.zero_add, acceptedHash_eq hboot rfl hr],
    ← filterMap_eq_map, filterMap_filter]
  rfl

end Accepted

/-- The location belongs to a record the superblock covers, and a running engine appends
behind its block. -/
def Held (s : Sys) (recs : List Rec) (mk : Mark) (loc : BlockLocation) : Prop :=
  ∃ r ∈ recs.take mk.head, r.loc = loc ∧ ∀ e, s.engine = some e → r.endSector ≤ e.dataNextSector

/-- The call writes the first sectors of one block, in the data region and on the device; what
it writes before and after lies in front of the data region. -/
def Call.Placed (env : Env) (c : Call) : Prop :=
  ∃ start C k before after, (k = 0 ∨ C ∈ c.notes) ∧
    c.trace = before ++ (numbered start (sectorsOf sectorSize C)).take k ++ after ∧
    (∀ w ∈ (numbered start (sectorsOf sectorSize C)).take k,
      dataStartSector ≤ w.1 ∧ w.1 < env.capacity) ∧
    ∀ w ∈ before ++ after, w.1 < dataStartSector ∧ w.1 < env.capacity

/-- No call after `c` writes a sector of the block `c` acknowledged. -/
def Call.Spares (c c' : Call) : Prop :=
  ∀ res, c.result = some res → ∀ w ∈ c'.trace, ¬ res.2.Covers w.1

structure HeldInv (env : Env) (s : Sys) (recs : List Rec) (mk : Mark) : Prop where
  acked : ∀ c ∈ s.calls, ∀ res, c.result = some res → Held s recs mk res.2
  indexed : ∀ e, s.engine = some e → ∀ key loc, e.memtable.locationOf key = some loc →
    Held s recs mk loc
  spares : s.calls.Pairwise Call.Spares
  placed : ∀ c ∈ s.calls, c.Placed env

namespace HeldInv

variable {env : Env} {tick : ℕ} {s : Sys} {recs : List Rec} {mk : Mark}

lemma placed_ahead {c : Call} (h : ∀ w ∈ c.trace, w.1 < dataStartSector ∧ w.1 < env.capacity) :
    c.Placed env :=
  ⟨0, [], 0, c.trace, [], .inl rfl, by simp, by simp, by simpa using h⟩

variable {recs' : List Rec} {engine : Option Engine} {loc : BlockLocation} {calls : List Call}

lemma add (h : HeldInv env s recs mk) {disk : Disk} {call : Call} {mk' : Mark}
    (hheld : ∀ loc, Held s recs mk loc → Held ⟨disk, engine, s.calls ++ [call]⟩ recs' mk' loc)
    (hres : ∀ res, call.result = some res → Held ⟨disk, engine, s.calls ++ [call]⟩ recs' mk' res.2)
    (hidx : ∀ e, engine = some e → ∀ key loc, e.memtable.locationOf key = some loc →
      Held ⟨disk, engine, s.calls ++ [call]⟩ recs' mk' loc)
    (hspare : ∀ loc, Held s recs mk loc → ∀ w ∈ call.trace, ¬ loc.Covers w.1)
    (hplaced : call.Placed env) : HeldInv env ⟨disk, engine, s.calls ++ [call]⟩ recs' mk' := by
  refine ⟨fun c hc res hr => ?_, hidx, ?_, fun c hc => ?_⟩
  · rcases mem_append.mp hc with hc | hc
    · exact hheld _ (h.acked c hc res hr)
    · rw [mem_singleton.mp hc] at hr
      exact hres res hr
  · refine pairwise_append.mpr ⟨h.spares, pairwise_singleton _ _, ?_⟩
    intro c hc c' hc' res hr
    rw [mem_singleton.mp hc']
    exact hspare _ (h.acked c hc res hr)
  · rcases mem_append.mp hc with hc | hc
    · exact h.placed c hc
    · rw [mem_singleton.mp hc]
      exact hplaced

lemma not_covers_ahead (hok : Sys.Ok env tick s recs mk) (h : Held s recs mk loc) {i : ℕ}
    (hi : i < dataStartSector) : ¬ loc.Covers i := by
  obtain ⟨r, hr, rfl, -⟩ := h
  have := (hok.onDisk.recOk r (mem_of_mem_take hr)).start_ge
  rw [Rec.covers_iff]
  omega

lemma held_iff_of_engine {disk : Disk} {e e' : Engine} (he : s.engine = some e)
    (hdn : e.dataNextSector ≤ e'.dataNextSector) (h : Held s recs mk loc) :
    Held ⟨disk, some e', calls⟩ recs mk loc := by
  obtain ⟨r, hr, hloc, hend⟩ := h
  refine ⟨r, hr, hloc, fun e1 he1 => ?_⟩
  cases he1
  exact le_trans (hend e he) hdn

lemma wrote (h : HeldInv env s recs mk) (hok : Sys.Ok env tick s recs mk) {e e' : Engine}
    {data C : List UInt8} {fates : List Fate} {stage : Stage} {d' : Device}
    {out : Out StorageError (ContentHash × BlockLocation)} (he : s.engine = some e)
    (hw : NewWrite env tick s recs mk e data fates stage C out e' d') :
    HeldInv env (s.wrote data out e' d') (stage.recs recs (newRec env e data))
      (stage.mark mk e.nextMark) := by
  have hhead : e.nextMark.head = recs.length + 1 := by
    simp [Engine.nextMark, (hok.live e he).wal]
  have hdn : e.dataNextSector ≤ e'.dataNextSector := by
    rw [hw.effect.dataNext]
    exact Stage.start_le_dataNext stage (newRec env e data)
  have hengine : ∀ e1, (s.wrote data out e' d').engine = some e1 → e1 = e' := by
    intro e1 he1
    simp only [Sys.wrote] at he1
    split_ifs at he1
    exact (Option.some.inj he1).symm
  have hheld : ∀ loc, Held s recs mk loc → Held (s.wrote data out e' d')
      (stage.recs recs (newRec env e data)) (stage.mark mk e.nextMark) loc := by
    rintro loc ⟨r, hr, hloc, hend⟩
    refine ⟨r, Stage.mem_take hhead hr, hloc, fun e1 he1 => ?_⟩
    rw [hengine e1 he1]
    exact le_trans (hend e he) hdn
  -- the block itself, once it is acknowledged
  have hnew : ∀ res, out = .ok res → Held (s.wrote data out e' d')
      (stage.recs recs (newRec env e data)) (stage.mark mk e.nextMark)
      (newRec env e data).loc := by
    intro res hout
    obtain ⟨rfl, -, -⟩ := hw.answer.ok res hout
    refine ⟨(newRec env e data).commit, ?_, rfl, fun e1 he1 => ?_⟩
    · change _ ∈ (recs ++ [_]).take e.nextMark.head
      rw [hhead, take_of_length_le (by simp)]
      exact mem_append_right _ (mem_singleton_self _)
    · rw [hengine e1 he1, hw.effect.dataNext]
      exact le_rfl
  obtain ⟨before, after, htrace, hout, hin⟩ := hw.effect.trace
  refine h.add hheld ?_ ?_ ?_ ?_
  · intro res hres
    cases out with
    | ok r =>
      cases hres
      rw [(hw.answer.ok _ rfl).2.1]
      exact hnew _ rfl
    | err er => cases hres
    | stop => cases hres
  · intro e1 he1 key loc hloc
    rw [hengine e1 he1] at hloc
    cases out with
    | ok r =>
      rw [MemTable.locationOf_insert (hw.answer.ok r rfl).2.2] at hloc
      split_ifs at hloc
      · cases hloc
        exact hnew r rfl
      · exact hheld loc (h.indexed e he key loc hloc)
    | err er =>
      rw [hw.answer.kept (by simp)] at hloc
      exact hheld loc (h.indexed e he key loc hloc)
    | stop => cases he1
  · intro loc hloc w hw'
    change w ∈ d'.trace at hw'
    rw [htrace] at hw'
    rcases mem_append.mp hw' with hw' | hw'
    · cases hw'
    rw [append_assoc, mem_append, mem_append, or_left_comm, ← mem_append (s := before)] at hw'
    rcases hw' with hmem | hw'
    · have hfrom := (mem_numbered (mem_of_mem_take hmem)).1
      obtain ⟨r, -, rfl, hend⟩ := hloc
      have hbelow := hend e he
      change e.dataNextSector ≤ w.1 at hfrom
      rw [Rec.covers_iff]
      omega
    · exact not_covers_ahead hok hloc (hout w hw').1
  · refine ⟨_, C, _, before, after, ?_, htrace, hin, hout⟩
    rcases hw.notes with ⟨hno, -⟩ | ⟨-, hnotes⟩
    · left
      cases stage <;> simp_all [Stage.persisted, Stage.sectors]
    · right
      simp [hnotes]

lemma held_boot {acc : Rec → Bool} {disk : Disk} {r : Rec}
    (hm : Marked acc (recs.take mk.head) recs') (hr : r ∈ recs.take mk.head)
    (hend : ∀ e, engine = some e → r.endSector ≤ e.dataNextSector) :
    Held ⟨disk, engine, calls⟩ recs' mk r.loc := by
  have hlen : recs'.length ≤ mk.head := by
    rw [hm.length, length_take]
    exact min_le_left _ _
  obtain ⟨r', hr', hcase⟩ := hm.mem hr
  have hsame : r'.loc = r.loc ∧ r'.endSector = r.endSector := by
    rcases hcase with rfl | ⟨-, rfl⟩ <;> exact ⟨rfl, rfl⟩
  refine ⟨r', ?_, hsame.1, fun e he => ?_⟩
  · rwa [take_of_length_le hlen]
  · rw [hsame.2]
    exact hend e he

lemma trace_ahead {d d' : Device} (ha : Ahead env d d') (hd : d.trace = []) :
    ∀ w ∈ d'.trace, w.1 < dataStartSector ∧ w.1 < env.capacity := by
  obtain ⟨ws, hws, hlt⟩ := ha.trace
  intro w hw
  rw [hws, hd] at hw
  exact hlt w hw

lemma move (h : HeldInv env s recs mk) (hok : Sys.Ok env tick s recs mk) {a : Act}
    (hfit : BootsFit env s a) {s' : Sys} {mk' : Mark}
    (hm : Move env tick s recs mk a s' recs' mk') : HeldInv env s' recs' mk' := by
  have hnil : ∀ c : Call, c.trace = [] → c.Placed env := fun c hc =>
    placed_ahead fun w hw => by rw [hc] at hw; cases hw
  cases hm with
  | refused er he hno =>
    refine h.add (fun loc => held_iff_of_engine he le_rfl) (by simp [Out.value?]) ?_ ?_ (hnil _ rfl)
    · intro e1 he1 key loc hloc
      cases he1
      exact held_iff_of_engine he le_rfl (h.indexed _ he key loc hloc)
    · intro loc _ w hw
      cases hw
  | @found e data fates entry he hget =>
    have hhit : e.memtable.locationOf (env.sha256 data) = some entry.location := by
      simp [MemTable.locationOf, hget]
    refine h.add (fun loc => held_iff_of_engine he le_rfl) ?_ ?_ ?_ (hnil _ rfl)
    · intro res hres
      cases hres
      exact held_iff_of_engine he le_rfl (h.indexed e he _ _ hhit)
    · intro e1 he1 key loc hloc
      cases he1
      change (e.memtable.bump _).locationOf key = some loc at hloc
      rw [MemTable.locationOf_bump] at hloc
      exact held_iff_of_engine he le_rfl (h.indexed e he key loc hloc)
    · intro loc _ w hw
      cases hw
  | wrote he hw => exact h.wrote hok he hw
  | decRef he =>
    refine ⟨fun c hc res hr => held_iff_of_engine he le_rfl (h.acked c hc res hr), ?_, h.spares,
      h.placed⟩
    intro e1 he1 key loc hloc
    cases he1
    exact held_iff_of_engine he le_rfl (h.indexed _ he key loc (MemTable.locationOf_decRef hloc))
  | stopped ha hmarked hl =>
    have htr := trace_ahead ha rfl
    refine h.add ?_ (by simp) (by simp [Out.value?]) ?_ (placed_ahead htr)
    · rintro loc ⟨r, hr, rfl, -⟩
      exact held_boot hmarked hr fun e he => by cases he
    · exact fun loc hloc w hw => not_covers_ahead hok hloc (htr w hw).1
  | @booted t fates d' recs' e' ha hmarked ht hdn =>
    have htr := trace_ahead ha rfl
    -- the scan is not cut short, so the pointer is behind every record
    have hroom : (acceptedHashes env s.disk).toFinset.card ≤
        MemTable.withDefaultCapacity.capacity := hfit
    have hend : ∀ r ∈ recs.take mk.head, r.endSector ≤ e'.dataNextSector := by
      rw [hdn]
      refine (replay_complete _ ?_ hroom ?_).1
      · intro key loc hloc
        rw [MemTable.locationOf_empty] at hloc
        cases hloc
      · intro r hr hacc
        rw [mem_toFinset, acceptedHashes_eq hok.onDisk]
        exact mem_map_of_mem (mem_filter.mpr ⟨hr, hacc⟩)
    have hhold : ∀ r ∈ recs.take mk.head, Held (s.booted (.ok e') d') recs' mk r.loc :=
      fun r hr => held_boot hmarked hr fun e he => by
        cases he
        exact hend r hr
    refine h.add ?_ (by simp) ?_ ?_ (placed_ahead htr)
    · rintro loc ⟨r, hr, rfl, -⟩
      exact hhold r hr
    · intro e1 he1 key loc hloc
      cases he1
      rw [ht] at hloc
      rcases replay_origin hloc with hloc | ⟨r, hr, -, -, rfl⟩
      · rw [MemTable.locationOf_empty] at hloc
        cases hloc
      · exact hhold r hr
    · exact fun loc hloc w hw => not_covers_ahead hok hloc (htr w hw).1

lemma start {disk : Disk} (hd : readSuperblock env disk = .ok none) (tick : ℕ) :
    HeldInv env (Sys.start env tick disk) [] freshMark := by
  obtain ⟨d', hstart, ha, -⟩ := start_ok hd tick
  rw [hstart]
  have hempty : HeldInv env ⟨disk, none, []⟩ [] freshMark :=
    ⟨by simp, by simp, List.Pairwise.nil, by simp⟩
  have htr := trace_ahead ha rfl
  refine hempty.add ?_ (fun res hres => by cases hres) ?_ ?_ (placed_ahead htr)
  · rintro loc ⟨r, hr, -⟩
    cases hr
  · intro e he key loc hloc
    cases he
    cases hloc
  · rintro loc ⟨r, hr, -⟩
    cases hr

end HeldInv

/-- **Acknowledged blocks are kept.** In every run on a formatted disk in which each boot
finds no more distinct accepted hashes in the log than the index holds, whichever sector
writes fail and wherever the machine stops: no call writes a sector of a block that an
earlier `write_block` acknowledged, and the data sectors a call writes are the first
sectors of one sealed block inside the data region. -/
theorem Sys.acknowledged_kept (env : Env) {tick : ℕ} {disk : Disk}
    (hd : readSuperblock env disk = .ok none) {s : Sys}
    (h : Sys.Reaches env (BootsFit env) (Sys.start env tick disk) s) :
    s.calls.Pairwise Call.Spares ∧ ∀ c ∈ s.calls, c.Placed env := by
  obtain ⟨recs, mk, -, hinv⟩ := h.inv (HeldInv env) hd (.start hd tick)
    fun s recs mk a s' recs' mk' hok hI hfit hm _ => hI.move hok hfit hm
  exact ⟨hinv.spares, hinv.placed⟩

def bootedRun : List Act :=
  [.write [1] [], .init 0 [], .write [2] [], .write [1] [], .init 0 [], .write [3] []]

theorem Sys.acknowledged_kept_booted : ∃ s, Runs.exec (BootsFit plainEnv) (Sys.step plainEnv)
    (Sys.start plainEnv 7 blankDisk) bootedRun = some s ∧ s.calls.Pairwise Call.Spares ∧
      (s.calls.filter fun c => c.result.isSome).length = 4 := by
  obtain ⟨s, hs, hlen⟩ := (Option.any_eq_true _ _).mp
    (show ((Runs.exec (BootsFit plainEnv) (Sys.step plainEnv) (Sys.start plainEnv 7 blankDisk)
      bootedRun).any fun s => (s.calls.filter fun c => c.result.isSome).length == 4) = true by
        decide +kernel)
  exact ⟨s, hs, (Sys.acknowledged_kept plainEnv (by decide +kernel) (Runs.of_exec hs)).1,
    by simpa using hlen⟩

end Aios.Storage
