import Aios.Storage.Block

/-!
Acknowledged blocks survive a stop of the machine.

While one engine runs and no sector write fails, every record in the log is committed, its
block lies complete below the append pointer and the superblock covers it. Wherever the
machine stops in the next write, the log then has at most one record more, of a block that
was not acknowledged; boots only set flags. So the index of any later boot has a complete
block for every hash that was acknowledged.

A boot verifies that record in a buffer much larger than the block, and panics when the heap
cannot give it; so the block the machine was stopped in must be small.
-/

namespace Aios.Storage

open Aios.Lib Prog List Option

def Written (calls : List Call) (data : List UInt8) : Prop := ∃ c ∈ calls, c.data = some data

/-- A `write_block` of this data returned `Ok`. -/
def Acked (calls : List Call) (data : List UInt8) : Prop :=
  ∃ c ∈ calls, c.data = some data ∧ c.result.isSome = true

def Call.appends (c : Call) : Bool := c.data.isSome && !c.trace.isEmpty

def appended (calls : List Call) : ℕ := (calls.filter Call.appends).length

structure Stored (env : Env) (m : Mem) (r : Rec) (data : List UInt8) : Prop where
  size : r.size = wrappedLen env data
  length : data.length < 2 ^ 32
  raw : SealedAs env data (r.raw m)

lemma Stored.load {env : Env} {m : Mem} {r : Rec} {data : List UInt8} {bufLen : ℕ}
    (hdec : ∀ n p c, env.encrypt n p = some c → env.decrypt n c = some p)
    (hlz4 : ∀ data, env.decompressInto (env.compress data) data.length = some data)
    (h : Stored env m r data) (hr : r.Ok env) (hbuf : data.length ≤ bufLen) :
    r.load env m bufLen = .ok data := by
  unfold Rec.load
  rw [openBlock_sealed hdec h.raw h.size hr.size_lt]
  exact decompress_ok hlz4 h.length hbuf

/-- What every acknowledged block can rely on: the superblock covers a committed record of its
hash, every covered record of its hash stores data with that hash, no covered record halts
recovery, and the index of a running engine points to one of them. -/
structure DurableInv (env : Env) (calls : List Call) (s : Sys) (recs : List Rec) (mk : Mark) :
    Prop where
  stored : ∀ r ∈ recs.take mk.head, ∀ data, Acked calls data → r.hash = env.sha256 data →
    ∃ data', Written calls data' ∧ env.sha256 data' = r.hash ∧ Stored env (flat s.disk) r data'
  kept : ∀ data, Acked calls data →
    ∃ r ∈ recs.take mk.head, r.committed = true ∧ r.hash = env.sha256 data
  small : ∀ r ∈ recs.take mk.head, ¬ r.Halts
  few : mk.head ≤ appended calls
  indexed : ∀ e, s.engine = some e →
    (∀ data, Acked calls data → e.memtable.locationOf (env.sha256 data) ≠ none) ∧
    ∀ key loc, e.memtable.locationOf key = some loc →
      ∃ r ∈ recs.take mk.head, r.hash = key ∧ r.loc = loc

structure Running (env : Env) (s : Sys) (e : Engine) (recs : List Rec) (mk : Mark) : Prop where
  engine : s.engine = some e
  head_eq : mk.head = recs.length
  blocks : ∀ r ∈ recs, r.committed = true ∧ r.endSector ≤ e.dataNextSector ∧
    ∃ data, Written s.calls data ∧ env.sha256 data = r.hash ∧ Stored env (flat s.disk) r data
  acked : ∀ data, Acked s.calls data → e.memtable.locationOf (env.sha256 data) ≠ none
  indexed : ∀ key loc, e.memtable.locationOf key = some loc → ∃ r ∈ recs, r.hash = key ∧ r.loc = loc
  few : recs.length ≤ appended s.calls

section Calls

variable {calls : List Call} {c : Call} {data : List UInt8}

lemma Written.add (h : Written calls data) : Written (calls ++ [c]) data := by
  obtain ⟨c', hc', hd⟩ := h
  exact ⟨c', mem_append_left _ hc', hd⟩

lemma acked_add : Acked (calls ++ [c]) data ↔
    Acked calls data ∨ (c.data = some data ∧ c.result.isSome = true) := by
  constructor
  · rintro ⟨c', hc', hcond⟩
    rcases mem_append.mp hc' with hc' | hc'
    · exact .inl ⟨c', hc', hcond⟩
    · rw [mem_singleton.mp hc'] at hcond
      exact .inr hcond
  · rintro (⟨c', hc', hcond⟩ | hcond)
    · exact ⟨c', mem_append_left _ hc', hcond⟩
    · exact ⟨c, mem_append_right _ (mem_singleton_self c), hcond⟩

lemma appended_add : appended (calls ++ [c]) = appended calls + if c.appends then 1 else 0 := by
  unfold appended
  rw [filter_append, length_append, filter_singleton]
  cases c.appends <;> rfl

lemma appended_le_add (calls : List Call) (c : Call) :
    appended calls ≤ appended (calls ++ [c]) := by
  rw [appended_add]
  exact Nat.le_add_right _ _

end Calls

section Run

variable {env : Env} {tick : ℕ} {s : Sys} {e : Engine} {recs : List Rec} {mk : Mark}

lemma Running.mem_indexed (h : Running env s e recs mk) {data : List UInt8}
    (ha : Acked s.calls data) : ∃ r ∈ recs, r.hash = env.sha256 data := by
  obtain ⟨loc, hloc⟩ := ne_none_iff_exists'.mp (h.acked data ha)
  obtain ⟨r, hr, hhash, -⟩ := h.indexed _ loc hloc
  exact ⟨r, hr, hhash⟩

lemma Running.not_halts (h : Running env s e recs mk) {r : Rec} (hr : r ∈ recs) : ¬ r.Halts :=
  fun hh => Bool.false_ne_true (hh.1.symm.trans (h.blocks r hr).1)

lemma Running.durable (h : Running env s e recs mk) : DurableInv env s.calls s recs mk := by
  have htake : recs.take mk.head = recs := by
    rw [h.head_eq, take_length]
  refine ⟨fun r hr data _ _ => ?_, fun data ha => ?_, fun r hr hh => ?_, h.head_eq ▸ h.few,
    fun e' he' => ?_⟩
  · rw [htake] at hr
    exact (h.blocks r hr).2.2
  · obtain ⟨r, hr, hhash⟩ := h.mem_indexed ha
    exact ⟨r, htake.symm ▸ hr, (h.blocks r hr).1, hhash⟩
  · rw [htake] at hr
    exact h.not_halts hr hh
  · rw [h.engine, Option.some.injEq] at he'
    subst he'
    rw [htake]
    exact ⟨h.acked, h.indexed⟩

lemma Running.quiet (h : Running env s e recs mk) {t : MemTable} {c : Call}
    (hloc : ∀ key, t.locationOf key = e.memtable.locationOf key)
    (hc : c.result.isSome = true → ∀ data, c.data = some data →
      e.memtable.locationOf (env.sha256 data) ≠ none) :
    Running env ⟨s.disk, some (e.withTable t), s.calls ++ [c]⟩ (e.withTable t) recs mk := by
  refine ⟨rfl, h.head_eq, fun r hr => ?_, fun data ha => ?_, fun key loc hk => ?_,
    le_trans h.few (appended_le_add _ _)⟩
  · obtain ⟨hcom, hend, data, hw, hrest⟩ := h.blocks r hr
    exact ⟨hcom, hend, data, hw.add, hrest⟩
  · change t.locationOf _ ≠ none
    rw [hloc]
    rcases acked_add.mp ha with ha | ⟨hd, hres⟩
    · exact h.acked data ha
    · exact hc hres data hd
  · change t.locationOf _ = some loc at hk
    rw [hloc] at hk
    exact h.indexed key loc hk

section Write

variable {data C : List UInt8} {fates : List Fate} {stage : Stage} {e' : Engine} {d' : Device}
  {out : Out StorageError (ContentHash × BlockLocation)}

lemma Running.old_stored (h : Running env s e recs mk) (hok : Sys.Ok env tick s recs mk)
    (hw : NewWrite env tick s recs mk e data fates stage C out e' d') {r : Rec} (hr : r ∈ recs) :
    ∃ data', Written (s.wrote data out e' d').calls data' ∧ env.sha256 data' = r.hash ∧
      Stored env (flat d'.disk) r data' := by
  obtain ⟨-, hend, data', hwr, hhash, hst⟩ := h.blocks r hr
  refine ⟨data', hwr.add, hhash, hst.size, hst.length, ?_⟩
  rw [raw_below (hok.onDisk.recOk r hr) hend hw.effect.bytes]
  exact hst.raw

lemma NewWrite.stored (hw : NewWrite env tick s recs mk e data fates stage C out e' d')
    (hlen : data.length < 2 ^ 32) (hst : stage = .committed ∨ stage = .done) :
    Stored env (flat d'.disk) (newRec env e data) data := by
  have hsealed : Sealed env e data C := by
    rcases hw.notes with ⟨hno, -⟩ | ⟨hsealed, -⟩
    · rcases hst with rfl | rfl <;> cases hno
    · exact hsealed
  have hsectors : stage.sectors (newRec env e data) = (newRec env e data).sectors := by
    rcases hst with rfl | rfl <;> rfl
  have hbytes := hw.effect.bytes
  rw [hsectors] at hbytes
  refine ⟨rfl, hlen, ?_⟩
  rw [raw_written hw.recOk hsealed.length hbytes]
  exact hsealed.sealedAs

section

variable (h : Running env s e recs mk) (hok : Sys.Ok env tick s recs mk)
include h hok

lemma Running.done (hw : NewWrite env tick s recs mk e data fates .done C out e' d')
    (hlen : data.length < 2 ^ 32) (hstop : out.isStop = false) :
    Running env (s.wrote data out e' d') e' (recs ++ [(newRec env e data).commit]) e.nextMark := by
  have hdn : e'.dataNextSector = (newRec env e data).endSector := hw.effect.dataNext
  have hloc : ∀ key, e'.memtable.locationOf key = e.memtable.locationOf key ∨
      (out.value?.isSome = true ∧ key = env.sha256 data ∧
        e'.memtable.locationOf key = some (newRec env e data).loc) := by
    intro key
    cases hout : out with
    | ok res =>
      rw [MemTable.locationOf_insert (hw.answer.ok res hout).2.2]
      split_ifs with hnew
      · exact .inr ⟨rfl, hnew.1, rfl⟩
      · exact .inl rfl
    | err er => exact .inl (by rw [hw.answer.kept (by simp [hout])])
    | stop => rw [hout] at hstop; cases hstop
  refine ⟨?_, ?_, fun r hr => ?_, fun data' ha => ?_, fun key loc hk => ?_, ?_⟩
  · simp [Sys.wrote, hstop]
  · simp [Engine.nextMark, (hok.live e h.engine).wal]
  · rcases mem_append.mp hr with hr | hr
    · obtain ⟨hcom, hend, -⟩ := h.blocks r hr
      refine ⟨hcom, ?_, h.old_stored hok hw hr⟩
      rw [hdn]
      exact le_trans hend (Nat.le_add_right _ _)
    · rw [mem_singleton.mp hr]
      refine ⟨rfl, hdn.ge, data, ⟨_, mem_append_right _ (mem_singleton_self _), rfl⟩, rfl, ?_⟩
      have hst := hw.stored hlen (.inr rfl)
      exact ⟨hst.size, hst.length, hst.raw⟩
  · rcases acked_add.mp ha with ha | ⟨hd, hres⟩
    · rcases hloc (env.sha256 data') with hl | ⟨-, -, hl⟩
      · rw [hl]
        exact h.acked data' ha
      · rw [hl]
        simp
    · cases hd
      cases hout : out with
      | ok res =>
        rw [MemTable.locationOf_insert (hw.answer.ok res hout).2.2,
          if_pos ⟨rfl, MemTable.locationOf_eq_none.mpr hw.absent⟩]
        simp
      | err er => rw [hout] at hres; cases hres
      | stop => rw [hout] at hstop; cases hstop
  · rcases hloc key with hl | ⟨-, rfl, hl⟩
    · rw [hl] at hk
      obtain ⟨r, hr, hcond⟩ := h.indexed key loc hk
      exact ⟨r, mem_append_left _ hr, hcond⟩
    · rw [hl, Option.some.injEq] at hk
      subst hk
      exact ⟨_, mem_append_right _ (mem_singleton_self _), rfl, rfl⟩
  · have hgrow := hw.grows (by simp)
    have happ : Call.appends ⟨some data, out.value?, d'.trace, d'.notes⟩ = true := by
      simp [Call.appends, hgrow]
    change _ ≤ appended (s.calls ++ [_])
    rw [appended_add, if_pos happ, length_append]
    exact Nat.add_le_add_right h.few 1

lemma Running.idle (hw : NewWrite env tick s recs mk e data fates .idle C out e' d')
    (hne : ∀ res, out ≠ .ok res) (hstop : out.isStop = false) :
    Running env (s.wrote data out e' d') e' recs mk := by
  have hdn : e'.dataNextSector = e.dataNextSector := hw.effect.dataNext
  have htable : e'.memtable = e.memtable := hw.answer.kept hne
  refine ⟨by simp [Sys.wrote, hstop], h.head_eq, fun r hr => ?_, fun data' ha => ?_, ?_,
    le_trans h.few (appended_le_add _ _)⟩
  · obtain ⟨hcom, hend, -⟩ := h.blocks r hr
    exact ⟨hcom, hdn ▸ hend, h.old_stored hok hw hr⟩
  · rw [htable]
    rcases acked_add.mp ha with ha | ⟨-, hres⟩
    · exact h.acked data' ha
    · cases hout : out with
      | ok res => exact absurd hout (hne res)
      | err er => rw [hout] at hres; cases hres
      | stop => rw [hout] at hres; cases hres
  · rw [htable]
    exact h.indexed

lemma Running.stopped (hw : NewWrite env tick s recs mk e data fates stage C .stop e' d')
    (hsmall : verifyBufSize (wrappedLen env data) ≤ maxAllocation) :
    DurableInv env (s.wrote data .stop e' d').calls (s.wrote data .stop e' d')
      (stage.recs recs (newRec env e data)) (stage.mark mk e.nextMark) := by
  have hhead : e.nextMark.head = recs.length + 1 := by
    simp [Engine.nextMark, (hok.live e h.engine).wal]
  have hacked : ∀ data', Acked (s.wrote data .stop e' d').calls data' → Acked s.calls data' := by
    intro data' ha
    rcases acked_add.mp ha with ha | ⟨-, hres⟩
    · exact ha
    · cases hres
  -- at most one record more, of the block being written
  have hvisible : ∀ r ∈ (stage.recs recs (newRec env e data)).take
      (stage.mark mk e.nextMark).head, r ∈ recs ∨
        (r.hash = env.sha256 data ∧ r.size = wrappedLen env data) := by
    intro r hr
    have hmem := mem_of_mem_take hr
    cases stage with
    | idle => exact .inl hmem
    | logged =>
      change r ∈ (recs ++ [_]).take mk.head at hr
      rw [h.head_eq, take_left] at hr
      exact .inl hr
    | _ =>
      rcases mem_append.mp hmem with hmem | hmem
      · exact .inl hmem
      · rw [mem_singleton.mp hmem]
        exact .inr ⟨rfl, rfl⟩
  refine ⟨fun r hr data' ha hhash => ?_, fun data' ha => ?_, fun r hr hh => ?_, ?_,
    fun e1 he1 => by cases he1⟩
  · rcases hvisible r hr with hr | ⟨hnew, -⟩
    · exact h.old_stored hok hw hr
    · rw [hnew] at hhash
      have := h.acked data' (hacked data' ha)
      rw [← hhash, Ne, MemTable.locationOf_eq_none] at this
      exact absurd hw.absent this
  · obtain ⟨r, hr, hhash⟩ := h.mem_indexed (hacked data' ha)
    refine ⟨r, Stage.mem_take hhead ?_, (h.blocks r hr).1, hhash⟩
    rwa [h.head_eq, take_length]
  · rcases hvisible r hr with hr | ⟨-, hsize⟩
    · exact h.not_halts hr hh
    · exact absurd hh.2 (not_lt.mpr (hsize ▸ hsmall))
  · have hold : recs.length ≤ appended (s.wrote data .stop e' d').calls :=
      le_trans h.few (appended_le_add _ _)
    have hnew : stage ≠ .idle → recs.length + 1 ≤ appended (s.wrote data .stop e' d').calls := by
      intro hst
      have hgrow := hw.grows hst
      have happ : Call.appends ⟨some data, none, d'.trace, d'.notes⟩ = true := by
        simp [Call.appends, hgrow]
      change _ ≤ appended (s.calls ++ [_])
      rw [appended_add]
      change _ ≤ _ + if Call.appends ⟨some data, none, d'.trace, d'.notes⟩ then 1 else 0
      rw [if_pos happ]
      exact Nat.add_le_add_right h.few 1
    cases stage with
    | idle => exact h.head_eq ▸ hold
    | logged => exact h.head_eq ▸ hold
    | _ => exact hhead ▸ hnew (by simp)

end

end Write

def Act.SteadyWrite : Act → Prop
  | .write data fates => data.length < 2 ^ 32 ∧ ∀ w, Fate.err w ∉ fates
  | _ => False

instance (a : Act) : Decidable a.SteadyWrite :=
  match a with
  | .write data fates =>
    inferInstanceAs (Decidable (data.length < 2 ^ 32 ∧ ∀ w, Fate.err w ∉ fates))
  | .init _ _ | .decRef _ => isFalse id

/-- A block in whose write the machine may stop is small enough for recovery to verify. -/
def Act.Verifiable (env : Env) : Act → Prop
  | .write data fates =>
    (∃ w, Fate.stop w ∈ fates) → verifyBufSize (wrappedLen env data) ≤ maxAllocation
  | _ => True

instance (env : Env) (a : Act) : Decidable (a.Verifiable env) :=
  match a with
  | .write data fates => inferInstanceAs (Decidable ((∃ w, Fate.stop w ∈ fates) →
      verifyBufSize (wrappedLen env data) ≤ maxAllocation))
  | .init _ _ | .decRef _ => isTrue trivial

def Act.IsInit : Act → Prop
  | .init _ _ => True
  | _ => False

instance (a : Act) : Decidable a.IsInit :=
  match a with
  | .init _ _ => isTrue trivial
  | .write _ _ | .decRef _ => isFalse id

lemma exists_sealed {m : Mem} {data : List UInt8}
    (henc : ∀ n p, p.length < 2 ^ 33 → env.encrypt n p ≠ none) (hlive : Live env tick e m recs mk)
    (hr : (newRec env e data).Ok env) : ∃ C, Sealed env e data C := by
  obtain ⟨c, hk, -, -⟩ := hlive.crypto
  have hlen : (envelope env data).length < 2 ^ 33 := by
    have : wrappedLen env data < 2 ^ 32 := hr.size_lt
    rw [length_envelope]
    omega
  obtain ⟨ct, hct⟩ := ne_none_iff_exists'.mp (henc _ _ hlen)
  exact ⟨_, _, ct, hk, hct, rfl⟩

def FirstBoot (env : Env) (s : Sys) (recs : List Rec) (mk : Mark) : Prop :=
  (∃ e, Running env s e recs mk) ∨ (s.engine = none ∧ DurableInv env s.calls s recs mk)

variable {recs' : List Rec}

lemma FirstBoot.move (henc : ∀ n p, p.length < 2 ^ 33 → env.encrypt n p ≠ none)
    (h : FirstBoot env s recs mk) (hok : Sys.Ok env tick s recs mk) {a : Act} (ha : a.SteadyWrite)
    (hv : a.Verifiable env) {s' : Sys} {mk' : Mark} (hm : Move env tick s recs mk a s' recs' mk') :
    FirstBoot env s' recs' mk' := by
  cases a with
  | init t fates => exact ha.elim
  | decRef hash => exact ha.elim
  | write data fates =>
    obtain ⟨hlen, hsteady⟩ := ha
    rcases h with ⟨e, h⟩ | ⟨hnone, -⟩
    · cases hm with
      | refused er he hno =>
        rw [h.engine, Option.some.injEq] at he
        subst he
        exact .inl ⟨_, h.quiet (t := e.memtable) (fun _ => rfl) (fun hres => by cases hres)⟩
      | @found _ _ _ entry he hget =>
        rw [h.engine, Option.some.injEq] at he
        subst he
        refine .inl ⟨_, h.quiet (fun key => MemTable.locationOf_bump _ _ key) ?_⟩
        intro _ data' hd
        cases hd
        rw [Ne, MemTable.locationOf_eq_none, hget]
        simp
      | @wrote _ _ _ stage C out e' d' he hw =>
        rw [h.engine, Option.some.injEq] at he
        subst he
        cases hout : out with
        | stop =>
          have hstop : ∃ w, Fate.stop w ∈ fates := not_forall_not.mp (hw.answer.stop hout)
          subst hout
          exact .inr ⟨rfl, h.stopped hok hw (hv hstop)⟩
        | ok res =>
          obtain ⟨rfl, -, -⟩ := hw.answer.ok res hout
          exact .inl ⟨e', hout ▸ h.done hok hw hlen (by rw [hout]; rfl)⟩
        | err er =>
          rcases hw.err er hout hsteady with ⟨rfl, hfull⟩ | ⟨rfl, hno⟩ | ⟨rfl, -⟩
          · exact .inl ⟨e', hout ▸ h.idle hok hw (by simp [hout]) (by rw [hout]; rfl)⟩
          · -- encryption does not fail
            obtain ⟨C', hC'⟩ := exists_sealed henc (hok.live e h.engine) hw.recOk
            exact absurd hC' (hno C')
          · exact .inl ⟨e', hout ▸ h.done hok hw hlen (by rw [hout]; rfl)⟩
    · cases hm <;> rename_i he _ <;> rw [hnone] at he <;> cases he

lemma Stored.congr {m m' : Mem} {r r' : Rec} {data : List UInt8} (hr : r.Ok env)
    (h : Stored env m r data) (hm : ∀ x, dataBase ≤ x → m' x = m x)
    (hcase : r' = r ∨ r' = r.commit) : Stored env m' r' data := by
  have hraw : r.raw m' = r.raw m := hr.raw_congr hm
  rcases hcase with rfl | rfl
  · exact ⟨h.size, h.length, hraw ▸ h.raw⟩
  · exact ⟨h.size, h.length, hraw ▸ h.raw⟩

lemma DurableInv.boot {calls calls' : List Call} {engine : Option Engine} {fates : List Fate}
    {d' : Device} {acc : Rec → Bool} (h : DurableInv env calls s recs mk)
    (hok : Sys.Ok env tick s recs mk) (hah : Ahead env (s.device fates) d')
    (hmarked : Marked acc (recs.take mk.head) recs')
    (hidx : ∀ e, engine = some e → (∀ data, Acked calls data →
      e.memtable.locationOf (env.sha256 data) ≠ none) ∧ ∀ key loc,
        e.memtable.locationOf key = some loc → ∃ r ∈ recs.take mk.head, r.hash = key ∧
          r.loc = loc) :
    DurableInv env calls ⟨d'.disk, engine, calls'⟩ recs' mk := by
  have htake : recs'.take mk.head = recs' := by
    refine take_of_length_le ?_
    rw [hmarked.length, length_take]
    exact min_le_left _ _
  refine ⟨fun r' hr' data ha hhash => ?_, fun data ha => ?_, fun r' hr' hh => ?_, h.few,
    fun e he => ?_⟩
  · rw [htake] at hr'
    obtain ⟨r, hr, hcase⟩ := hmarked.mem_back hr'
    replace hcase : r' = r ∨ r' = r.commit := hcase.imp_right And.right
    have hsame : r'.hash = r.hash := by rcases hcase with rfl | rfl <;> rfl
    obtain ⟨data', hw, hd, hst⟩ := h.stored r hr data ha (hsame ▸ hhash)
    exact ⟨data', hw, hd.trans hsame.symm,
      hst.congr (hok.onDisk.recOk r (mem_of_mem_take hr)) hah.mem hcase⟩
  · obtain ⟨r, hr, hcom, hhash⟩ := h.kept data ha
    obtain ⟨r', hr', hcase⟩ := hmarked.mem hr
    refine ⟨r', htake.symm ▸ hr', ?_, ?_⟩
    · rcases hcase with rfl | ⟨-, rfl⟩
      · exact hcom
      · rfl
    · rcases hcase with rfl | ⟨-, rfl⟩ <;> exact hhash
  · rw [htake] at hr'
    obtain ⟨r, hr, rfl | ⟨-, rfl⟩⟩ := hmarked.mem_back hr'
    · exact h.small r' hr hh
    · cases hh.1
  · obtain ⟨hacked, hloc⟩ := hidx e he
    refine ⟨hacked, fun key loc hk => ?_⟩
    obtain ⟨r, hr, hhash, hrloc⟩ := hloc key loc hk
    obtain ⟨r', hr', hcase⟩ := hmarked.mem hr
    refine ⟨r', htake.symm ▸ hr', ?_⟩
    rcases hcase with rfl | ⟨-, rfl⟩ <;> exact ⟨hhash, hrloc⟩

lemma FirstBoot.start {disk : Disk} (hd : readSuperblock env disk = .ok none) (tick : ℕ) :
    FirstBoot env (Sys.start env tick disk) [] freshMark := by
  obtain ⟨d', hstart, -, -⟩ := start_ok hd tick
  rw [hstart]
  refine .inl ⟨bootEngine env tick freshMark (List.replicate 3984 0), rfl, rfl, ?_, ?_, ?_,
    Nat.zero_le _⟩
  · intro r hr
    cases hr
  · rintro data ⟨c, hc, hdata, -⟩
    rw [mem_singleton.mp hc] at hdata
    cases hdata
  · intro key loc hloc
    cases hloc

lemma DurableInv.move {calls : List Call} (hcount : appended calls ≤ memtableMaxEntries)
    (h : DurableInv env calls s recs mk) (hok : Sys.Ok env tick s recs mk) {a : Act}
    (ha : a.IsInit) {s' : Sys} {mk' : Mark} (hm : Move env tick s recs mk a s' recs' mk') :
    DurableInv env calls s' recs' mk' := by
  cases hm with
  | refused er he hno => exact ha.elim
  | found he hget => exact ha.elim
  | wrote he hw => exact ha.elim
  | decRef he => exact ha.elim
  | stopped hah hmarked hl => exact h.boot hok hah hmarked fun e he => by cases he
  | @booted t fates d' recs' e' hah hmarked ht hdn =>
    -- the index has room for every record the superblock covers
    have hroom : ((recs.take mk.head).map Rec.hash).toFinset.card ≤
        MemTable.withDefaultCapacity.capacity :=
      calc ((recs.take mk.head).map Rec.hash).toFinset.card
          ≤ ((recs.take mk.head).map Rec.hash).length := toFinset_card_le _
        _ ≤ mk.head := by
          rw [length_map, length_take]
          exact min_le_left _ _
        _ ≤ appended calls := h.few
        _ ≤ memtableMaxEntries := hcount
    have hcomplete : ∀ r ∈ recs.take mk.head, accept env (flat s.disk) r = true →
        (replay (accept env (flat s.disk)) (recs.take mk.head) MemTable.withDefaultCapacity
          mk.dataNext).1.locationOf r.hash ≠ none :=
      (replay_complete mk.dataNext
        (fun key loc hloc => by rw [MemTable.locationOf_empty] at hloc; cases hloc) hroom
        (fun r hr _ => mem_toFinset.mpr (mem_map_of_mem hr))).2.2
    refine h.boot hok hah hmarked fun e he => ?_
    cases he
    rw [ht]
    refine ⟨fun data hacked => ?_, fun key loc hloc => ?_⟩
    · obtain ⟨r, hr, hcom, hhash⟩ := h.kept data hacked
      rw [← hhash]
      exact hcomplete r hr (by rw [accept, hcom, Bool.true_or])
    · rcases replay_origin hloc with hloc | ⟨r, hr, -, hhash, hrloc⟩
      · rw [MemTable.locationOf_empty] at hloc
        cases hloc
      · exact ⟨r, hr, hhash, hrloc⟩

lemma DurableInv.reads {calls : List Call} (h : DurableInv env calls s recs mk)
    (hok : Sys.Ok env tick s recs mk)
    (hdec : ∀ n p c, env.encrypt n p = some c → env.decrypt n c = some p)
    (hlz4 : ∀ data, env.decompressInto (env.compress data) data.length = some data)
    (hsha : ∀ d d', Written calls d → Written calls d' → env.sha256 d = env.sha256 d' → d = d')
    (he : s.engine = some e) {data : List UInt8} (hack : Acked calls data) {bufLen : ℕ}
    (hbuf : data.length ≤ bufLen) :
    readBlockByHash env s.disk e (env.sha256 data) bufLen = .ok data := by
  -- the index points to a record that stores the data
  obtain ⟨hacked, hindexed⟩ := h.indexed e he
  obtain ⟨loc, hloc⟩ := ne_none_iff_exists'.mp (hacked data hack)
  obtain ⟨r, hr, hhash, hrloc⟩ := hindexed _ loc hloc
  obtain ⟨data', hwritten, hsame, hst⟩ := h.stored r hr data hack hhash
  obtain ⟨c, hc, hcdata, -⟩ := hack
  have hdata : data' = data := hsha data' data hwritten ⟨c, hc, hcdata⟩ (hsame.trans hhash)
  subst hdata
  have hrok := hok.onDisk.recOk r (mem_of_mem_take hr)
  rw [readBlockByHash_eq (hok.live e he) hrok (hrloc ▸ hloc)]
  exact hst.load hdec hlz4 hrok hbuf

lemma DurableInv.boots {calls : List Call} (h : DurableInv env calls s recs mk)
    (hok : Sys.Ok env tick s recs mk) (t : ℕ) {fates : List Fate}
    (hlast : ∀ w, Fate.stop w ∉ fates) : ∃ e, (s.boot env t fates).engine = some e := by
  have hstep : Sys.step env s (.init t fates) = some (s.boot env t fates) := rfl
  obtain ⟨recs', mk', hm, -⟩ := move_of_step hok hstep
  generalize s.boot env t fates = s' at hm
  cases hm with
  | stopped ha hmarked hl =>
    obtain ⟨r, hr, hh⟩ := hl.resolve_left (not_not_intro hlast)
    exact absurd hh (h.small r hr)
  | booted ha hmarked ht hdn => exact ⟨_, rfl⟩

end Run

/-- **Crash durability.** A disk is formatted, data is written in one boot with sector writes
that do not fail, the machine stops anywhere in the last call and is booted any number of
times, stopping again. Then a boot that is not stopped completes, and every data whose
`write_block` returned `Ok` is read back by its hash, provided no more entries were appended
to the log than the index holds and the block whose write was stopped is small enough to be
verified. AES-GCM is taken to encrypt any envelope and to decrypt what it encrypted, LZ4 to
restore what it compressed, and SHA-256 to tell the written data apart. -/
theorem Sys.acknowledged_durable (env : Env)
    (henc : ∀ n p, p.length < 2 ^ 33 → env.encrypt n p ≠ none)
    (hdec : ∀ n p c, env.encrypt n p = some c → env.decrypt n c = some p)
    (hlz4 : ∀ data, env.decompressInto (env.compress data) data.length = some data)
    {tick : ℕ} {disk : Disk} (hd : readSuperblock env disk = .ok none) {s₁ s₂ : Sys}
    (h₁ : Sys.Reaches env (fun _ a => a.SteadyWrite ∧ a.Verifiable env)
      (Sys.start env tick disk) s₁)
    (h₂ : Sys.Reaches env (fun _ a => a.IsInit) s₁ s₂)
    (hsha : ∀ d d', Written s₁.calls d → Written s₁.calls d' →
      env.sha256 d = env.sha256 d' → d = d')
    (hcount : appended s₁.calls ≤ memtableMaxEntries) :
    (∀ t fates, (∀ w, Fate.stop w ∉ fates) → ∃ e, (s₂.boot env t fates).engine = some e) ∧
    ∀ e, s₂.engine = some e → ∀ data, Acked s₁.calls data → ∀ bufLen, data.length ≤ bufLen →
      readBlockByHash env s₂.disk e (env.sha256 data) bufLen = .ok data := by
  obtain ⟨recs₁, mk₁, hok₁, hfirst⟩ := h₁.inv (FirstBoot env) hd (.start hd tick)
    fun s recs mk a s' recs' mk' hok hI ha hm _ => hI.move henc hok ha.1 ha.2 hm
  have hdur₁ : DurableInv env s₁.calls s₁ recs₁ mk₁ := by
    rcases hfirst with ⟨e₁, hrunning⟩ | ⟨-, hdur⟩
    · exact hrunning.durable
    · exact hdur
  obtain ⟨recs, mk, hok, hdur⟩ := Runs.inv
    (fun s => ∃ recs mk, Sys.Ok env tick s recs mk ∧ DurableInv env s₁.calls s recs mk)
    ⟨recs₁, mk₁, hok₁, hdur₁⟩ (by
      rintro s a s' ⟨recs, mk, hs, hI⟩ ha hstep
      obtain ⟨recs', mk', hm, hs'⟩ := move_of_step hs hstep
      exact ⟨recs', mk', hs', hI.move hcount hs ha hm⟩) h₂
  exact ⟨fun t fates => hdur.boots hok t, fun e he data hack bufLen hbuf =>
    hdur.reads hok hdec hlz4 hsha he hack hbuf⟩

def stoppedWrites : List Act := [.write [1] [], .write [2] (List.replicate 9 .ok ++ [.stop true])]

def stoppedBoots : List Act := [.init 9 [.stop true], .init 9 []]

theorem Sys.acknowledged_durable_stopped : ∃ s₁ s₂ e,
    Runs.exec (fun _ a => a.SteadyWrite ∧ a.Verifiable plainEnv) (Sys.step plainEnv)
      (Sys.start plainEnv 7 blankDisk) stoppedWrites = some s₁ ∧
    Runs.exec (fun _ a => a.IsInit) (Sys.step plainEnv) s₁ stoppedBoots = some s₂ ∧
    s₂.engine = some e ∧ readBlockByHash plainEnv s₂.disk e (plainEnv.sha256 [1]) 1 = .ok [1] := by
  obtain ⟨s₁, hs₁, h⟩ := (any_eq_true _ _).mp
    (show ((Runs.exec (fun _ a => a.SteadyWrite ∧ a.Verifiable plainEnv) (Sys.step plainEnv)
      (Sys.start plainEnv 7 blankDisk) stoppedWrites).any fun s₁ =>
        s₁.calls.filterMap (·.data) = [[1], [2]] ∧
        (∃ c ∈ s₁.calls, c.data = some [1] ∧ c.result.isSome = true) ∧ appended s₁.calls = 2 ∧
        ((Runs.exec (fun _ a => a.IsInit) (Sys.step plainEnv) s₁ stoppedBoots).any fun s₂ =>
          s₂.engine.isSome) = true) = true by decide +kernel)
  obtain ⟨hdata, hack, happ, h⟩ := of_decide_eq_true h
  obtain ⟨s₂, hs₂, h⟩ := (any_eq_true _ _).mp h
  obtain ⟨e, he⟩ := isSome_iff_exists.mp h
  have hsha : ∀ d d', Written s₁.calls d → Written s₁.calls d' →
      plainEnv.sha256 d = plainEnv.sha256 d' → d = d' := by
    intro d d' hd hd' heq
    have hmem : ∀ {d}, Written s₁.calls d → d = [1] ∨ d = [2] := fun ⟨c, hc, hd⟩ => by
      simpa [hdata] using mem_filterMap.mpr ⟨c, hc, hd⟩
    rcases hmem hd with rfl | rfl <;> rcases hmem hd' with rfl | rfl
    · rfl
    · exact absurd heq (by decide +kernel)
    · exact absurd heq (by decide +kernel)
    · rfl
  refine ⟨s₁, s₂, e, hs₁, hs₂, he, (Sys.acknowledged_durable plainEnv ?_ plainEnv_decrypt ?_
    (by decide +kernel) (Runs.of_exec hs₁) (Runs.of_exec hs₂) hsha ?_).2 e he [1] hack 1
    (le_refl 1)⟩
  · intro n p _ hp
    cases hp
  · intro data
    simp [plainEnv]
  · rw [happ]
    decide

def hugeWrites : List Act :=
  [.write [1] [], .write (List.replicate 17000 0) (List.replicate 9 .ok ++ [.stop false])]

lemma boot_halts {env : Env} {tick : ℕ} {s : Sys} {recs : List Rec} {mk : Mark} {r₀ r₁ : Rec}
    (hok : Sys.Ok env tick s recs mk) (hrecs : recs.take mk.head = [r₀, r₁])
    (hc : r₀.committed = true) (hh : r₁.Halts) (t : ℕ) (fates : List Fate) :
    (s.boot env t fates).disk = s.disk ∧ (s.boot env t fates).engine = none := by
  obtain ⟨pad, hp, hinit⟩ := init_eq (d := s.device fates) hok.onDisk t
  have hlive : Live env tick _ (flat (s.device fates).disk) _ mk := bootEngine_live hok.onDisk hp
  rw [hrecs] at hlive
  have hhead : mk.head = 2 := by
    have := congrArg List.length hrecs
    rwa [length_take, min_eq_left hok.onDisk.head_le] at this
  have hloop : recoverLoop env [0, 1] 0 mk.dataNext (bootEngine env tick mk pad)
      (s.device fates) = (.stop, (bootEngine env tick mk pad).withTable
        { MemTable.withDefaultCapacity with
          entries := MemTable.withDefaultCapacity.entries.insert r₀.hash ⟨r₀.loc, 1⟩ },
        s.device fates) := by
    have hno : ¬ r₀.Halts := fun hh => Bool.false_ne_true (hh.1.symm.trans hc)
    have hacc : accept env (flat (s.device fates).disk) r₀ = true := by
      rw [accept, hc, Bool.true_or]
    rw [recoverLoop_cons hlive rfl rfl, if_neg hno, if_pos hacc, hc]
    exact (recoverLoop_cons (hlive.withTable _) rfl rfl _ _ _).trans (if_pos hh)
  have hrec : recover env (bootEngine env tick mk pad) (s.device fates) =
      (recoverLoop env (List.range' 0 mk.head) 0 mk.dataNext >>= fun p =>
        Prog.modify (Engine.atLeast p.2) >>= fun _ => pure p.1) (bootEngine env tick mk pad)
          (s.device fates) := rfl
  rw [hhead, show List.range' 0 2 = [0, 1] from rfl, bind_stop hloop] at hrec
  unfold Sys.boot
  rw [hinit, bind_run, Prog.runFrom, hrec]
  exact ⟨rfl, rfl⟩

/-- **A block that was not acknowledged keeps the machine from booting.** The machine is
stopped between the superblock and the first data sector of a block of 17000 bytes; the
buffer to verify it exceeds the heap, so no boot completes and the acknowledged block before
it cannot be read any more. -/
theorem Sys.acknowledged_unreadable : ∃ s₁,
    Runs.exec (fun _ a => a.SteadyWrite) (Sys.step plainEnv) (Sys.start plainEnv 7 blankDisk)
      hugeWrites = some s₁ ∧
    Acked s₁.calls [1] ∧ appended s₁.calls = 2 ∧
    ∀ s₂, Sys.Reaches plainEnv (fun _ a => a.IsInit) s₁ s₂ → s₂.engine = none := by
  obtain ⟨s₁, hs₁, h⟩ := (any_eq_true _ _).mp
    (show ((Runs.exec (fun _ a => a.SteadyWrite) (Sys.step plainEnv)
      (Sys.start plainEnv 7 blankDisk) hugeWrites).any fun s₁ =>
        (∃ c ∈ s₁.calls, c.data = some [1] ∧ c.result.isSome = true) ∧ appended s₁.calls = 2 ∧
        s₁.engine.isNone = true ∧ (header (flat s₁.disk)).walHead = 2 ∧
        (entryAt (flat s₁.disk) 0).committed = 1 ∧ (entryAt (flat s₁.disk) 1).committed = 0 ∧
        (entryAt (flat s₁.disk) 1).dataSize = 17005) = true by decide +kernel)
  obtain ⟨hack, happ, hnone, hhead, hc₀, hc₁, hsize⟩ := of_decide_eq_true h
  obtain ⟨recs, mk, hok, -⟩ := Sys.Reaches.inv (fun _ _ _ => True) (by decide +kernel) trivial
    (fun _ _ _ _ _ _ _ _ _ _ _ _ => trivial) (Runs.of_exec hs₁)
  have hhead' : mk.head = 2 := by
    rw [hok.onDisk.header] at hhead
    exact hhead
  obtain ⟨r₀, r₁, hrecs⟩ : ∃ r₀ r₁, recs.take mk.head = [r₀, r₁] := by
    refine length_eq_two.mp ?_
    rw [length_take, min_eq_left hok.onDisk.head_le, hhead']
  have hget : ∀ i < 2, recs[i]? = [r₀, r₁][i]? := fun i hi => by
    rw [← hrecs, hhead', getElem?_take_of_lt hi]
  rw [hok.onDisk.logged 0 r₀ (hget 0 Nat.zero_lt_two)] at hc₀
  rw [hok.onDisk.logged 1 r₁ (hget 1 Nat.one_lt_two)] at hc₁ hsize
  have hcom : r₀.committed = true := by
    change (if r₀.committed then 1 else 0) = 1 at hc₀
    by_contra hno
    rw [if_neg hno] at hc₀
    cases hc₀
  have hhalts : r₁.Halts := by
    change (if r₁.committed then 1 else 0) = 0 at hc₁
    change r₁.size = 17005 at hsize
    refine ⟨?_, by rw [hsize]; decide⟩
    by_contra hno
    rw [if_pos (Bool.eq_true_of_not_eq_false hno)] at hc₁
    cases hc₁
  refine ⟨s₁, hs₁, hack, happ, fun s₂ hrun => ?_⟩
  -- no boot writes anything, so the next one finds the same disk
  refine (Runs.inv (fun s => s.disk = s₁.disk ∧ s.engine = none)
    ⟨rfl, isNone_iff_eq_none.mp hnone⟩ ?_ hrun).2
  rintro s a s' ⟨hdisk, -⟩ ha hstep
  cases a with
  | write data fates => exact ha.elim
  | decRef hash => exact ha.elim
  | init t fates =>
    cases hstep
    have hok' : Sys.Ok plainEnv 7 ⟨s.disk, none, s.calls⟩ recs mk := .of_disk (hdisk ▸ hok.onDisk)
    obtain ⟨hd, hn⟩ := boot_halts hok' hrecs hcom hhalts t fates
    exact ⟨hd.trans hdisk, hn⟩

end Aios.Storage
