import Aios.Lib.Runs
import Aios.Storage.RecoverSpec

/-!
A machine with one disk and the block engine.

A run consists of calls of `init`, `write_block` and `dec_ref`, each with the fates of its
sector writes; `init` may come at any time, when the machine has stopped between two calls.
The history keeps, for every call that can write, its answer, the sectors that reached the
disk and the strings it sealed.

Every step from a state whose disk and engine fit together is a `Move`, which says what
became of the records and of the mark.
-/

namespace Aios.Storage

open Aios.Lib Prog

/-- A call of `write_block`, or of `init` when `data` is `none`. -/
structure Call where
  data : Option (List UInt8)
  result : Option (ContentHash × BlockLocation)
  trace : List (ℕ × Sector sectorSize)
  notes : List (List UInt8)

structure Sys where
  disk : Disk
  engine : Option Engine
  calls : List Call

inductive Act
  | init (tick : ℕ) (fates : List Fate)
  | write (data : List UInt8) (fates : List Fate)
  | decRef (hash : ContentHash)

namespace Sys

variable (env : Env) (s : Sys)

def device (fates : List Fate) : Device := ⟨s.disk, fates, [], []⟩

def wrote (data : List UInt8) (out : Out StorageError (ContentHash × BlockLocation))
    (e : Engine) (d : Device) : Sys where
  disk := d.disk
  engine := if out.isStop then none else some e
  calls := s.calls ++ [⟨some data, out.value?, d.trace, d.notes⟩]

def booted (out : Out StorageError Engine) (d : Device) : Sys where
  disk := d.disk
  engine := out.value?
  calls := s.calls ++ [⟨none, none, d.trace, d.notes⟩]

def boot (tick : ℕ) (fates : List Fate) : Sys :=
  let r := init env tick () (s.device fates)
  s.booted r.1 r.2.2

def step : Act → Option Sys
  | .init tick fates => some (s.boot env tick fates)
  | .write data fates => s.engine.map fun e =>
    let r := writeBlock env data e (s.device fates)
    s.wrote data r.1 r.2.1 r.2.2
  | .decRef hash => s.engine.map fun e => { s with engine := some (Storage.decRef e hash).2 }

def start (tick : ℕ) (disk : Disk) : Sys := boot env ⟨disk, none, []⟩ tick []

/-- The states reached from `s` by steps that meet the guard. -/
abbrev Reaches (ok : Sys → Act → Prop) (s t : Sys) : Prop :=
  Runs (fun a i b => step env a i = some b) ok s t

end Sys

structure Sys.Ok (env : Env) (tick : ℕ) (s : Sys) (recs : List Rec) (mk : Mark) : Prop where
  onDisk : OnDisk env tick (flat s.disk) recs mk
  live : ∀ e, s.engine = some e → Live env tick e (flat s.disk) recs mk

/-- A call of `write_block` whose block was not in the index and that got to `stage`. -/
structure NewWrite (env : Env) (tick : ℕ) (s : Sys) (recs : List Rec) (mk : Mark) (e : Engine)
    (data : List UInt8) (fates : List Fate) (stage : Stage) (C : List UInt8)
    (out : Out StorageError (ContentHash × BlockLocation)) (e' : Engine) (d' : Device) :
    Prop where
  ne_nil : data ≠ []
  absent : e.memtable.get (env.sha256 data) = none
  recOk : (newRec env e data).Ok env
  effect : Effect env tick recs mk e.nextMark (newRec env e data) C (s.device fates) stage e' d'
  answer : Answer (newRec env e data) e.memtable (s.device fates) stage out e'
  grows : stage ≠ .idle → d'.trace ≠ []
  notes : (stage.persisted = false ∧ d'.notes = []) ∨ (Sealed env e data C ∧ d'.notes = [C])
  err : ∀ er, out = .err er → Steady (s.device fates) →
    (stage = .idle ∧ recs.length = walCapacity) ∨
    (stage = .logged ∧ ∀ C, ¬ Sealed env e data C) ∨
    (stage = .done ∧ ∃ er', e.memtable.insert (env.sha256 data)
      (newRec env e data).loc = .error er')

inductive Move (env : Env) (tick : ℕ) (s : Sys) (recs : List Rec) (mk : Mark) :
    Act → Sys → List Rec → Mark → Prop
  | refused {e data fates} (er : StorageError) (he : s.engine = some e)
    (hno : data = [] ∨ ¬ (newRec env e data).Ok env) :
    Move env tick s recs mk (.write data fates) (s.wrote data (.err er) e (s.device fates)) recs mk
  | found {e data fates entry} (he : s.engine = some e)
    (hget : e.memtable.get (env.sha256 data) = some entry) :
    Move env tick s recs mk (.write data fates)
      (s.wrote data (.ok (env.sha256 data, entry.location))
        (e.withTable (e.memtable.bump (env.sha256 data))) (s.device fates)) recs mk
  | wrote {e data fates stage C out e' d'} (he : s.engine = some e)
    (hw : NewWrite env tick s recs mk e data fates stage C out e' d') :
    Move env tick s recs mk (.write data fates) (s.wrote data out e' d')
      (stage.recs recs (newRec env e data)) (stage.mark mk e.nextMark)
  | decRef {e hash} (he : s.engine = some e) :
    Move env tick s recs mk (.decRef hash)
      { s with engine := some (e.withTable (e.memtable.decRef hash).2) } recs mk
  | stopped {t fates d' recs'} (ha : Ahead env (s.device fates) d')
    (hm : Marked (accept env (flat s.disk)) (recs.take mk.head) recs')
    (hl : ¬ Lasting (s.device fates) ∨ ∃ r ∈ recs.take mk.head, r.Halts) :
    Move env tick s recs mk (.init t fates) (s.booted .stop d') recs' mk
  | booted {t fates d' recs' e'} (ha : Ahead env (s.device fates) d')
    (hm : Marked (accept env (flat s.disk)) (recs.take mk.head) recs')
    (ht : e'.memtable = (replay (accept env (flat s.disk)) (recs.take mk.head)
      MemTable.withDefaultCapacity mk.dataNext).1)
    (hdn : e'.dataNextSector = (replay (accept env (flat s.disk)) (recs.take mk.head)
      MemTable.withDefaultCapacity mk.dataNext).2) :
    Move env tick s recs mk (.init t fates) (s.booted (.ok e') d') recs' mk

section Steps

variable {env : Env} {tick : ℕ} {s s' : Sys} {recs : List Rec} {mk : Mark} {a : Act}

lemma decRef_eq (e : Engine) (hash : ContentHash) :
    (decRef e hash).2 = e.withTable (e.memtable.decRef hash).2 := by
  unfold decRef MemTable.decRef
  cases e.memtable.get hash with
  | none => rfl
  | some entry =>
    by_cases hle : entry.refcount ≤ 1
    · simp only [hle, if_true]
      rfl
    · simp only [hle, if_false]
      rfl

variable {disk : Disk} {e : Engine} {calls : List Call} {data : List UInt8}

lemma Sys.Ok.of_live (h : Live env tick e (flat disk) recs mk) :
    Sys.Ok env tick ⟨disk, some e, calls⟩ recs mk :=
  ⟨h.onDisk, fun e' he => by cases he; exact h⟩

lemma Sys.Ok.of_disk (h : OnDisk env tick (flat disk) recs mk) :
    Sys.Ok env tick ⟨disk, none, calls⟩ recs mk :=
  ⟨h, fun e' he => by cases he⟩

lemma Sys.Ok.wrote {out : Out StorageError (ContentHash × BlockLocation)} {d : Device}
    (h : Live env tick e (flat d.disk) recs mk) :
    Sys.Ok env tick (s.wrote data out e d) recs mk := by
  refine ⟨h.onDisk, fun e' he => ?_⟩
  simp only [Sys.wrote] at he
  split_ifs at he
  cases he
  exact h

/-- **What a step can do.** -/
lemma move_of_step (h : Sys.Ok env tick s recs mk) (hs : Sys.step env s a = some s') :
    ∃ recs' mk', Move env tick s recs mk a s' recs' mk' ∧ Sys.Ok env tick s' recs' mk' := by
  cases a with
  | init t fates =>
    obtain ⟨out, d', recs', hrun, ha, hm, hcase⟩ :=
      init_cases (d := s.device fates) h.onDisk t
    simp only [Sys.step, Sys.boot, hrun, Option.some.injEq] at hs
    subst hs
    rcases hcase with ⟨rfl, hl, ho⟩ | ⟨e', rfl, hlive, ht, hdn⟩
    · exact ⟨recs', mk, .stopped ha hm hl, .of_disk ho⟩
    · exact ⟨recs', mk, .booted ha hm ht hdn, .of_live hlive⟩
  | write data fates =>
    obtain ⟨e, he, rfl⟩ := Option.map_eq_some_iff.mp hs
    have hlive : Live env tick e (flat (s.device fates).disk) recs mk := h.live e he
    rcases writeBlock_cases data hlive with ⟨hno, er, hrun⟩ | ⟨entry, hget, -, hrun⟩ |
      ⟨hne, hget, hok, hrun⟩
    · rw [hrun]
      exact ⟨recs, mk, .refused er he hno, .wrote hlive⟩
    · rw [hrun]
      exact ⟨recs, mk, .found he hget, .wrote (hlive.withTable _)⟩
    · obtain ⟨stage, C, out, e', d', hnew, heff, hans, hgrow, hnotes, herr, -⟩ :=
        writeNew_cases hlive hok
      rw [hrun, hnew]
      refine ⟨_, _, .wrote he ⟨hne, hget, hok, heff, hans, fun hst hnil => ?_, hnotes, herr⟩,
        .wrote heff.live⟩
      have := hgrow hst
      rw [hnil] at this
      exact Nat.not_lt_zero _ this
  | decRef hash =>
    obtain ⟨e, he, rfl⟩ := Option.map_eq_some_iff.mp hs
    rw [decRef_eq]
    exact ⟨recs, mk, .decRef he, .of_live ((h.live e he).withTable _)⟩

lemma step_write_done (hok : Sys.Ok env tick s recs mk) (he : s.engine = some e) (hne : data ≠ [])
    (hget : e.memtable.get (env.sha256 data) = none) (hrec : (newRec env e data).Ok env)
    (hroom : recs.length < walCapacity) (hseal : ∃ C, Sealed env e data C) :
    ∃ C out e' d', Sys.step env s (.write data []) = some (s.wrote data out e' d') ∧
    NewWrite env tick s recs mk e data [] .done C out e' d' ∧ out.isStop = false ∧
    Sys.Ok env tick (s.wrote data out e' d') (recs ++ [(newRec env e data).commit]) e.nextMark := by
  have hstep : ∃ s', Sys.step env s (.write data []) = some s' := by
    simp only [Sys.step, he]
    exact ⟨_, rfl⟩
  obtain ⟨s', hs'⟩ := hstep
  obtain ⟨recs', mk', hm, hok'⟩ := move_of_step hok hs'
  cases hm with
  | refused er he' hno =>
    rw [he, Option.some.injEq] at he'
    subst he'
    exact (hno.resolve_left hne hrec).elim
  | found he' hget' =>
    rw [he, Option.some.injEq] at he'
    subst he'
    rw [hget] at hget'
    cases hget'
  | @wrote _ _ _ stage C out e' d' he' hw =>
    rw [he, Option.some.injEq] at he'
    subst he'
    have hdone : stage = .done ∧ out.isStop = false := by
      cases hout : out with
      | ok res => exact ⟨(hw.answer.ok res hout).1, rfl⟩
      | stop => exact absurd (by simp [Lasting, Sys.device]) (hw.answer.stop hout)
      | err er =>
        rcases hw.err er hout (by simp [Steady, Sys.device]) with ⟨-, hfull⟩ | ⟨-, hno⟩ | ⟨hst, -⟩
        · omega
        · obtain ⟨C', hC'⟩ := hseal
          exact absurd hC' (hno C')
        · exact ⟨hst, rfl⟩
    obtain ⟨rfl, hstop⟩ := hdone
    exact ⟨C, out, e', d', hs', hw, hstop, hok'⟩

lemma start_ok (hd : readSuperblock env disk = .ok none) (tick : ℕ) :
    ∃ d', Sys.start env tick disk = Sys.booted ⟨disk, none, []⟩
        (.ok (bootEngine env tick freshMark (List.replicate 3984 0))) d' ∧
      Ahead env ⟨disk, [], [], []⟩ d' ∧ Sys.Ok env tick (Sys.start env tick disk) [] freshMark := by
  obtain ⟨d', hrun, ha, hlive⟩ := init_fresh (d := ⟨disk, [], [], []⟩) hd rfl tick
  have hstart : Sys.start env tick disk = Sys.booted ⟨disk, none, []⟩
      (.ok (bootEngine env tick freshMark (List.replicate 3984 0))) d' := by
    unfold Sys.start Sys.boot Sys.device
    rw [hrun]
  refine ⟨d', hstart, ha, ?_⟩
  rw [hstart]
  exact .of_live hlive

/-- **The rule for invariants of the machine.** What holds when the disk has been formatted
and is kept by every allowed move holds in every state of the run. -/
lemma Sys.Reaches.inv {ok : Sys → Act → Prop} (I : Sys → List Rec → Mark → Prop)
    (hd : readSuperblock env disk = .ok none) (h0 : I (Sys.start env tick disk) [] freshMark)
    (hmove : ∀ s recs mk a s' recs' mk', Sys.Ok env tick s recs mk → I s recs mk → ok s a →
      Move env tick s recs mk a s' recs' mk' → Sys.Ok env tick s' recs' mk' → I s' recs' mk')
    (h : Sys.Reaches env ok (Sys.start env tick disk) s) :
    ∃ recs mk, Sys.Ok env tick s recs mk ∧ I s recs mk := by
  obtain ⟨-, -, -, hok⟩ := start_ok hd tick
  refine Runs.inv (fun s => ∃ recs mk, Sys.Ok env tick s recs mk ∧ I s recs mk)
    ⟨[], freshMark, hok, h0⟩ ?_ h
  rintro s a s' ⟨recs, mk, hs, hI⟩ ha hstep
  obtain ⟨recs', mk', hm, hs'⟩ := move_of_step hs hstep
  exact ⟨recs', mk', hs', hmove s recs mk a s' recs' mk' hs hI ha hm hs'⟩

end Steps

/-! ### An environment to run the engine in -/

def blankDisk : Disk := fun _ => Sector.ofBytes sectorSize []

def plainEnv : Env where
  capacity := 1048576
  capacity_bytes := by decide
  sha256 := ContentHash.ofBytes
  compress := id
  decompressInto := fun l n => if l.length ≤ n then some l else none
  encrypt := fun _ p => some (p ++ List.replicate 16 1)
  decrypt := fun _ c => if c.drop (c.length - 16) = List.replicate 16 1 then
    some (c.take (c.length - 16)) else none
  encrypt_length := by
    rintro n p c ⟨⟩
    simp
  decrypt_length := by
    intro n c p h
    split_ifs at h with htag
    have hlen := congrArg List.length htag
    cases h
    simp only [List.length_drop, List.length_replicate, List.length_take] at hlen ⊢
    omega

end Aios.Storage
