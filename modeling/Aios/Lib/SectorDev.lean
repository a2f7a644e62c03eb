import Aios.Lib.Bytes

/-!
Programs over a sector device whose writes may fail and whose machine may stop.

A device holds sectors of a fixed size. What happens to each sector write is laid out in
advance as a list of fates: it succeeds, it reports an error, or the machine stops; in the
last two cases the sector may or may not have been written. A program keeps its own state
when an operation reports an error, and loses it when the machine stops.
-/

namespace Aios.Lib

open List

/-- A sector of `n` bytes. -/
@[ext] structure Sector (n : ℕ) where
  bytes : List UInt8
  length_bytes : bytes.length = n

instance {n : ℕ} : DecidableEq (Sector n) := fun _ _ => decidable_of_iff _ Sector.ext_iff.symm

namespace Sector

variable {n : ℕ}

/-- The first `n` bytes, padded with zeros. -/
def ofBytes (n : ℕ) (l : List UInt8) : Sector n :=
  ⟨(l ++ List.replicate n 0).take n, ByteArr.length_pad n l⟩

/-- The sector with the bytes of `l` from offset `off` on. -/
def patch (s : Sector n) (off : ℕ) (l : List UInt8) : Sector n :=
  ofBytes n (s.bytes.take off ++ l ++ s.bytes.drop (off + l.length))

end Sector

/-- What happens to a sector write. -/
inductive Fate
  | ok
  | err (written : Bool)
  | stop (written : Bool)
  deriving DecidableEq, Repr

/-- How a program ends. -/
inductive Out (ε α : Type*)
  | ok (a : α)
  | err (e : ε)
  | stop
  deriving DecidableEq, Repr

def Out.value? {ε α : Type*} : Out ε α → Option α
  | ok a => some a
  | err _ => none
  | stop => none

def Out.isStop {ε α : Type*} : Out ε α → Bool
  | stop => true
  | _ => false

abbrev Disk (n : ℕ) := ℕ → Sector n

/-- Sectors with their numbers, from `start` on. -/
def numbered {n : ℕ} (start : ℕ) : List (Sector n) → List (ℕ × Sector n)
  | [] => []
  | b :: bs => (start, b) :: numbered (start + 1) bs

/-- The sectors a string is written in, the last one padded with zeros. -/
def sectorsOf (n : ℕ) (l : List UInt8) : List (Sector n) :=
  (List.range ((l.length + n - 1) / n)).map fun i => Sector.ofBytes n ((l.drop (n * i)).take n)

/-- The device: the disk, the fates of the writes to come, the writes that have reached the
disk, oldest first, and strings noted by programs, which nothing reads back. -/
structure Dev (n : ℕ) where
  disk : Disk n
  fates : List Fate
  trace : List (ℕ × Sector n)
  notes : List (List UInt8)

/-- A program with state `σ` and errors `ε`. -/
def Prog (n : ℕ) (σ ε α : Type) := σ → Dev n → Out ε α × σ × Dev n

namespace Prog

variable {n : ℕ} {σ ε α β : Type}

instance : Monad (Prog n σ ε) where
  pure a := fun s d => (.ok a, s, d)
  bind p f := fun s d =>
    match p s d with
    | (.ok a, s', d') => f a s' d'
    | (.err e, s', d') => (.err e, s', d')
    | (.stop, s', d') => (.stop, s', d')

def throw (e : ε) : Prog n σ ε α := fun s d => (.err e, s, d)

def halt : Prog n σ ε α := fun s d => (.stop, s, d)

def get : Prog n σ ε σ := fun s d => (.ok s, s, d)

def modify (f : σ → σ) : Prog n σ ε Unit := fun s d => (.ok (), f s, d)

def disk : Prog n σ ε (Disk n) := fun s d => (.ok d.disk, s, d)

def note (l : List UInt8) : Prog n σ ε Unit :=
  fun s d => (.ok (), s, { d with notes := d.notes ++ [l] })

def ofExcept : Except ε α → Prog n σ ε α
  | .ok a => pure a
  | .error e => throw e

/-- Run `p` and go on whether or not it reports an error. -/
def ignoreErr (p : Prog n σ ε Unit) : Prog n σ ε Unit := fun s d =>
  match p s d with
  | (.err _, s', d') => (.ok (), s', d')
  | r => r

/-- The device after the write of `b` to sector `i` has reached the disk. -/
def put (d : Dev n) (i : ℕ) (b : Sector n) : Dev n :=
  { d with disk := Function.update d.disk i b, trace := d.trace ++ [(i, b)] }

/-- One sector write, on a device of `cap` sectors. -/
def writeSector (cap : ℕ) (e : ε) (i : ℕ) (b : Sector n) : Prog n σ ε Unit := fun s d =>
  if i < cap then
    match d.fates with
    | [] => (.ok (), s, put d i b)
    | .ok :: fs => (.ok (), s, put { d with fates := fs } i b)
    | .err w :: fs =>
      (.err e, s, if w then put { d with fates := fs } i b else { d with fates := fs })
    | .stop w :: fs =>
      (.stop, s, if w then put { d with fates := fs } i b else { d with fates := fs })
  else (.err e, s, d)

/-- Sector writes one after the other, up to the first that does not succeed. -/
def writeAll (cap : ℕ) (e : ε) : List (ℕ × Sector n) → Prog n σ ε Unit
  | [] => pure ()
  | (i, b) :: ws => do
    writeSector cap e i b
    writeAll cap e ws

/-- The state of another program run from `t`, with its result. -/
def runFrom {τ : Type} (t : τ) (p : Prog n τ ε α) : Prog n σ ε (α × τ) := fun s d =>
  match p t d with
  | (.ok a, t', d') => (.ok (a, t'), s, d')
  | (.err e, _, d') => (.err e, s, d')
  | (.stop, _, d') => (.stop, s, d')

section Laws

variable (s : σ) (d : Dev n)

@[simp] lemma pure_run (a : α) : (pure a : Prog n σ ε α) s d = (.ok a, s, d) := rfl

lemma bind_run (p : Prog n σ ε α) (f : α → Prog n σ ε β) : (p >>= f) s d =
    match p s d with
    | (.ok a, s', d') => f a s' d'
    | (.err e, s', d') => (.err e, s', d')
    | (.stop, s', d') => (.stop, s', d') := rfl

@[simp] lemma throw_run (e : ε) : (throw e : Prog n σ ε α) s d = (.err e, s, d) := rfl

@[simp] lemma get_bind (f : σ → Prog n σ ε β) : (get >>= f) s d = f s s d := rfl

@[simp] lemma modify_bind (g : σ → σ) (f : Unit → Prog n σ ε β) :
    (modify g >>= f) s d = f () (g s) d := rfl

@[simp] lemma disk_bind (f : Disk n → Prog n σ ε β) : (disk >>= f) s d = f d.disk s d := rfl

@[simp] lemma note_bind (l : List UInt8) (f : Unit → Prog n σ ε β) :
    (note l >>= f) s d = f () s { d with notes := d.notes ++ [l] } := rfl

@[simp] lemma pure_bind_run (a : α) (f : α → Prog n σ ε β) : (pure a >>= f) s d = f a s d := rfl

@[simp] lemma throw_bind (e : ε) (f : α → Prog n σ ε β) :
    (throw e >>= f) s d = (.err e, s, d) := rfl

@[simp] lemma ofExcept_ok_bind (a : α) (f : α → Prog n σ ε β) :
    (ofExcept (.ok a) >>= f) s d = f a s d := rfl

@[simp] lemma ofExcept_error_bind (e : ε) (f : α → Prog n σ ε β) :
    (ofExcept (.error e) >>= f) s d = (.err e, s, d) := rfl

variable {s d} {s' : σ} {d' : Dev n} {p : Prog n σ ε α} {f : α → Prog n σ ε β}

lemma bind_ok {a : α} (h : p s d = (.ok a, s', d')) : (p >>= f) s d = f a s' d' := by
  rw [bind_run, h]

lemma bind_err {e : ε} (h : p s d = (.err e, s', d')) : (p >>= f) s d = (.err e, s', d') := by
  rw [bind_run, h]

lemma bind_stop (h : p s d = (.stop, s', d')) : (p >>= f) s d = (.stop, s', d') := by
  rw [bind_run, h]

variable {q : Prog n σ ε Unit}

lemma ignoreErr_ok (h : q s d = (.ok (), s', d')) : ignoreErr q s d = (.ok (), s', d') := by
  rw [ignoreErr, h]

lemma ignoreErr_err {e : ε} (h : q s d = (.err e, s', d')) :
    ignoreErr q s d = (.ok (), s', d') := by
  rw [ignoreErr, h]

lemma ignoreErr_stop (h : q s d = (.stop, s', d')) : ignoreErr q s d = (.stop, s', d') := by
  rw [ignoreErr, h]

end Laws

/-- `d'` is `d` after the writes `ws` have reached the disk. -/
structure Wrote (d d' : Dev n) (ws : List (ℕ × Sector n)) : Prop where
  disk : d'.disk = ws.foldl (fun m w => Function.update m w.1 w.2) d.disk
  trace : d'.trace = d.trace ++ ws
  notes : d'.notes = d.notes
  fates : d'.fates ⊆ d.fates

namespace Wrote

variable {d d' d'' : Dev n} {ws ws' : List (ℕ × Sector n)}

lemma refl (d : Dev n) : Wrote d d [] := ⟨rfl, by simp, rfl, fun _ h => h⟩

lemma trans (h : Wrote d d' ws) (h' : Wrote d' d'' ws') : Wrote d d'' (ws ++ ws') where
  disk := by rw [h'.disk, h.disk, foldl_append]
  trace := by rw [h'.trace, h.trace, append_assoc]
  notes := h'.notes.trans h.notes
  fates := fun _ hf => h.fates (h'.fates hf)

end Wrote

/-- No write to come reports an error. -/
def Steady (d : Dev n) : Prop := ∀ w, Fate.err w ∉ d.fates

/-- The machine does not stop at a write to come. -/
def Lasting (d : Dev n) : Prop := ∀ w, Fate.stop w ∉ d.fates

/-- A program has failed because a write reported the error `e` or the machine stopped. -/
inductive Failed (d : Dev n) (e : ε) : Out ε α → Prop
  | err (h : ¬ Steady d) : Failed d e (.err e)
  | stop (h : ¬ Lasting d) : Failed d e .stop

namespace Failed

variable {d d' : Dev n} {e : ε} {out : Out ε α}

lemma ne_ok (h : Failed d e out) (a : α) : out ≠ .ok a := by
  cases h <;> simp

lemma not_steady {er : ε} (h : Failed d e out) (hout : out = .err er) : ¬ Steady d := by
  cases h with
  | err hs => exact hs
  | stop hl => simp at hout

lemma not_lasting (h : Failed d e out) (hout : out = .stop) : ¬ Lasting d := by
  cases h with
  | err hs => simp at hout
  | stop hl => exact hl

lemma mono (h : Failed d' e out) (hf : d'.fates ⊆ d.fates) : Failed d e out := by
  cases h with
  | err hs => exact .err fun hst => hs fun w hw => hst w (hf hw)
  | stop hl => exact .stop fun hla => hl fun w hw => hla w (hf hw)

lemma bind {p : Prog n σ ε α} {f : α → Prog n σ ε β} {s s' : σ}
    (h : Failed d e out) (hp : p s d = (out, s', d')) :
    ∃ out' : Out ε β, (p >>= f) s d = (out', s', d') ∧ Failed d e out' := by
  cases h with
  | err hs => exact ⟨.err e, bind_err hp, .err hs⟩
  | stop hl => exact ⟨.stop, bind_stop hp, .stop hl⟩

end Failed

lemma writeSector_cases {cap i : ℕ} (hi : i < cap) (e : ε) (b : Sector n) (s : σ) (d : Dev n) :
    ∃ out d', writeSector cap e i b s d = (out, s, d') ∧
      ((out = .ok () ∧ Wrote d d' [(i, b)]) ∨
        (Failed d e out ∧ ∃ k ≤ 1, Wrote d d' ([(i, b)].take k) ∧
          (k = 1 → ∀ er, out = .err er → Fate.err true ∈ d.fates))) := by
  have hput : ∀ fs, fs ⊆ d.fates → Wrote d (put { d with fates := fs } i b) [(i, b)] :=
    fun fs hfs => ⟨rfl, rfl, rfl, hfs⟩
  have hskip : ∀ fs, fs ⊆ d.fates → Wrote d { d with fates := fs } [] :=
    fun fs hfs => ⟨rfl, by simp, rfl, hfs⟩
  unfold writeSector
  rw [if_pos hi]
  cases hf : d.fates with
  | nil => exact ⟨_, put d i b, rfl, .inl ⟨rfl, hput d.fates fun _ h => h⟩⟩
  | cons f fs =>
    have hsub : fs ⊆ d.fates := hf ▸ subset_cons_self f fs
    cases f with
    | ok => exact ⟨_, _, rfl, .inl ⟨rfl, hput fs hsub⟩⟩
    | err w =>
      have hfail : Failed d e (.err e : Out ε Unit) :=
        .err fun h => h w (hf ▸ mem_cons_self)
      cases w with
      | true =>
        exact ⟨_, _, rfl, .inr ⟨hfail, 1, le_rfl, hput fs hsub, fun _ _ _ => mem_cons_self⟩⟩
      | false => exact ⟨_, _, rfl, .inr ⟨hfail, 0, by omega, hskip fs hsub, by omega⟩⟩
    | stop w =>
      have hfail : Failed d e (.stop : Out ε Unit) :=
        .stop fun h => h w (hf ▸ mem_cons_self)
      cases w with
      | true =>
        exact ⟨_, _, rfl, .inr ⟨hfail, 1, le_rfl, hput fs hsub, fun _ _ her => (by cases her)⟩⟩
      | false => exact ⟨_, _, rfl, .inr ⟨hfail, 0, by omega, hskip fs hsub, by omega⟩⟩

lemma writeAll_cases {cap : ℕ} (e : ε) (ws : List (ℕ × Sector n)) (hws : ∀ w ∈ ws, w.1 < cap)
    (s : σ) (d : Dev n) :
    ∃ out d', writeAll cap e ws s d = (out, s, d') ∧
      ((out = .ok () ∧ Wrote d d' ws) ∨
        (Failed d e out ∧ ∃ k ≤ ws.length, Wrote d d' (ws.take k))) := by
  induction ws generalizing d with
  | nil => exact ⟨_, d, rfl, .inl ⟨rfl, Wrote.refl d⟩⟩
  | cons w ws ih =>
    obtain ⟨i, b⟩ := w
    obtain ⟨out1, d1, h1, ⟨rfl, hw1⟩ | ⟨hfail, k, hk, hw1, -⟩⟩ :=
      writeSector_cases (hws (i, b) mem_cons_self) e b s d
    · obtain ⟨out2, d2, h2, hcase⟩ := ih (fun w hw => hws w (mem_cons_of_mem _ hw)) d1
      refine ⟨out2, d2, (bind_ok h1).trans h2, ?_⟩
      rcases hcase with ⟨rfl, hw2⟩ | ⟨hfail, k, hk, hw2⟩
      · exact .inl ⟨rfl, hw1.trans hw2⟩
      · exact .inr ⟨hfail.mono hw1.fates, k + 1, Nat.succ_le_succ hk, hw1.trans hw2⟩
    · obtain ⟨out, hout, hfail'⟩ := hfail.bind (f := fun _ => writeAll cap e ws) h1
      refine ⟨out, d1, hout, .inr ⟨hfail', k, by simp only [length_cons]; omega, ?_⟩⟩
      have htake : ((i, b) :: ws).take k = [(i, b)].take k := by
        interval_cases k <;> simp
      rwa [htake]

end Prog

end Aios.Lib
