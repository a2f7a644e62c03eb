import Aios.Sched.Machine

/-!
The owner stamp of a lock word and the verdict on a contended lock, `shared/src/lock.rs`.

A held word has the bit `HELD` set, then a bit for enabled interrupts, eight bits for the CPU and 54
bits of that CPU's switch generation. A free word is 0.
-/

namespace Aios.Sync

open Aios.Sched BitVec

def heldBit : BitVec 64 := 1 <<< 63
def irqsOnBit : BitVec 64 := 1 <<< 62
def cpuShift : ℕ := 54
def cpuMask : BitVec 64 := 0xFF <<< cpuShift
def genMask : BitVec 64 := (1 <<< cpuShift) - 1

/-- `OwnerStamp`, a word that is never 0. -/
structure OwnerStamp where
  word : BitVec 64
  held : word &&& heldBit ≠ 0
  deriving DecidableEq

/-! ### The bits of the constants -/

lemma getLsbD_of_fin {x : BitVec 64} {p : ℕ → Bool} (h : ∀ i : Fin 64, x.getLsbD i = p i)
    (hp : ∀ i, 64 ≤ i → p i = false) (i : ℕ) : x.getLsbD i = p i := by
  rcases Nat.lt_or_ge i 64 with hi | hi
  · exact h ⟨i, hi⟩
  · rw [getLsbD_of_ge _ _ hi, hp i hi]

@[simp] lemma getLsbD_heldBit (i : ℕ) : heldBit.getLsbD i = decide (i = 63) :=
  getLsbD_of_fin (p := fun i => decide (i = 63)) (by decide)
    (fun i hi => decide_eq_false (by omega)) i

@[simp] lemma getLsbD_irqsOnBit (i : ℕ) : irqsOnBit.getLsbD i = decide (i = 62) :=
  getLsbD_of_fin (p := fun i => decide (i = 62)) (by decide)
    (fun i hi => decide_eq_false (by omega)) i

@[simp] lemma getLsbD_cpuMask (i : ℕ) : cpuMask.getLsbD i = decide (54 ≤ i ∧ i < 62) :=
  getLsbD_of_fin (p := fun i => decide (54 ≤ i ∧ i < 62)) (by decide)
    (fun i hi => decide_eq_false (by omega)) i

@[simp] lemma getLsbD_genMask (i : ℕ) : genMask.getLsbD i = decide (i < 54) :=
  getLsbD_of_fin (p := fun i => decide (i < 54)) (by decide)
    (fun i hi => decide_eq_false (by omega)) i

namespace OwnerStamp

def pack (cpu : BitVec 8) (gen : BitVec 64) (irqsOn : Bool) : BitVec 64 :=
  heldBit ||| (if irqsOn then irqsOnBit else 0) ||| (cpu.setWidth 64 <<< cpuShift) |||
    (gen &&& genMask)

lemma pack_held (cpu : BitVec 8) (gen : BitVec 64) (irqsOn : Bool) :
    pack cpu gen irqsOn &&& heldBit ≠ 0 := by
  intro h
  have hbit := congrArg (fun x => x.getLsbD 63) h
  simp only [pack, getLsbD_and, getLsbD_or, getLsbD_heldBit, decide_true,
    Bool.true_or, Bool.and_self] at hbit
  cases hbit

def new (cpu : BitVec 8) (gen : BitVec 64) (irqsOn : Bool) : OwnerStamp :=
  ⟨pack cpu gen irqsOn, pack_held cpu gen irqsOn⟩

def fromWord (word : BitVec 64) : Option OwnerStamp :=
  if h : word &&& heldBit = 0 then none else some ⟨word, h⟩

def cpu (s : OwnerStamp) : BitVec 8 := ((s.word &&& cpuMask) >>> cpuShift).setWidth 8

def gen (s : OwnerStamp) : BitVec 64 := s.word &&& genMask

def irqsOn (s : OwnerStamp) : Bool := s.word &&& irqsOnBit != 0

def genMatches (s : OwnerStamp) (gen : BitVec 64) : Bool := s.gen == gen &&& genMask

@[simp] lemma cpu_new (c : BitVec 8) (g : BitVec 64) (b : Bool) : (new c g b).cpu = c := by
  apply eq_of_getLsbD_eq
  intro i hi
  cases b <;> simp [cpu, new, pack, cpuShift] <;> grind

@[simp] lemma gen_new (c : BitVec 8) (g : BitVec 64) (b : Bool) :
    (new c g b).gen = g &&& genMask := by
  apply eq_of_getLsbD_eq
  intro i hi
  cases b <;> simp [gen, new, pack, cpuShift] <;> grind

@[simp] lemma fromWord_word (s : OwnerStamp) : fromWord s.word = some s := by
  unfold fromWord
  rw [dif_neg s.held]

lemma word_ne_zero (s : OwnerStamp) : s.word ≠ 0 := by
  intro h
  refine s.held ?_
  rw [h]
  decide

end OwnerStamp

lemma toNat_genMask {n : ℕ} (h : n < 2 ^ 54) : (BitVec.ofNat 64 n &&& genMask).toNat = n := by
  have hmask : genMask.toNat = 2 ^ 54 - 1 := by decide
  rw [toNat_and, toNat_ofNat, hmask, Nat.and_two_pow_sub_one_eq_mod]
  omega

inductive Contention
  | free | otherCpu | otherCpuSwitched | reentry | preemptedHolder
  deriving DecidableEq, Repr

/-- `classify`; `switchGen` is the generation of a CPU at the time of the call. -/
def classify (observed : BitVec 64) (me : OwnerStamp) (switchGen : BitVec 8 → BitVec 64) :
    Contention :=
  match OwnerStamp.fromWord observed with
  | none => .free
  | some owner =>
    let now := switchGen owner.cpu
    if owner.cpu = me.cpu ∧ me.genMatches now = true then
      if owner.genMatches now then .reentry else .preemptedHolder
    else if owner.genMatches now then .otherCpu
    else .otherCpuSwitched

lemma classify_reentry {observed : BitVec 64} {me : OwnerStamp}
    {switchGen : BitVec 8 → BitVec 64} (h : classify observed me switchGen = .reentry) :
    ∃ owner, OwnerStamp.fromWord observed = some owner ∧ owner.cpu = me.cpu ∧
      owner.gen = me.gen ∧ me.gen = switchGen me.cpu &&& genMask := by
  unfold classify at h
  cases ho : OwnerStamp.fromWord observed with
  | none => rw [ho] at h; cases h
  | some owner =>
    simp only [ho] at h
    split_ifs at h with h1 h2
    obtain ⟨hcpu, hme⟩ := h1
    have hme' := beq_iff_eq.mp hme
    have ho' := beq_iff_eq.mp h2
    exact ⟨owner, rfl, hcpu, ho'.trans hme'.symm, hcpu ▸ hme'⟩

end Aios.Sync
