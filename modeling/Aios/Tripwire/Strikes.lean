import Mathlib

/-!
Two-strike confirmation and edge counting, `TwoStrike` and `EdgeCounter` of
`shared/src/tripwire.rs`.

A set of threads is a mask of 64 bits. A scan gets what it reads as arguments: the ticks once at the
gate and once for the record, since a timer may fire in between.
-/

namespace Aios.Tripwire

open Finset

def maskTids : ℕ := 64
def strikeTickAdvance : BitVec 64 := 100

def maskTest (mask : BitVec 64) (tid : ℕ) : Bool := decide (tid < maskTids) && mask.getLsbD tid

/-- `pop_lowest`: the lowest thread of the mask, and the mask without it. -/
def popLowest (mask : BitVec 64) : Option (ℕ × BitVec 64) :=
  if mask = 0 then none else some (mask.ctz.toNat, mask &&& (mask - 1))

def nibbleBits : List ℕ := [0, 1, 1, 2, 1, 2, 2, 3, 1, 2, 2, 3, 2, 3, 3, 4]

/-- The loop of `count_tids`, for `n` nibbles. -/
def countNibbles : ℕ → ℕ → ℕ
  | 0, _ => 0
  | n + 1, rest =>
    if rest = 0 then 0 else nibbleBits.getD (rest % 16) 0 + countNibbles n (rest / 16)

def countTids (mask : BitVec 64) : ℕ := countNibbles 16 mask.toNat

/-! ### Scans -/

structure StrikeResult where
  confirmed : BitVec 64
  stalled : Bool
  deriving DecidableEq

structure TwoStrike (n : ℕ) where
  armed : BitVec 64
  lastRun : ℕ → BitVec 64
  ticks : Fin n → BitVec 64

structure Call (n : ℕ) where
  flagged : BitVec 64
  ncpu : ℕ
  lastRun : ℕ → BitVec 64
  tick : Fin n → BitVec 64
  tickAfter : Fin n → BitVec 64

/-- The loop over the flagged threads, for at most `n` of them. -/
def strikeLoop (candidates : BitVec 64) (now : ℕ → BitVec 64) :
    ℕ → BitVec 64 → BitVec 64 × (ℕ → BitVec 64) → BitVec 64 × (ℕ → BitVec 64)
  | 0, _, acc => acc
  | n + 1, rest, (confirmed, snaps) =>
    match popLowest rest with
    | none => (confirmed, snaps)
    | some (tid, rest) =>
      strikeLoop candidates now n rest
        (if maskTest candidates tid && snaps tid == now tid then
            confirmed ||| ((1 : BitVec 64) <<< tid)
          else confirmed, Function.update snaps tid (now tid))

namespace TwoStrike

variable {n : ℕ}

def new : TwoStrike n := ⟨0, fun _ => 0, fun _ => 0⟩

def gates (s : TwoStrike n) (c : Call n) (cpu : Fin n) : Bool :=
  decide (c.tick cpu ≠ 0) && decide (c.tick cpu - s.ticks cpu < strikeTickAdvance)

def scan (s : TwoStrike n) (c : Call n) : StrikeResult × TwoStrike n :=
  let online := min c.ncpu n
  let candidates := c.flagged &&& s.armed
  if candidates ≠ 0 ∧
      (List.finRange n).any fun cpu => decide (cpu.val < online) && s.gates c cpu then
    (⟨0, true⟩, s)
  else
    let (confirmed, lastRun) := strikeLoop candidates c.lastRun maskTids c.flagged (0, s.lastRun)
    (⟨confirmed, false⟩, {
      armed := c.flagged
      lastRun := lastRun
      ticks := fun cpu => if cpu.val < online then c.tickAfter cpu else s.ticks cpu })

end TwoStrike

structure EdgeUpdate where
  entered : BitVec 64
  confirmed : BitVec 64

namespace EdgeUpdate

def enteredCount (u : EdgeUpdate) : ℕ := countTids u.entered

end EdgeUpdate

/-- `EdgeCounter::update`, where the counter is the set confirmed before. -/
def edgeUpdate (before confirmed : BitVec 64) : EdgeUpdate := ⟨confirmed &&& ~~~before, confirmed⟩

def edgeTotal : BitVec 64 → List (BitVec 64) → ℕ
  | _, [] => 0
  | before, confirmed :: l =>
    (edgeUpdate before confirmed).enteredCount + edgeTotal (edgeUpdate before confirmed).confirmed l

/-! ### Masks -/

lemma getLsbD_none (t : ℕ) : (0 : BitVec 64).getLsbD t = false := BitVec.getLsbD_zero

lemma lowest_split {m k : ℕ} (hk : m.testBit k = true) (hlow : ∀ i < k, m.testBit i = false) :
    ∃ q, m = 2 ^ (k + 1) * q + 2 ^ k := by
  refine ⟨m / 2 ^ (k + 1), ?_⟩
  have hmod : m % 2 ^ (k + 1) = 2 ^ k := by
    refine Nat.eq_of_testBit_eq fun i => ?_
    rw [Nat.testBit_mod_two_pow, Nat.testBit_two_pow]
    rcases Nat.lt_trichotomy i k with h | rfl | h
    · simp [hlow i h, h.ne']
    · simp [hk]
    · simp [h.ne, Nat.not_lt.mpr h]
  have := Nat.div_add_mod m (2 ^ (k + 1))
  omega

lemma getLsbD_popLowest {mask : BitVec 64} (h : mask ≠ 0) (i : ℕ) :
    (mask &&& (mask - 1)).getLsbD i = (mask.getLsbD i && decide (i ≠ mask.ctz.toNat)) := by
  obtain ⟨q, hq⟩ := lowest_split (m := mask.toNat) (k := mask.ctz.toNat)
    (by simpa [BitVec.testBit_toNat] using BitVec.getLsbD_true_ctz_of_ne_zero h)
    (fun i hi => by simpa [BitVec.testBit_toNat] using BitVec.getLsbD_false_of_lt_ctz hi)
  generalize mask.ctz.toNat = k at hq ⊢
  have hpos : 0 < 2 ^ k := Nat.two_pow_pos k
  have hsub : (mask - 1).toNat = 2 ^ (k + 1) * q + (2 ^ k - 1) := by
    rw [BitVec.toNat_sub_of_le (by rw [BitVec.le_def]; show 1 ≤ _; omega)]
    show mask.toNat - 1 = _
    omega
  have hlt : 2 ^ k < 2 ^ (k + 1) := Nat.pow_lt_pow_succ (by decide)
  rw [BitVec.getLsbD_and, ← BitVec.testBit_toNat, ← BitVec.testBit_toNat, hsub, hq,
    Nat.testBit_two_pow_mul_add _ hlt, Nat.testBit_two_pow_mul_add _ (by omega),
    Nat.testBit_two_pow_sub_one, Nat.testBit_two_pow]
  grind

lemma nibbleBits_eq (x : Fin 16) :
    nibbleBits.getD x 0 = ∑ t ∈ Finset.range 4, if (x : ℕ).testBit t then 1 else 0 := by
  revert x
  decide

lemma countNibbles_eq (n m : ℕ) :
    countNibbles n m = ∑ t ∈ Finset.range (4 * n), if m.testBit t then 1 else 0 := by
  induction n generalizing m with
  | zero => rfl
  | succ n ih =>
    unfold countNibbles
    split_ifs with h
    · simp [h]
    · rw [show 4 * (n + 1) = 4 + 4 * n by omega, sum_range_add, ih,
        nibbleBits_eq ⟨m % 16, Nat.mod_lt _ (by decide)⟩]
      congr 1
      · refine sum_congr rfl fun t ht => ?_
        have hbit : (m % 2 ^ 4).testBit t = m.testBit t := by
          rw [Nat.testBit_mod_two_pow]
          simp [mem_range.mp ht]
        exact congrArg (fun b : Bool => if b then 1 else 0) hbit
      · refine sum_congr rfl fun t _ => ?_
        rw [show m / 16 = m / 2 ^ 4 from rfl, Nat.testBit_div_two_pow, Nat.add_comm]

lemma countTids_eq (mask : BitVec 64) :
    countTids mask = ∑ t ∈ Finset.range maskTids, if mask.getLsbD t then 1 else 0 :=
  countNibbles_eq 16 mask.toNat

lemma maskTest_eq (mask : BitVec 64) (t : ℕ) : maskTest mask t = mask.getLsbD t := by
  unfold maskTest
  by_cases h : t < maskTids
  · simp [h]
  · simp [h, BitVec.getLsbD_of_ge mask t (Nat.le_of_not_lt h)]

lemma getLsbD_bit {k : ℕ} (hk : k < 64) (t : ℕ) :
    ((1 : BitVec 64) <<< k).getLsbD t = decide (t = k) := by
  rw [show (1 : BitVec 64) = 1#64 from rfl, BitVec.getLsbD_shiftLeft, BitVec.getLsbD_one]
  grind

/-- **The loop over the flagged threads.** `n` rounds are enough for the bits from `64 - n` on. -/
lemma strikeLoop_spec (candidates : BitVec 64) (now : ℕ → BitVec 64) (n : ℕ) (rest : BitVec 64)
    (confirmed : BitVec 64) (snaps : ℕ → BitVec 64) (hlow : ∀ i < 64 - n, rest.getLsbD i = false)
    (t : ℕ) : (strikeLoop candidates now n rest (confirmed, snaps)).1.getLsbD t =
    (confirmed.getLsbD t || (rest.getLsbD t && candidates.getLsbD t && snaps t == now t)) ∧
    (strikeLoop candidates now n rest (confirmed, snaps)).2 t =
    if rest.getLsbD t then now t else snaps t := by
  induction n generalizing rest confirmed snaps with
  | zero =>
    have hzero : rest.getLsbD t = false := by
      by_cases ht : t < 64
      · exact hlow t ht
      · exact BitVec.getLsbD_of_ge rest t (Nat.le_of_not_lt ht)
    simp [strikeLoop, hzero]
  | succ n ih =>
    unfold strikeLoop popLowest
    by_cases hrest : rest = 0
    · simp [hrest]
    · rw [if_neg hrest]
      have hset := BitVec.getLsbD_true_ctz_of_ne_zero hrest
      have hbelow : ∀ i < rest.ctz.toNat, rest.getLsbD i = false :=
        fun i => BitVec.getLsbD_false_of_lt_ctz
      have hpop := getLsbD_popLowest hrest
      have hlt : rest.ctz.toNat < 64 := BitVec.lt_of_getLsbD hset
      dsimp only
      generalize rest.ctz.toNat = k at *
      obtain ⟨h1, h2⟩ := ih (rest &&& (rest - 1))
        (if maskTest candidates k && snaps k == now k then confirmed ||| ((1 : BitVec 64) <<< k)
          else confirmed)
        (Function.update snaps k (now k)) fun i hi => by
          -- a set bit other than the lowest one is above it
          rw [hpop, Bool.and_eq_false_iff, decide_eq_false_iff_not, not_not]
          have hk : ¬k < 64 - (n + 1) := fun hk => by simp [hlow k hk] at hset
          rcases Nat.lt_trichotomy i k with hik | hik | hik
          · exact .inl (hbelow i hik)
          · exact .inr hik
          · omega
      refine ⟨h1.trans ?_, h2.trans ?_⟩
      · rw [hpop, maskTest_eq]
        by_cases htk : t = k
        · rw [htk, hset]
          split_ifs with hc
          · rw [BitVec.getLsbD_or, getLsbD_bit hlt]
            simp [hc]
          · simp [Bool.eq_false_iff.mpr hc]
        · rw [Function.update_of_ne htk]
          split_ifs
          · rw [BitVec.getLsbD_or, getLsbD_bit hlt]
            simp [htk]
          · simp [htk]
      · rw [hpop]
        by_cases htk : t = k
        · subst htk
          simp [hset]
        · simp [htk]

/-! ### Single scans -/

section

variable {n : ℕ} (s : TwoStrike n) (c : Call n)

lemma TwoStrike.stalled_iff : (s.scan c).1.stalled = true ↔
    (∃ t, c.flagged.getLsbD t = true ∧ s.armed.getLsbD t = true) ∧ ∃ cpu : Fin n, cpu.val < c.ncpu ∧
    c.tick cpu ≠ 0 ∧ c.tick cpu - s.ticks cpu < strikeTickAdvance := by
  have hcand : c.flagged &&& s.armed ≠ 0 ↔
      ∃ t, c.flagged.getLsbD t = true ∧ s.armed.getLsbD t = true := by
    rw [Ne, BitVec.eq_of_getLsbD_eq_iff]
    simp only [BitVec.getLsbD_and, getLsbD_none, not_forall, Bool.not_eq_false, Bool.and_eq_true]
    constructor
    · rintro ⟨t, -, ht⟩
      exact ⟨t, ht⟩
    · rintro ⟨t, ht⟩
      exact ⟨t, BitVec.lt_of_getLsbD ht.1, ht⟩
  have hgate : ((List.finRange n).any fun cpu =>
      decide (cpu.val < min c.ncpu n) && s.gates c cpu) = true ↔ ∃ cpu : Fin n,
        cpu.val < c.ncpu ∧ c.tick cpu ≠ 0 ∧ c.tick cpu - s.ticks cpu < strikeTickAdvance := by
    simp [TwoStrike.gates]
  rw [← hcand, ← hgate]
  unfold TwoStrike.scan
  dsimp only
  split_ifs with h
  · exact ⟨fun _ => h, fun _ => rfl⟩
  · exact ⟨nofun, fun h' => absurd h' h⟩

lemma TwoStrike.scan_stalled (h : (s.scan c).1.stalled = true) :
    (s.scan c).2 = s ∧ (s.scan c).1.confirmed = 0 := by
  unfold TwoStrike.scan at h ⊢
  dsimp only at h ⊢
  split_ifs at h ⊢
  · exact ⟨rfl, rfl⟩

lemma TwoStrike.scan_completed (h : (s.scan c).1.stalled = false) :
    (∀ t, (s.scan c).1.confirmed.getLsbD t = (c.flagged.getLsbD t && s.armed.getLsbD t &&
        s.lastRun t == c.lastRun t)) ∧
      (s.scan c).2.armed = c.flagged ∧
      (∀ t, (s.scan c).2.lastRun t = if c.flagged.getLsbD t then c.lastRun t else s.lastRun t) ∧
      ∀ cpu, (s.scan c).2.ticks cpu =
        if cpu.val < c.ncpu then c.tickAfter cpu else s.ticks cpu := by
  unfold TwoStrike.scan at h ⊢
  dsimp only at h ⊢
  split_ifs at h ⊢
  have hloop := strikeLoop_spec (c.flagged &&& s.armed) c.lastRun maskTids c.flagged 0 s.lastRun
    (by simp [maskTids])
  refine ⟨fun t => ?_, rfl, fun t => (hloop t).2, fun cpu => ?_⟩
  · rw [(hloop t).1]
    simp only [getLsbD_none, BitVec.getLsbD_and, Bool.false_or]
    cases c.flagged.getLsbD t <;> rfl
  · simp

end

/-! ### Sequences of scans -/

section

variable {n : ℕ}

def scanAll (calls : List (Call n)) : TwoStrike n × List (Call n × StrikeResult) :=
  calls.foldl (fun acc c => ((acc.1.scan c).2, acc.2 ++ [(c, (acc.1.scan c).1)])) (.new, [])

def completed (log : List (Call n × StrikeResult)) : List (Call n × StrikeResult) :=
  log.filter fun e => !e.2.stalled

def previous (log : List (Call n × StrikeResult)) : Option (Call n) :=
  (completed log).getLast?.map Prod.fst

def recordedTick (log : List (Call n × StrikeResult)) (cpu : Fin n) : BitVec 64 :=
  (((completed log).filter fun e => decide (cpu.val < e.1.ncpu)).getLast?.map
    fun e => e.1.tickAfter cpu).getD 0

structure Recorded (s : TwoStrike n) (log : List (Call n × StrikeResult)) : Prop where
  armed : ∀ t, s.armed.getLsbD t = true ↔ ∃ p ∈ previous log, p.flagged.getLsbD t = true
  lastRun : ∀ p ∈ previous log, ∀ t, p.flagged.getLsbD t = true → s.lastRun t = p.lastRun t
  ticks : ∀ cpu, s.ticks cpu = recordedTick log cpu

lemma recorded_scanAll (calls : List (Call n)) : Recorded (scanAll calls).1 (scanAll calls).2 := by
  induction calls using List.reverseRecOn with
  | nil => exact ⟨by simp [scanAll, TwoStrike.new, previous, completed],
      by simp [scanAll, previous, completed], fun _ => rfl⟩
  | append_singleton calls c ih =>
    have hall : scanAll (calls ++ [c]) = (((scanAll calls).1.scan c).2,
        (scanAll calls).2 ++ [(c, ((scanAll calls).1.scan c).1)]) := by
      rw [scanAll, List.foldl_append]
      rfl
    rw [hall]
    generalize (scanAll calls).1 = s at *
    generalize (scanAll calls).2 = log at *
    cases hr : (s.scan c).1.stalled with
    | true =>
      -- nothing is recorded
      have hlog : completed (log ++ [(c, (s.scan c).1)]) = completed log := by
        simp [completed, hr]
      rw [(s.scan_stalled c hr).1]
      obtain ⟨harmed, hlast, hticks⟩ := ih
      refine ⟨fun t => ?_, fun p hp => ?_, fun cpu => ?_⟩
      · rw [harmed, previous, previous, hlog]
      · rw [previous, hlog] at hp
        exact hlast p hp
      · rw [hticks, recordedTick, recordedTick, hlog]
    | false =>
      have hlog : completed (log ++ [(c, (s.scan c).1)]) =
          completed log ++ [(c, (s.scan c).1)] := by
        simp [completed, hr]
      have hprev : previous (log ++ [(c, (s.scan c).1)]) = some c := by
        simp [previous, hlog]
      obtain ⟨-, harmed, hlast, hticks⟩ := s.scan_completed c hr
      refine ⟨fun t => ?_, fun p hp t ht => ?_, fun cpu => ?_⟩
      · rw [harmed, hprev]
        simp
      · rw [hprev] at hp
        cases hp
        rw [hlast, if_pos ht]
      · rw [hticks, ih.ticks, recordedTick, recordedTick, hlog, List.filter_append]
        by_cases hon : cpu.val < c.ncpu
        · simp [hon]
        · simp [hon]

end

/-! ### Blocks -/

/-- The maximal blocks of indices below `n` with a property: their first and last indices. -/
def blocks (p : ℕ → Bool) (n : ℕ) : Finset (ℕ × ℕ) :=
  (Finset.range n ×ˢ Finset.range n).filter fun b =>
    b.1 ≤ b.2 ∧ (∀ k ∈ Finset.Icc b.1 b.2, p k) ∧ (b.1 = 0 ∨ p (b.1 - 1) = false) ∧
      (b.2 + 1 = n ∨ p (b.2 + 1) = false)

lemma exists_end (p : ℕ → Bool) {n i : ℕ} (hi : i < n) (hp : p i = true) :
    ∃ j < n, i ≤ j ∧ (∀ k ∈ Finset.Icc i j, p k) ∧ (j + 1 = n ∨ p (j + 1) = false) := by
  induction hd : n - i using Nat.strong_induction_on generalizing i with
  | _ d ih =>
    by_cases hend : i + 1 = n ∨ p (i + 1) = false
    · refine ⟨i, hi, le_rfl, fun k hk => ?_, hend⟩
      rw [Finset.Icc_self, mem_singleton] at hk
      rwa [hk]
    · rw [not_or, Bool.not_eq_false] at hend
      obtain ⟨j, hj, hij, hall, hstop⟩ :=
        ih (n - (i + 1)) (by omega) (by omega : i + 1 < n) hend.2 rfl
      refine ⟨j, hj, by omega, fun k hk => ?_, hstop⟩
      rcases (mem_Icc.mp hk).1.eq_or_lt with rfl | hlt
      · exact hp
      · exact hall k (mem_Icc.mpr ⟨hlt, (mem_Icc.mp hk).2⟩)

lemma card_blocks (p : ℕ → Bool) (n : ℕ) : (blocks p n).card =
    ∑ k ∈ Finset.range n, if p k = true ∧ (k = 0 ∨ p (k - 1) = false) then 1 else 0 := by
  rw [← card_filter]
  refine card_bij (fun b _ => b.1) (fun b hb => ?_) (fun b hb b' hb' he => ?_) fun i hi => ?_
  · simp only [blocks, mem_filter, mem_product, mem_range] at hb ⊢
    exact ⟨hb.1.1, hb.2.2.1 b.1 (left_mem_Icc.mpr hb.2.1), hb.2.2.2.1⟩
  · -- of two blocks with one start neither goes on where the other ends
    have hend : ∀ c ∈ blocks p n, ∀ d ∈ blocks p n, c.1 = d.1 → d.2 ≤ c.2 := by
      intro c hc d hd hcd
      simp only [blocks, mem_filter, mem_product, mem_range] at hc hd
      by_contra hlt
      have hp := hd.2.2.1 (c.2 + 1) (mem_Icc.mpr (by omega))
      rcases hc.2.2.2.2 with hn | hn
      · omega
      · rw [hn] at hp
        cases hp
    exact Prod.ext he (le_antisymm (hend b' hb' b hb he.symm) (hend b hb b' hb' he))
  · simp only [mem_filter, mem_range] at hi
    obtain ⟨j, hj, hij, hall, hstop⟩ := exists_end p hi.1 hi.2.1
    refine ⟨(i, j), ?_, rfl⟩
    simp only [blocks, mem_filter, mem_product, mem_range]
    exact ⟨⟨hi.1, hj⟩, hij, hall, hi.2.2, hstop⟩

/-- Does the set at index `k` have the thread? -/
def confirms (sets : List (BitVec 64)) (t k : ℕ) : Bool := (sets.getD k 0).getLsbD t

lemma confirms_cons_succ (c : BitVec 64) (sets : List (BitVec 64)) (t k : ℕ) :
    confirms (c :: sets) t (k + 1) = confirms sets t k := rfl

lemma confirms_cons_zero (c : BitVec 64) (sets : List (BitVec 64)) (t : ℕ) :
    confirms (c :: sets) t 0 = c.getLsbD t := rfl

lemma edgeTotal_eq (before : BitVec 64) (sets : List (BitVec 64)) :
    edgeTotal before sets = ∑ k ∈ Finset.range sets.length, ∑ t ∈ Finset.range maskTids,
      if confirms sets t k = true ∧ confirms (before :: sets) t k = false then 1 else 0 := by
  induction sets generalizing before with
  | nil => rfl
  | cons c sets ih =>
    have hfirst : (edgeUpdate before c).enteredCount = ∑ t ∈ Finset.range maskTids,
        if c.getLsbD t = true ∧ before.getLsbD t = false then 1 else 0 := by
      rw [edgeUpdate, EdgeUpdate.enteredCount, countTids_eq]
      refine sum_congr rfl fun t ht => ?_
      have ht : t < 64 := mem_range.mp ht
      simp [ht]
    rw [edgeTotal, hfirst, List.length_cons, sum_range_succ', add_comm]
    simp only [confirms_cons_succ, confirms_cons_zero]
    rw [show (edgeUpdate before c).confirmed = c from rfl, ih c]
    rfl

lemma edgeTotal_blocks (sets : List (BitVec 64)) : edgeTotal 0 sets =
    ∑ t ∈ Finset.range maskTids, (blocks (confirms sets t) sets.length).card := by
  rw [edgeTotal_eq, sum_comm]
  refine sum_congr rfl fun t _ => ?_
  rw [card_blocks]
  refine sum_congr rfl fun k _ => ?_
  cases k with
  | zero => simp [confirms]
  | succ k => simp [confirms]

/-! ### The theorem -/

/-- **Two strikes.** After any calls: what the next one confirms, when it stalls, and that a stall
changes nothing; and the counter counts the maximal blocks of completed calls that confirm a thread.
A CPU is measured from the last completed call at which it was online. -/
theorem two_strikes {n : ℕ} (calls : List (Call n)) (c : Call n) :
    let s := (scanAll calls).1
    let log := (scanAll calls).2
    let r := (s.scan c).1
    (∀ t, r.confirmed.getLsbD t = true ↔ r.stalled = false ∧ c.flagged.getLsbD t = true ∧
      ∃ p ∈ previous log, p.flagged.getLsbD t = true ∧ p.lastRun t = c.lastRun t) ∧
    (r.stalled = true ↔
      (∃ t, c.flagged.getLsbD t = true ∧ ∃ p ∈ previous log, p.flagged.getLsbD t = true) ∧
        ∃ cpu : Fin n, cpu.val < c.ncpu ∧ c.tick cpu ≠ 0 ∧
          c.tick cpu - recordedTick log cpu < strikeTickAdvance) ∧
    (r.stalled = true → (s.scan c).2 = s) ∧
    (let sets := (completed log).map fun e => e.2.confirmed
     edgeTotal 0 sets =
       ∑ t ∈ Finset.range maskTids, (blocks (confirms sets t) sets.length).card) := by
  intro s log r
  have h : Recorded s log := recorded_scanAll calls
  refine ⟨fun t => ?_, ?_, fun hr => (s.scan_stalled c hr).1, edgeTotal_blocks _⟩
  · cases hr : r.stalled with
    | true => simp [r, (s.scan_stalled c hr).2]
    | false =>
      rw [(s.scan_completed c hr).1 t]
      simp only [Bool.and_eq_true, beq_iff_eq, h.armed t, true_and, and_assoc]
      refine and_congr_right fun _ => ⟨?_, ?_⟩
      · rintro ⟨⟨p, hp, hf⟩, he⟩
        exact ⟨p, hp, hf, (h.lastRun p hp t hf).symm.trans he⟩
      · rintro ⟨p, hp, hf, he⟩
        exact ⟨⟨p, hp, hf⟩, (h.lastRun p hp t hf).trans he⟩
  · rw [s.stalled_iff c]
    simp only [h.armed, h.ticks]

def hotplug : Call 2 × Call 2 :=
  (⟨8, 1, fun _ => 0, fun _ => 1000, fun _ => 1000⟩,
    ⟨8, 2, fun _ => 0, fun cpu => if cpu = 0 then 1100 else 1001, fun _ => 1100⟩)

/-- The tick of the second CPU has advanced by one since the scan before, but was not recorded
there. -/
theorem hotplug_confirms :
    let s := (scanAll [hotplug.1]).1
    (previous (scanAll [hotplug.1]).2).map (fun p => (p.flagged, p.tickAfter 1)) = some (8, 1000) ∧
      hotplug.2.flagged = 8 ∧ 1 < hotplug.2.ncpu ∧ hotplug.2.tick 1 ≠ 0 ∧
      hotplug.2.tick 1 - 1000 < strikeTickAdvance ∧
      (s.scan hotplug.2).1 = ⟨8, false⟩ := by
  decide +kernel

end Aios.Tripwire
