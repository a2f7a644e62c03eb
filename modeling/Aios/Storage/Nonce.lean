import Aios.Storage.System

/-!
No nonce is used twice on disk.

The counter is persisted before the first data sector of a block is written, so the nonces of
all sealed strings that have reached the data region lie below the persisted counter; the
engine's own counter never does. A boot goes on from the persisted counter.
-/

namespace Aios.Storage

open Aios.Lib Prog List

def Call.reached (c : Call) : List (List UInt8) :=
  c.notes.filter fun C => c.trace.any fun w =>
    decide (dataStartSector ≤ w.1) && decide (w.2 ∈ sectorsOf sectorSize C)

def Sys.reached (s : Sys) : List (List UInt8) := s.calls.flatMap Call.reached

def nonceOf (C : List UInt8) : List UInt8 := C.take 12

/-- The nonce of counter `c` on a disk formatted at `tick`. -/
def nonceAt (tick c : ℕ) : List UInt8 := DeviceKeyManager.nonce ⟨c, tick % 2 ^ 32⟩

lemma nonceAt_inj {tick c c' : ℕ} (hc : c < 2 ^ 64) (hc' : c' < 2 ^ 64)
    (h : nonceAt tick c = nonceAt tick c') : c = c' := by
  have h8 : Bytes.le 8 c = Bytes.le 8 c' := append_cancel_left h
  have := congrArg Bytes.ofLe h8
  rwa [Bytes.ofLe_le (by omega), Bytes.ofLe_le (by omega)] at this

lemma mem_numbered_snd {n start : ℕ} {bs : List (Sector n)} {w : ℕ × Sector n}
    (h : w ∈ numbered start bs) : w.2 ∈ bs := by
  induction bs generalizing start with
  | nil => simp [numbered] at h
  | cons b bs ih =>
    rcases mem_cons.mp h with rfl | h
    · exact mem_cons_self
    · exact mem_cons_of_mem _ (ih h)

structure NonceInv (tick : ℕ) (s : Sys) (mk : Mark) : Prop where
  below : ∀ C ∈ s.reached, ∃ c < mk.nonce, nonceOf C = nonceAt tick c
  nodup : (s.reached.map nonceOf).Nodup
  covers : ∀ call ∈ s.calls, ∀ w ∈ call.trace, dataStartSector ≤ w.1 →
    ∃ C ∈ call.reached, w.2 ∈ sectorsOf sectorSize C

section Step

variable {env : Env} {tick : ℕ} {s : Sys} {recs : List Rec} {mk mk' : Mark}

variable {engine : Option Engine} {call : Call} {C data : List UInt8} {disk : Disk} {e : Engine}

lemma reached_append :
    Sys.reached ⟨disk, engine, s.calls ++ [call]⟩ = s.reached ++ call.reached := by
  simp [Sys.reached]

lemma Call.reached_eq_nil (h : ∀ w ∈ call.trace, w.1 < dataStartSector) : call.reached = [] := by
  refine filter_eq_nil_iff.mpr fun C _ hC => ?_
  obtain ⟨w, hw, hcond⟩ := any_eq_true.mp hC
  have := h w hw
  simp only [Bool.and_eq_true, decide_eq_true_eq] at hcond
  omega

lemma NonceInv.quiet (h : NonceInv tick s mk) (hmk : mk.nonce ≤ mk'.nonce)
    (htrace : ∀ w ∈ call.trace, w.1 < dataStartSector) :
    NonceInv tick ⟨disk, engine, s.calls ++ [call]⟩ mk' := by
  have hnone : call.reached = [] := Call.reached_eq_nil htrace
  refine ⟨fun C hC => ?_, ?_, fun c hc w hw hge => ?_⟩
  · rw [reached_append, hnone, append_nil] at hC
    obtain ⟨c, hlt, hn⟩ := h.below C hC
    exact ⟨c, by omega, hn⟩
  · rw [reached_append, hnone, append_nil]
    exact h.nodup
  · rcases mem_append.mp hc with hc | hc
    · exact h.covers c hc w hw hge
    · rw [mem_singleton.mp hc] at hw
      have := htrace w hw
      omega

lemma Ahead.trace_lt {d d' : Device} (ha : Ahead env d d') (hd : d.trace = []) :
    ∀ w ∈ d'.trace, w.1 < dataStartSector := by
  obtain ⟨ws, hws, hlt⟩ := ha.trace
  intro w hw
  rw [hws, hd] at hw
  exact (hlt w hw).1

lemma Live.counter_lt {m : Mem} (h : Live env tick e m recs mk) : e.counter < 2 ^ 64 ∧
    mk.nonce ≤ e.counter ∧ e.crypto = some ⟨e.counter, tick % 2 ^ 32⟩ := by
  obtain ⟨c, hk, hle, hlt⟩ := h.crypto
  have hrecs := h.onDisk.recs_le
  have hc : e.counter = c := by simp [Engine.counter, hk]
  rw [hc]
  unfold walCapacity at hrecs
  exact ⟨by omega, hle, hk⟩

lemma NonceInv.add (h : NonceInv tick s mk) {c : ℕ} (hsub : call.reached.Sublist [C])
    (hC : nonceOf C = nonceAt tick c) (hle : mk.nonce ≤ c) (hc : c < 2 ^ 64)
    (hmk : mk'.nonce = c + 1)
    (hcov : ∀ w ∈ call.trace, dataStartSector ≤ w.1 → ∃ C ∈ call.reached,
      w.2 ∈ sectorsOf sectorSize C) :
    NonceInv tick ⟨disk, engine, s.calls ++ [call]⟩ mk' := by
  have hone : ∀ C' ∈ call.reached, C' = C := fun C' hC' =>
    mem_singleton.mp (hsub.subset hC')
  refine ⟨fun C' hC' => ?_, ?_, fun call' hcall w hw hge => ?_⟩
  · rw [reached_append] at hC'
    rcases mem_append.mp hC' with hC' | hC'
    · obtain ⟨c', hlt, hn⟩ := h.below C' hC'
      exact ⟨c', by omega, hn⟩
    · rw [hone C' hC']
      exact ⟨c, by omega, hC⟩
  · rw [reached_append, map_append, nodup_append]
    refine ⟨h.nodup, (hsub.map nonceOf).nodup (by simp), ?_⟩
    intro n hn n' hn' heq
    obtain ⟨C1, hC1, rfl⟩ := mem_map.mp hn
    obtain ⟨C2, hC2, rfl⟩ := mem_map.mp hn'
    obtain ⟨c', hlt, hc'⟩ := h.below C1 hC1
    rw [hc', hone C2 hC2, hC] at heq
    have := nonceAt_inj (by omega) hc heq
    omega
  · rcases mem_append.mp hcall with hcall | hcall
    · exact h.covers call' hcall w hw hge
    · rw [mem_singleton.mp hcall] at hw ⊢
      exact hcov w hw hge

lemma Sealed.nonceOf (h : Sealed env e data C) (hk : e.crypto = some ⟨e.counter, tick % 2 ^ 32⟩) :
    nonceOf C = nonceAt tick e.counter := by
  obtain ⟨k, c, hk', -, rfl⟩ := h
  rw [hk, Option.some.injEq] at hk'
  subst hk'
  exact take_left' (length_nonce _)

lemma NonceInv.wrote (h : NonceInv tick s mk) {e' : Engine} {fates : List Fate} {stage : Stage}
    {d' : Device} {out : Out StorageError (ContentHash × BlockLocation)}
    (hlive : Live env tick e (flat s.disk) recs mk)
    (hw : NewWrite env tick s recs mk e data fates stage C out e' d') :
    NonceInv tick (s.wrote data out e' d') (stage.mark mk e.nextMark) := by
  obtain ⟨hcount, hle, hk⟩ := hlive.counter_lt
  obtain ⟨ws, hws, hdat⟩ := hw.effect.trace.filter_eq
  have htrace : d'.trace = ws := hws
  by_cases hzero : stage.sectors (newRec env e data) = 0
  · -- no data sector was written
    have hmk : mk.nonce ≤ (stage.mark mk e.nextMark).nonce := by
      cases stage <;> simp only [Stage.mark, Engine.nextMark] <;> omega
    refine h.quiet hmk fun w hw' => ?_
    rw [hzero, take_zero, filter_eq_nil_iff] at hdat
    have := hdat w (htrace ▸ hw')
    simpa using this
  · have hpers : stage.persisted = true := by
      cases stage <;> simp_all [Stage.sectors, Stage.persisted]
    have hnonce : (stage.mark mk e.nextMark).nonce = e.counter + 1 := by
      cases stage <;> simp_all [Stage.persisted, Stage.mark, Engine.nextMark]
    obtain ⟨hsealed, hnotes⟩ : Sealed env e data C ∧ d'.notes = [C] :=
      hw.notes.resolve_left fun hno => by rw [hpers] at hno; exact Bool.noConfusion hno.1
    have hcov : ∀ w ∈ d'.trace, dataStartSector ≤ w.1 → w.2 ∈ sectorsOf sectorSize C := by
      intro w hw' hge
      have hmem : w ∈ ws.filter fun w => decide (dataStartSector ≤ w.1) :=
        mem_filter.mpr ⟨htrace ▸ hw', decide_eq_true hge⟩
      rw [hdat] at hmem
      exact mem_numbered_snd (mem_of_mem_take hmem)
    refine h.add (hnotes ▸ filter_sublist) (hsealed.nonceOf hk) hle hcount hnonce
      fun w hw' hge => ⟨C, mem_filter.mpr ⟨?_, ?_⟩, hcov w hw' hge⟩
    · exact hnotes ▸ mem_singleton_self C
    · refine any_eq_true.mpr ⟨w, hw', ?_⟩
      simp only [Bool.and_eq_true, decide_eq_true_eq]
      exact ⟨hge, hcov w hw' hge⟩

lemma NonceInv.move (h : NonceInv tick s mk) (hok : Sys.Ok env tick s recs mk) {a : Act} {s' : Sys}
    {recs' : List Rec} (hm : Move env tick s recs mk a s' recs' mk') : NonceInv tick s' mk' := by
  cases hm with
  | refused er he hno => exact h.quiet le_rfl (by simp [Sys.device])
  | found he hget => exact h.quiet le_rfl (by simp [Sys.device])
  | wrote he hw => exact h.wrote (hok.live _ he) hw
  | decRef he => exact ⟨h.below, h.nodup, h.covers⟩
  | stopped ha hmarked hl => exact h.quiet le_rfl (ha.trace_lt rfl)
  | booted ha hmarked ht hdn => exact h.quiet le_rfl (ha.trace_lt rfl)

end Step

lemma NonceInv.start {env : Env} {disk : Disk} (hd : readSuperblock env disk = .ok none)
    (tick : ℕ) : NonceInv tick (Sys.start env tick disk) freshMark := by
  obtain ⟨d', hstart, ha, -⟩ := start_ok hd tick
  rw [hstart]
  have hempty : NonceInv tick ⟨disk, none, []⟩ freshMark :=
    ⟨by simp [Sys.reached], by simp [Sys.reached], by simp⟩
  exact hempty.quiet le_rfl (ha.trace_lt rfl)

/-- **Nonce uniqueness.** In every run on a formatted disk, whichever writes fail and wherever
the machine stops, the sealed strings of which a sector has reached the data region carry
distinct nonces, and every sector written there is a sector of such a string. -/
theorem Sys.nonces_unique (env : Env) {tick : ℕ} {disk : Disk}
    (hd : readSuperblock env disk = .ok none) {s : Sys}
    (h : Sys.Reaches env (fun _ _ => True) (Sys.start env tick disk) s) :
    (s.reached.map nonceOf).Nodup ∧ ∀ call ∈ s.calls, ∀ w ∈ call.trace, dataStartSector ≤ w.1 →
    ∃ C ∈ call.reached, w.2 ∈ sectorsOf sectorSize C := by
  obtain ⟨recs, mk, -, hinv⟩ := h.inv (fun s _ mk => NonceInv tick s mk) hd (.start hd tick)
    fun s recs mk a s' recs' mk' hok hI _ hm _ => hI.move hok hm
  exact ⟨hinv.nodup, hinv.covers⟩

def stoppedRun : List Act :=
  [.write [1] [], .write [2] (List.replicate 9 .ok ++ [.stop true]), .init 0 [], .write [3] []]

theorem Sys.nonces_unique_stopped : ∃ s, Runs.exec (fun _ _ => True) (Sys.step plainEnv)
    (Sys.start plainEnv 7 blankDisk) stoppedRun = some s ∧ (s.reached.map nonceOf).Nodup ∧
      s.reached.length = 3 := by
  obtain ⟨s, hs, hlen⟩ := (Option.any_eq_true _ _).mp
    (show ((Runs.exec (fun _ _ => True) (Sys.step plainEnv) (Sys.start plainEnv 7 blankDisk)
      stoppedRun).any fun s => s.reached.length == 3) = true by decide +kernel)
  exact ⟨s, hs, (Sys.nonces_unique plainEnv (by decide +kernel) (Runs.of_exec hs)).1,
    by simpa using hlen⟩

end Aios.Storage
