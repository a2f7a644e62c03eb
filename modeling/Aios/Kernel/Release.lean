import Aios.Kernel.Owned

/-!
What the exit of a process gives back.

`process_exit` drops the process's mappings, and with the last mapping a region goes. A region that
nobody maps and the private allocations are not looked at.
-/

namespace Aios

open Aios.Lib Aios.Ipc Option Function

namespace Ipc.SharedMemoryRegion

variable {r r' : SharedMemoryRegion} {i : ℕ} {pid : ProcessId}

def Mapped (r : SharedMemoryRegion) : Prop := ∃ j a, r.mappings j = some a

def MappedByOther (r : SharedMemoryRegion) (pid : ProcessId) : Prop :=
  ∃ j a, r.mappings j = some a ∧ a.pid ≠ pid

lemma Ok.drop_cases (hr : r.Ok i) (pid : ProcessId) :
    (r.dropMapping pid = none ∧ ∀ j a, r.mappings j = some a → a.pid ≠ pid) ∨
    (r.dropMapping pid = some none ∧ r.Mapped ∧ ¬ r.MappedByOther pid) ∨
    ∃ r', r.dropMapping pid = some (some r') ∧ r.MappedByOther pid ∧
      ∀ j a, r'.mappings j = some a → a.pid ≠ pid := by
  cases hm : r.mappingOf pid with
  | none =>
    refine .inl ⟨?_, fun j a ha => mappingOf_none hm ha⟩
    rw [SharedMemoryRegion.dropMapping, hm, map_none]
  | some k =>
    obtain ⟨b, hb, hpid⟩ := mappingOf_some hm
    -- the process has this mapping only
    have hother : ∀ j a, j ≠ k → r.mappings j = some a → a.pid ≠ pid :=
      fun j a hjk ha hp => hjk (hr.once j k a b ha hb (hp.trans hpid.symm))
    have hcard := Slots.card_update (fun _ => true) r.mappings k none
    simp only [hb, any_none, any_some, Bool.false_eq_true, if_false, if_true, add_zero] at hcard
    have hcount := hr.count
    have hpos : (r.clearMapping k).refCount ≠ 0 := by
      change r.refCount ≠ 0
      omega
    have hcount' : (r.clearMapping k).refCount = r.refCount := rfl
    by_cases hlast : (r.clearMapping k).refCount = 1
    · refine .inr (.inl ⟨?_, ⟨k, b, hb⟩, ?_⟩)
      · rw [SharedMemoryRegion.dropMapping, hm, map_some, if_neg hpos, if_pos hlast]
      · rintro ⟨j, a, ha, hne⟩
        have hjk : j ≠ k := by
          rintro rfl
          rw [hb] at ha
          cases ha
          exact hne hpid
        have hj : update r.mappings k none j = some a := by
          rw [update_of_ne hjk, ha]
        have hzero := Slots.card_update (fun _ => true) (update r.mappings k none) j none
        simp only [hj, any_none, any_some, Bool.false_eq_true, if_false, if_true, add_zero] at hzero
        omega
    · refine .inr (.inr ⟨{ r.clearMapping k with refCount := (r.clearMapping k).refCount - 1 },
        ?_, ?_, ?_⟩)
      · rw [SharedMemoryRegion.dropMapping, hm, map_some, if_neg hpos, if_neg hlast]
      · by_contra hnone
        have hempty : update r.mappings k none = Slots.empty := by
          funext j
          by_cases hjk : j = k
          · rw [hjk, update_self]
            rfl
          · rw [update_of_ne hjk]
            cases hj : r.mappings j with
            | none => rfl
            | some a => exact absurd ⟨j, a, hj, hother j a hjk hj⟩ hnone
        rw [hempty, Slots.card_empty] at hcard
        omega
      · intro j a ha
        rcases Slots.update_eq_some.mp ha with ⟨-, ha⟩ | ⟨hjk, ha⟩
        · cases ha
        · exact hother j a hjk ha

end Ipc.SharedMemoryRegion

namespace Memory

variable {m : Memory} {pid : ProcessId}

/-- `process_exit`, with what it gives back to the pool. -/
def processExit (m : Memory) (pid : ProcessId) : Memory :=
  if pid < maxProcesses then
    { m.processCleanupSharedMemory pid with kernel := m.kernel.processExit pid }
  else m

lemma cleanup_privates (m : Memory) (pid : ProcessId) :
    (m.processCleanupSharedMemory pid).privates = m.privates := by
  unfold processCleanupSharedMemory
  generalize List.finRange maxSharedRegions = l
  induction l generalizing m with
  | nil => rfl
  | cons i l ih => exact ih _

lemma unmapFrees_other {i j : Fin maxSharedRegions} (h : j ≠ i) :
    (m.sharedMemoryUnmap pid i).2.kernel.unmapFrees pid j = m.kernel.unmapFrees pid j := by
  have hsame : (m.sharedMemoryUnmap pid i).2.kernel.regions j = m.kernel.regions j := by
    simp only [sharedMemoryUnmap, Kernel.sharedMemoryUnmap, i.isLt, dif_pos]
    cases m.kernel.regions i with
    | none => rfl
    | some r => cases hd : r.dropMapping pid <;> simp [hd, h]
  simp only [Kernel.unmapFrees, j.isLt, dif_pos, hsame]

lemma cleanup_freed (m : Memory) (pid : ProcessId) : (m.processCleanupSharedMemory pid).freed =
    m.freed + ∑ i : Fin maxSharedRegions, m.kernel.unmapFrees pid i := by
  have hloop : ∀ (l : List (Fin maxSharedRegions)) (m : Memory), l.Nodup →
      (l.foldl (fun m i => (m.sharedMemoryUnmap pid i).2) m).freed =
        m.freed + (l.map fun (i : Fin maxSharedRegions) => m.kernel.unmapFrees pid i).sum := by
    intro l
    induction l with
    | nil => intro m _; simp
    | cons i l ih =>
      intro m hnd
      obtain ⟨hil, hl⟩ := List.nodup_cons.mp hnd
      have hrest : (l.map fun (j : Fin maxSharedRegions) =>
          (m.sharedMemoryUnmap pid i).2.kernel.unmapFrees pid j) =
          l.map fun (j : Fin maxSharedRegions) => m.kernel.unmapFrees pid j := by
        refine List.map_congr_left fun j hj => unmapFrees_other ?_
        rintro rfl
        exact hil hj
      rw [List.foldl_cons, ih _ hl, hrest, List.map_cons, List.sum_cons, ← add_assoc]
      rfl
  rw [processCleanupSharedMemory, hloop _ m (List.nodup_finRange _), ← Fin.sum_univ_def]

lemma Owned.processExit (hm : m.Owned) (pid : ProcessId) : (m.processExit pid).Owned := by
  unfold Memory.processExit
  split_ifs with hpid
  · have hnext : (m.next (.cleanup pid)).Owned := hm.next fun b hb => by cases hb
    have hclean : (m.processCleanupSharedMemory pid).Owned := hnext
    exact hclean.congr (cleanup_regions m hpid).symm rfl rfl rfl
  · exact hm

/-- The exit of a process: none of its mappings is left; a region that only it mapped is gone and
its block is given back; a region that nobody maps stays, and so do the private allocations; and
what is not in a table any more has been given back. -/
structure Released (m : Memory) (pid : ProcessId) : Prop where
  unmapped : ∀ i r j a, (m.processExit pid).kernel.regions i = some r →
    r.mappings j = some a → a.pid ≠ pid
  freed : ∀ i r, m.kernel.regions i = some r → r.Mapped → ¬ r.MappedByOther pid →
    (m.processExit pid).kernel.regions i = none ∧
      r.block ∈ (m.processExit pid).freed - m.freed
  unused : ∀ i r, m.kernel.regions i = some r → ¬ r.Mapped →
    (m.processExit pid).kernel.regions i = some r
  privates : (m.processExit pid).privates = m.privates
  account : (m.processExit pid).taken = (m.processExit pid).freed + (m.processExit pid).live

lemma Owned.released (hm : m.Owned) (hpid : pid < maxProcesses) : m.Released pid := by
  have hregion : ∀ i, (m.processExit pid).kernel.regions i =
      (m.kernel.regions i).bind fun r => (r.dropMapping pid).getD (some r) := by
    intro i
    cases hi : m.kernel.regions i <;>
      simp [Memory.processExit, if_pos hpid, Kernel.processExit, hi]
  refine ⟨fun i r j a hr ha => ?_, fun i r hr hmap hother => ?_, fun i r hr hnone => ?_, ?_, ?_⟩
  · rw [hregion] at hr
    cases hi : m.kernel.regions i with
    | none => simp [hi] at hr
    | some r0 =>
      rcases (hm.region i r0 hi).drop_cases pid with ⟨hd, h⟩ | ⟨hd, -⟩ | ⟨r', hd, -, h⟩
      · simp only [hi, hd, Option.bind_some, getD_none, Option.some.injEq] at hr
        exact h j a (hr ▸ ha)
      · simp [hi, hd] at hr
      · simp only [hi, hd, Option.bind_some, getD_some, Option.some.injEq] at hr
        exact h j a (hr ▸ ha)
  · rcases (hm.region i r hr).drop_cases pid with ⟨-, h⟩ | ⟨hd, -⟩ | ⟨r', -, h, -⟩
    · obtain ⟨j, a, ha⟩ := hmap
      exact absurd ⟨j, a, ha, h j a ha⟩ hother
    · refine ⟨by rw [hregion, hr]; simp [hd], ?_⟩
      have hfreed : (m.processExit pid).freed =
          m.freed + ∑ i : Fin maxSharedRegions, m.kernel.unmapFrees pid i := by
        simp only [Memory.processExit, if_pos hpid]
        exact cleanup_freed m pid
      rw [hfreed, add_tsub_cancel_left]
      refine Multiset.mem_sum.mpr ⟨i, Finset.mem_univ i, ?_⟩
      simp [Kernel.unmapFrees, hr, hd]
    · exact absurd h hother
  · rcases (hm.region i r hr).drop_cases pid with ⟨hd, -⟩ | ⟨-, h, -⟩ | ⟨r', -, ⟨j, a, ha, -⟩, -⟩
    · rw [hregion, hr]
      simp [hd]
    · exact absurd h hnone
    · exact absurd ⟨j, a, ha⟩ hnone
  · simp only [Memory.processExit, if_pos hpid]
    exact cleanup_privates m pid
  · exact (hm.processExit pid).ledger.account

/-- **What exit releases.** After any calls by any processes, the exit of a process takes all its
mappings away and frees every region that it alone mapped; regions without mappings and private
allocations stay. -/
theorem exit_releases {m₀ m : Memory} (h0 : m₀.Start)
    (hrun : Runs (fun a op b => a.next op = b) AllocatorOk m₀ m) (hpid : pid < maxProcesses) :
    m.Released pid := by
  have hm : m.Owned := by
    refine Runs.inv Owned h0.owned ?_ hrun
    rintro a op b ha hok rfl
    exact ha.next hok
  exact hm.released hpid

def mapAndLeave : List Op :=
  [.create 1 5000 (.read ||| .write) (some 0x10000), .create 1 100 .read (some 0x20000),
    .map 1 0 .read, .memoryMap 1 4096 .read (some 0x8000)]

lemma mapAndLeave_runs : Runs (fun a op b => a.next op = b) AllocatorOk twoProcesses
    (mapAndLeave.foldl next twoProcesses) :=
  Runs.of_foldl (fun _ _ _ => rfl) (by decide +kernel)

theorem exit_releases_mapAndLeave : (mapAndLeave.foldl next twoProcesses).Released 1 :=
  exit_releases ⟨rfl, rfl, rfl, rfl⟩ mapAndLeave_runs (by decide)

/-- When process 1 exits then, its private block and the region that nobody mapped stay. -/
theorem exit_keeps_private_and_unmapped : ∃ m, twoProcesses.Start ∧
    Runs (fun a op b => a.next op = b) AllocatorOk twoProcesses m ∧
    (∃ i a, (m.processExit 1).privates i = some a ∧ a.owner = 1) ∧
    ∃ i r, (m.processExit 1).kernel.regions i = some r ∧ r.creator = 1 ∧ ¬ r.MappedByOther 1 := by
  refine ⟨_, ⟨rfl, rfl, rfl, rfl⟩, mapAndLeave_runs, ?_, ?_⟩
  · have h : (((mapAndLeave.foldl next twoProcesses).processExit 1).privates ⟨0, by decide⟩).any
        (fun a => a.owner == 1) = true := by decide +kernel
    obtain ⟨a, ha, howner⟩ := (any_eq_true _ _).mp h
    exact ⟨_, a, ha, beq_iff_eq.mp howner⟩
  · have h : (((mapAndLeave.foldl next twoProcesses).processExit 1).kernel.regions 1).any
        (fun r => r.creator == 1 && (List.finRange maxSharedMappings).all
          fun j => (r.mappings j).isNone) = true := by decide +kernel
    obtain ⟨r, hr, h⟩ := (any_eq_true _ _).mp h
    simp only [Bool.and_eq_true, beq_iff_eq, List.all_eq_true, isNone_iff_eq_none] at h
    refine ⟨1, r, hr, h.1, ?_⟩
    rintro ⟨j, a, ha, -⟩
    rw [h.2 j (List.mem_finRange j)] at ha
    cases ha

end Memory

end Aios
