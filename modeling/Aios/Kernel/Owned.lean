import Aios.Kernel.Memory

/-!
Ownership of memory along every run of the memory operations.

One lemma per operation says what it does to the blocks held (`Ledger`) and to the regions;
`Owned` collects what every operation keeps.
-/

namespace Aios

open Aios.Lib Aios.Ipc Option Function Slots

lemma Block.Apart.symm {A B : Block} (h : A.Apart B) : B.Apart A := Or.symm h

/-! ### One region -/

namespace Ipc.SharedMemoryRegion

/-- A region in slot `i` of the table is in order. -/
structure Ok (r : SharedMemoryRegion) (i : ℕ) : Prop where
  size_le : r.sizeBytes ≤ shmVaStride
  count : r.refCount = r.mappings.card fun _ => true
  once : ∀ j k a b, r.mappings j = some a → r.mappings k = some b → a.pid = b.pid → j = k
  mapping : ∀ j a, r.mappings j = some a → a.vaddr = shmVaBase + i * shmVaStride ∧
    r.maxFlags.contains a.flags = true ∧ a.flags.contains (.write ||| .execute) = false

variable {r r' : SharedMemoryRegion} {i : ℕ} {pid : ProcessId}

variable {j : Fin maxSharedMappings}

lemma mappingOf_some (h : r.mappingOf pid = some j) : ∃ a, r.mappings j = some a ∧ a.pid = pid := by
  have := List.find?_some h
  simpa [any_eq_true] using this

lemma mappingOf_none (h : r.mappingOf pid = none) {a : SharedMapping} (ha : r.mappings j = some a) :
    a.pid ≠ pid := by
  have := List.find?_eq_none.mp h j (List.mem_finRange j)
  simpa [ha] using this

lemma Ok.addMapping {flags : VmFlags} (hr : r.Ok i)
    (hwx : flags.contains (.write ||| .execute) = false)
    (h : r.addMapping i pid flags = .ok r') : r'.Ok i ∧ r'.block = r.block := by
  unfold SharedMemoryRegion.addMapping at h
  split_ifs at h with hmax hdup
  cases hfree : r.mappings.firstFree with
  | none => simp [hfree] at h
  | some j =>
    simp only [hfree, Except.ok.injEq] at h
    subst h
    have hj : r.mappings j = none := firstFree_some hfree
    have hnone : r.mappingOf pid = none := by simpa using hdup
    refine ⟨⟨hr.size_le, ?_, ?_, ?_⟩, rfl⟩
    · have hc := card_update (fun _ => true) r.mappings j
        (some ⟨pid, shmVaBase + i * shmVaStride, flags⟩)
      simp only [hj, any_none, any_some, Bool.false_eq_true, if_false, if_true, add_zero] at hc
      rw [hc, ← hr.count]
    · intro k l a b ha hb hab
      -- the new mapping is the only one of its process
      rcases update_eq_some.mp ha with ⟨hk, ha'⟩ | ⟨-, ha'⟩ <;>
        rcases update_eq_some.mp hb with ⟨hl, hb'⟩ | ⟨-, hb'⟩
      · exact hk.trans hl.symm
      · cases ha'
        exact absurd hab.symm (mappingOf_none hnone hb')
      · cases hb'
        exact absurd hab (mappingOf_none hnone ha')
      · exact hr.once k l a b ha' hb' hab
    · intro k a ha
      rcases update_eq_some.mp ha with ⟨-, ha⟩ | ⟨-, ha⟩
      · cases ha
        exact ⟨rfl, by simpa using hmax, hwx⟩
      · exact hr.mapping k a ha

lemma Ok.dropMapping (hr : r.Ok i) (h : r.dropMapping pid = some (some r')) :
    r'.Ok i ∧ r'.block = r.block := by
  unfold SharedMemoryRegion.dropMapping at h
  obtain ⟨j, hj, h⟩ := map_eq_some_iff.mp h
  obtain ⟨a, ha, -⟩ := mappingOf_some hj
  have hc := card_update (fun _ => true) r.mappings j none
  simp only [ha, any_none, any_some, Bool.false_eq_true, if_false, if_true, add_zero] at hc
  have hkeep : ∀ k b, update r.mappings j none k = some b → r.mappings k = some b := by
    intro k b hb
    rcases update_eq_some.mp hb with ⟨-, hb⟩ | ⟨-, hb⟩
    · cases hb
    · exact hb
  have hcount := hr.count
  -- the mapping itself was counted
  have hpos : (r.clearMapping j).refCount ≠ 0 := by
    change r.refCount ≠ 0
    omega
  simp only [if_neg hpos] at h
  split_ifs at h with hlast
  cases h
  refine ⟨⟨hr.size_le, ?_, ?_, ?_⟩, rfl⟩
  · change r.refCount - 1 = Slots.card (fun _ => true) (update r.mappings j none)
    omega
  · intro k l b c hb hc'
    exact hr.once k l b c (hkeep k b hb) (hkeep l c hc')
  · intro k b hb
    exact hr.mapping k b (hkeep k b hb)

end Ipc.SharedMemoryRegion

namespace Memory

variable {m : Memory}

/-! ### The invariant -/

structure Owned (m : Memory) : Prop where
  region : ∀ i r, m.kernel.regions i = some r → r.Ok i
  pages_le : ∀ i a, m.privates i = some a → a.pages ≤ maxPrivatePages
  ledger : Ledger Block.Apart m.blockAt m.taken m.freed

lemma Owned.congr {m' : Memory} (hm : m.Owned) (hr : m'.kernel.regions = m.kernel.regions)
    (hp : m'.privates = m.privates) (ht : m'.taken = m.taken) (hf : m'.freed = m.freed) :
    m'.Owned := by
  have hb : m'.blockAt = m.blockAt := by
    funext h
    cases h <;> simp [blockAt, hr, hp]
  exact ⟨hr ▸ hm.region, hp ▸ hm.pages_le, hb ▸ ht ▸ hf ▸ hm.ledger⟩

lemma Start.owned (h : m.Start) : m.Owned where
  region := by simp [h.regions]
  pages_le := by simp [h.privates]
  ledger := by
    have hb : m.blockAt = fun _ => none := by
      funext x
      cases x <;> simp [blockAt, h.regions, h.privates]
    rw [hb, h.taken, h.freed]
    exact Ledger.start

variable {K : Kernel} {a : ℕ × ℕ} {x y : Spot} {base : Option ℕ} {flags : VmFlags}

lemma blockAt_setRegion (m : Memory) (i : Fin maxSharedRegions) (r : Option SharedMemoryRegion)
    (hK : K.regions = update m.kernel.regions i r) (t f : Multiset Block) :
    blockAt ⟨K, m.privates, t, f⟩ = update m.blockAt (.inl i) (r.map (·.block)) := by
  funext h
  cases h with
  | inl j =>
    by_cases hj : j = i
    · subst hj; simp [blockAt, hK]
    · simp [blockAt, hK, hj]
  | inr j => simp [blockAt]

lemma blockAt_setPrivate (m : Memory) (i : Fin maxPrivateAllocations) (a : Option PrivateAllocation)
    (t f : Multiset Block) : blockAt ⟨m.kernel, update m.privates i a, t, f⟩ =
    update m.blockAt (.inr i) (a.map (·.block)) := by
  funext h
  cases h with
  | inl j => simp [blockAt]
  | inr j =>
    by_cases hj : j = i
    · subst hj; simp [blockAt]
    · simp [blockAt, hj]

section

variable (hm : m.Owned)
include hm

lemma Owned.region_update {i : Fin maxSharedRegions} {r : Option SharedMemoryRegion}
    (hr : ∀ s, r = some s → s.Ok i) (hK : K.regions = update m.kernel.regions i r) :
    ∀ j s, K.regions j = some s → s.Ok j := by
  intro j s hs
  rcases update_eq_some.mp (hK ▸ hs) with ⟨rfl, hs'⟩ | ⟨-, hs'⟩
  · exact hr s hs'
  · exact hm.region j s hs'

lemma Owned.pages_update {i : Fin maxPrivateAllocations}
    {a : Option PrivateAllocation} (ha : ∀ c, a = some c → c.pages ≤ maxPrivatePages) :
    ∀ j c, update m.privates i a j = some c → c.pages ≤ maxPrivatePages := by
  intro j c hc
  rcases update_eq_some.mp hc with ⟨-, hc'⟩ | ⟨-, hc'⟩
  · exact ha c hc'
  · exact hm.pages_le j c hc'

lemma Owned.setRegion {i : Fin maxSharedRegions} {r r' : SharedMemoryRegion}
    (hi : m.kernel.regions i = some r) (hr' : r'.Ok i) (hb : r'.block = r.block)
    (hK : K.regions = update m.kernel.regions i (some r')) : Owned { m with kernel := K } where
  region := hm.region_update (by rintro s ⟨⟩; exact hr') hK
  pages_le := hm.pages_le
  ledger := by
    have hsame : m.blockAt (.inl i) = some r'.block := by simp [blockAt, hi, hb]
    rw [blockAt_setRegion m i _ hK, map_some, ← hsame, update_eq_self]
    exact hm.ledger

lemma Owned.takeRegion {i : Fin maxSharedRegions} {r : SharedMemoryRegion}
    (hi : m.kernel.regions i = none) (hr : r.Ok i) (hb : ∀ a ∈ m.taken - m.freed, r.block.Apart a)
    (hK : K.regions = update m.kernel.regions i (some r)) :
    Owned { m with kernel := K, taken := m.taken + {r.block} } where
  region := hm.region_update (by rintro s ⟨⟩; exact hr) hK
  pages_le := hm.pages_le
  ledger := by
    rw [blockAt_setRegion m i _ hK]
    exact hm.ledger.take (fun _ _ => Block.Apart.symm) (by simp [blockAt, hi]) hb

lemma Owned.freeRegion {i : Fin maxSharedRegions} {r : SharedMemoryRegion}
    (hi : m.kernel.regions i = some r) (hK : K.regions = update m.kernel.regions i none) :
    Owned { m with kernel := K, freed := m.freed + {r.block} } where
  region := hm.region_update (by simp) hK
  pages_le := hm.pages_le
  ledger := by
    rw [blockAt_setRegion m i _ hK]
    exact hm.ledger.give (by simp [blockAt, hi])

lemma Owned.takePrivate {i : Fin maxPrivateAllocations} {a : PrivateAllocation}
    (hi : m.privates i = none) (ha : a.pages ≤ maxPrivatePages)
    (hb : ∀ c ∈ m.taken - m.freed, a.block.Apart c) :
    Owned { m with privates := update m.privates i (some a), taken := m.taken + {a.block} } where
  region := hm.region
  pages_le := hm.pages_update (by rintro c ⟨⟩; exact ha)
  ledger := by
    rw [blockAt_setPrivate]
    exact hm.ledger.take (fun _ _ => Block.Apart.symm) (by simp [blockAt, hi]) hb

lemma Owned.freePrivate {i : Fin maxPrivateAllocations} {a : PrivateAllocation}
    (hi : m.privates i = some a) :
    Owned { m with privates := update m.privates i none, freed := m.freed + {a.block} } where
  region := hm.region
  pages_le := hm.pages_update (by simp)
  ledger := by
    rw [blockAt_setPrivate]
    exact hm.ledger.give (by simp [blockAt, hi])

end

/-! ### One operation -/

lemma grantToProcess_regions (K : Kernel) (pid : ProcessId) (cap : Cap.Capability)
    (delegatable : Bool) : (K.grantToProcess pid cap delegatable).2.regions = K.regions := by
  unfold Kernel.grantToProcess
  cases K.processRef pid with
  | error e => rfl
  | ok T =>
    simp only [Kernel.bumpTokenId, Kernel.setTable]
    split_ifs <;> rfl

/-- What a request for a region comes to: nothing is asked of the pool; or the pool's block goes
back because the table is full; or it becomes the block of a new region without mappings. -/
lemma sharedMemoryCreate_cases (m : Memory) (pid : ProcessId) (size : ℕ) (flags : VmFlags)
    (base : Option ℕ) :
    (m.sharedMemoryCreate pid size flags base).2 = m ∨
    ∃ b, answer (.create pid size flags base) = some b ∧
      ((m.sharedMemoryCreate pid size flags base).2
          = { m with taken := m.taken + {b}, freed := m.freed + {b} } ∨
        ∃ i r K, m.kernel.regions i = none ∧ r.Ok i ∧ r.block = b ∧
          K.regions = update m.kernel.regions i (some r) ∧
          (m.sharedMemoryCreate pid size flags base).2
            = { m with kernel := K, taken := m.taken + {b} }) := by
  unfold sharedMemoryCreate Kernel.sharedMemoryCreate Kernel.createBlock
  by_cases hwx : flags.contains (.write ||| .execute) = true
  · exact .inl (by simp [hwx])
  by_cases hbig : maxSharedRegionPages < pagesFor size
  · refine .inl ?_
    have hbig' : maxSharedRegionPages < max ((size + pageSize - 1) / pageSize) 1 := hbig
    simp [hwx, hbig, hbig']
  have hbig' : ¬ maxSharedRegionPages < max ((size + pageSize - 1) / pageSize) 1 := hbig
  cases hcap : m.kernel.checkSharedMemoryCreate pid with
  | error e => exact .inl (by simp [hwx, hbig, hbig'])
  | ok token =>
    cases base with
    | none => exact .inl (by simp [hwx, hbig, hbig'])
    | some b =>
      refine .inr ⟨⟨b, orderForPages (pagesFor size)⟩, rfl, ?_⟩
      cases hfree : m.kernel.regions.firstFree with
      | none => exact .inl (by simp [hwx, hbig, hbig'])
      | some i =>
        let r : SharedMemoryRegion := ⟨i, b, orderForPages (pagesFor size),
          pagesFor size * pageSize, 0, pid, flags, some token, Slots.empty⟩
        let K := { m.kernel with regions := update m.kernel.regions i (some r) }
        refine .inr ⟨i, r, (K.grantToProcess pid (.sharedMemoryAccess i) true).2,
          firstFree_some hfree, ⟨?_, ?_, ?_, ?_⟩, rfl, grantToProcess_regions K _ _ _, ?_⟩
        · exact Nat.mul_le_mul_right _ (Nat.not_lt.mp hbig)
        · exact (card_empty _).symm
        · simp [r]
        · simp [r]
        · simp [hwx, hbig', pagesFor, r, K]

lemma Owned.sharedMemoryCreate (hm : m.Owned) {pid : ProcessId} {size : ℕ}
    (hok : m.AllocatorOk (.create pid size flags base)) :
    (m.sharedMemoryCreate pid size flags base).2.Owned := by
  rcases m.sharedMemoryCreate_cases pid size flags base with
    h | ⟨b, hb, h | ⟨i, r, K, hi, hr, rfl, hK, h⟩⟩
  · rw [h]
    exact hm
  · rw [h]
    exact ⟨hm.region, hm.pages_le, hm.ledger.bounce b⟩
  · rw [h]
    exact hm.takeRegion hi hr (hok _ hb) hK

lemma Owned.sharedMemoryMap (hm : m.Owned) (pid : ProcessId) (id : SharedMemoryId)
    (flags : VmFlags) : (m.sharedMemoryMap pid id flags).2.Owned := by
  unfold Memory.sharedMemoryMap Kernel.sharedMemoryMap
  split_ifs with hid hwx
  · exact hm
  · cases m.kernel.checkSharedMemoryAccess pid id with
    | error e => exact hm
    | ok _ =>
      cases hr : m.kernel.regions ⟨id, hid⟩ with
      | none => simpa [hr] using hm
      | some r =>
        cases ha : r.addMapping id pid flags with
        | error e => simpa [hr, ha] using hm
        | ok r' =>
          obtain ⟨hok, hb⟩ := (hm.region _ r hr).addMapping (by simpa using hwx) ha
          simp only [ha]
          exact hm.setRegion hr hok hb rfl
  · exact hm

lemma Owned.sharedMemoryUnmap (hm : m.Owned) (pid : ProcessId) (id : SharedMemoryId) :
    (m.sharedMemoryUnmap pid id).2.Owned := by
  unfold Memory.sharedMemoryUnmap Kernel.sharedMemoryUnmap Kernel.unmapFrees
  by_cases hid : id < maxSharedRegions
  · simp only [dif_pos hid]
    cases hr : m.kernel.regions ⟨id, hid⟩ with
    | none => simpa [hr] using hm
    | some r =>
      rcases hd : r.dropMapping pid with _ | _ | r'
      · simpa [hr, hd] using hm
      · simp only [hd]
        exact hm.freeRegion hr rfl
      · obtain ⟨hok, hb⟩ := (hm.region _ r hr).dropMapping hd
        simp only [hd, add_zero]
        exact hm.setRegion hr hok hb rfl
  · simpa [hid] using hm

lemma sharedMemoryShare_regions (K : Kernel) (pid : ProcessId) (id : SharedMemoryId)
    (target : ProcessId) : (K.sharedMemoryShare pid id target).2.regions = K.regions := by
  unfold Kernel.sharedMemoryShare
  have hg := grantToProcess_regions K target (.sharedMemoryAccess id) false
  split_ifs with hid ht
  · cases K.regions ⟨id, hid⟩ with
    | none => rfl
    | some r =>
      dsimp only
      split_ifs
      · rcases hgr : K.grantToProcess target (.sharedMemoryAccess id) false with ⟨_ | _, K'⟩ <;>
          simpa [hgr] using hg
      · rfl
  · rfl
  · rfl

lemma Owned.memoryMap (hm : m.Owned) {pid : ProcessId} {size : ℕ}
    (hok : m.AllocatorOk (.memoryMap pid size flags base)) :
    (m.memoryMap pid size flags base).2.Owned := by
  unfold Memory.memoryMap
  split_ifs with hwx hbig
  · exact hm
  · exact hm
  · cases base with
    | none => exact hm
    | some b =>
      cases hfree : m.privates.firstFree with
      | none => exact ⟨hm.region, hm.pages_le, hm.ledger.bounce _⟩
      | some i => exact hm.takePrivate (firstFree_some hfree) (Nat.not_lt.mp hbig) (hok _ rfl)

lemma Owned.memoryUnmap (hm : m.Owned) (pid : ProcessId) (va size : ℕ) :
    (m.memoryUnmap pid va size).2.Owned := by
  unfold Memory.memoryUnmap
  split_ifs with hshm
  · exact hm.sharedMemoryUnmap pid _
  · cases privateSlot va with
    | none => exact hm
    | some i =>
      cases ha : m.privates i with
      | none => simpa [ha] using hm
      | some a =>
        simp only [ha]
        split_ifs
        · exact hm.freePrivate ha
        · exact hm

lemma Owned.foldl {α : Type} (f : Memory → α → Memory) (hf : ∀ m a, Owned m → Owned (f m a))
    (l : List α) (hm : m.Owned) : (l.foldl f m).Owned := by
  induction l generalizing m with
  | nil => exact hm
  | cons a l ih => exact ih (hf m a hm)

/-- **Every operation keeps ownership.** -/
lemma Owned.next {op : Op} (hm : m.Owned) (hok : m.AllocatorOk op) : (m.next op).Owned := by
  cases op with
  | create pid size flags base => exact hm.sharedMemoryCreate hok
  | map pid id flags => exact hm.sharedMemoryMap pid id flags
  | unmap pid id => exact hm.sharedMemoryUnmap pid id
  | share pid id target =>
    exact hm.congr (sharedMemoryShare_regions m.kernel pid id target) rfl rfl rfl
  | memoryMap pid size flags base => exact hm.memoryMap hok
  | memoryUnmap pid va size => exact hm.memoryUnmap pid va size
  | destroy id =>
    change (m.shmemDestroy id).Owned
    unfold shmemDestroy
    split_ifs with hid
    · cases m.kernel.regions ⟨id, hid⟩ with
      | none => exact hm
      | some r => exact hm.foldl _ (fun m pid h => h.sharedMemoryUnmap pid id) _
    · exact hm
  | cleanup pid =>
    change (m.processCleanupSharedMemory pid).Owned
    rw [processCleanupSharedMemory]
    exact hm.foldl _ (fun m (i : Fin maxSharedRegions) h => h.sharedMemoryUnmap pid i) _
  | rest K => exact hm.congr rfl rfl rfl rfl

lemma cleanup_regions (m : Memory) {pid : ProcessId} (hpid : pid < maxProcesses) :
    (m.processCleanupSharedMemory pid).kernel.regions = (m.kernel.processExit pid).regions := by
  -- the loop over the slots, stopped anywhere: the slots it has passed are done
  have hloop : ∀ (l : List (Fin maxSharedRegions)) (m : Memory), l.Nodup → ∀ j,
      (l.foldl (fun m i => (m.sharedMemoryUnmap pid i).2) m).kernel.regions j =
        if j ∈ l then (m.kernel.processExit pid).regions j else m.kernel.regions j := by
    intro l
    induction l with
    | nil => intro m _ j; rfl
    | cons i l ih =>
      intro m hnd j
      have hone : ∀ k, (m.sharedMemoryUnmap pid i).2.kernel.regions k =
          if k = i then (m.kernel.processExit pid).regions k else m.kernel.regions k := by
        intro k
        simp only [sharedMemoryUnmap, Kernel.sharedMemoryUnmap, i.isLt, dif_pos,
          Kernel.processExit, if_pos hpid]
        rcases eq_or_ne k i with rfl | hk
        · cases hr : m.kernel.regions k with
          | none => simp [hr]
          | some r => cases hd : r.dropMapping pid <;> simp [hr, hd]
        · cases hr : m.kernel.regions i with
          | none => simp [hk]
          | some r => cases hd : r.dropMapping pid <;> simp [hd, hk]
      obtain ⟨hil, hl⟩ := List.nodup_cons.mp hnd
      rw [List.foldl_cons, ih _ hl]
      by_cases hj : j ∈ l
      · have hji : j ≠ i := fun h => hil (h ▸ hj)
        have hsame : (m.sharedMemoryUnmap pid i).2.kernel.regions j = m.kernel.regions j := by
          rw [hone, if_neg hji]
        simp only [hj, if_true, List.mem_cons, or_true, Kernel.processExit, if_pos hpid, hsame]
      · rw [if_neg hj, hone]
        simp [hj]
  funext j
  rw [processCleanupSharedMemory, hloop _ m (List.nodup_finRange _), if_pos (List.mem_finRange j)]

/-! ### Address ranges -/

def window : Spot → ℕ × ℕ
  | .inl (i, _) => (shmVaBase + i * shmVaStride, shmVaStride)
  | .inr i => (privateVaBase + i * privateVaStride, privateVaStride)

lemma stride_apart {i j stride base : ℕ} (h : i ≠ j) :
    ApartRange (base + i * stride, stride) (base + j * stride, stride) := by
  rcases Nat.lt_or_gt_of_ne h with h | h
  · refine .inl ?_
    have := Nat.mul_le_mul_right stride (Nat.succ_le_of_lt h)
    rw [Nat.succ_mul] at this
    simpa [add_assoc] using this
  · refine .inr ?_
    have := Nat.mul_le_mul_right stride (Nat.succ_le_of_lt h)
    rw [Nat.succ_mul] at this
    simpa [add_assoc] using this

lemma shared_below_private (i : Fin maxSharedRegions) (j : Fin maxPrivateAllocations) :
    shmVaBase + i * shmVaStride + shmVaStride ≤ privateVaBase + j * privateVaStride := by
  have := Nat.mul_le_mul_right shmVaStride (Nat.succ_le_of_lt i.isLt)
  rw [Nat.succ_mul] at this
  unfold privateVaBase
  omega

lemma window_apart (h : window x ≠ window y) : ApartRange (window x) (window y) := by
  rcases x with ⟨i, _⟩ | i <;> rcases y with ⟨j, _⟩ | j
  · exact stride_apart (by rintro hij; exact h (by simp [window, hij]))
  · exact .inl (shared_below_private i j)
  · exact .inr (shared_below_private j i)
  · exact stride_apart (by rintro hij; exact h (by simp [window, hij]))

lemma Owned.range_in_window (hm : m.Owned) {pid : ProcessId} (h : m.rangeAt pid x = some a) :
    a.1 = (window x).1 ∧ a.2 ≤ (window x).2 := by
  rcases x with ⟨i, j⟩ | i
  · simp only [rangeAt, bind_eq_some_iff, map_eq_some_iff, filter_eq_some_iff] at h
    obtain ⟨r, hr, c, ⟨hc, -⟩, rfl⟩ := h
    exact ⟨((hm.region i r hr).mapping j c hc).1, (hm.region i r hr).size_le⟩
  · simp only [rangeAt, map_eq_some_iff, filter_eq_some_iff] at h
    obtain ⟨c, ⟨hc, -⟩, rfl⟩ := h
    exact ⟨rfl, Nat.mul_le_mul_right _ (hm.pages_le i c hc)⟩

lemma Owned.window_inj (hm : m.Owned) {pid : ProcessId} {b : ℕ × ℕ} (hx : m.rangeAt pid x = some a)
    (hy : m.rangeAt pid y = some b) (h : window x = window y) : x = y := by
  rcases x with ⟨i, k⟩ | i <;> rcases y with ⟨j, l⟩ | j
  · have hij : i = j := by
      by_contra hne
      have hapart : ApartRange (window (.inl (i, k))) (window (.inl (j, l))) :=
        stride_apart fun he => hne (Fin.ext he)
      rw [h] at hapart
      rcases hapart with h' | h' <;>
        simp [window, shmVaStride, maxSharedRegionPages, pageSize] at h'
    subst hij
    simp only [rangeAt, bind_eq_some_iff, map_eq_some_iff, filter_eq_some_iff] at hx hy
    obtain ⟨r, hr, c, ⟨hc, hcp⟩, -⟩ := hx
    obtain ⟨r', hr', d, ⟨hd, hdp⟩, -⟩ := hy
    rw [hr, Option.some.injEq] at hr'
    subst hr'
    have := (hm.region i r hr).once k l c d hc hd
      ((beq_iff_eq.mp hcp).trans (beq_iff_eq.mp hdp).symm)
    rw [this]
  · have := shared_below_private i j
    simp only [window, Prod.mk.injEq] at h
    rw [h.1] at this
    simp [shmVaStride, maxSharedRegionPages, pageSize] at this
  · have := shared_below_private j i
    simp only [window, Prod.mk.injEq] at h
    rw [← h.1] at this
    simp [shmVaStride, maxSharedRegionPages, pageSize] at this
  · simp only [window, privateVaStride, maxPrivatePages, pageSize, Prod.mk.injEq, and_true] at h
    have : i.val = j.val := by omega
    rw [Fin.ext this]

lemma Owned.ranges_apart (hm : m.Owned) {pid : ProcessId} {b : ℕ × ℕ} (hne : x ≠ y)
    (hx : m.rangeAt pid x = some a) (hy : m.rangeAt pid y = some b) : ApartRange a b := by
  obtain ⟨hax, hal⟩ := hm.range_in_window hx
  obtain ⟨hby, hbl⟩ := hm.range_in_window hy
  have hw := window_apart fun h => hne (hm.window_inj hx hy h)
  unfold ApartRange at hw ⊢
  omega

/-! ### Every run -/

/-- **Memory is owned.** After any run of the memory operations, with whatever the rest of the
kernel does in between: a region counts its mappings, one for each process that maps it, with
flags within the region's and never writable and executable; what was taken from the pool is
what went back to it and what the live regions and private allocations hold, each a block of its
own; and the live addresses of a process do not overlap. -/
theorem memory_owned {m₀ m : Memory} (h0 : m₀.Start)
    (hrun : Runs (fun a op b => a.next op = b) AllocatorOk m₀ m) :
    (∀ i r, m.kernel.regions i = some r → r.refCount = r.mappings.card (fun _ => true) ∧
      (∀ j k a b, r.mappings j = some a → r.mappings k = some b → a.pid = b.pid → j = k) ∧
      ∀ j a, r.mappings j = some a → r.maxFlags.contains a.flags = true ∧
        a.flags.contains (.write ||| .execute) = false) ∧
    (m.taken = m.freed + m.live ∧
      ∀ x y A B, x ≠ y → m.blockAt x = some A → m.blockAt y = some B → A.Apart B) ∧
    ∀ pid x y a b, x ≠ y → m.rangeAt pid x = some a → m.rangeAt pid y = some b →
      ApartRange a b := by
  have hm : m.Owned := by
    refine Runs.inv Owned h0.owned ?_ hrun
    rintro a op b ha hok rfl
    exact ha.next hok
  refine ⟨fun i r hr => ?_, ⟨hm.ledger.account, hm.ledger.apart⟩,
    fun pid x y a b hne hx hy => hm.ranges_apart hne hx hy⟩
  have hok := hm.region i r hr
  exact ⟨hok.count, hok.once, fun j a ha => (hok.mapping j a ha).2⟩

def twoProcesses : Memory where
  kernel := (Kernel.grantToProcess
    { procs := fun i => if i = 1 ∨ i = 2 then some .new else none
      owner := fun _ => none
      channels := Slots.empty
      regions := Slots.empty
      nextTokenId := 0
      tick := 0 } 1 .sharedMemoryCreate true).2
  privates := Slots.empty
  taken := 0
  freed := 0

def shareAndExit : List Op :=
  [.create 1 5000 (.read ||| .write) (some 0x10000), .share 1 0 2, .map 1 0 .read,
    .map 2 0 .write, .memoryMap 1 4096 .read (some 0x8000), .memoryMap 2 4096 .read (some 0x9000),
    .memoryUnmap 1 privateVaBase 1, .cleanup 1]

theorem memory_owned_shareAndExit :
    (∃ r, (shareAndExit.foldl next twoProcesses).kernel.regions 0 = some r ∧ r.refCount = 1) ∧
    (shareAndExit.foldl next twoProcesses).taken
      = {⟨0x8000, 0⟩} + (shareAndExit.foldl next twoProcesses).live := by
  have hrun : Runs (fun a op b => a.next op = b) AllocatorOk twoProcesses
      (shareAndExit.foldl next twoProcesses) :=
    Runs.of_foldl (fun _ _ _ => rfl) (by decide +kernel)
  have hfreed : (shareAndExit.foldl next twoProcesses).freed = {⟨0x8000, 0⟩} := by
    decide +kernel
  have hone : ((shareAndExit.foldl next twoProcesses).kernel.regions 0).any
      (fun r => r.refCount == 1) = true := by decide +kernel
  have hown := memory_owned ⟨rfl, rfl, rfl, rfl⟩ hrun
  refine ⟨?_, hfreed ▸ hown.2.1.1⟩
  obtain ⟨r, hr, h1⟩ := (any_eq_true _ _).mp hone
  exact ⟨r, hr, beq_iff_eq.mp h1⟩

end Memory

end Aios
