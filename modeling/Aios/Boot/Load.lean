import Aios.Boot.Elf

/-!
What `load_elf` does with a file whose program header table can be addressed: every read stays in
the file and nothing wraps, and an image that is loaded is the image the file describes.

Pass 1 leaves facts about every segment (`Scanned`), which pass 2 needs for its unchecked addition
and the entry point needs for the translation of its address. Pass 2 keeps the segments loaded so
far in place, because the pages of a new one were free.
-/

namespace Aios.Boot

open Aios.Lib Aios.Lib.Fallible Spec

def FileData.header (f : FileData) : Elf64Header := Elf64Header.parse f.mem

def FileData.phdr (f : FileData) (i : ℕ) : Elf64Phdr :=
  Elf64Phdr.parse f.mem (f.header.phoff + i * f.header.phentsize)

def FileData.TableFits (f : FileData) : Prop :=
  ∀ i < f.header.phnum, f.header.phoff + i * f.header.phentsize + Elf64Phdr.size < 2 ^ 64

instance (f : FileData) : Decidable f.TableFits := by unfold FileData.TableFits; infer_instance

structure FileData.Identified (f : FileData) : Prop where
  length : Elf64Header.size ≤ f.bytes.length
  magic : f.header.ident.take 4 = elfMagic
  elf64 : f.header.ident[4]? = some elfclass64
  littleEndian : f.header.ident[5]? = some elfdata2lsb
  aarch64 : f.header.machine = emAarch64

/-- Pass 1 goes on after header `i`: it lies in the file, and a segment passes the checks against
those before it. -/
structure FileData.Accepted (f : FileData) (i : ℕ) : Prop where
  entry : Elf64Phdr.size ≤ f.header.phentsize
  inside : f.header.phoff + i * f.header.phentsize + Elf64Phdr.size ≤ f.bytes.length
  segment : (f.phdr i).isLoad = true →
    (f.phdr i).filesz ≤ (f.phdr i).memsz ∧ pageSize ∣ (f.phdr i).paddr ∧
      (f.phdr i).paddr + (f.phdr i).memsz < 2 ^ 64 ∧
      ∀ j < i, (f.phdr j).isLoad = true → (f.phdr j).delta = (f.phdr i).delta

/-- The offset of header `i` is computed: nothing before it is refused. -/
structure FileData.Reached (f : FileData) (i : ℕ) : Prop extends f.Identified where
  lt : i < f.header.phnum
  entry : Elf64Phdr.size ≤ f.header.phentsize
  accepted : ∀ j < i, f.Accepted j

structure Clean (f : FileData) (s : Machine) : Prop where
  wrapped : s.wrapped = false
  inside : ∀ r ∈ s.reads, r.1 + r.2 ≤ f.bytes.length

/-- Clean, with the memory and the pages of `s₀`. -/
structure At (f : FileData) (s₀ s : Machine) : Prop extends Clean f s where
  mem : s.mem = s₀.mem
  given : s.given = s₀.given

variable {f : FileData} {s₀ s t : Machine} {ph ph' : Elf64Phdr} {grants : ℕ → ℕ → Bool}

lemma spec_at {β : Type} {x : Loader β} {P : Machine → Prop} {Q : β → Machine → Prop}
    (hP : ∀ s, P s → Clean f s) (h : ∀ s, P s → Spec (At f s) x Q (Clean f)) :
    Spec P x Q (Clean f) :=
  fun s hs => h s hs s ⟨hP s hs, rfl, rfl⟩

/-! ### The elementary operations -/

section Operations

variable {β : Type} {Q : β → Machine → Prop} {v a b : ℕ} {k : ℕ → Loader β}

lemma spec_noteRead {k : Unit → Loader β} {offset len : ℕ} (hin : offset + len ≤ f.bytes.length)
    (h : Spec (At f s₀) (k ()) Q (Clean f)) :
    Spec (At f s₀) (noteRead offset len >>= k) Q (Clean f) := by
  refine Spec.bind (Spec.modify (U := fun _ => At f s₀) fun s hs => ?_) fun _ => h
  refine ⟨⟨hs.wrapped, fun r hr => ?_⟩, hs.mem, hs.given⟩
  rcases List.mem_cons.mp hr with rfl | hr
  · exact hin
  · exact hs.inside r hr

lemma spec_unchecked (hv : v < 2 ^ 64) (h : Spec (At f s₀) (k v) Q (Clean f)) :
    Spec (At f s₀) (unchecked v >>= k) Q (Clean f) := by
  have hval : Spec (At f s₀) (unchecked v) (fun w s => w = v ∧ At f s₀ s) (Clean f) := by
    refine Spec.bind (Spec.modify (U := fun _ => At f s₀) fun s hs => ?_) fun _ =>
      Spec.pure fun s hs => ⟨Nat.mod_eq_of_lt hv, hs⟩
    refine ⟨⟨?_, hs.inside⟩, hs.mem, hs.given⟩
    simp only [hs.wrapped, Bool.false_or, decide_eq_false_iff_not]
    omega
  exact Spec.bind hval fun w => Spec.assume fun hw => hw ▸ h

lemma spec_checkedAdd (h : a + b < 2 ^ 64 → Spec (At f s₀) (k (a + b)) Q (Clean f)) :
    Spec (At f s₀) (checkedAdd a b >>= k) Q (Clean f) := by
  refine Spec.bind (R := fun v s => (a + b < 2 ^ 64 ∧ v = a + b) ∧ At f s₀ s)
    (Spec.ite (fun hlt => Spec.pure fun s hs => ⟨⟨hlt, rfl⟩, hs⟩) fun _ =>
      Spec.throw fun s hs => hs.toClean) fun v => Spec.assume fun ⟨hlt, hv⟩ => hv ▸ h hlt

lemma spec_checkedNextPage
    (h : ∀ up, a ≤ up → up < a + pageSize → pageSize ∣ up → Spec (At f s₀) (k up) Q (Clean f)) :
    Spec (At f s₀) (checkedNextPage a >>= k) Q (Clean f) := by
  refine Spec.bind (R := fun v s => (v = (a + pageSize - 1) / pageSize * pageSize) ∧ At f s₀ s)
    (Spec.ite (fun _ => Spec.pure fun s hs => ⟨rfl, hs⟩) fun _ =>
      Spec.throw fun s hs => hs.toClean) fun v => Spec.assume fun hv => ?_
  subst hv
  refine h _ ?_ ?_ (Dvd.intro_left _ rfl)
  · unfold pageSize; omega
  · unfold pageSize; omega

end Operations

/-! ### The program headers -/

lemma spec_getPhdr {i : ℕ}
    (hfit : Elf64Phdr.size ≤ f.header.phentsize →
      f.header.phoff + i * f.header.phentsize + Elf64Phdr.size < 2 ^ 64) {β : Type}
    {Q : β → Machine → Prop} {k : Elf64Phdr → Loader β}
    (h : Elf64Phdr.size ≤ f.header.phentsize →
      f.header.phoff + i * f.header.phentsize + Elf64Phdr.size ≤ f.bytes.length →
        Spec (At f s₀) (k (f.phdr i)) Q (Clean f)) :
    Spec (At f s₀) (getPhdr f f.header.phoff f.header.phentsize i >>= k) Q (Clean f) := by
  have hget : Spec (At f s₀) (getPhdr f f.header.phoff f.header.phentsize i)
      (fun ph s => (ph = f.phdr i ∧ Elf64Phdr.size ≤ f.header.phentsize ∧
        f.header.phoff + i * f.header.phentsize + Elf64Phdr.size ≤ f.bytes.length) ∧ At f s₀ s)
      (Clean f) := by
    refine failIf_bind (fun s hs => hs.toClean) fun hentry => ?_
    have hend := hfit (by omega)
    refine spec_unchecked (by omega) (spec_unchecked (by omega) (spec_unchecked hend ?_))
    refine failIf_bind (fun s hs => hs.toClean) fun hlen => ?_
    exact spec_noteRead (by omega) (Spec.pure fun s hs => ⟨⟨rfl, by omega, by omega⟩, hs⟩)
  exact Spec.bind hget fun ph => Spec.assume fun ⟨hph, hentry, hlen⟩ => hph ▸ h hentry hlen

structure Segment (x : Extent) (ph : Elf64Phdr) : Prop where
  filesz_le : ph.filesz ≤ ph.memsz
  aligned : pageSize ∣ ph.paddr
  end_lt : ph.paddr + ph.memsz < 2 ^ 64
  lowest_le : x.lowestPaddr ≤ ph.paddr
  le_highest : ph.paddr + ph.memsz ≤ x.highestEnd
  delta : x.virtPhysDelta = some ph.delta

/-- The variables of pass 1 after `n` headers. -/
structure Scanned (f : FileData) (n : ℕ) (x : Extent) : Prop where
  segment : ∀ i < n, (f.phdr i).isLoad = true → Segment x (f.phdr i)
  lowest : x.lowestPaddr = 2 ^ 64 - 1 ∨ ∃ i < n, (f.phdr i).isLoad = true ∧
    (f.phdr i).paddr = x.lowestPaddr ∧ (f.phdr i).vaddr = x.lowestVaddr
  entry : x.entryInExecSegment = true → ∃ i < n, (f.phdr i).isLoad = true ∧
    (f.phdr i).executable = true ∧ (f.phdr i).containsVirt f.header.entry = true

lemma scanned_start (f : FileData) : Scanned f 0 Extent.start :=
  ⟨fun i hi => absurd hi (by omega), .inl rfl, fun h => absurd h (by decide)⟩

variable {x : Extent}

lemma Scanned.skip {n : ℕ} (h : Scanned f n x) (hl : (f.phdr n).isLoad = false) :
    Scanned f (n + 1) x := by
  refine ⟨fun i hi hload => ?_, ?_, fun he => ?_⟩
  · rcases Nat.lt_succ_iff_lt_or_eq.mp hi with hi | rfl
    · exact h.segment i hi hload
    · rw [hl] at hload; cases hload
  · exact h.lowest.imp id fun ⟨i, hi, hrest⟩ => ⟨i, by omega, hrest⟩
  · obtain ⟨i, hi, hrest⟩ := h.entry he
    exact ⟨i, by omega, hrest⟩

lemma Segment.add {entry fin : ℕ} (h : Segment x ph)
    (hdelta : x.virtPhysDelta.any (· != ph'.delta) = false) : Segment (x.add entry ph' fin) ph := by
  obtain ⟨hsize, halign, hend, hlow, hhigh, hd⟩ := h
  refine ⟨hsize, halign, hend, ?_, ?_, ?_⟩
  · simp only [Extent.add]; split <;> omega
  · simp only [Extent.add]; split <;> omega
  · rw [hd] at hdelta
    have hsame : ph.delta = ph'.delta := by
      simpa only [Option.any_some, bne_eq_false_iff_eq] using hdelta
    exact congrArg some hsame.symm

inductive Scan (entry : ℕ) (x : Extent) (ph : Elf64Phdr) : Extent → Prop
  | skip (hl : ph.isLoad = false) : Scan entry x ph x
  | add (hl : ph.isLoad = true) (hsize : ph.filesz ≤ ph.memsz) (halign : pageSize ∣ ph.paddr)
      (hdelta : x.virtPhysDelta.any (· != ph.delta) = false) (hend : ph.paddr + ph.memsz < 2 ^ 64) :
      Scan entry x ph (x.add entry ph (ph.paddr + ph.memsz))

lemma spec_scanSegment (entry : ℕ) (x : Extent) (ph : Elf64Phdr) :
    Spec (At f s₀) (scanSegment entry x ph) (fun x' s => Scan entry x ph x' ∧ At f s₀ s)
      (Clean f) := by
  refine Spec.ite (fun hl => ?_) fun hl => Spec.pure fun s hs => ⟨.skip (by simpa using hl), hs⟩
  refine failIf_bind (fun s hs => hs.toClean) fun hsize => ?_
  refine failIf_bind (fun s hs => hs.toClean) fun halign => ?_
  refine failIf_bind (fun s hs => hs.toClean) fun hdelta => ?_
  have halign' : pageSize ∣ ph.paddr := Nat.dvd_of_mod_eq_zero (by simpa using halign)
  refine spec_checkedAdd fun hend => Spec.pure fun s hs => ⟨?_, hs⟩
  exact .add hl (by omega) halign' (by simpa using hdelta) hend

lemma Scanned.step {n : ℕ} {x' : Extent} (h : Scanned f n x)
    (hscan : Scan f.header.entry x (f.phdr n) x') : Scanned f (n + 1) x' := by
  cases hscan with
  | skip hl => exact h.skip hl
  | add hl hsize halign hdelta hend =>
    refine ⟨fun i hi hload => ?_, ?_, fun he => ?_⟩
    · rcases Nat.lt_succ_iff_lt_or_eq.mp hi with hi | rfl
      · exact (h.segment i hi hload).add hdelta
      · refine ⟨hsize, halign, hend, ?_, ?_, rfl⟩
        · simp only [Extent.add]; split <;> omega
        · simp only [Extent.add]; split <;> omega
    · by_cases hlt : (f.phdr n).paddr < x.lowestPaddr
      · exact .inr ⟨n, by omega, hl, (if_pos hlt).symm, (if_pos hlt).symm⟩
      · refine h.lowest.imp (fun hx => by rw [← hx]; exact if_neg hlt)
          fun ⟨i, hi, hload, hp, hv⟩ => ⟨i, by omega, hload, ?_, ?_⟩
        · rw [hp]; exact (if_neg hlt).symm
        · rw [hv]; exact (if_neg hlt).symm
    · simp only [Extent.add, Bool.or_eq_true, Bool.and_eq_true] at he
      rcases he with he | he
      · obtain ⟨i, hi, hrest⟩ := h.entry he
        exact ⟨i, by omega, hrest⟩
      · exact ⟨n, by omega, hl, he⟩

lemma Scanned.accepted {n : ℕ} {x' : Extent} (h : Scanned f n x)
    (hscan : Scan f.header.entry x (f.phdr n) x') (hentry : Elf64Phdr.size ≤ f.header.phentsize)
    (hin : f.header.phoff + n * f.header.phentsize + Elf64Phdr.size ≤ f.bytes.length) :
    f.Accepted n := by
  refine ⟨hentry, hin, fun hl => ?_⟩
  cases hscan with
  | skip hno => rw [hno] at hl; cases hl
  | add _ hsize halign hdelta hend =>
    refine ⟨hsize, halign, hend, fun j hj hlj => ?_⟩
    rw [(h.segment j hj hlj).delta] at hdelta
    simpa using hdelta

lemma spec_pass1 (hfit : ∀ i < f.header.phnum, Elf64Phdr.size ≤ f.header.phentsize →
      (∀ j < i, f.Accepted j) →
        f.header.phoff + i * f.header.phentsize + Elf64Phdr.size < 2 ^ 64) :
    Spec (At f s₀) (pass1 f f.header)
      (fun x s => (Scanned f f.header.phnum x ∧ f.TableFits) ∧ At f s₀ s) (Clean f) := by
  have hloop : Spec (At f s₀) (pass1 f f.header) (fun x s =>
      (Scanned f f.header.phnum x ∧ ∀ j < f.header.phnum, f.Accepted j) ∧ At f s₀ s) (Clean f) := by
    refine Spec.weaken (foldlM_range
      (I := fun n x s => (Scanned f n x ∧ ∀ j < n, f.Accepted j) ∧ At f s₀ s) _
      fun i hi x => Spec.assume fun ⟨hx, hacc⟩ => ?_)
      fun s hs => ⟨⟨scanned_start f, fun j hj => absurd hj (by omega)⟩, hs⟩
    refine spec_getPhdr (fun hentry => hfit i hi hentry hacc) fun hentry hin =>
      (spec_scanSegment f.header.entry x (f.phdr i)).post fun x' s ⟨hscan, hs⟩ =>
        ⟨⟨hx.step hscan, fun j hj => ?_⟩, hs⟩
    rcases Nat.lt_succ_iff_lt_or_eq.mp hj with hj | rfl
    · exact hacc j hj
    · exact hx.accepted hscan hentry hin
  exact hloop.post fun x s ⟨⟨hx, hacc⟩, hs⟩ => ⟨⟨hx, fun i hi =>
    hfit i hi (hacc i hi).entry fun j hj => hacc j (by omega)⟩, hs⟩

/-! ### Segments in memory -/

def Elf64Phdr.pages (ph : Elf64Phdr) : Set ℕ :=
  {p | ph.paddr / pageSize ≤ p ∧ p * pageSize < ph.paddr + ph.memsz}

structure Placed (f : FileData) (ph : Elf64Phdr) (s : Machine) : Prop where
  contents : ∀ j < ph.filesz, f.bytes[ph.offset + j]? = some (s.mem (ph.paddr + j))
  zeros : ∀ j, ph.filesz ≤ j → j < ph.memsz → s.mem (ph.paddr + j) = 0
  given : ∀ p ∈ ph.pages, s.given p = some ph.memoryType

structure Frame (ph : Elf64Phdr) (s t : Machine) : Prop where
  free : ∀ p ∈ ph.pages, s.given p = none
  given : ∀ p ∉ ph.pages, t.given p = s.given p
  mem : ∀ x, x / pageSize ∉ ph.pages → t.mem x = s.mem x

lemma mem_pages {j : ℕ} (hj : j < ph.memsz) : (ph.paddr + j) / pageSize ∈ ph.pages := by
  refine ⟨Nat.div_le_div_right (Nat.le_add_right _ _), ?_⟩
  have := Nat.div_mul_le_self (ph.paddr + j) pageSize
  omega

lemma Placed.disjoint (h : Placed f ph s) (hfr : Frame ph' s t) : Disjoint ph.pages ph'.pages := by
  rw [Set.disjoint_left]
  intro p hp hp'
  have := h.given p hp
  rw [hfr.free p hp'] at this
  cases this

lemma Placed.frame (h : Placed f ph s) (hsize : ph.filesz ≤ ph.memsz) (hfr : Frame ph' s t) :
    Placed f ph t := by
  have hdisj := Set.disjoint_left.mp (h.disjoint hfr)
  have hmem : ∀ j < ph.memsz, t.mem (ph.paddr + j) = s.mem (ph.paddr + j) :=
    fun j hj => hfr.mem _ (hdisj (mem_pages hj))
  refine ⟨fun j hj => ?_, fun j hj hj' => ?_, fun p hp => ?_⟩
  · rw [hmem j (by omega)]; exact h.contents j hj
  · rw [hmem j hj']; exact h.zeros j hj hj'
  · rw [hfr.given p (hdisj hp)]; exact h.given p hp

lemma pages_of_empty (halign : pageSize ∣ ph.paddr) (h0 : ph.memsz = 0) : ph.pages = ∅ := by
  refine Set.eq_empty_iff_forall_notMem.mpr fun p hp => ?_
  obtain ⟨hlo, hhi⟩ := hp
  have hle : ph.paddr / pageSize * pageSize ≤ p * pageSize := Nat.mul_le_mul_right _ hlo
  rw [Nat.div_mul_cancel halign] at hle
  omega

lemma spec_allocatePages {base count : ℕ} {type : MemoryType} {β : Type}
    {Q : β → Machine → Prop} {k : Unit → Loader β}
    (h : (∀ p, base / pageSize ≤ p → p < base / pageSize + count → s₀.given p = none) →
      Spec (At f (s₀.give (base / pageSize) count type)) (k ()) Q (Clean f)) :
    Spec (At f s₀) (allocatePages grants base type count >>= k) Q (Clean f) := by
  intro s hs
  by_cases hc : (grants base count &&
      (List.range count).all fun j => (s.given (base / pageSize + j)).isNone) = true
  · have hrun : allocatePages grants base type count s =
        .ok () (s.give (base / pageSize) count type) := if_pos hc
    rw [bind_eq hrun]
    refine h (fun p hlo hhi => ?_) _ ⟨⟨hs.wrapped, hs.inside⟩, hs.mem, ?_⟩
    · simp only [Bool.and_eq_true, List.all_eq_true, List.mem_range] at hc
      have hp := hc.2 (p - base / pageSize) (by omega)
      rw [Nat.add_sub_cancel' hlo, hs.given] at hp
      simpa using hp
    · simp only [Machine.give, hs.given]
  · have hrun : allocatePages grants base type count s = .error .allocationFailed s := if_neg hc
    rw [bind_eq_error hrun]
    exact hs.toClean

lemma pages_eq {segEnd : ℕ} (halign : pageSize ∣ ph.paddr) (hlo : ph.paddr + ph.memsz ≤ segEnd)
    (hhi : segEnd < ph.paddr + ph.memsz + pageSize) (hdvd : pageSize ∣ segEnd) (p : ℕ) :
    p ∈ ph.pages ↔
      ph.paddr / pageSize ≤ p ∧ p < ph.paddr / pageSize + (segEnd - ph.paddr) / pageSize := by
  obtain ⟨c, hc⟩ := halign
  obtain ⟨d, hd⟩ := hdvd
  have hpos : 0 < pageSize := by decide
  have hcd : c ≤ d := Nat.le_of_mul_le_mul_left (by omega) hpos
  have hbase : ph.paddr / pageSize = c := by rw [hc]; exact Nat.mul_div_cancel_left c hpos
  have hcount : (segEnd - ph.paddr) / pageSize = d - c := by
    rw [hc, hd, ← Nat.mul_sub]
    exact Nat.mul_div_cancel_left _ hpos
  rw [hbase, hcount]
  unfold Elf64Phdr.pages
  rw [Set.mem_ofPred_eq, hbase]
  refine and_congr_right fun hp => ⟨fun h => ?_, fun h => ?_⟩
  · have : p < d := by
      by_contra hge
      have := Nat.mul_le_mul_left pageSize (Nat.le_of_not_lt hge)
      rw [mul_comm pageSize p] at this
      omega
    omega
  · have : pageSize * (p + 1) ≤ pageSize * d := Nat.mul_le_mul_left _ (by omega)
    rw [mul_add, mul_comm pageSize p] at this
    omega

lemma getElem?_mem (f : FileData) {o : ℕ} (h : o < f.bytes.length) :
    f.bytes[o]? = some (f.mem o) := by
  simp [FileData.mem, h]

lemma copied {segEnd : ℕ} {m m' : Mem} (hsize : ph.filesz ≤ ph.memsz)
    (hlo : ph.paddr + ph.memsz ≤ segEnd)
    (hm : m' = (m.fill ph.paddr (segEnd - ph.paddr) 0).write ph.paddr
      (f.mem.read ph.offset ph.filesz)) :
    (∀ j < ph.filesz, m' (ph.paddr + j) = f.mem (ph.offset + j)) ∧
      (∀ j, ph.filesz ≤ j → j < ph.memsz → m' (ph.paddr + j) = 0) ∧
      ∀ x, x < ph.paddr ∨ segEnd ≤ x → m' x = m x := by
  subst hm
  have hlen : (f.mem.read ph.offset ph.filesz).length = ph.filesz := Mem.length_read _ _ _
  refine ⟨fun j hj => ?_, fun j hj hj' => ?_, fun x hx => ?_⟩
  · simp [Mem.write, Mem.read, hj]
  · rw [Mem.write_outside (by omega)]
    exact if_pos ⟨by omega, by omega⟩
  · rw [Mem.write_outside (by omega), Mem.fill_outside (by omega)]

/-- **Loading one segment.** It ends up in memory on pages that were free, and everything outside
these pages stays. -/
lemma spec_loadSegment (hl : ph.isLoad = true) (hsize : ph.filesz ≤ ph.memsz)
    (halign : pageSize ∣ ph.paddr) (hend : ph.paddr + ph.memsz < 2 ^ 64) :
    Spec (At f s₀) (loadSegment f grants ph)
      (fun _ t => Placed f ph t ∧ Frame ph s₀ t ∧ Clean f t) (Clean f) := by
  refine Spec.ite (fun hskip => Spec.pure fun s hs => ?_) fun _ => ?_
  · -- a segment without memory has no pages
    have h0 : ph.memsz = 0 := by simpa [hl] using hskip
    have hnone := pages_of_empty halign h0
    refine ⟨⟨fun j hj => by omega, fun j _ hj => by omega, fun p hp => ?_⟩,
      ⟨fun p hp => ?_, fun p _ => congrFun hs.given p, fun x _ => congrFun hs.mem x⟩, hs.toClean⟩
    · rw [hnone] at hp; exact absurd hp (Set.notMem_empty p)
    · rw [hnone] at hp; exact absurd hp (Set.notMem_empty p)
  refine spec_checkedAdd fun hfile => failIf_bind (fun s hs => hs.toClean) fun hlen => ?_
  refine spec_unchecked hend (spec_checkedNextPage fun segEnd hlo hhi hdvd => ?_)
  refine spec_allocatePages fun hfree => spec_noteRead (by omega) (Spec.modify fun s hs => ?_)
  have hpages := pages_eq halign hlo hhi hdvd
  obtain ⟨hcontents, hzeros, hout⟩ := copied (f := f) (m := s.mem) hsize hlo rfl
  refine ⟨⟨fun j hj => ?_, hzeros, fun p hp => ?_⟩,
    ⟨fun p hp => ?_, fun p hp => ?_, fun x hx => ?_⟩, hs.wrapped, hs.inside⟩
  · rw [getElem?_mem f (by omega)]
    exact congrArg some (hcontents j hj).symm
  · exact (congrFun hs.given p).trans (if_pos ((hpages p).mp hp))
  · exact hfree p ((hpages p).mp hp).1 ((hpages p).mp hp).2
  · exact (congrFun hs.given p).trans (if_neg fun h => hp ((hpages p).mpr h))
  · refine (hout x ?_).trans (congrFun hs.mem x)
    -- an address between the ends lies on a page of the segment
    by_contra hin
    refine hx ((hpages _).mpr ⟨Nat.div_le_div_right (by omega), ?_⟩)
    obtain ⟨c, hc⟩ := halign
    obtain ⟨d, hd⟩ := hdvd
    rw [hc, hd, ← Nat.mul_sub, Nat.mul_div_cancel_left _ (by decide : 0 < pageSize),
      Nat.mul_div_cancel_left _ (by decide : 0 < pageSize)]
    have hx' : x / pageSize < d := (Nat.div_lt_iff_lt_mul (by decide)).mpr (by rw [mul_comm]; omega)
    omega

/-- The segments of the first `n` headers are in memory, on different pages. -/
structure Loaded (f : FileData) (n : ℕ) (s : Machine) : Prop extends Clean f s where
  placed : ∀ i < n, (f.phdr i).isLoad = true → Placed f (f.phdr i) s
  disjoint : ∀ i < n, ∀ j < i, (f.phdr i).isLoad = true → (f.phdr j).isLoad = true →
    Disjoint (f.phdr j).pages (f.phdr i).pages

lemma Placed.congr (h : Placed f ph s) (hmem : t.mem = s.mem) (hgiven : t.given = s.given) :
    Placed f ph t :=
  ⟨fun j hj => by rw [hmem]; exact h.contents j hj,
    fun j hj hj' => by rw [hmem]; exact h.zeros j hj hj',
    fun p hp => by rw [hgiven]; exact h.given p hp⟩

lemma spec_pass2 (hfit : f.TableFits) (hx : Scanned f f.header.phnum x) :
    Spec (Clean f) (pass2 f grants f.header) (fun _ => Loaded f f.header.phnum) (Clean f) := by
  refine Spec.weaken (forM_range (I := Loaded f) fun i hi => ?_) fun s hs =>
    ⟨hs, fun i hi => absurd hi (by omega), fun i hi => absurd hi (by omega)⟩
  refine spec_at (fun s hs => hs.toClean) fun s hs =>
    spec_getPhdr (fun _ => hfit i hi) fun _ _ => ?_
  by_cases hl : (f.phdr i).isLoad = true
  · have hseg := hx.segment i hi hl
    refine (spec_loadSegment hl hseg.filesz_le hseg.aligned hseg.end_lt).post
      fun _ t ⟨hplaced, hframe, hclean⟩ => ?_
    refine ⟨hclean, fun j hj hlj => ?_, fun j hj k hk hlj hlk => ?_⟩
    · rcases Nat.lt_succ_iff_lt_or_eq.mp hj with hj | rfl
      · exact (hs.placed j hj hlj).frame (hx.segment j (by omega) hlj).filesz_le hframe
      · exact hplaced
    · rcases Nat.lt_succ_iff_lt_or_eq.mp hj with hj | rfl
      · exact hs.disjoint j hj k hk hlj hlk
      · exact (hs.placed k hk hlk).disjoint hframe
  · have hl : (f.phdr i).isLoad = false := by simpa using hl
    unfold loadSegment
    rw [if_pos (.inl hl)]
    refine Spec.pure fun u hu => ⟨hu.toClean, fun j hj hlj => ?_, fun j hj k hk hlj hlk => ?_⟩
    · rcases Nat.lt_succ_iff_lt_or_eq.mp hj with hj | rfl
      · exact (hs.placed j hj hlj).congr hu.mem hu.given
      · rw [hl] at hlj; cases hlj
    · rcases Nat.lt_succ_iff_lt_or_eq.mp hj with hj | rfl
      · exact hs.disjoint j hj k hk hlj hlk
      · rw [hl] at hlj; cases hlj

/-! ### The whole loader -/

lemma entry_translated {entry : ℕ} (hlow : x.lowestPaddr ≤ ph.paddr)
    (hend : ph.paddr + ph.memsz < 2 ^ 64) (hdelta : ph'.delta = ph.delta)
    (hp : ph'.paddr = x.lowestPaddr) (hv : ph'.vaddr = x.lowestVaddr) (hvlt : ph'.vaddr < 2 ^ 64)
    (hin : ph.containsVirt entry = true) :
    (2 ^ 64 - x.lowestVaddr + entry) % 2 ^ 64 + x.lowestPaddr = ph.paddr + (entry - ph.vaddr) := by
  simp only [Elf64Phdr.containsVirt, Bool.and_eq_true, decide_eq_true_eq] at hin
  simp only [Elf64Phdr.delta, hp, hv] at hdelta hvlt
  omega

/-- What `load_elf` gives back and leaves in memory. -/
structure Outcome (f : FileData) (k : LoadedKernel) (s : Machine) : Prop
    extends Loaded f f.header.phnum s where
  within : ∀ i < f.header.phnum, (f.phdr i).isLoad = true → (f.phdr i).filesz ≤ (f.phdr i).memsz ∧
    k.physBase ≤ (f.phdr i).paddr ∧ (f.phdr i).paddr + (f.phdr i).memsz ≤ k.physBase + k.size
  entry : ∃ i < f.header.phnum, (f.phdr i).isLoad = true ∧ (f.phdr i).executable = true ∧
    (f.phdr i).vaddr ≤ f.header.entry ∧ f.header.entry - (f.phdr i).vaddr < (f.phdr i).memsz ∧
    k.entry = (f.phdr i).paddr + (f.header.entry - (f.phdr i).vaddr)

lemma spec_loadElf (hfit : ∀ i, f.Reached i →
      f.header.phoff + i * f.header.phentsize + Elf64Phdr.size < 2 ^ 64) :
    Spec (Clean f) (loadElf f grants) (Outcome f) (Clean f) := by
  refine spec_at (fun s hs => hs) fun s₀ _ => ?_
  refine failIf_bind (fun s hs => hs.toClean) fun hlen => ?_
  refine spec_noteRead (by omega) ?_
  refine failIf_bind (fun s hs => hs.toClean) fun hmagic => ?_
  refine failIf_bind (fun s hs => hs.toClean) fun hclass => ?_
  refine failIf_bind (fun s hs => hs.toClean) fun hdata => ?_
  refine failIf_bind (fun s hs => hs.toClean) fun hmachine => ?_
  have hid : f.Identified := ⟨by omega, not_not.mp hmagic, not_not.mp hclass, not_not.mp hdata,
    not_not.mp hmachine⟩
  refine Spec.bind (spec_pass1 fun i hi hentry hacc => hfit i ⟨hid, hi, hentry, hacc⟩) fun x =>
    Spec.assume fun ⟨hx, hfits⟩ => ?_
  refine failIf_bind (fun s hs => hs.toClean) fun hsome => ?_
  refine failIf_bind (fun s hs => hs.toClean) fun hexec => ?_
  refine Spec.weaken (Spec.bind (spec_pass2 hfits hx) fun _ => ?_) fun s hs => hs.toClean
  obtain ⟨i, hi, hli, hex, hin⟩ := hx.entry (by simpa using hexec)
  obtain ⟨j, hj, hlj, hpj, hvj⟩ := hx.lowest.resolve_left hsome
  have hseg := hx.segment i hi hli
  have hdelta : (f.phdr j).delta = (f.phdr i).delta :=
    Option.some.inj ((hx.segment j hj hlj).delta.symm.trans hseg.delta)
  have hphys := entry_translated hseg.lowest_le hseg.end_lt hdelta hpj hvj (Mem.readLe_lt _ _ 8) hin
  simp only [Elf64Phdr.containsVirt, Bool.and_eq_true, decide_eq_true_eq] at hin
  have hlt : (2 ^ 64 - x.lowestVaddr + f.header.entry) % 2 ^ 64 + x.lowestPaddr < 2 ^ 64 := by
    have := hseg.end_lt
    omega
  refine spec_at (fun s hs => hs.toClean) fun s hs => spec_unchecked hlt (Spec.pure fun t ht => ?_)
  refine ⟨⟨ht.toClean, fun k hk hlk => (hs.placed k hk hlk).congr ht.mem ht.given, hs.disjoint⟩,
    fun k hk hlk => ?_, i, hi, hli, hex, hin.1, hin.2, hphys⟩
  have hk := hx.segment k hk hlk
  have hlow := hk.lowest_le
  have hhigh := hk.le_highest
  refine ⟨hk.filesz_le, hlow, ?_⟩
  show _ ≤ x.lowestPaddr + (x.highestEnd - x.lowestPaddr)
  omega

lemma clean_start (f : FileData) (mem : Mem) (given : ℕ → Option MemoryType) :
    Clean f (.start mem given) := ⟨rfl, fun r hr => by cases hr⟩

/-! ### Offsets that wrap -/

def Wrapped (s : Machine) : Prop := s.wrapped = true

section Wraps

variable {i n : ℕ} {hdr : Elf64Header}

lemma keeps_wrapped_modify {g : Machine → Machine} (h : ∀ s, (g s).wrapped = s.wrapped) :
    Keeps Wrapped (modify g : Loader Unit) :=
  Spec.modify fun s hs => (h s).trans hs

lemma keeps_wrapped_unchecked (v : ℕ) : Keeps Wrapped (unchecked v) := by
  refine Keeps.bind (Spec.modify fun s hs => ?_) fun _ => Keeps.pure _
  have hw : s.wrapped = true := hs
  simp [Wrapped, hw]

lemma keeps_wrapped_checkedAdd (a b : ℕ) : Keeps Wrapped (checkedAdd a b) :=
  Keeps.ite (Keeps.pure _) Keeps.throw

/-- `get_phdr` once the offset is computed. -/
def readPhdr (f : FileData) (offset fin : ℕ) : Loader Elf64Phdr := do
  failIf (f.bytes.length < fin) .phdrOutOfBounds
  noteRead offset Elf64Phdr.size
  pure (Elf64Phdr.parse f.mem offset)

lemma keeps_wrapped_readPhdr (offset fin : ℕ) : Keeps Wrapped (readPhdr f offset fin) :=
  Keeps.failIf_bind fun _ => Keeps.bind (keeps_wrapped_modify fun _ => rfl) fun _ => Keeps.pure _

lemma getPhdr_eq {phoff phentsize : ℕ} (hentry : Elf64Phdr.size ≤ phentsize) (s : Machine) :
    getPhdr f phoff phentsize i s =
      readPhdr f ((phoff + i * phentsize % 2 ^ 64) % 2 ^ 64)
        (((phoff + i * phentsize % 2 ^ 64) % 2 ^ 64 + Elf64Phdr.size) % 2 ^ 64)
        { s with
          wrapped := s.wrapped || decide (2 ^ 64 ≤ i * phentsize) ||
            decide (2 ^ 64 ≤ phoff + i * phentsize % 2 ^ 64) ||
            decide (2 ^ 64 ≤ (phoff + i * phentsize % 2 ^ 64) % 2 ^ 64 + Elf64Phdr.size) } := by
  have hpass : failIf (phentsize < Elf64Phdr.size) ElfError.phentsizeTooSmall s = .ok () s := by
    simp only [failIf, if_neg (Nat.not_lt.mpr hentry)]
    rfl
  rw [getPhdr, bind_eq hpass]
  rfl

lemma keeps_wrapped_getPhdr (phoff phentsize i : ℕ) :
    Keeps Wrapped (getPhdr f phoff phentsize i) :=
  Keeps.failIf_bind fun _ => Keeps.bind (keeps_wrapped_unchecked _) fun _ =>
    Keeps.bind (keeps_wrapped_unchecked _) fun _ =>
      Keeps.bind (keeps_wrapped_unchecked _) fun _ => keeps_wrapped_readPhdr _ _

lemma keeps_wrapped_scanSegment (entry : ℕ) (x : Extent) (ph : Elf64Phdr) :
    Keeps Wrapped (scanSegment entry x ph) :=
  Keeps.ite (Keeps.failIf_bind fun _ => Keeps.failIf_bind fun _ => Keeps.failIf_bind fun _ =>
    Keeps.bind (keeps_wrapped_checkedAdd _ _) fun _ => Keeps.pure _) (Keeps.pure _)

lemma keeps_wrapped_pass2 : Keeps Wrapped (pass2 f grants hdr) := by
  refine Keeps.forM_list fun i _ => Keeps.bind (keeps_wrapped_getPhdr _ _ i) fun ph =>
    Keeps.ite (Keeps.pure _) ?_
  refine Keeps.bind (keeps_wrapped_checkedAdd _ _) fun _ => Keeps.failIf_bind fun _ => ?_
  refine Keeps.bind (keeps_wrapped_unchecked _) fun _ => ?_
  refine Keeps.bind (Keeps.ite (Keeps.pure _) Keeps.throw) fun segEnd => ?_
  refine Keeps.bind (fun s hs => ?_) fun _ => Keeps.bind (keeps_wrapped_modify fun _ => rfl)
    fun _ => keeps_wrapped_modify fun _ => rfl
  unfold allocatePages
  dsimp only
  split_ifs
  · exact hs
  · exact hs

lemma wraps_getPhdr (hentry : Elf64Phdr.size ≤ f.header.phentsize)
    (hwrap : 2 ^ 64 ≤ f.header.phoff + i * f.header.phentsize + Elf64Phdr.size) :
    Spec (fun _ => True) (getPhdr f f.header.phoff f.header.phentsize i) (fun _ => Wrapped)
      Wrapped := by
  intro s _
  rw [getPhdr_eq hentry]
  refine keeps_wrapped_readPhdr _ _ _ ?_
  simp only [Wrapped, Bool.or_eq_true, decide_eq_true_eq]
  omega

lemma getPhdr_ok (h : f.Accepted i)
    (hfit : f.header.phoff + i * f.header.phentsize + Elf64Phdr.size < 2 ^ 64) (s : Machine) :
    ∃ t, getPhdr f f.header.phoff f.header.phentsize i s = .ok (f.phdr i) t := by
  have hskip : i * f.header.phentsize % 2 ^ 64 = i * f.header.phentsize :=
    Nat.mod_eq_of_lt (by omega)
  have hoffset : (f.header.phoff + i * f.header.phentsize) % 2 ^ 64 =
      f.header.phoff + i * f.header.phentsize := Nat.mod_eq_of_lt (by omega)
  rw [getPhdr_eq h.entry, hskip, hoffset, Nat.mod_eq_of_lt hfit]
  unfold readPhdr
  rw [bind_eq (by simp only [failIf, if_neg (Nat.not_lt.mpr h.inside)]; rfl)]
  exact ⟨_, rfl⟩

/-- The delta that pass 1 has noted is that of a segment among the first `n` headers. -/
def Noted (f : FileData) (n : ℕ) (x : Extent) : Prop :=
  ∀ d ∈ x.virtPhysDelta, ∃ j < n, (f.phdr j).isLoad = true ∧ (f.phdr j).delta = d

lemma scanSegment_ok (h : f.Accepted n) (hx : Noted f n x) (s : Machine) :
    ∃ x', scanSegment f.header.entry x (f.phdr n) s = .ok x' s ∧ Noted f (n + 1) x' := by
  by_cases hl : (f.phdr n).isLoad = true
  · obtain ⟨hsize, halign, hend, hdelta⟩ := h.segment hl
    have hsame : ¬ x.virtPhysDelta.any (· != (f.phdr n).delta) = true := by
      intro hany
      obtain ⟨d, hd, hne⟩ := (Option.any_eq_true _ _).mp hany
      obtain ⟨j, hj, hlj, rfl⟩ := hx d hd
      simp [hdelta j hj hlj] at hne
    refine ⟨x.add f.header.entry (f.phdr n) ((f.phdr n).paddr + (f.phdr n).memsz), ?_,
      fun d hd => ⟨n, by omega, hl, Option.some.inj hd⟩⟩
    simp only [scanSegment, if_pos hl, failIf, if_neg (Nat.not_lt.mpr hsize),
      if_neg (not_not.mpr (Nat.mod_eq_zero_of_dvd halign)), if_neg hsame, checkedAdd, if_pos hend]
    rfl
  · refine ⟨x, by simp only [scanSegment, if_neg hl]; rfl, fun d hd => ?_⟩
    obtain ⟨j, hj, hrest⟩ := hx d hd
    exact ⟨j, by omega, hrest⟩

lemma wraps_pass1 (h : f.Reached i)
    (hwrap : 2 ^ 64 ≤ f.header.phoff + i * f.header.phentsize + Elf64Phdr.size)
    (hfirst : ∀ j < i, f.header.phoff + j * f.header.phentsize + Elf64Phdr.size < 2 ^ 64) :
    Spec (fun _ => True) (pass1 f f.header) (fun _ => Wrapped) Wrapped := by
  refine Spec.post (Spec.weaken (foldlM_range
    (I := fun n x s => Wrapped s ∨ n ≤ i ∧ Noted f n x) _ fun n hn x s hs => ?_)
    fun s _ => .inr ⟨Nat.zero_le _, fun d hd => by cases hd⟩) fun x s hs => ?_
  · rcases hs with hs | ⟨hle, hx⟩
    · exact (Keeps.bind (keeps_wrapped_getPhdr _ _ n) fun ph =>
        keeps_wrapped_scanSegment _ x ph).post (fun _ _ => .inl) s hs
    · rcases Nat.lt_or_eq_of_le hle with hlt | rfl
      · obtain ⟨t, hget⟩ := getPhdr_ok (h.accepted n hlt) (hfirst n hlt) s
        obtain ⟨x', hscan, hx'⟩ := scanSegment_ok (h.accepted n hlt) hx t
        rw [bind_eq hget, hscan]
        exact .inr ⟨hlt, hx'⟩
      · exact (Spec.bind (wraps_getPhdr h.entry hwrap) fun ph =>
          keeps_wrapped_scanSegment _ x ph).post (fun _ _ => .inl) s trivial
  · exact hs.resolve_right fun hend => absurd h.lt (by omega)

lemma wraps_loadElf (h : f.Reached i)
    (hwrap : 2 ^ 64 ≤ f.header.phoff + i * f.header.phentsize + Elf64Phdr.size) :
    Spec (fun _ => True) (loadElf f grants) (fun _ => Wrapped) Wrapped := by
  induction i using Nat.strong_induction_on with
  | _ i ih =>
  by_cases hsmall : ∃ j < i, 2 ^ 64 ≤ f.header.phoff + j * f.header.phentsize + Elf64Phdr.size
  · obtain ⟨j, hj, hwrap'⟩ := hsmall
    exact ih j hj ⟨h.toIdentified, hj.trans h.lt, h.entry, fun k hk => h.accepted k (hk.trans hj)⟩
      hwrap'
  · have hfirst : ∀ j < i, f.header.phoff + j * f.header.phentsize + Elf64Phdr.size < 2 ^ 64 :=
      fun j hj => Nat.lt_of_not_le fun hle => hsmall ⟨j, hj, hle⟩
    refine passIf_bind (Nat.not_lt.mpr h.length) (Spec.bind (R := fun _ _ => True)
      (Spec.modify fun _ _ => trivial) fun _ => ?_)
    refine passIf_bind (not_not.mpr h.magic) (passIf_bind (not_not.mpr h.elf64) ?_)
    refine passIf_bind (not_not.mpr h.littleEndian) (passIf_bind (not_not.mpr h.aarch64) ?_)
    refine Spec.bind (wraps_pass1 h hwrap hfirst) fun x => ?_
    exact Keeps.failIf_bind fun _ => Keeps.failIf_bind fun _ =>
      Keeps.bind keeps_wrapped_pass2 fun _ => Keeps.bind (keeps_wrapped_unchecked _) fun _ =>
        Keeps.pure _

end Wraps

/-- **ELF parsing stays in bounds.** Every byte the loader reads lies in the file and no addition or
multiplication wraps, whether it succeeds or fails, exactly when the offset of every program header
that it gets to does not wrap. -/
theorem load_elf_in_bounds (f : FileData) (grants : ℕ → ℕ → Bool) (mem : Mem)
    (given : ℕ → Option MemoryType) :
    ((state (loadElf f grants (.start mem given))).wrapped = false ∧
      ∀ r ∈ (state (loadElf f grants (.start mem given))).reads, r.1 + r.2 ≤ f.bytes.length) ↔
      ∀ i, f.Reached i →
        f.header.phoff + i * f.header.phentsize + Elf64Phdr.size < 2 ^ 64 := by
  refine ⟨fun h i hi => ?_, fun hfit => ?_⟩
  · by_contra hwrap
    have hend : Wrapped (state (loadElf f grants (.start mem given))) :=
      (wraps_loadElf hi (Nat.le_of_not_lt hwrap)).state (fun _ _ h => h) trivial
    rw [Wrapped, h.1] at hend
    cases hend
  · have hend : Clean f (state (loadElf f grants (.start mem given))) :=
      (spec_loadElf hfit).state (fun k t h => h.toClean) (clean_start f mem given)
    exact ⟨hend.wrapped, hend.inside⟩

/-- Code and data, linked high, each with two bytes in memory that are not in the file. -/
def twoSegments : FileData where
  bytes := Elf64Header.bytes 0xFFFF000000080001 64 Elf64Phdr.size 2 ++
    Elf64Phdr.bytes ⟨ptLoad, 5, 176, 0xFFFF000000080000, 0x80000, 3, 5⟩ ++
    Elf64Phdr.bytes ⟨ptLoad, 6, 179, 0xFFFF000000081000, 0x81000, 2, 4⟩ ++ [1, 2, 3, 4, 5]
  around _ := 0

theorem load_elf_in_bounds_twoSegments :
    answer (loadElf twoSegments (fun _ _ => true) (.start (fun _ => 7) fun _ => none)) =
        some ⟨0x80001, 0x80000, 0x1004⟩ ∧
      twoSegments.TableFits ∧
      ∀ r ∈ (state (loadElf twoSegments (fun _ _ => true)
          (.start (fun _ => 7) fun _ => none))).reads,
        r.1 + r.2 ≤ twoSegments.bytes.length := by
  have hfit : twoSegments.TableFits := by decide +kernel
  exact ⟨by decide +kernel, hfit, ((load_elf_in_bounds _ _ _ _).mpr fun i hi => hfit i hi.lt).2⟩

/-- A table of two headers whose offsets wrap: the first starts 56 bytes before the file, and the
second, a segment, follows the file's header. -/
def wrappedTable : FileData where
  bytes := Elf64Header.bytes 0x80000 (2 ^ 64 - Elf64Phdr.size) 120 2 ++
    Elf64Phdr.bytes ⟨ptLoad, 5, 0, 0x80000, 0x80000, 0, 1⟩
  around _ := 0

/-- Without the condition the load can succeed although an addition wrapped and bytes outside the
file were read. -/
theorem load_elf_reads_outside :
    answer (loadElf wrappedTable (fun _ _ => true) (.start (fun _ => 7) fun _ => none)) =
        some ⟨0x80000, 0x80000, 1⟩ ∧
      (state (loadElf wrappedTable (fun _ _ => true) (.start (fun _ => 7) fun _ => none))).wrapped =
        true ∧
      (2 ^ 64 - Elf64Phdr.size, Elf64Phdr.size) ∈
        (state (loadElf wrappedTable (fun _ _ => true) (.start (fun _ => 7) fun _ => none))).reads ∧
      wrappedTable.bytes.length = 120 := by
  refine ⟨by decide +kernel, by decide +kernel, by decide +kernel, by decide +kernel⟩

/-- **ELF loading is faithful.** What was loaded is in memory, on pages that no two segments with
memory share, inside the range that is reported; the entry point reported lies in an executable
segment, at the offset the file gives it there. -/
theorem load_elf_faithful (f : FileData) (grants : ℕ → ℕ → Bool) (mem : Mem)
    (given : ℕ → Option MemoryType) (k : LoadedKernel) (t : Machine) (hfit : f.TableFits)
    (h : loadElf f grants (.start mem given) = .ok k t) :
    (∀ i < f.header.phnum, (f.phdr i).isLoad = true →
      (∀ j < (f.phdr i).filesz,
        f.bytes[(f.phdr i).offset + j]? = some (t.mem ((f.phdr i).paddr + j))) ∧
      (∀ j, (f.phdr i).filesz ≤ j → j < (f.phdr i).memsz → t.mem ((f.phdr i).paddr + j) = 0) ∧
      (f.phdr i).filesz ≤ (f.phdr i).memsz ∧
      k.physBase ≤ (f.phdr i).paddr ∧
      (f.phdr i).paddr + (f.phdr i).memsz ≤ k.physBase + k.size) ∧
    (∀ i < f.header.phnum, ∀ j < f.header.phnum, i ≠ j →
      (f.phdr i).isLoad = true → (f.phdr j).isLoad = true →
      Disjoint (f.phdr i).pages (f.phdr j).pages) ∧
    ∃ i < f.header.phnum, (f.phdr i).isLoad = true ∧ (f.phdr i).executable = true ∧
      (f.phdr i).vaddr ≤ f.header.entry ∧ f.header.entry - (f.phdr i).vaddr < (f.phdr i).memsz ∧
      k.entry = (f.phdr i).paddr + (f.header.entry - (f.phdr i).vaddr) := by
  have hout := (spec_loadElf fun i hi => hfit i hi.lt).ok (clean_start f mem given) h
  refine ⟨fun i hi hl => ?_, fun i hi j hj hne hli hlj => ?_, hout.entry⟩
  · have hp := hout.placed i hi hl
    exact ⟨hp.contents, hp.zeros, hout.within i hi hl⟩
  · rcases Nat.lt_or_gt_of_ne hne with hlt | hgt
    · exact hout.disjoint j hj i hlt hlj hli
    · exact (hout.disjoint i hi j hgt hli hlj).symm

theorem load_elf_faithful_twoSegments :
    ∃ t, loadElf twoSegments (fun _ _ => true) (.start (fun _ => 7) fun _ => none) =
        .ok ⟨0x80001, 0x80000, 0x1004⟩ t ∧
      twoSegments.bytes[176]? = some (t.mem 0x80000) ∧ t.mem 0x80003 = 0 ∧
      twoSegments.bytes[180]? = some (t.mem 0x81001) ∧ t.mem 0x81003 = 0 := by
  have hfit : twoSegments.TableFits := by decide +kernel
  have hans : answer (loadElf twoSegments (fun _ _ => true) (.start (fun _ => 7) fun _ => none)) =
      some ⟨0x80001, 0x80000, 0x1004⟩ := by decide +kernel
  have hrun := eq_ok_state hans
  have hcode : twoSegments.phdr 0 = ⟨ptLoad, 5, 176, 0xFFFF000000080000, 0x80000, 3, 5⟩ := by
    decide +kernel
  have hdata : twoSegments.phdr 1 = ⟨ptLoad, 6, 179, 0xFFFF000000081000, 0x81000, 2, 4⟩ := by
    decide +kernel
  have hload := (load_elf_faithful twoSegments _ _ _ _ _ hfit hrun).1
  obtain ⟨hbytes, hzeros, -⟩ := hload 0 (by decide +kernel) (by rw [hcode]; rfl)
  obtain ⟨hbytes', hzeros', -⟩ := hload 1 (by decide +kernel) (by rw [hdata]; rfl)
  rw [hcode] at hbytes hzeros
  rw [hdata] at hbytes' hzeros'
  have hfirst := hbytes 0 (by decide)
  have hzero := hzeros 3 (by decide) (by decide)
  have hlast := hbytes' 1 (by decide)
  have hzero' := hzeros' 3 (by decide) (by decide)
  simp only [Nat.reduceAdd] at hfirst hzero hlast hzero'
  exact ⟨_, hrun, hfirst, hzero, hlast, hzero'⟩

end Aios.Boot
