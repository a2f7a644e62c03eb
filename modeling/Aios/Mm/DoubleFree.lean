import Aios.Mm.Coalescing

/-!
What the poison check of `free_pages` finds.

The check reads the first word at the address. Beside the allocator a run carries a mark for
each page: who wrote its first word last. It is a link when the page has become the start of a
listed block, the fill when it has been freed since, and data when it belongs to a holder or
still has the contents from before init. Links are never the pattern and the fill always is.
-/

namespace Aios.Mm

open Aios.Lib List Option

inductive Mark
  | link
  | fill
  | data
  deriving DecidableEq, Repr

def Buddy.freeList (b : Buddy) (o : ℕ) : List ℕ :=
  nodes b.next ((b.endAddr - b.base) / pageSize + 1) (b.freeHeads o)

def Buddy.isFront (b : Buddy) (p : ℕ) : Bool :=
  (List.range (maxOrder + 1)).any fun o => (b.freeList o).any fun a => a / pageSize == p

def Sys.isHeld (s : Sys) (p : ℕ) : Bool := s.held.any fun x => decide (p ∈ blockPages x)

structure Traced where
  sys : Sys
  mark : ℕ → Mark

namespace Traced

/-- The marks after a step to `s` that has freed the pages `freed`. -/
def remark (s : Sys) (freed : ℕ → Bool) (mark : ℕ → Mark) (p : ℕ) : Mark :=
  if s.buddy.isFront p then .link
  else if s.isHeld p then .data
  else if freed p then .fill
  else mark p

def freed : Call → ℕ → Bool
  | .free addr order, p => decide (p ∈ blockPages (addr, order))
  | _, _ => false

def next (t : Traced) (c : Call) : Option Traced :=
  (t.sys.next c).map fun s => ⟨s, remark s (freed c) t.mark⟩

def boot (i : Setup) (mem : Mem) : Traced :=
  ⟨Sys.boot i mem, remark (Sys.boot i mem) (fun _ => false) fun _ => .data⟩

/-- The word at the address tells whether the block is handed out: its holder has not left the
pattern there; or the block is not handed out, the address is one that the assertions let through,
and the word was last written by the fill, or it is data that happens to be the pattern. -/
def Told (t : Traced) (addr order : ℕ) : Prop :=
  if (addr, order) ∈ t.sys.held then t.sys.buddy.mem.readLe addr 4 ≠ poisonPattern
  else t.sys.buddy.Frees addr ∧ (t.mark (addr / pageSize) = .fill ∨
    t.mark (addr / pageSize) = .data ∧ t.sys.buddy.mem.readLe addr 4 = poisonPattern)

instance (t : Traced) (addr order : ℕ) : Decidable (t.Told addr order) := by
  unfold Told
  infer_instance

def Ok (t : Traced) : Call → Prop
  | .free addr order => t.Told addr order
  | c => c.Fits t.sys

instance (t : Traced) (c : Call) : Decidable (t.Ok c) :=
  match c with
  | .alloc order => inferInstanceAs (Decidable ((Call.alloc order).Fits t.sys))
  | .free addr order => inferInstanceAs (Decidable (t.Told addr order))
  | .store addr bytes => inferInstanceAs (Decidable ((Call.store addr bytes).Fits t.sys))

end Traced

section Fill

variable {a o i p : ℕ} {m : Mem}

lemma readLe_fillWord (j : ℕ) (h : m.readLe (a + 4 * i) 4 = poisonPattern) :
    (m.writeLe (a + 4 * j) 4 poisonPattern).readLe (a + 4 * i) 4 = poisonPattern := by
  by_cases hij : j = i
  · subst hij
    exact Mem.readLe_writeLe (by decide)
  · rw [Mem.readLe_writeLe_outside (by omega), h]

lemma readLe_fillWords {l : List ℕ} (h : i ∈ l ∨ m.readLe (a + 4 * i) 4 = poisonPattern) :
    (l.foldl (fun m j => m.writeLe (a + 4 * j) 4 poisonPattern) m).readLe (a + 4 * i) 4 =
      poisonPattern := by
  induction l generalizing m with
  | nil => exact h.resolve_left (by simp)
  | cons j l ih =>
    rw [foldl_cons]
    refine ih ?_
    rcases h with h | h
    · rcases mem_cons.mp h with rfl | h
      · exact .inr (Mem.readLe_writeLe (by decide))
      · exact .inl h
    · exact .inr (readLe_fillWord j h)

lemma readLe_poison (ha : pageSize ∣ a) (hp : p ∈ blockPages (a, o)) :
    (Buddy.poison m a o).readLe (p * pageSize) 4 = poisonPattern := by
  obtain ⟨h1, h2⟩ := Finset.mem_Ico.mp hp
  have hword : p * pageSize = a + 4 * ((p * pageSize - a) / 4) := by
    simp only [pageSize] at *
    omega
  rw [hword]
  refine readLe_fillWords (.inl (mem_range.mpr ?_))
  simp only [blockSize, pageSize] at *
  omega

end Fill

section Panic

lemma remove_ne_doubleFree (b : Buddy) (t o : ℕ) :
    b.removeFromFreeList t o ≠ .error .doubleFree := by
  intro h
  unfold Buddy.removeFromFreeList at h
  dsimp only at h
  split_ifs at h
  · cases h
  · split at h <;> cases h

lemma coalesce_ne_doubleFree (n : ℕ) (b : Buddy) (a o : ℕ) :
    Buddy.coalesce n b a o ≠ .error .doubleFree := by
  induction n generalizing b a o with
  | zero => exact fun h => by cases h
  | succ n ih =>
    intro h
    unfold Buddy.coalesce at h
    generalize b.bitmapToggle a o = r at h
    obtain ⟨bit, b1⟩ := r
    cases bit with
    | true => cases h
    | false =>
      simp only at h
      split_ifs at h
      generalize hrem : b1.removeFromFreeList (buddyOf a b1.base o) o = r at h
      match r with
      | .error e =>
        cases h
        exact remove_ne_doubleFree _ _ _ hrem
      | .ok (false, b2) => cases h
      | .ok (true, b2) => exact ih _ _ _ h

lemma free_doubleFree_iff {b : Buddy} {a o : ℕ} (hinit : b.initialized = true) :
    b.freePages a o = .error .doubleFree ↔ b.Frees a ∧ b.mem.readLe a 4 = poisonPattern := by
  unfold Buddy.freePages
  by_cases hargs : b.Frees a
  swap
  · rw [if_pos hargs]
    exact iff_of_false (fun h => by cases h) fun h => hargs h.1
  rw [if_neg (not_not.mpr hargs), if_neg (by simp [hinit])]
  by_cases hp : b.mem.readLe a 4 = poisonPattern
  · rw [if_pos hp]
    exact iff_of_true rfl ⟨hargs, hp⟩
  · rw [if_neg hp]
    refine iff_of_false (fun h => ?_) fun h => hp h.2
    generalize hco : Buddy.coalesce (maxOrder - o) { b with mem := Buddy.poison b.mem a o } a o = r
      at h
    match r with
    | .error e =>
      cases h
      exact coalesce_ne_doubleFree _ _ _ _ hco
    | .ok (b1, a', o') => cases h

end Panic

namespace Traced

variable {A : Arena} {t : Traced} {s : Sys} {L : ℕ → List ℕ} {p : ℕ}

lemma isFront_iff {b : Buddy} {out : Multiset ℕ} {d : ℕ} (h : Owns A b out L d) :
    b.isFront p = true ↔ Front L p := by
  have hlist : ∀ o ≤ maxOrder, b.freeList o = L o := fun o ho =>
    (h.chain o ho).nodes_eq (h.length_lt_fuel ho)
  simp only [Buddy.isFront, List.any_eq_true, List.mem_range, beq_iff_eq, Front]
  constructor
  · rintro ⟨o, ho, a, ha, hp⟩
    rw [hlist o (by omega)] at ha
    exact ⟨o, by omega, a, ha, hp⟩
  · rintro ⟨o, ho, a, ha, hp⟩
    rw [← hlist o ho] at ha
    exact ⟨o, by omega, a, ha, hp⟩

lemma isHeld_iff : s.isHeld p = true ↔ p ∈ pagesOf s.held := by
  simp [Sys.isHeld, mem_pagesOf]

def Agrees (m : Mem) (p : ℕ) : Mark → Prop
  | .link => m.readLe (p * pageSize) 4 ≠ poisonPattern
  | .fill => m.readLe (p * pageSize) 4 = poisonPattern
  | .data => True

structure Marked (A : Arena) (t : Traced) : Prop where
  lists : ∃ L, Owns A t.sys.buddy (pagesOf t.sys.held) L 0
  held : ∀ x ∈ t.sys.held, x.2 ≤ maxOrder ∧ pageSize ∣ x.1
  inside : ∀ p, t.mark p ≠ .data → p ∈ A.pages
  agrees : ∀ p, Agrees t.sys.buddy.mem p (t.mark p)

lemma Marked.remark (h : Marked A t) (hown : Owns A s.buddy (pagesOf s.held) L 0)
    (hheld : ∀ x ∈ s.held, x.2 ≤ maxOrder ∧ pageSize ∣ x.1) {freed : ℕ → Bool}
    (hfreed : ∀ p, freed p = true → p ∈ A.pages)
    (hfill : ∀ p, freed p = true → ¬ Front L p →
      s.buddy.mem.readLe (p * pageSize) 4 = poisonPattern)
    (hsame : ∀ p ∈ A.pages, freed p = false → ¬ Front L p → p ∉ pagesOf s.held →
      s.buddy.mem.readLe (p * pageSize) 4 = t.sys.buddy.mem.readLe (p * pageSize) 4) :
    Marked A ⟨s, Traced.remark s freed t.mark⟩ := by
  have hfront : ∀ p, s.buddy.isFront p = true ↔ Front L p := fun p => isFront_iff hown
  refine ⟨⟨L, hown⟩, hheld, fun p hp => ?_, fun p => ?_⟩
  · simp only [Traced.remark] at hp
    split_ifs at hp with h1 h2 h3
    · exact hown.free_mem (Owns.front_mem ((hfront p).mp h1))
    · exact absurd rfl hp
    · exact hfreed p h3
    · exact h.inside p hp
  · simp only [Traced.remark]
    split_ifs with h1 h2 h3
    · -- the first word of a listed block is a link
      obtain ⟨o, ho, a, ha, rfl⟩ := (hfront p).mp h1
      rw [Agrees, Nat.div_mul_cancel (hown.aligned o ho a ha)]
      exact hown.node_clean ho ha
    · trivial
    · exact hfill p h3 fun hf => h1 ((hfront p).mpr hf)
    · by_cases hdata : t.mark p = .data
      · rw [hdata]
        trivial
      · have hword := hsame p (h.inside p hdata) (by simpa using h3)
          (fun hf => h1 ((hfront p).mpr hf)) fun hp => h2 (isHeld_iff.mpr hp)
        have hold := h.agrees p
        cases hm : t.mark p with
        | link =>
          rw [hm] at hold
          rw [Agrees, hword]
          exact hold
        | fill =>
          rw [hm] at hold
          rw [Agrees, hword]
          exact hold
        | data => trivial

lemma word_same {b b' : Buddy} {P : ℕ → Prop} (hw : Writes P b b') (hp : ¬ P p) :
    b'.mem.readLe (p * pageSize) 4 = b.mem.readLe (p * pageSize) 4 := by
  refine Mem.readLe_congr fun x h1 h2 => hw x ?_
  have hx : x / pageSize = p := by
    simp only [pageSize] at *
    omega
  rwa [hx]

namespace Marked

lemma alloc (h : Marked A t) {o : ℕ} (hs : t.sys.next (.alloc o) = some s) :
    Marked A ⟨s, Traced.remark s (freed (.alloc o)) t.mark⟩ := by
  obtain ⟨L, hown⟩ := h.lists
  rcases hown.alloc_cases o with heq | ⟨i, a, l, hoi, hi, hl, heq⟩
  · simp only [Sys.next, heq, Option.some.injEq] at hs
    subst hs
    exact h.remark hown h.held (by simp [freed]) (by simp [freed]) fun _ _ _ _ _ => rfl
  · simp only [Sys.next, heq, Option.some.injEq] at hs
    subst hs
    obtain ⟨hcarve, hlinked⟩ := hown.carve hoi hi hl
    have ha := hown.aligned i hi a (hl ▸ mem_cons_self)
    rw [← pagesOf_cons] at hcarve
    refine h.remark hcarve (forall_mem_cons.mpr ⟨⟨hoi.trans hi, ha⟩, h.held⟩)
      (by simp [freed]) (by simp [freed]) fun p hp _ hf _ => word_same hlinked ?_
    rintro (hn | hn)
    · exact hn hp
    · exact hf hn

lemma free (hinit : A.initialized = true) (h : Marked A t) {a o : ℕ}
    (hx : (a, o) ∈ t.sys.held) (hs : t.sys.next (.free a o) = some s) :
    Marked A ⟨s, Traced.remark s (freed (.free a o)) t.mark⟩ := by
  obtain ⟨L, hown⟩ := h.lists
  obtain ⟨ho, ha⟩ := h.held _ hx
  simp only [Sys.next] at hs
  split at hs
  · rename_i b' hfree
    cases hs
    have hclean := clean_of_freed (hown.initialized.trans hinit) hfree
    rw [Sys.pagesOf_erase hx] at hown
    obtain ⟨b1, a', o', L1, -, heq, -, -, hown', hlinked⟩ := hown.free_steps ha ho hinit hclean
    obtain rfl := Except.ok.inj (heq.symm.trans hfree)
    have hblock : ∀ p, freed (.free a o) p = true → p ∈ blockPages (a, o) := fun p hp =>
      of_decide_eq_true hp
    have harena : ∀ p, freed (.free a o) p = true → p ∈ A.pages := fun p hp =>
      hown.out_mem (Multiset.mem_add.mpr (.inl (hblock p hp)))
    have hlink : ∀ p ∈ A.pages, ¬ Front (Function.update L1 o' (a' :: L1 o')) p →
        ((b1.toggleTop a' o').pushBlock a' o').mem.readLe (p * pageSize) 4 =
          (Buddy.poison t.sys.buddy.mem a o).readLe (p * pageSize) 4 := by
      intro p hp hf
      refine word_same hlinked ?_
      rintro (hn | hn)
      · exact hn hp
      · exact hf hn
    refine h.remark hown' (fun y hy => h.held y (mem_of_mem_erase hy)) harena
      (fun p hp hf => ?_) fun p hp hnot hf _ => ?_
    · exact (hlink p (harena p hp) hf).trans (readLe_poison ha (hblock p hp))
    · refine (hlink p hp hf).trans (word_same (Owns.poison_writes (o := o) t.sys.buddy ha) ?_)
      exact of_decide_eq_false hnot
  · cases hs

lemma store (h : Marked A t) {addr : ℕ} {bytes : List UInt8}
    (hok : (Call.store addr bytes).Fits t.sys) (hs : t.sys.next (.store addr bytes) = some s) :
    Marked A ⟨s, Traced.remark s (freed (.store addr bytes)) t.mark⟩ := by
  obtain ⟨L, hown⟩ := h.lists
  obtain ⟨x, hx, hlow, hhigh⟩ := hok
  cases hs
  have hw := Sys.store_writes t.sys.buddy (h.held x hx).2 hlow hhigh
  have hkeep := hown
  rw [Sys.pagesOf_erase hx] at hkeep
  have hown' := (hkeep.inside hw).1
  rw [← Sys.pagesOf_erase hx] at hown'
  refine h.remark (s := ⟨{ t.sys.buddy with mem := t.sys.buddy.mem.write addr bytes },
    t.sys.held⟩) hown' h.held (by simp [freed]) (by simp [freed]) fun p _ _ _ hp =>
      word_same hw fun hin => ?_
  exact hp (mem_pagesOf.mpr ⟨x, hx, hin⟩)

lemma told_iff (hinit : A.initialized = true) (h : Marked A t) (addr order : ℕ) :
    (t.sys.buddy.freePages addr order = .error .doubleFree ↔ (addr, order) ∉ t.sys.held) ↔
      t.Told addr order := by
  obtain ⟨L, hown⟩ := h.lists
  rw [free_doubleFree_iff (hown.initialized.trans hinit), Told]
  by_cases hheld : (addr, order) ∈ t.sys.held
  · have hpage := hown.out_mem (mem_pagesOf.mpr ⟨_, hheld, first_mem_blockPages (addr, order)⟩)
    have hargs := hown.frees (h.held _ hheld).2 hpage
    rw [if_pos hheld]
    exact ⟨fun hiff hp => hiff.mp ⟨hargs, hp⟩ hheld,
      fun hp => iff_of_false (fun hboth => hp hboth.2) (not_not.mpr hheld)⟩
  · rw [if_neg hheld, iff_true_right hheld]
    refine and_congr_right fun hargs => ?_
    have hagrees := h.agrees (addr / pageSize)
    cases hm : t.mark (addr / pageSize) with
    | link =>
      rw [hm, Agrees, Nat.div_mul_cancel hargs.2.2] at hagrees
      simp [hagrees]
    | fill =>
      rw [hm, Agrees, Nat.div_mul_cancel hargs.2.2] at hagrees
      simp [hagrees]
    | data => simp

lemma step (hinit : A.initialized = true) (h : Marked A t) {c : Call} {t' : Traced}
    (hok : t.Ok c) (hs : t.next c = some t') : Marked A t' := by
  obtain ⟨s, hsys, rfl⟩ := map_eq_some_iff.mp hs
  cases c with
  | alloc o => exact h.alloc hsys
  | free a o =>
    -- a free that is told and returns names a block that is handed out
    refine h.free hinit ?_ hsys
    by_contra hnot
    have hpanic := ((h.told_iff hinit a o).mpr hok).mpr hnot
    simp only [Sys.next, hpanic] at hsys
    cases hsys
  | store addr bytes => exact h.store hok hsys

lemma boot {i : Setup} (hi : i.Valid) (hb : 0 < i.base) (mem : Mem) :
    Marked (i.arena hi hb true) (Traced.boot i mem) := by
  obtain ⟨L, hown⟩ := i.run_owns hi hb mem
  have hstart : Marked (i.arena hi hb true) ⟨Sys.boot i mem, fun _ => .data⟩ :=
    ⟨⟨L, hown⟩, by simp [Sys.boot], fun p hp => absurd rfl hp, fun p => trivial⟩
  have hnone : ∀ p, (fun _ : ℕ => false) p = true → p ∈ (i.arena hi hb true).pages := by simp
  exact hstart.remark hown hstart.held hnone (by simp) fun _ _ _ _ _ => rfl

end Marked

/-- **What the poison check catches.** In every run whose frees are told, over a range that does
not start at address `0`, a free panics with the double-free message exactly when its block is not
handed out if and only if it is told. -/
theorem double_free_caught {i : Setup} (hi : i.Valid) (hb : 0 < i.base) (mem : Mem) {t : Traced}
    (hrun : Runs (fun t c t' => t.next c = some t') (fun t c => t.Ok c) (boot i mem) t)
    (addr order : ℕ) :
    (t.sys.buddy.freePages addr order = .error .doubleFree ↔ (addr, order) ∉ t.sys.held) ↔
      t.Told addr order := by
  have hmarked : Marked (i.arena hi hb true) t :=
    hrun.inv _ (Marked.boot hi hb mem) fun _ _ _ h hok hs => h.step rfl hok hs
  exact hmarked.told_iff rfl addr order

/-- The second page of a freed block keeps the fill, so a free of that page panics. -/
theorem double_free_caught_second_page : ∃ t,
    Runs.exec (fun t c => Ok t c) next (boot (.range 0x1000 0x5000) fun _ => 0)
      [.alloc 1, .free 0x2000 1] = some t ∧
    (t.sys.buddy.freePages 0x3000 0 = .error .doubleFree ↔ (0x3000, 0) ∉ t.sys.held) := by
  have hrun : ((Runs.exec (fun t c => Ok t c) next (boot (.range 0x1000 0x5000) fun _ => 0)
      [.alloc 1, .free 0x2000 1]).any fun t => decide (t.Told 0x3000 0)) = true := by
    decide +kernel
  obtain ⟨t, ht, htold⟩ := (any_eq_true _ _).mp hrun
  refine ⟨t, ht, (double_free_caught ⟨?_, ?_, ?_, ?_, ?_⟩ ?_ _ (Runs.of_exec ht) _ _).mpr
    (of_decide_eq_true htold)⟩
  · decide
  · decide
  · decide
  · decide
  · simp [Setup.exclusions]
  · decide

end Traced

namespace Sys

/-- A block is freed and merged with its buddy; the link that was written when it was freed has
taken the fill of its first word away, so that freeing it once more goes through. And a holder that
has written the pattern cannot give its block back. -/
theorem double_free_missed : (Setup.range 0x1000 0x5000).Valid ∧
    (∃ s, Runs (fun s c t => next s c = some t) (fun s c => c.Fits s)
        (boot (.range 0x1000 0x5000) fun _ => 0) s ∧
      (0x4000, 0) ∉ s.held ∧ ∃ b, s.buddy.freePages 0x4000 0 = .ok b) ∧
    ∃ s, Runs (fun s c t => next s c = some t) (fun s c => c.Fits s)
        (boot (.range 0x1000 0x5000) fun _ => 0) s ∧
      (0x4000, 0) ∈ s.held ∧ s.buddy.freePages 0x4000 0 = .error .doubleFree := by
  refine ⟨⟨by decide, by decide, by decide, by decide, by simp [Setup.exclusions]⟩, ?_, ?_⟩
  · have hrun : ((Runs.exec (fun s c => Call.Fits s c) next
        (boot (.range 0x1000 0x5000) fun _ => 0) [.alloc 0, .alloc 0, .alloc 0, .free 0x4000 0,
          .free 0x3000 0]).any fun s =>
          !s.held.contains (0x4000, 0) && (s.buddy.freePages 0x4000 0).toBool) = true := by
      decide +kernel
    obtain ⟨s, hs, htest⟩ := (Option.any_eq_true _ _).mp hrun
    rw [Bool.and_eq_true, Bool.not_eq_true', ← Bool.not_eq_true, contains_iff_mem] at htest
    refine ⟨s, Runs.of_exec hs, htest.1, ?_⟩
    cases hfree : s.buddy.freePages 0x4000 0 with
    | error e => rw [hfree] at htest; cases htest.2
    | ok b => exact ⟨b, rfl⟩
  · have hrun : ((Runs.exec (fun s c => Call.Fits s c) next
        (boot (.range 0x1000 0x5000) fun _ => 0)
        [.alloc 0, .store 0x4000 [0xAD, 0xDE, 0xAD, 0xDE]]).any fun s =>
          s.held.contains (0x4000, 0) && s.buddy.initialized && decide (s.buddy.Frees 0x4000) &&
            s.buddy.mem.readLe 0x4000 4 == poisonPattern) = true := by decide +kernel
    obtain ⟨s, hs, htest⟩ := (any_eq_true _ _).mp hrun
    simp only [Bool.and_eq_true, contains_iff_mem, beq_iff_eq, decide_eq_true_eq] at htest
    obtain ⟨⟨⟨hheld, hinit⟩, hargs⟩, hword⟩ := htest
    exact ⟨s, Runs.of_exec hs, hheld, (free_doubleFree_iff hinit).mpr ⟨hargs, hword⟩⟩

end Sys

end Aios.Mm
