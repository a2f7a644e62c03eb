import Aios.Mm.FreeLists

/-!
Allocating and freeing blocks, as transfers of pages between the free lists and the outside.

Splitting keeps the lower half and pushes the upper one. Coalescing only merges with a buddy
that was found on the free list, whatever the bitmap says, so the bitmap needs no invariant
of its own here.
-/

namespace Aios.Mm

open Aios.Lib List Function

lemma xor_two_pow (x k : ℕ) : x ^^^ 2 ^ k = x + 2 ^ k ∨ (x ^^^ 2 ^ k) + 2 ^ k = x := by
  induction k generalizing x with
  | zero =>
    rcases Nat.even_or_odd x with hx | hx
    · exact .inl (Nat.xor_one_of_even hx)
    · refine .inr ?_
      rw [pow_zero, Nat.xor_one_of_odd hx]
      obtain ⟨j, hj⟩ := hx
      omega
  | succ k ih =>
    have hdiv : (x ^^^ 2 ^ (k + 1)) / 2 = x / 2 ^^^ 2 ^ k := by
      rw [Nat.xor_div_two, pow_succ, Nat.mul_div_cancel _ (by omega)]
    have hmod : (x ^^^ 2 ^ (k + 1)) % 2 = x % 2 := by
      rw [Nat.xor_mod_two_eq, pow_succ]
      omega
    have hpow : 2 ^ (k + 1) = 2 * 2 ^ k := by ring
    rcases ih (x / 2) with h | h <;> rw [← hdiv] at h <;> omega

lemma blockSize_eq (o : ℕ) : blockSize o = 2 ^ (o + 12) := by
  rw [blockSize, pageSize, pow_add]
  ring

lemma buddyOf_cases {a base : ℕ} (o : ℕ) (h : base ≤ a) :
    buddyOf a base o = a + blockSize o ∨ a = buddyOf a base o + blockSize o := by
  rw [buddyOf, blockSize_eq]
  rcases xor_two_pow (a - base) (o + 12) with hx | hx
  · exact .inl (by omega)
  · exact .inr (by omega)

lemma buddyOf_buddyOf {a base : ℕ} (o : ℕ) (h : base ≤ a) :
    buddyOf (buddyOf a base o) base o = a := by
  unfold buddyOf
  rw [Nat.add_sub_cancel_left, Nat.xor_assoc, Nat.xor_self, Nat.xor_zero]
  omega

lemma blockPages_merge {a base : ℕ} (o : ℕ) (h : base ≤ a) :
    (blockPages (min a (buddyOf a base o), o + 1)).val =
      (blockPages (buddyOf a base o, o)).val + (blockPages (a, o)).val := by
  rcases buddyOf_cases o h with hb | hb
  · rw [hb, min_eq_left (Nat.le_add_right _ _), blockPages_split, add_comm]
  · have hmin : min a (buddyOf a base o) = buddyOf a base o := by omega
    rw [hmin, blockPages_split, ← hb]

lemma dvd_blockSize {a : ℕ} (o : ℕ) (ha : pageSize ∣ a) : pageSize ∣ a + blockSize o :=
  Nat.dvd_add ha (dvd_mul_right _ _)

/-- The lists after the upper half of order `k` has been pushed. -/
def cutList (a : ℕ) (L : ℕ → List ℕ) (k : ℕ) : ℕ → List ℕ :=
  update L k ((a + blockSize k) :: L k)

/-- The lists after a block of order `i` has been cut down to order `o`. -/
def carvedLists (a o i : ℕ) (L : ℕ → List ℕ) : ℕ → List ℕ :=
  (List.range' o (i - o)).reverse.foldl (cutList a) L

/-- What `alloc_pages` does once it has found the block `a` of order `i`. -/
def Buddy.carve (b : Buddy) (a o i : ℕ) : Buddy :=
  let b₂ := (List.range' o (i - o)).reverse.foldl (splitStep a)
    ((b.popBlock i).2.toggleIfInitialized a i)
  { b₂ with totalFree := b₂.totalFree - 2 ^ i }

/-- The toggle that `free_pages` makes for a block of the top order. -/
def Buddy.toggleTop (b : Buddy) (a o : ℕ) : Buddy :=
  if o = maxOrder then (b.bitmapToggle a o).2 else b

namespace Owns

variable {A : Arena} {b : Buddy} {out : Multiset ℕ} {L : ℕ → List ℕ} {d o a : ℕ}

lemma first_mem (h : Owns A b ((blockPages (a, o)).val + out) L d) : a / pageSize ∈ A.pages :=
  h.out_mem (Multiset.mem_add.mpr (.inl (first_mem_blockPages (a, o))))

lemma notMem_of_out {k : ℕ} (h : Owns A b ((blockPages (a, o)).val + out) L d)
    (hk : k ≤ maxOrder) : a ∉ L k := fun hmem =>
  h.node_ne hk hmem (Multiset.mem_add.mpr (.inl (first_mem_blockPages (a, o)))) rfl

lemma settle {k : ℕ} (h : Owns A b out L (d + k)) :
    Owns A { b with totalFree := b.totalFree - k } out L d :=
  { h with
    total := by
      have := h.total
      simp only
      omega }

lemma toggleIfInitialized (h : Owns A b out L d) (ha : a / pageSize ∈ A.pages)
    (ho : o ≤ maxOrder) : Owns A (b.toggleIfInitialized a o) out L d ∧
      Writes (· ∉ A.pages) b (b.toggleIfInitialized a o) := by
  unfold Buddy.toggleIfInitialized
  split_ifs
  · exact h.toggle ha ho
  · exact ⟨h, Writes.refl _ _⟩

lemma front_cutList {p : ℕ} (k : ℕ) (hp : Front L p) : Front (cutList a L k) p := by
  obtain ⟨i, hi, c, hc, rfl⟩ := hp
  refine ⟨i, hi, c, ?_, rfl⟩
  by_cases hik : i = k
  · subst hik
    rw [cutList, update_self]
    exact mem_cons_of_mem _ hc
  · rwa [cutList, update_of_ne hik]

lemma front_cutLists {p : ℕ} (ks : List ℕ) (hp : Front L p) : Front (ks.foldl (cutList a) L) p := by
  induction ks generalizing L with
  | nil => exact hp
  | cons k ks ih => exact ih (front_cutList k hp)

lemma halves_succ (o n : ℕ) :
    (List.range' o (n + 1)).reverse = (o + n) :: (List.range' o n).reverse := by
  rw [range'_concat]
  simp

lemma splitStep (h : Owns A b ((blockPages (a, o + 1)).val + out) L d) (ha : pageSize ∣ a)
    (ho : o ≤ maxOrder) :
    Owns A (b.splitStep a o) ((blockPages (a, o)).val + out) (cutList a L o) d ∧
      Linked A (cutList a L o) b (b.splitStep a o) := by
  have hcut : (blockPages (a, o + 1)).val + out =
      (blockPages (a + blockSize o, o)).val + ((blockPages (a, o)).val + out) := by
    rw [blockPages_split]
    abel
  rw [hcut] at h
  obtain ⟨hpush, hw1⟩ := h.push ho (dvd_blockSize o ha)
  obtain ⟨htog, hw2⟩ := hpush.toggleIfInitialized h.first_mem ho
  refine ⟨htog, Writes.trans (hw1.mono fun p hp => .inr ?_) (hw2.mono fun p hp => .inl hp)⟩
  rw [hp]
  exact front_push ho

lemma split {n : ℕ} (h : Owns A b ((blockPages (a, o + n)).val + out) L d) (ha : pageSize ∣ a)
    (hn : o + n ≤ maxOrder) :
    Owns A ((List.range' o n).reverse.foldl (Buddy.splitStep a) b)
        ((blockPages (a, o)).val + out) ((List.range' o n).reverse.foldl (cutList a) L) d ∧
      Linked A ((List.range' o n).reverse.foldl (cutList a) L) b
        ((List.range' o n).reverse.foldl (Buddy.splitStep a) b) := by
  induction n generalizing b L with
  | zero => exact ⟨h, Writes.refl _ _⟩
  | succ n ih =>
    obtain ⟨hstep, hw1⟩ := splitStep (o := o + n) h ha (by omega)
    obtain ⟨hrest, hw2⟩ := ih hstep (by omega)
    rw [halves_succ, foldl_cons, foldl_cons]
    refine ⟨hrest, Writes.trans (hw1.mono fun p hp => ?_) hw2⟩
    exact hp.imp_right (front_cutLists _)

lemma carve {i : ℕ} {l : List ℕ} (h : Owns A b out L 0) (hoi : o ≤ i) (hi : i ≤ maxOrder)
    (hl : L i = a :: l) :
    Owns A (b.carve a o i) ((blockPages (a, o)).val + out) (carvedLists a o i (update L i l)) 0 ∧
    Linked A (carvedLists a o i (update L i l)) b (b.carve a o i) := by
  obtain ⟨n, rfl⟩ := Nat.exists_eq_add_of_le hoi
  have ha := h.aligned _ hi a (hl ▸ mem_cons_self)
  have hpop := (h.pop_head hi hl).2
  obtain ⟨htog, hw1⟩ := hpop.toggleIfInitialized hpop.first_mem hi
  obtain ⟨hsplit, hw2⟩ := htog.split ha hi
  have hw0 : Writes (fun _ => False) b (b.popBlock (o + n)).2 := fun x _ => by
    rw [popBlock_mem]
  unfold Buddy.carve carvedLists
  rw [Nat.add_sub_cancel_left]
  exact ⟨hsplit.settle, ((hw0.mono fun _ hp => hp.elim).trans
    (hw1.mono fun p hp => .inl hp)).trans hw2⟩

/-- What `alloc_pages` hands out: a block whose pages came from the lists and whose first
word is not the poison. -/
structure Handed (A : Arena) (b : Buddy) (out : Multiset ℕ) (o a : ℕ) (b' : Buddy) : Prop where
  order_le : o ≤ maxOrder
  aligned : pageSize ∣ a
  owns : ∃ L', Owns A b' ((blockPages (a, o)).val + out) L' 0
  untouched : Untouched out b b'
  clean : b'.mem.readLe a 4 ≠ poisonPattern

lemma allocHigher_cases (h : Owns A b out L 0) {hs : List ℕ}
    (hhs : ∀ i ∈ hs, o < i ∧ i ≤ maxOrder) : b.allocHigher o hs = (none, b) ∨ ∃ i a l, o ≤ i ∧
    i ≤ maxOrder ∧ L i = a :: l ∧ b.allocHigher o hs = (some a, b.carve a o i) := by
  induction hs with
  | nil => exact .inl rfl
  | cons i hs ih =>
    obtain ⟨hoi, hi⟩ := hhs i mem_cons_self
    rcases h.pop_cases hi with hpop | ⟨a, l, hl, hpop⟩
    · simp only [Buddy.allocHigher, hpop]
      exact ih fun j hj => hhs j (mem_cons_of_mem _ hj)
    · refine .inr ⟨i, a, l, hoi.le, hi, hl, ?_⟩
      rw [Buddy.allocHigher, hpop]
      rfl

/-- `alloc_pages` changes nothing when it fails, and else carves the block out of a larger
one, or takes it as it is. -/
lemma alloc_cases (h : Owns A b out L 0) (o : ℕ) : b.allocPages o = (none, b) ∨ ∃ i a l, o ≤ i ∧
    i ≤ maxOrder ∧ L i = a :: l ∧ b.allocPages o = (some a, b.carve a o i) := by
  unfold Buddy.allocPages
  by_cases hmax : maxOrder < o
  · exact .inl (if_pos hmax)
  · rw [if_neg hmax]
    rcases h.pop_cases (o := o) (by omega) with hpop | ⟨a, l, hl, hpop⟩
    · rw [hpop]
      refine h.allocHigher_cases fun i hi => ?_
      have := mem_range'.mp hi
      omega
    · refine .inr ⟨o, a, l, le_rfl, by omega, hl, ?_⟩
      rw [hpop]
      simp only [Buddy.carve, Nat.sub_self, range'_zero, reverse_nil, foldl_nil,
        Buddy.toggleIfInitialized]
      split_ifs <;> rfl

lemma alloc (h : Owns A b out L 0) (o : ℕ) : b.allocPages o = (none, b) ∨
    ∃ a b', b.allocPages o = (some a, b') ∧ Handed A b out o a b' := by
  rcases h.alloc_cases o with hnone | ⟨i, a, l, hoi, hi, hl, heq⟩
  · exact .inl hnone
  · obtain ⟨hown, hw⟩ := h.carve hoi hi hl
    have ha := h.aligned i hi a (hl ▸ mem_cons_self)
    -- the pages of the block were on a list before, and nothing is written to them
    have hsame := hown.untouched hw
    have hfirst : a / pageSize ∈ (blockPages (a, o)).val + out :=
      Multiset.mem_add.mpr (.inl (first_mem_blockPages (a, o)))
    refine .inr ⟨a, _, heq, hoi.trans hi, ha, ⟨_, hown⟩, hsame.mono (Multiset.le_add_left _ _), ?_⟩
    rw [hsame.readLe ha hfirst (by decide)]
    exact h.node_clean hi (hl ▸ mem_cons_self)

/-- What the coalescing loop does: it stops at the top order, at a pair whose bit has become
set, or at a buddy that is not on its list, where it takes the toggle back; and it goes on
with the merged block when the buddy was on its list. -/
inductive Coalesces (A : Arena) (out : Multiset ℕ) :
    Buddy → (ℕ → List ℕ) → ℕ → ℕ → Buddy → (ℕ → List ℕ) → ℕ → ℕ → Prop
  | top (b : Buddy) (L : ℕ → List ℕ) (a : ℕ) :
      Coalesces A out b L a maxOrder b L a maxOrder
  | lone {b : Buddy} {L : ℕ → List ℕ} {a o : ℕ} (ho : o < maxOrder)
      (hbit : (b.bitmapToggle a o).1 = true) :
      Coalesces A out b L a o (b.bitmapToggle a o).2 L a o
  | absent {b : Buddy} {L : ℕ → List ℕ} {a o : ℕ} (ho : o < maxOrder)
      (hbit : (b.bitmapToggle a o).1 = false) (habsent : buddyOf a A.base o ∉ L o) :
      Coalesces A out b L a o ((b.bitmapToggle a o).2.bitmapToggle a o).2 L a o
  | merge {b b₂ b' : Buddy} {L L' : ℕ → List ℕ} {l : List ℕ} {a o a' o' : ℕ} (ho : o < maxOrder)
      (hbit : (b.bitmapToggle a o).1 = false)
      (hperm : (L o).Perm (buddyOf a A.base o :: l))
      (hwrites : Writes (fun p => ∃ c ∈ l, c / pageSize = p) (b.bitmapToggle a o).2 b₂)
      (hown : Owns A b₂ ((blockPages (min a (buddyOf a A.base o), o + 1)).val + out)
        (update L o l) 0)
      (rest : Coalesces A out b₂ (update L o l) (min a (buddyOf a A.base o)) (o + 1)
        b' L' a' o') : Coalesces A out b L a o b' L' a' o'

lemma listed_in_range (h : Owns A b out L d) (ho : o ≤ maxOrder) (ha : a ∈ L o) :
    A.base ≤ a ∧ a + blockSize o ≤ A.endAddr := by
  have hlast : (a + blockSize o - 1) / pageSize ∈ freePages L := by
    rw [freePages_eq L ho]
    refine Multiset.mem_add.mpr (.inl (mem_pagesOf.mpr ⟨(a, o), mem_map.mpr ⟨a, ha, rfl⟩, ?_⟩))
    have hpow := Nat.two_pow_pos o
    have hal := h.aligned o ho a ha
    simp only [blockPages, Finset.mem_Ico, blockSize, pageSize] at *
    omega
  have h1 := (addr_pos (h.free_mem (mem_freePages ho ha))).1
  have h2 := A.below _ (h.free_mem hlast)
  have hpow := Nat.two_pow_pos o
  have hal := h.aligned o ho a ha
  simp only [blockSize, pageSize] at *
  omega

lemma coalesce {n : ℕ} (h : Owns A b ((blockPages (a, o)).val + out) L 0) (ha : pageSize ∣ a)
    (hn : o + n = maxOrder) :
    ∃ b' a' o' L', Buddy.coalesce n b a o = .ok (b', a', o') ∧ o' ≤ maxOrder ∧ pageSize ∣ a' ∧
      Owns A b' ((blockPages (a', o')).val + out) L' 0 ∧ Coalesces A out b L a o b' L' a' o' := by
  induction n generalizing b a o L with
  | zero =>
    obtain rfl : o = maxOrder := hn
    exact ⟨b, a, _, L, rfl, le_rfl, ha, h, .top b L a⟩
  | succ n ih =>
    have ho : o < maxOrder := by omega
    obtain ⟨h1, -⟩ := h.toggle h.first_mem ho.le
    have hbase : A.base ≤ a := (addr_pos h.first_mem).1
    unfold Buddy.coalesce
    cases hbit : (b.bitmapToggle a o).1 with
    | true =>
      have heq : b.bitmapToggle a o = (true, (b.bitmapToggle a o).2) := Prod.ext hbit rfl
      rw [heq]
      exact ⟨_, a, o, L, rfl, ho.le, ha, h1, .lone ho hbit⟩
    | false =>
      have heq : b.bitmapToggle a o = (false, (b.bitmapToggle a o).2) := Prod.ext hbit rfl
      -- stopping: the loop toggles the pair back, which keeps the lists
      have hback := (h1.toggle h1.first_mem ho.le).1
      rw [heq]
      simp only [h1.base, h1.endAddr]
      by_cases hrange : buddyOf a A.base o < A.base ∨
          A.endAddr < buddyOf a A.base o + blockSize o
      · rw [if_pos hrange]
        refine ⟨_, a, o, L, rfl, ho.le, ha, hback, .absent ho hbit fun hmem => ?_⟩
        have := h.listed_in_range ho.le hmem
        omega
      · rw [if_neg hrange]
        have hpos : buddyOf a A.base o ≠ 0 := by
          have := A.base_pos
          omega
        rcases h1.remove ho.le hpos with ⟨hnot, hrem⟩ | ⟨b₂, l, hrem, hperm, hown, hw⟩
        · rw [hrem]
          exact ⟨_, a, o, L, rfl, ho.le, ha, hback, .absent ho hbit hnot⟩
        · rw [hrem]
          have hmerge := hown.settle
          rw [← add_assoc, ← blockPages_merge o hbase] at hmerge
          have hal : pageSize ∣ buddyOf a A.base o :=
            h.aligned o ho.le _ (hperm.mem_iff.mpr mem_cons_self)
          have hmin : pageSize ∣ min a (buddyOf a A.base o) := by
            rcases min_choice a (buddyOf a A.base o) with hm | hm <;> rw [hm] <;> assumption
          obtain ⟨b', a', o', L', heq', ho', ha', hown', hrest⟩ := ih hmerge hmin (by omega)
          refine ⟨b', a', o', L', heq', ho', ha', hown', .merge ho hbit hperm ?_ hmerge hrest⟩
          exact hw

lemma Coalesces.linked {b' : Buddy} {L' : ℕ → List ℕ} {a' o' : ℕ}
    (hc : Coalesces A out b L a o b' L' a' o') (h : Owns A b ((blockPages (a, o)).val + out) L 0) :
    (∀ k < o, L' k = L k) ∧ Linked A L' b b' := by
  induction hc with
  | top => exact ⟨fun _ _ => rfl, Writes.refl _ _⟩
  | lone ho hbit =>
    exact ⟨fun _ _ => rfl, (h.toggle h.first_mem ho.le).2.mono fun p hp => .inl hp⟩
  | absent ho hbit habsent =>
    obtain ⟨h1, hw1⟩ := h.toggle h.first_mem ho.le
    have hw2 := (h1.toggle h1.first_mem ho.le).2
    exact ⟨fun _ _ => rfl, (hw1.trans hw2).mono fun p hp => .inl hp⟩
  | @merge b b₂ b' L L' l a o a' o' ho hbit hperm hw hown hrest ih =>
    obtain ⟨hbelow, hlinked⟩ := ih hown
    have hw1 := (h.toggle h.first_mem ho.le).2
    refine ⟨fun k hk => ?_, ?_⟩
    · rw [hbelow k (by omega), update_of_ne (by omega)]
    · -- the nodes of the list of order `o` stay, since the loop goes on above it
      have hfront : ∀ p, (∃ c ∈ l, c / pageSize = p) → Front L' p := by
        rintro p ⟨c, hc, rfl⟩
        refine ⟨o, ho.le, c, ?_, rfl⟩
        rwa [hbelow o (by omega), update_self]
      exact ((hw1.mono fun p hp => .inl hp).trans (hw.mono fun p hp => .inr (hfront p hp))).trans
        hlinked

lemma poison_outside {m : Mem} {x : ℕ} (hx : x < a ∨ a + blockSize o ≤ x) :
    Buddy.poison m a o x = m x := by
  unfold Buddy.poison
  have hl : ∀ i ∈ List.range (blockSize o / 4), 4 * i + 4 ≤ blockSize o := by
    intro i hi
    have := mem_range.mp hi
    omega
  generalize List.range (blockSize o / 4) = l at hl
  induction l generalizing m with
  | nil => rfl
  | cons i l ih =>
    have hi := hl i mem_cons_self
    rw [foldl_cons, ih fun j hj => hl j (mem_cons_of_mem _ hj)]
    exact Mem.writeLe_outside (by omega)

lemma inside {x : ℕ × ℕ} {m : Mem} (h : Owns A b ((blockPages x).val + out) L d)
    (hm : Writes (· ∈ blockPages x) b { b with mem := m }) :
    Owns A { b with mem := m } ((blockPages x).val + out) L d ∧
      Untouched out b { b with mem := m } := by
  obtain ⟨-, hout, hdisj⟩ := h.nodup
  have hd := (Multiset.nodup_add.mp hout).2.2
  refine ⟨h.frame fun y hy => hm y fun hb => ?_, fun y hy => hm y fun hb => ?_⟩
  · exact Multiset.disjoint_left.mp hdisj hy (Multiset.mem_add.mpr (.inl hb))
  · exact Multiset.disjoint_left.mp hd hb hy

lemma poison_writes (b : Buddy) (ha : pageSize ∣ a) :
    Writes (· ∈ blockPages (a, o)) b { b with mem := Buddy.poison b.mem a o } := by
  intro x hx
  refine poison_outside ?_
  have hx' : ¬ (a / pageSize ≤ x / pageSize ∧ x / pageSize < a / pageSize + 2 ^ o) :=
    fun hh => hx (Finset.mem_Ico.mpr hh)
  simp only [blockSize, pageSize] at *
  omega

lemma toggleTop (h : Owns A b out L d) (ha : a / pageSize ∈ A.pages) (ho : o ≤ maxOrder) :
    Owns A (b.toggleTop a o) out L d ∧ Writes (· ∉ A.pages) b (b.toggleTop a o) := by
  unfold Buddy.toggleTop
  split_ifs
  · exact h.toggle ha ho
  · exact ⟨h, Writes.refl _ _⟩

lemma frees (h : Owns A b out L d) (ha : pageSize ∣ a) (hpage : a / pageSize ∈ A.pages) :
    b.Frees a := by
  have h1 := (addr_pos hpage).1
  have h2 := addr_lt_end hpage
  exact ⟨h.base ▸ h1, h.endAddr ▸ h2, ha⟩

section

variable (h : Owns A b ((blockPages (a, o)).val + out) L 0) (ha : pageSize ∣ a) (ho : o ≤ maxOrder)
  (hinit : A.initialized = true) (hclean : b.mem.readLe a 4 ≠ poisonPattern)
include h ha ho hinit hclean

/-- `free_pages` of a clean block fills it, coalesces and pushes what the loop returns. -/
lemma free_steps :
    ∃ b1 a' o' L1, o' ≤ maxOrder ∧
      b.freePages a o = .ok ((b1.toggleTop a' o').pushBlock a' o') ∧
      Owns A b1 ((blockPages (a', o')).val + out) L1 0 ∧
      Coalesces A out { b with mem := Buddy.poison b.mem a o } L a o b1 L1 a' o' ∧
      Owns A ((b1.toggleTop a' o').pushBlock a' o') out
        (update L1 o' (a' :: L1 o')) 0 ∧
      Linked A (update L1 o' (a' :: L1 o'))
        { b with mem := Buddy.poison b.mem a o } ((b1.toggleTop a' o').pushBlock a' o') := by
  have hpoison := (h.inside (poison_writes b ha)).1
  obtain ⟨b1, a', o', L1, hco, ho', ha', hown, hsteps⟩ :=
    hpoison.coalesce (n := maxOrder - o) ha (by omega)
  obtain ⟨htog, hw2⟩ := hown.toggleTop hown.first_mem ho'
  obtain ⟨hpush, hw3⟩ := htog.push ho' ha'
  refine ⟨b1, a', o', L1, ho', ?_, hown, hsteps, hpush, ?_⟩
  · unfold Buddy.freePages
    rw [if_neg (not_not.mpr (h.frees ha h.first_mem)), if_neg (by simp [h.initialized, hinit]),
      if_neg hclean, hco]
    rfl
  · have hgrow : ∀ p, Front L1 p → Front (update L1 o' (a' :: L1 o')) p := by
      rintro p ⟨k, hk, c, hc, rfl⟩
      refine ⟨k, hk, c, ?_, rfl⟩
      by_cases hko : k = o'
      · subst hko
        rw [update_self]
        exact mem_cons_of_mem _ hc
      · rwa [update_of_ne hko]
    refine Writes.trans (((hsteps.linked hpoison).2.mono fun p hp => ?_).trans
      (hw2.mono fun p hp => .inl hp)) (hw3.mono fun p hp => .inr ?_)
    · exact hp.imp_right (hgrow p)
    · rw [hp]
      exact front_push ho'

/-- **`free_pages` of a clean block returns**, and gives the pages of the block back to the
lists. -/
lemma free : ∃ b' L', b.freePages a o = .ok b' ∧ Owns A b' out L' 0 ∧ Untouched out b b' := by
  obtain ⟨b1, a', o', L1, -, heq, -, -, hown, hw⟩ := h.free_steps ha ho hinit hclean
  exact ⟨_, _, heq, hown, (h.inside (poison_writes b ha)).2.trans (hown.untouched hw)⟩

end

end Owns

end Aios.Mm
