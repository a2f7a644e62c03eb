import Aios.Mm.Pages

/-!
The free lists in memory.

`Owns` says that the free lists in memory are the lists `L`, that their pages together with
the pages `out` that are outside the allocator make up the pages of the arena, each page
once, and that the counters agree. Pushing a block takes its pages from `out`, popping or
removing one gives them back; every other write of the allocator leaves the pages of the
free lists alone.
-/

namespace Aios.Mm

open Aios.Lib Function List

/-- A managed range and the pages that were put on its lists. None of them lies in the
bitmap, and the range does not start at address `0`. -/
structure Arena where
  base : ℕ
  endAddr : ℕ
  initialized : Bool
  pages : Multiset ℕ
  base_pos : 0 < base
  base_aligned : pageSize ∣ base
  end_le : endAddr ≤ 2 ^ 64
  nodup : pages.Nodup
  above : ∀ p ∈ pages, base / pageSize + bitmapPagesFor ((endAddr - base) / pageSize) ≤ p
  below : ∀ p ∈ pages, (p + 1) * pageSize ≤ endAddr

/-- The allocator's lists are `L`, and the pages `out` are outside of it. `debt` is how far
`total_free` is ahead of the lists. -/
structure Owns (A : Arena) (b : Buddy) (out : Multiset ℕ) (L : ℕ → List ℕ) (debt : ℕ) :
    Prop where
  base : b.base = A.base
  endAddr : b.endAddr = A.endAddr
  bitmap : b.bitmap = A.base
  initialized : b.initialized = A.initialized
  chain : ∀ o ≤ maxOrder, Chain b.next (b.freeHeads o) (L o)
  count : ∀ o ≤ maxOrder, b.freeCount o = (L o).length
  aligned : ∀ o ≤ maxOrder, ∀ a ∈ L o, pageSize ∣ a
  cover : freePages L + out = A.pages
  total : b.totalFree = (freePages L).card + debt

/-- The bytes of the pages `P` are the same in both memories. -/
def Untouched (P : Multiset ℕ) (b b' : Buddy) : Prop :=
  ∀ x, x / pageSize ∈ P → b'.mem x = b.mem x

lemma Untouched.trans {P : Multiset ℕ} {b1 b2 b3 : Buddy} (h1 : Untouched P b1 b2)
    (h2 : Untouched P b2 b3) : Untouched P b1 b3 := fun x hx => (h2 x hx).trans (h1 x hx)

lemma Untouched.mono {P Q : Multiset ℕ} {b b' : Buddy} (h : Untouched P b b') (hQ : Q ≤ P) :
    Untouched Q b b' := fun x hx => h x (Multiset.mem_of_le hQ hx)

lemma Untouched.readLe {P : Multiset ℕ} {b b' : Buddy} (h : Untouched P b b') {a n : ℕ}
    (ha : pageSize ∣ a) (hP : a / pageSize ∈ P) (hn : n ≤ pageSize) :
    b'.mem.readLe a n = b.mem.readLe a n := by
  refine Mem.readLe_congr fun x h1 h2 => h x ?_
  have hx : x / pageSize = a / pageSize := by
    simp only [pageSize] at *
    omega
  rwa [hx]

/-- The memories differ in the pages `P` only. -/
def Writes (P : ℕ → Prop) (b b' : Buddy) : Prop := ∀ x, ¬ P (x / pageSize) → b'.mem x = b.mem x

lemma Writes.refl (P : ℕ → Prop) (b : Buddy) : Writes P b b := fun _ _ => rfl

lemma Writes.trans {P : ℕ → Prop} {b1 b2 b3 : Buddy} (h1 : Writes P b1 b2)
    (h2 : Writes P b2 b3) : Writes P b1 b3 := fun x hx => (h2 x hx).trans (h1 x hx)

lemma Writes.mono {P Q : ℕ → Prop} {b b' : Buddy} (h : Writes P b b') (hPQ : ∀ p, P p → Q p) :
    Writes Q b b' := fun x hx => h x fun hp => hx (hPQ _ hp)

/-- The page `p` is the first page of a block on the lists. -/
def Front (L : ℕ → List ℕ) (p : ℕ) : Prop := ∃ o ≤ maxOrder, ∃ a ∈ L o, a / pageSize = p

def Linked (A : Arena) (L : ℕ → List ℕ) (b b' : Buddy) : Prop :=
  Writes (fun p => p ∉ A.pages ∨ Front L p) b b'

section Bitmap

lemma div_lt_divCeil {x n k : ℕ} (hk : 0 < k) (h : x < n) : x / k < divCeil n k := by
  have h1 : x / k + 1 = (x + k) / k := (Nat.add_div_right x hk).symm
  have h2 : (x + k) / k ≤ (n + k - 1) / k := Nat.div_le_div_right (by omega)
  unfold divCeil
  omega

lemma le_divCeil_mul {n k : ℕ} (hk : 0 < k) : n ≤ divCeil n k * k := by
  have h := Nat.lt_div_mul_add (a := n + k - 1) hk
  unfold divCeil
  omega

lemma pairsBelow_succ (n o : ℕ) :
    pairsBelow n (o + 1) = pairsBelow n o + divCeil n (2 ^ (o + 1)) := by
  simp [pairsBelow, range_succ]

lemma pairsBelow_mono (n : ℕ) : Monotone (pairsBelow n) :=
  monotone_nat_of_le_succ fun o => by rw [pairsBelow_succ]; exact Nat.le_add_right _ _

lemma bit_in_bitmap {pfn n o : ℕ} (hp : pfn < n) (ho : o ≤ maxOrder) :
    (pairsBelow n o + pfn / 2 ^ (o + 1)) / 8 < bitmapPagesFor n * pageSize := by
  have hpair : pfn / 2 ^ (o + 1) < divCeil n (2 ^ (o + 1)) :=
    div_lt_divCeil (Nat.two_pow_pos _) hp
  have hbit : pairsBelow n o + pfn / 2 ^ (o + 1) < pairsBelow n (maxOrder + 1) := calc
    _ < pairsBelow n o + divCeil n (2 ^ (o + 1)) := by omega
    _ = pairsBelow n (o + 1) := (pairsBelow_succ n o).symm
    _ ≤ pairsBelow n (maxOrder + 1) := pairsBelow_mono n (by omega)
  calc _ < divCeil (pairsBelow n (maxOrder + 1)) 8 := div_lt_divCeil (by omega) hbit
    _ ≤ bitmapPagesFor n * pageSize := le_divCeil_mul (by decide)

end Bitmap

namespace Owns

variable {A : Arena} {b : Buddy} {out : Multiset ℕ} {L : ℕ → List ℕ} {d o a : ℕ}

lemma nodup (h : Owns A b out L d) : (freePages L).Nodup ∧ out.Nodup ∧
    Disjoint (freePages L) out := Multiset.nodup_add.mp (h.cover ▸ A.nodup)

lemma out_mem (h : Owns A b out L d) {p : ℕ} (hp : p ∈ out) : p ∈ A.pages :=
  h.cover ▸ Multiset.mem_add.mpr (.inr hp)

lemma free_mem (h : Owns A b out L d) {p : ℕ} (hp : p ∈ freePages L) : p ∈ A.pages :=
  h.cover ▸ Multiset.mem_add.mpr (.inl hp)

lemma addr_lt_end (ha : a / pageSize ∈ A.pages) : a < A.endAddr := by
  have := A.below _ ha
  simp only [pageSize] at *
  omega

lemma addr_pos (ha : a / pageSize ∈ A.pages) : A.base ≤ a ∧ a ≠ 0 ∧ a < 2 ^ 64 := by
  have h1 := A.above _ ha
  have h2 := A.below _ ha
  have h3 := A.base_pos
  have h4 := A.end_le
  have h5 := A.base_aligned
  simp only [pageSize] at *
  omega

lemma front_mem {p : ℕ} (hp : Front L p) : p ∈ freePages L := by
  obtain ⟨o, ho, a, ha, rfl⟩ := hp
  exact mem_freePages ho ha

lemma untouched {b0 : Buddy} (h : Owns A b out L d) (hw : Linked A L b0 b) :
    Untouched out b0 b := by
  refine fun x hx => hw x ?_
  rintro (hp | hp)
  · exact hp (h.out_mem hx)
  · exact Multiset.disjoint_left.mp h.nodup.2.2 (front_mem hp) hx

lemma frame (h : Owns A b out L d) {m : Mem}
    (hm : Untouched (freePages L) b { b with mem := m }) :
    Owns A { b with mem := m } out L d :=
  { h with
    chain := fun o ho => (h.chain o ho).congr fun a ha =>
      hm.readLe (h.aligned o ho a ha) (mem_freePages ho ha) (by decide) }

lemma toggle (h : Owns A b out L d) (ha : a / pageSize ∈ A.pages) (ho : o ≤ maxOrder) :
    Owns A (b.bitmapToggle a o).2 out L d ∧ Writes (· ∉ A.pages) b (b.bitmapToggle a o).2 := by
  have hpfn : (a - A.base) / pageSize < (A.endAddr - A.base) / pageSize := by
    have h1 := A.above _ ha
    have h2 := A.below _ ha
    have h3 := A.base_aligned
    simp only [pageSize] at *
    omega
  have hbyte : (b.bitmapIndex a o).1 <
      bitmapPagesFor ((A.endAddr - A.base) / pageSize) * pageSize := by
    simp only [Buddy.bitmapIndex, h.base, h.endAddr]
    exact bit_in_bitmap hpfn ho
  -- every page of the arena lies behind the bitmap
  have hsame : ∀ x, x / pageSize ∈ A.pages → (b.bitmapToggle a o).2.mem x = b.mem x := by
    intro x hx
    have hbelow : b.bitmap + (b.bitmapIndex a o).1 + 1 ≤ x := by
      have h1 := A.above _ hx
      have h3 := A.base_aligned
      rw [h.bitmap]
      simp only [pageSize] at *
      omega
    exact Mem.write_outside (.inr hbelow)
  exact ⟨h.frame fun x hx => hsame x (h.free_mem hx), fun x hx => hsame x (not_not.mp hx)⟩

lemma next_writeLe {c v : ℕ} (ha : pageSize ∣ a) (hc : pageSize ∣ c) (hv : v < 2 ^ 64) :
    (b.mem.writeLe a 8 v).readLe c 8 = if c = a then v else b.next c := by
  by_cases hca : c = a
  · rw [if_pos hca, hca, Mem.readLe_writeLe (lt_of_lt_of_eq hv (by norm_num))]
  · rw [if_neg hca]
    refine Mem.readLe_writeLe_outside ?_
    simp only [pageSize] at *
    omega

lemma head_lt (h : Owns A b out L d) (ho : o ≤ maxOrder) : b.freeHeads o < 2 ^ 64 := by
  rcases (h.chain o ho).head_cases with ⟨h0, -⟩ | ⟨l, hl, -, -⟩
  · rw [h0]; norm_num
  · exact (addr_pos (h.free_mem (mem_freePages ho (hl ▸ mem_cons_self)))).2.2

lemma node_ne (h : Owns A b out L d) {i c : ℕ} (hi : i ≤ maxOrder) (hc : c ∈ L i)
    (ha : a / pageSize ∈ out) : c ≠ a := by
  rintro rfl
  exact Multiset.disjoint_left.mp h.nodup.2.2 (mem_freePages hi hc) ha

lemma relist (h : Owns A b out L d) (ho : o ≤ maxOrder) {b' : Buddy} {l : List ℕ}
    {out' : Multiset ℕ} {d' : ℕ}
    (hrange : b'.base = b.base ∧ b'.endAddr = b.endAddr ∧ b'.bitmap = b.bitmap ∧
      b'.initialized = b.initialized)
    (hothers : ∀ i ≤ maxOrder, i ≠ o → b'.freeHeads i = b.freeHeads i ∧
      b'.freeCount i = b.freeCount i ∧ ∀ c ∈ L i, b'.next c = b.next c)
    (hchain : Chain b'.next (b'.freeHeads o) l) (hcount : b'.freeCount o = l.length)
    (haligned : ∀ c ∈ l, pageSize ∣ c)
    (hpages : pagesOf (l.map (·, o)) + out' = pagesOf ((L o).map (·, o)) + out)
    (htotal : b'.totalFree + (L o).length * 2 ^ o + d = b.totalFree + l.length * 2 ^ o + d') :
    Owns A b' out' (update L o l) d' := by
  have hfree := freePages_update (L := L) ho l
  refine ⟨hrange.1.trans h.base, hrange.2.1.trans h.endAddr, hrange.2.2.1.trans h.bitmap,
    hrange.2.2.2.trans h.initialized, fun i hi => ?_, fun i hi => ?_, fun i hi => ?_, ?_, ?_⟩
  · by_cases hio : i = o
    · subst hio
      rwa [update_self]
    · obtain ⟨h1, -, h3⟩ := hothers i hi hio
      rw [update_of_ne hio, h1]
      exact (h.chain i hi).congr h3
  · by_cases hio : i = o
    · subst hio
      rwa [update_self]
    · rw [update_of_ne hio, (hothers i hi hio).2.1, h.count i hi]
  · by_cases hio : i = o
    · subst hio
      rwa [update_self]
    · rw [update_of_ne hio]
      exact h.aligned i hi
  · refine add_right_cancel (b := pagesOf ((L o).map (·, o))) ?_
    calc freePages (update L o l) + out' + pagesOf ((L o).map (·, o))
        = freePages (update L o l) + pagesOf ((L o).map (·, o)) + out' := by abel
      _ = freePages L + (pagesOf (l.map (·, o)) + out') := by rw [hfree, add_assoc]
      _ = A.pages + pagesOf ((L o).map (·, o)) := by rw [hpages, ← h.cover]; abel
  · have hcard := congrArg Multiset.card hfree
    rw [Multiset.card_add, Multiset.card_add, card_pagesOf_map, card_pagesOf_map] at hcard
    have := h.total
    omega

lemma push (h : Owns A b ((blockPages (a, o)).val + out) L d) (ho : o ≤ maxOrder)
    (ha : pageSize ∣ a) : Owns A (b.pushBlock a o) out (update L o (a :: L o)) d ∧
      Writes (· = a / pageSize) b (b.pushBlock a o) := by
  have hfirst : a / pageSize ∈ (blockPages (a, o)).val + out :=
    Multiset.mem_add.mpr (.inl (first_mem_blockPages (a, o)))
  have hnext : ∀ i ≤ maxOrder, ∀ c ∈ L i, (b.pushBlock a o).next c = b.next c := by
    intro i hi c hc
    have := next_writeLe (b := b) ha (h.aligned i hi c hc) (h.head_lt ho)
    rwa [if_neg (h.node_ne hi hc hfirst)] at this
  have hself : (b.pushBlock a o).next a = b.freeHeads o :=
    (next_writeLe ha ha (h.head_lt ho)).trans (if_pos rfl)
  refine ⟨h.relist ho ⟨rfl, rfl, rfl, rfl⟩ (fun i hi hio => ⟨?_, ?_, hnext i hi⟩) ?_ ?_ ?_ ?_ ?_,
    fun x hx => Mem.writeLe_outside ?_⟩
  · exact update_of_ne hio _ _
  · exact update_of_ne hio _ _
  · refine ⟨update_self _ _ _, (addr_pos (h.out_mem hfirst)).2.1, ?_⟩
    rw [hself]
    exact (h.chain o ho).congr (hnext o ho)
  · simp [Buddy.pushBlock, h.count o ho]
  · intro c hc
    rcases mem_cons.mp hc with rfl | hc
    · exact ha
    · exact h.aligned o ho c hc
  · rw [map_cons, pagesOf_cons]
    abel
  · simp only [Buddy.pushBlock, length_cons]
    ring
  · simp only [pageSize] at *
    omega

lemma front_push (ho : o ≤ maxOrder) : Front (update L o (a :: L o)) (a / pageSize) :=
  ⟨o, ho, a, by rw [update_self]; exact mem_cons_self, rfl⟩

lemma pop_head (h : Owns A b out L d) (ho : o ≤ maxOrder) {l : List ℕ} (hl : L o = a :: l) :
    b.freeHeads o = a ∧ Owns A (b.popBlock o).2 ((blockPages (a, o)).val + out)
      (update L o l) (d + 2 ^ o) := by
  have hc := h.chain o ho
  rw [hl] at hc
  obtain ⟨hhead, ha0, htail⟩ := hc
  have hpop : (b.popBlock o).2 = { b with
      freeHeads := update b.freeHeads o (b.next a)
      freeCount := update b.freeCount o (b.freeCount o - 1) } := by
    rw [Buddy.popBlock, if_neg (by rw [hhead]; exact ha0), hhead]
  refine ⟨hhead, ?_⟩
  rw [hpop]
  refine h.relist ho ⟨rfl, rfl, rfl, rfl⟩ (fun i hi hio => ⟨?_, ?_, fun _ _ => rfl⟩) ?_ ?_ ?_ ?_ ?_
  · exact update_of_ne hio _ _
  · exact update_of_ne hio _ _
  · simp only [update_self]
    exact htail
  · simp [h.count o ho, hl]
  · exact fun c hc => h.aligned o ho c (hl ▸ mem_cons_of_mem _ hc)
  · rw [hl, map_cons, pagesOf_cons]
    abel
  · rw [hl, length_cons]
    ring

lemma node_clean (h : Owns A b out L d) (ho : o ≤ maxOrder) (ha : a ∈ L o) :
    b.mem.readLe a 4 ≠ poisonPattern := by
  have hnext : pageSize ∣ b.next a := by
    rcases (h.chain o ho).next_mem ha with h0 | hmem
    · rw [h0]; exact dvd_zero _
    · exact h.aligned o ho _ hmem
  have hlow : b.mem.readLe a 4 = b.next a % 256 ^ 4 := Mem.readLe_mod (by omega)
  rw [hlow]
  simp only [pageSize, poisonPattern] at *
  omega

lemma popBlock_mem (b : Buddy) (o : ℕ) : (b.popBlock o).2.mem = b.mem := by
  unfold Buddy.popBlock
  split_ifs <;> rfl

section

variable (h : Owns A b out L d) (ho : o ≤ maxOrder)
include h ho

lemma pop_cases : b.popBlock o = (none, b) ∨
    ∃ a l, L o = a :: l ∧ b.popBlock o = (some a, (b.popBlock o).2) := by
  rcases (h.chain o ho).head_cases with ⟨h0, -⟩ | ⟨l, hl, h0, -⟩
  · exact .inl (if_pos h0)
  · refine .inr ⟨b.freeHeads o, l, hl, ?_⟩
    rw [Buddy.popBlock, if_neg h0]

lemma length_lt_fuel : (L o).length < (b.endAddr - b.base) / pageSize + 1 := by
  have hsub : A.pages ⊆ Multiset.Ico (A.base / pageSize) (A.endAddr / pageSize) := by
    intro p hp
    have h1 := A.above p hp
    have h2 := A.below p hp
    rw [Multiset.mem_Ico]
    simp only [pageSize] at *
    omega
  have hcard := Multiset.card_le_card ((Multiset.le_iff_subset A.nodup).mpr hsub)
  have hlen := length_le_card (L := L) ho
  have hcover := congrArg Multiset.card h.cover
  have hal := A.base_aligned
  rw [Multiset.card_add] at hcover
  have hico : (Multiset.Ico (A.base / pageSize) (A.endAddr / pageSize)).card =
      A.endAddr / pageSize - A.base / pageSize := Nat.card_Ico _ _
  rw [hico] at hcard
  rw [h.base, h.endAddr]
  simp only [pageSize] at *
  omega

lemma unlink {t p : ℕ} {l1 l2 : List ℕ}
    (hl : L o = l1 ++ p :: t :: l2) :
    Owns A { b with
        mem := b.mem.writeLe p 8 (b.next t)
        freeCount := update b.freeCount o (b.freeCount o - 1) }
      ((blockPages (t, o)).val + out) (update L o (l1 ++ p :: l2)) (d + 2 ^ o) := by
  have hc := h.chain o ho
  have hpmem : p ∈ L o := by rw [hl]; simp
  have hpt : p ∉ l1 ++ l2 := by
    have hnodup := nodes_nodup h.nodup.1 ho
    rw [hl, nodup_middle] at hnodup
    intro hp'
    refine hnodup.notMem ?_
    rcases mem_append.mp hp' with hp' | hp' <;> simp [hp']
  have htnext : b.next t < 2 ^ 64 := lt_of_lt_of_eq (Mem.readLe_lt _ _ _) (by norm_num)
  have hnext : ∀ i ≤ maxOrder, ∀ c ∈ L i, (b.mem.writeLe p 8 (b.next t)).readLe c 8 =
      if c = p then b.next t else b.next c := fun i hi c hc' =>
    next_writeLe (h.aligned o ho p hpmem) (h.aligned i hi c hc') htnext
  refine h.relist ho ⟨rfl, rfl, rfl, rfl⟩ (fun i hi hio => ⟨rfl, ?_, fun c hc' => ?_⟩)
    ?_ ?_ ?_ ?_ ?_
  · exact update_of_ne hio _ _
  · refine (hnext i hi c hc').trans (if_neg ?_)
    rintro rfl
    exact node_unique h.nodup.1 ho hi hio hpmem hc'
  · rw [hl] at hc
    refine hc.unlink ((hnext o ho p hpmem).trans (if_pos rfl)) fun c hc' => ?_
    have hcp : c ≠ p := fun hcp => hpt (hcp ▸ hc')
    refine (hnext o ho c ?_).trans (if_neg hcp)
    rw [hl]
    rcases mem_append.mp hc' with hc' | hc' <;> simp [hc']
  · simp [h.count o ho, hl]
  · intro c hc'
    refine h.aligned o ho c ?_
    rw [hl]
    rcases mem_append.mp hc' with hc' | hc'
    · simp [hc']
    · rcases mem_cons.mp hc' with rfl | hc' <;> simp [*]
  · simp only [hl, map_append, map_cons, pagesOf_append, pagesOf_cons]
    abel
  · simp only [hl, length_append, length_cons]
    ring

/-- `remove_from_free_list` returns, and answers `true` only when it took the target off the
list. This is where a target of `0` would be answered `true` on an empty list. -/
lemma remove {t : ℕ} (ht : t ≠ 0) :
    (t ∉ L o ∧ b.removeFromFreeList t o = .ok (false, b)) ∨
      ∃ b' l, b.removeFromFreeList t o = .ok (true, b') ∧ (L o).Perm (t :: l) ∧
        Owns A b' ((blockPages (t, o)).val + out) (update L o l) (d + 2 ^ o) ∧
        Writes (fun p => ∃ c ∈ l, c / pageSize = p) b b' := by
  have hc := h.chain o ho
  by_cases hhead : b.freeHeads o = t
  · rcases hc.head_cases with ⟨h0, -⟩ | ⟨l, hl, h0, -⟩
    · exact absurd (hhead.symm.trans h0) ht
    · rw [hhead] at hl
      refine .inr ⟨(b.popBlock o).2, l, by rw [Buddy.removeFromFreeList, if_pos hhead],
        by rw [hl], (h.pop_head ho hl).2, fun x _ => ?_⟩
      rw [popBlock_mem]
  · have hin : ¬ ∃ c ∈ visited b.next t ((b.endAddr - b.base) / pageSize + 1) (b.freeHeads o),
        c < b.base ∨ b.endAddr ≤ c := by
      rintro ⟨c, hv, hout⟩
      have hpage := h.free_mem (mem_freePages ho (hc.visited_subset _ _ hv))
      have h1 := (addr_pos hpage).1
      have h2 := addr_lt_end hpage
      rw [h.base, h.endAddr] at hout
      omega
    rcases hc.findPrev_spec ht (h.length_lt_fuel ho) with ⟨l1, p, l2, hl, hp⟩ | ⟨hnot, hp⟩
    · have hpal := h.aligned o ho p (by rw [hl]; simp)
      refine .inr ⟨_, l1 ++ p :: l2, by rw [Buddy.removeFromFreeList, if_neg hhead, if_neg hin, hp], ?_,
        h.unlink ho hl, fun x hx => Mem.writeLe_outside ?_⟩
      · rw [hl, append_cons l1 p (t :: l2), append_cons l1 p l2]
        exact perm_middle
      · -- `p` itself stays on the list
        have hne : p / pageSize ≠ x / pageSize := fun heq => hx ⟨p, by simp, heq⟩
        simp only [pageSize] at *
        omega
    · refine .inl ⟨fun hmem => ?_, by rw [Buddy.removeFromFreeList, if_neg hhead, if_neg hin, hp]⟩
      rcases hc.head_cases with ⟨-, hl⟩ | ⟨l, hl, -, -⟩
      · rw [hl] at hmem
        simp at hmem
      · rw [hl] at hmem hnot
        rcases mem_cons.mp hmem with rfl | hmem
        · exact hhead rfl
        · exact hnot hmem

end

end Owns

end Aios.Mm
