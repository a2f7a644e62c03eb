import Aios.Lib.Dyadic
import Aios.Mm.Bitmap
import Aios.Mm.Partition

/-!
Freed blocks are merged as far as possible.

On a range that starts at a block of the top order, the blocks on the lists are aligned to
their size and no two buddies are both listed. The bits of the pairs inside the arena are
exact, so the loop of `free_pages` stops only where there is nothing to merge. The lists are
then a reduced family of dyadic blocks, which the pages they cover determine: when every block
has been given back, the lists are those of init.
-/

namespace Aios.Mm

open Aios.Lib Function Multiset List

variable {A : Arena} {b b' : Buddy} {out : Multiset ℕ} {L L' : ℕ → List ℕ} {d o a c k : ℕ}

structure Merged (A : Arena) (L : ℕ → List ℕ) : Prop where
  natural : ∀ o ≤ maxOrder, ∀ a ∈ L o, blockSize o ∣ a
  apart : ∀ o < maxOrder, ∀ a ∈ L o, buddyOf a A.base o ∉ L o

structure Tidy (A : Arena) (b : Buddy) (L : ℕ → List ℕ) : Prop extends Merged A L where
  bits : Exact A b.mem L

section Lists

lemma Arena.Natural.buddyOf_lower (hA : A.Natural) (ho : o < maxOrder) (hbase : A.base ≤ a)
    (hal : blockSize (o + 1) ∣ a) : buddyOf a A.base o = a + blockSize o := by
  obtain ⟨lo, hlo, -, ⟨rfl, hb⟩ | ⟨rfl, -⟩⟩ :=
    hA.pair ho hbase ((blockSize_dvd (Nat.le_succ o)).trans hal)
  · exact hb
  · -- an upper half is not aligned to the size of the pair
    have hpos := blockSize_pos o
    have hdvd := (Nat.dvd_add_right hlo).mp hal
    have hle := Nat.le_of_dvd hpos hdvd
    rw [blockSize_succ] at hle
    omega

lemma Merged.shrink (hm : Merged A L) {l : List ℕ} (hl : ∀ c ∈ l, c ∈ L o) :
    Merged A (update L o l) := by
  have hsub : ∀ k, ∀ c ∈ update L o l k, c ∈ L k := by
    intro k c hc
    by_cases hko : k = o
    · subst hko
      rw [update_self] at hc
      exact hl c hc
    · rwa [update_of_ne hko] at hc
  exact ⟨fun k hk c hc => hm.natural k hk c (hsub k c hc),
    fun k hk c hc hb => hm.apart k hk c (hsub k c hc) (hsub k _ hb)⟩

lemma Merged.insert (hm : Merged A L) (h : Owns A b out L d) (hal : blockSize o ∣ a)
    (hbase : A.base ≤ a) (hbuddy : o < maxOrder → buddyOf a A.base o ∉ L o) :
    Merged A (update L o (a :: L o)) := by
  refine ⟨fun k hk c hc => ?_, fun k hk c hc hb => ?_⟩
  · by_cases hko : k = o
    · subst hko
      rw [update_self] at hc
      rcases mem_cons.mp hc with rfl | hc
      · exact hal
      · exact hm.natural k hk c hc
    · rw [update_of_ne hko] at hc
      exact hm.natural k hk c hc
  · by_cases hko : k = o
    · subst hko
      rw [update_self] at hc hb
      rcases mem_cons.mp hc with rfl | hc
      · rcases mem_cons.mp hb with hself | hb
        · have hpos := blockSize_pos k
          have := buddyOf_cases k hbase
          omega
        · exact hbuddy hk hb
      · have hcbase : A.base ≤ c := (h.listed_in_range hk.le hc).1
        rcases mem_cons.mp hb with hself | hb
        · -- then `c` is the buddy of the new block
          refine hbuddy hk ?_
          rw [← hself, buddyOf_buddyOf k hcbase]
          exact hc
        · exact hm.apart k hk c hc hb
    · rw [update_of_ne hko] at hc hb
      exact hm.apart k hk c hc hb

end Lists

namespace Tidy

lemma frame (ht : Tidy A b L) (hw : Writes (· ∈ A.pages) b b') : Tidy A b' L :=
  { ht with bits := ht.bits.frame hw }

section

variable (hA : A.Natural) (hinit : A.initialized = true)
include hA hinit

lemma take (h : Owns A b out L d) (ht : Tidy A b L) (ho : o ≤ maxOrder) {l : List ℕ}
    (hl : L o = a :: l) : Tidy A ((b.popBlock o).2.toggleIfInitialized a o) (update L o l) := by
  have hpop := (h.pop_head ho hl).2
  have hnodup := nodes_nodup h.nodup.1 ho
  rw [hl] at hnodup
  have hal := ht.natural o ho a (hl ▸ mem_cons_self)
  have hbits : Exact A (b.popBlock o).2.mem L := by
    rw [Owns.popBlock_mem]
    exact ht.bits
  refine ⟨ht.toMerged.shrink fun c hc => hl ▸ mem_cons_of_mem _ hc, ?_⟩
  rw [Buddy.toggleIfInitialized, hpop.initialized, if_pos hinit]
  refine hbits.flip hA hpop hal hpop.first_mem fun c => ?_
  have ha : a ∉ l := (List.nodup_cons.mp hnodup).1
  rw [hl, List.mem_cons]
  by_cases hca : c = a
  · subst hca
    simp [ha]
  · simp [hca]

lemma splitStep (h : Owns A b ((blockPages (a, o + 1)).val + out) L d) (ht : Tidy A b L)
  (ho : o < maxOrder)
    (hal : blockSize (o + 1) ∣ a) : Tidy A (b.splitStep a o) (cutList a L o) := by
  have hpage := pageSize_dvd_of_block hal
  have hbase : A.base ≤ a := (Owns.addr_pos h.first_mem).1
  have hcut : (blockPages (a, o + 1)).val + out =
      (blockPages (a + blockSize o, o)).val + ((blockPages (a, o)).val + out) := by
    rw [blockPages_split]
    abel
  rw [hcut] at h
  have hhalf : blockSize o ∣ a + blockSize o :=
    Nat.dvd_add ((blockSize_dvd (Nat.le_succ o)).trans hal) dvd_rfl
  have hlower : a ∉ L o := fun hmem => h.node_ne ho.le hmem
    (mem_add.mpr (.inr (mem_add.mpr (.inl (first_mem_blockPages (a, o)))))) rfl
  have hbuddy : buddyOf (a + blockSize o) A.base o = a := by
    rw [← hA.buddyOf_lower ho hbase hal]
    exact buddyOf_buddyOf o hbase
  obtain ⟨hpush, hw⟩ := h.push ho.le (dvd_blockSize o hpage)
  refine ⟨ht.toMerged.insert h hhalf (by omega) fun _ => by rwa [hbuddy], ?_⟩
  have hbits := ht.bits.frame (hw.mono fun p hp => hp ▸ h.first_mem)
  rw [Buddy.splitStep, Buddy.toggleIfInitialized, hpush.initialized, if_pos hinit]
  exact hbits.put hA hpush hhalf h.first_mem (h.notMem_of_out ho.le)

lemma split {n : ℕ}
    (h : Owns A b ((blockPages (a, o + n)).val + out) L d) (ht : Tidy A b L)
    (hn : o + n ≤ maxOrder) (hal : blockSize (o + n) ∣ a) :
    Tidy A ((List.range' o n).reverse.foldl (Buddy.splitStep a) b)
      ((List.range' o n).reverse.foldl (cutList a) L) := by
  induction n generalizing b L with
  | zero => exact ht
  | succ n ih =>
    have hstep := (Owns.splitStep (o := o + n) h (pageSize_dvd_of_block hal) (by omega)).1
    have htidy := splitStep (o := o + n) hA hinit h ht (by omega) hal
    rw [Owns.halves_succ, List.foldl_cons, List.foldl_cons]
    exact ih hstep htidy (by omega) ((blockSize_dvd (by omega)).trans hal)

lemma carve (h : Owns A b out L 0) (ht : Tidy A b L) {i : ℕ} {l : List ℕ} (hoi : o ≤ i)
    (hi : i ≤ maxOrder) (hl : L i = a :: l) :
    Tidy A (b.carve a o i) (carvedLists a o i (update L i l)) := by
  obtain ⟨n, rfl⟩ := Nat.exists_eq_add_of_le hoi
  have hal := ht.natural _ hi a (hl ▸ mem_cons_self)
  have hpop := (h.pop_head hi hl).2
  have htog := (hpop.toggleIfInitialized hpop.first_mem hi).1
  have hsplit := split hA hinit htog (ht.take hA hinit h hi hl) hi hal
  unfold Buddy.carve carvedLists
  rw [Nat.add_sub_cancel_left]
  exact { hsplit with bits := hsplit.bits }

end

end Tidy

section Coalesce

lemma Arena.Whole.merge (ha : A.Whole a o) (hb : A.Whole (buddyOf a A.base o) o) :
    A.Whole (min a (buddyOf a A.base o)) (o + 1) := by
  intro p hp
  have hp' : p ∈ (blockPages (min a (buddyOf a A.base o), o + 1)).val := hp
  rw [blockPages_merge o (Owns.addr_pos ha.first).1] at hp'
  rcases mem_add.mp hp' with hp' | hp'
  · exact hb p hp'
  · exact ha p hp'

lemma Owns.listed_whole (h : Owns A b out L d) (ho : o ≤ maxOrder) (ha : a ∈ L o) :
    A.Whole a o := fun _ hp => h.free_mem (mem_freePages_iff.mpr ⟨o, ho, a, ha, hp⟩)

lemma Owns.out_whole (h : Owns A b ((blockPages (a, o)).val + out) L d) : A.Whole a o :=
  fun _ hp => h.out_mem (mem_add.mpr (.inl hp))

lemma Exact.bit_pair {m : Mem} (hex : Exact A m L) (hA : A.Natural) (ho : o < maxOrder)
    (hbase : A.base ≤ a) (hal : blockSize o ∣ a)
    (hw : A.Whole (min a (buddyOf a A.base o)) (o + 1)) :
    A.bit m a o = (decide (a ∈ L o) ^^ decide (buddyOf a A.base o ∈ L o)) := by
  obtain ⟨lo, hlo, hmin, hcases⟩ := hA.pair ho hbase hal
  rw [hmin] at hw
  have hbit := hex o ho lo hlo hw
  have hlobase := (Owns.addr_pos hw.first).1
  have hpos : A.pos a o = A.pos lo o :=
    (Arena.pos_eq_iff hA ho hbase hal hlobase hlo).mpr (hcases.imp And.left And.left)
  have hsame : A.bit m a o = A.bit m lo o := by
    unfold Arena.bit
    rw [hpos]
  rw [hsame, hbit, parity]
  rcases hcases with ⟨h1, h2⟩ | ⟨h1, h2⟩
  · rw [← h2, ← h1]
  · rw [← h1, h2, Bool.xor_comm]

lemma Owns.Coalesces.tidy (hA : A.Natural) {a' o' : ℕ}
    (hc : Owns.Coalesces A out b L a o b' L' a' o')
    (h : Owns A b ((blockPages (a, o)).val + out) L 0) (ht : Tidy A b L) (hal : blockSize o ∣ a) :
    blockSize o' ∣ a' ∧ Tidy A b' (update L' o' (a' :: L' o')) := by
  induction hc with
  | top b L a =>
    have hbase := (Owns.addr_pos h.first_mem).1
    refine ⟨hal, ht.toMerged.insert h hal hbase fun hlt => absurd hlt (lt_irrefl _), ?_⟩
    refine ht.bits.relist fun k hk c _ _ => ?_
    unfold parity
    rw [update_of_ne hk.ne]
  | @lone b L a o ho hbit =>
    have hbase := (Owns.addr_pos h.first_mem).1
    have hnot := h.notMem_of_out ho.le
    -- with the buddy on its list the bit would have been set before
    have hbuddy : buddyOf a A.base o ∉ L o := by
      intro hmem
      have hb := ht.bits.bit_pair hA ho hbase hal (h.out_whole.merge (h.listed_whole ho.le hmem))
      rw [h.toggle_bit, hb] at hbit
      simp [hnot, hmem] at hbit
    exact ⟨hal, ht.toMerged.insert h hal hbase fun _ => hbuddy,
      ht.bits.put hA h hal h.first_mem hnot⟩
  | @absent b L a o ho hbit habsent =>
    have hbase := (Owns.addr_pos h.first_mem).1
    have hnot := h.notMem_of_out ho.le
    -- with both buddies in the arena the bit would be set now
    have hpart : ¬ A.Whole (min a (buddyOf a A.base o)) (o + 1) := by
      intro hw
      have hb := ht.bits.bit_pair hA ho hbase hal hw
      rw [h.toggle_bit, hb] at hbit
      simp [hnot, habsent] at hbit
    refine ⟨hal, ht.toMerged.insert h hal hbase fun _ => habsent, fun k hk c hcl hw => ?_⟩
    have h₁ := (h.toggle h.first_mem ho.le).1
    rw [h₁.bit_toggle, h.bit_toggle, Bool.xor_assoc, Bool.xor_self, Bool.xor_false,
      ht.bits k hk c hcl hw]
    unfold parity
    by_cases hko : k = o
    · subst hko
      -- the pair of `a` is the one that is not inside
      have hcbase := (Owns.addr_pos hw.first).1
      have hne : ¬ (a = c ∨ a = c + blockSize k) := by
        intro hac
        have hbl := hA.buddyOf_lower hk hcbase hcl
        refine hpart ?_
        rcases hac with rfl | rfl
        · rw [hbl, min_eq_left (Nat.le_add_right _ _)]
          exact hw
        · rw [← hbl, buddyOf_buddyOf k hcbase, hbl, min_eq_right (Nat.le_add_right _ _)]
          exact hw
      rw [not_or] at hne
      rw [update_self]
      simp [Ne.symm hne.1, Ne.symm hne.2]
    · rw [update_of_ne hko]
  | @merge b b2 b' L L' l a o a' o' ho hbit hperm hw hown hrest ih =>
    have hbase := (Owns.addr_pos h.first_mem).1
    have hnot := h.notMem_of_out ho.le
    have hmem : buddyOf a A.base o ∈ L o := hperm.mem_iff.mpr mem_cons_self
    have hsub : ∀ c ∈ l, c ∈ L o := fun c hc => hperm.mem_iff.mpr (mem_cons_of_mem _ hc)
    have hbl : buddyOf a A.base o ∉ l :=
      (nodup_cons.mp (hperm.nodup_iff.mp (nodes_nodup h.nodup.1 ho.le))).1
    obtain ⟨lo, hlo, hmin, -⟩ := hA.pair ho hbase hal
    refine ih hown ⟨ht.toMerged.shrink hsub, ?_⟩ (hmin ▸ hlo)
    -- the two blocks of the pair have left, which the toggle of the one tells
    have hflip := ht.bits.put hA h hal h.first_mem hnot
    have hstay : Exact A (b.bitmapToggle a o).2.mem (update L o l) := by
      refine hflip.relist fun k hk c hcl hcw => ?_
      unfold parity
      by_cases hko : k = o
      · subst hko
        rw [update_self, update_self]
        have hl : ∀ x, x ∈ L k ↔ x = buddyOf a A.base k ∨ x ∈ l := fun x => by
          rw [hperm.mem_iff, List.mem_cons]
        have hal' : a ∉ l := fun hmem => hnot (hsub a hmem)
        have hcbase := (Owns.addr_pos hcw.first).1
        have hbc := hA.buddyOf_lower hk hcbase hcl
        by_cases h1 : a = c
        · -- both blocks of the pair count on one side and none on the other
          rw [h1, hbc] at hbl hmem
          rw [h1] at hal' ⊢
          simp [hal', hbl, hmem]
        · by_cases h2 : a = c + blockSize k
          · have hb : buddyOf a A.base k = c := by rw [h2, ← hbc, buddyOf_buddyOf k hcbase]
            rw [hb] at hbl hmem
            rw [← h2]
            simp [hal', hbl, hmem]
          · have h3 : c ≠ buddyOf a A.base k := fun heq =>
              h2 (by rw [← hbc, heq, buddyOf_buddyOf k hbase])
            have h4 : c + blockSize k ≠ buddyOf a A.base k := fun heq =>
              h1 (by rw [← buddyOf_buddyOf k hbase, ← heq, ← hbc, buddyOf_buddyOf k hcbase])
            simp [hl, Ne.symm h1, Ne.symm h2, h3, h4]
      · rw [update_of_ne hko, update_of_ne hko]
    refine hstay.frame (hw.mono ?_)
    rintro p ⟨c, hc, rfl⟩
    exact h.free_mem (mem_freePages ho.le (hsub c hc))

lemma Tidy.free (hA : A.Natural) (hinit : A.initialized = true)
    (h : Owns A b ((blockPages (a, o)).val + out) L 0) (ht : Tidy A b L) (hal : blockSize o ∣ a)
    (ho : o ≤ maxOrder) (hclean : b.mem.readLe a 4 ≠ poisonPattern) :
    ∃ b' L', b.freePages a o = .ok b' ∧ Owns A b' out L' 0 ∧ Tidy A b' L' := by
  have hpage := pageSize_dvd_of_block hal
  obtain ⟨b1, a', o', L1, ho', heq, hown1, hsteps, hown, -⟩ :=
    h.free_steps hpage ho hinit hclean
  have hfill := Owns.poison_writes (o := o) b hpage
  have hstart : Tidy A { b with mem := Buddy.poison b.mem a o } L := by
    refine ht.frame (hfill.mono fun p hp => ?_)
    exact h.out_mem (mem_add.mpr (.inl hp))
  obtain ⟨hal', htidy⟩ := hsteps.tidy hA (h.inside hfill).1 hstart hal
  have htop : Tidy A (b1.toggleTop a' o') (update L1 o' (a' :: L1 o')) := by
    unfold Buddy.toggleTop
    split_ifs with hmax
    · subst hmax
      exact { htidy with bits := htidy.bits.toggle_top hown1 hown1.first_mem }
    · exact htidy
  have hpush := ((hown1.toggleTop hown1.first_mem ho').1.push ho' (pageSize_dvd_of_block hal')).2
  exact ⟨_, _, heq, hown, htop.frame (hpush.mono fun p hp => hp ▸ hown1.first_mem)⟩

end Coalesce

section Families

def family (L : ℕ → List ℕ) (k : ℕ) : Set ℕ := { i | blockSize k * i ∈ L k }

lemma mem_block_pages {i p : ℕ} : p ∈ blockPages (blockSize k * i, k) ↔ p / 2 ^ k = i := by
  have hfirst : blockSize k * i / pageSize = i * 2 ^ k := by
    rw [blockSize, Nat.mul_assoc, Nat.mul_div_cancel_left _ (by decide), Nat.mul_comm]
  have hsucc : i * 2 ^ k + 2 ^ k = (i + 1) * 2 ^ k := by ring
  rw [blockPages, Finset.mem_Ico, hfirst, hsucc, Nat.div_eq_iff (Nat.two_pow_pos k)]
  have := Nat.two_pow_pos k
  have hexp : (i + 1) * 2 ^ k = i * 2 ^ k + 2 ^ k := by ring
  omega

lemma Merged.covers (hm : Merged A L) (p : ℕ) :
    Dyadic.Covers maxOrder (family L) p ↔ p ∈ freePages L := by
  rw [mem_freePages_iff]
  constructor
  · rintro ⟨k, hk, hmem⟩
    exact ⟨k, hk, _, hmem, mem_block_pages.mpr rfl⟩
  · rintro ⟨k, hk, a, ha, hp⟩
    obtain ⟨i, rfl⟩ := hm.natural k hk a ha
    rw [mem_block_pages] at hp
    refine ⟨k, hk, ?_⟩
    rw [hp]
    exact ha

lemma separate (hn : (freePages L).Nodup) : Dyadic.Separate maxOrder (family L) :=
  fun _ hk _ hj _ hpk hpj =>
    (order_unique hn hk hj hpk (mem_block_pages.mpr rfl) hpj (mem_block_pages.mpr rfl)).symm

lemma Merged.reduced (hA : A.Natural) (h : Owns A b out L d) (hm : Merged A L) :
    Dyadic.Reduced maxOrder (family L) := by
  intro k hk i hlow hup
  have hbase := (h.listed_in_range hk.le hlow).1
  have hdouble : blockSize k * (2 * i) = blockSize (k + 1) * i := by
    rw [blockSize_succ]
    ring
  have hbuddy := hA.buddyOf_lower hk hbase (hdouble ▸ dvd_mul_right _ _)
  refine hm.apart k hk _ hlow ?_
  rw [hbuddy]
  have hnext : blockSize k * (2 * i) + blockSize k = blockSize k * (2 * i + 1) := by ring
  rw [hnext]
  exact hup

/-- **The pages determine the lists**, up to the order of the blocks. -/
lemma Merged.perm (hA : A.Natural) {L0 : ℕ → List ℕ} {b0 : Buddy} (h : Owns A b 0 L 0)
    (hm : Merged A L) (h0 : Owns A b0 0 L0 0) (hm0 : Merged A L0) (ho : o ≤ maxOrder) :
    (L o).Perm (L0 o) := by
  have hsame : freePages L = freePages L0 := by
    have h1 := h.cover
    have h2 := h0.cover
    rw [add_zero] at h1 h2
    rw [h1, h2]
  have hfamily : family L o = family L0 o := by
    refine Dyadic.Reduced.unique (hm.reduced hA h) (separate h.nodup.1) (hm0.reduced hA h0)
      (separate h0.nodup.1) (fun p => ?_) ho
    rw [hm.covers, hm0.covers, hsame]
  refine (perm_ext_iff_of_nodup (nodes_nodup h.nodup.1 ho)
    (nodes_nodup h0.nodup.1 ho)).mpr fun a => ?_
  have hiff : ∀ i, blockSize o * i ∈ L o ↔ blockSize o * i ∈ L0 o := fun i =>
    Set.ext_iff.mp hfamily i
  constructor
  · intro ha
    obtain ⟨i, rfl⟩ := hm.natural o ho a ha
    exact (hiff i).mp ha
  · intro ha
    obtain ⟨i, rfl⟩ := hm0.natural o ho a ha
    exact (hiff i).mpr ha

end Families

lemma Snug.not_whole {e : ℕ} (hs : Snug e a o) (he : e / pageSize ∉ A.pages) (ho : o < maxOrder)
    (hal : blockSize (o + 1) ∣ a) : ¬ A.Whole a (o + 1) := by
  intro hw
  have hmax := hs.maximal ho hal
  have hle := hs.le
  have hpage := pageSize_dvd_of_block hal
  refine he (hw _ (Finset.mem_Ico.mpr ?_))
  simp only [blockSize, pageSize] at *
  omega

lemma Setup.run_tidy {i : Setup} (hi : i.Valid) (hb : 0 < i.base)
    (hnat : blockSize maxOrder ∣ i.base) (mem : Mem) :
    ∃ L, Owns (i.arena hi hb true) (i.run mem) 0 L 0 ∧ Tidy (i.arena hi hb true) (i.run mem) L := by
  obtain ⟨L, hown, hw, hsnug⟩ := i.run_lists hi hb mem
  have hA : (i.arena hi hb true).Natural := hnat
  have hmerged : Merged (i.arena hi hb true) L := by
    refine ⟨fun o _ a ha => ?_, fun o ho a ha hbud => ?_⟩
    · obtain ⟨e, -, hs⟩ := hsnug o a ha
      exact hs.aligned
    · -- the lower of two listed buddies would have been a larger block
      have hwhole := (hown.listed_whole ho.le ha).merge (hown.listed_whole ho.le hbud)
      obtain ⟨e0, -, hs0⟩ := hsnug o a ha
      obtain ⟨lo, hlo, hmin, hcases⟩ :=
        hA.pair ho (hown.listed_in_range ho.le ha).1 hs0.aligned
      have hmem : lo ∈ L o := by
        rcases hcases with ⟨h1, -⟩ | ⟨-, h2⟩
        · rwa [← h1]
        · rwa [← h2]
      obtain ⟨e, he, hs⟩ := hsnug o lo hmem
      rw [hmin] at hwhole
      exact hs.not_whole he ho hlo hwhole
  refine ⟨L, hown, hmerged, fun o ho a hal hwhole => ?_⟩
  have hzero : (i.arena hi hb true).bit (i.run mem).mem a o = false := by
    have hbyte := bit_in_bitmap (Arena.index_lt hwhole.first) ho.le
    rw [hw.bit (A := i.arena hi hb true) hwhole.first ho.le]
    have hfill : ((Buddy.new mem).setRange i.base i.endAddr).mem
        (i.base + (i.arena hi hb true).pos a o / 8) = 0 :=
      if_pos ⟨Nat.le_add_right _ _, Nat.add_lt_add_left hbyte _⟩
    unfold Arena.bit
    rw [show (i.arena hi hb true).base = i.base from rfl, hfill]
    exact Nat.zero_testBit _
  obtain ⟨j, rfl⟩ := hal
  have hcover : ∀ p, p / 2 ^ (o + 1) = j → Dyadic.Covers maxOrder (family L) p := by
    intro p hp
    have hc := hown.cover
    rw [add_zero] at hc
    rw [hmerged.covers, hc]
    exact hwhole p (mem_block_pages.mpr hp)
  have hhalf : ∀ h < 2, blockSize o * (2 * j + h) ∉ L o := fun h hh =>
    (hmerged.reduced hA hown).half_notMem (separate hown.nodup.1) ho hcover hh
  have hlow : blockSize (o + 1) * j = blockSize o * (2 * j + 0) := by
    rw [blockSize_succ]
    ring
  have hup : blockSize (o + 1) * j + blockSize o = blockSize o * (2 * j + 1) := by
    rw [blockSize_succ]
    ring
  rw [hzero, parity, hup, hlow, decide_eq_false (hhalf 0 (by omega)),
    decide_eq_false (hhalf 1 (by omega))]
  rfl

/-- Frees name a block that is handed out with that order, and a holder stores inside one of
its blocks, whatever it likes. -/
def Call.Fits (s : Sys) : Call → Prop
  | .alloc _ => True
  | .free addr order => (addr, order) ∈ s.held
  | .store addr bytes => ∃ x ∈ s.held, x.1 ≤ addr ∧ addr + bytes.length ≤ x.1 + blockSize x.2

instance (s : Sys) (c : Call) : Decidable (c.Fits s) :=
  match c with
  | .alloc _ => inferInstanceAs (Decidable True)
  | .free addr order => inferInstanceAs (Decidable ((addr, order) ∈ s.held))
  | .store addr bytes => inferInstanceAs (Decidable (∃ x ∈ s.held, x.1 ≤ addr ∧
      addr + bytes.length ≤ x.1 + blockSize x.2))

lemma clean_of_freed (hinit : b.initialized = true) (h : b.freePages a o = .ok b') :
    b.mem.readLe a 4 ≠ poisonPattern := by
  intro hp
  unfold Buddy.freePages at h
  split_ifs at h with hargs hearly
  simp [hinit] at hearly

namespace Sys

variable {s t : Sys}

structure Ordered (A : Arena) (s : Sys) : Prop where
  lists : ∃ L, Owns A s.buddy (pagesOf s.held) L 0 ∧ Tidy A s.buddy L
  held : ∀ x ∈ s.held, x.2 ≤ maxOrder ∧ blockSize x.2 ∣ x.1

namespace Ordered

lemma alloc (hA : A.Natural) (hinit : A.initialized = true) (h : Ordered A s)
    (hs : s.next (.alloc o) = some t) : Ordered A t := by
  obtain ⟨L, hown, ht⟩ := h.lists
  rcases hown.alloc_cases o with heq | ⟨i, a, l, hoi, hi, hl, heq⟩
  · simp only [next, heq, Option.some.injEq] at hs
    exact hs ▸ h
  · simp only [next, heq, Option.some.injEq] at hs
    subst hs
    have hal := ht.natural i hi a (hl ▸ mem_cons_self)
    refine ⟨⟨_, ?_, ht.carve hA hinit hown hoi hi hl⟩, forall_mem_cons.mpr
      ⟨⟨hoi.trans hi, (blockSize_dvd hoi).trans hal⟩, h.held⟩⟩
    rw [pagesOf_cons]
    exact (hown.carve hoi hi hl).1

lemma free (hA : A.Natural) (hinit : A.initialized = true) (h : Ordered A s)
    (hx : (a, o) ∈ s.held) (hs : s.next (.free a o) = some t) : Ordered A t := by
  obtain ⟨L, hown, ht⟩ := h.lists
  obtain ⟨ho, hal⟩ := h.held _ hx
  simp only [next] at hs
  split at hs
  · rename_i b' hfree
    cases hs
    have hclean := clean_of_freed (hown.initialized.trans hinit) hfree
    rw [pagesOf_erase hx] at hown
    obtain ⟨b1, L', heq, hown', ht'⟩ := ht.free hA hinit hown hal ho hclean
    obtain rfl : b1 = b' := Except.ok.inj (heq.symm.trans hfree)
    exact ⟨⟨L', hown', ht'⟩, fun y hy => h.held y (mem_of_mem_erase hy)⟩
  · cases hs

lemma store (h : Ordered A s) {addr : ℕ} {bytes : List UInt8}
    (hok : (Call.store addr bytes).Fits s) :
    Ordered A { s with buddy := { s.buddy with mem := s.buddy.mem.write addr bytes } } := by
  obtain ⟨L, hown, ht⟩ := h.lists
  obtain ⟨x, hx, hlow, hhigh⟩ := hok
  have hpage := pageSize_dvd_of_block (h.held x hx).2
  have hw := store_writes s.buddy hpage hlow hhigh
  have hkeep := hown
  rw [pagesOf_erase hx] at hkeep
  refine ⟨⟨L, ?_, ht.frame (hw.mono fun p hp => ?_)⟩, h.held⟩
  · rw [pagesOf_erase hx]
    exact (hkeep.inside hw).1
  · exact hkeep.out_mem (mem_add.mpr (.inl hp))

lemma step (hA : A.Natural) (hinit : A.initialized = true) (h : Ordered A s) {c : Call}
    (hok : c.Fits s) (hs : s.next c = some t) : Ordered A t := by
  cases c with
  | alloc o => exact h.alloc hA hinit hs
  | free a o => exact h.free hA hinit hok hs
  | store addr bytes =>
    cases hs
    exact h.store hok

lemma boot {i : Setup} (hi : i.Valid) (hb : 0 < i.base) (hnat : blockSize maxOrder ∣ i.base)
    (mem : Mem) : Ordered (i.arena hi hb true) (Sys.boot i mem) := by
  obtain ⟨L, hown, ht⟩ := i.run_tidy hi hb hnat mem
  exact ⟨⟨L, hown, ht⟩, by simp [Sys.boot]⟩

lemma run {i : Setup} (hi : i.Valid) (hb : 0 < i.base) (hnat : blockSize maxOrder ∣ i.base)
    {mem : Mem} (hrun : Runs (fun s c t => s.next c = some t) (fun s c => c.Fits s)
      (Sys.boot i mem) s) : Ordered (i.arena hi hb true) s :=
  hrun.inv _ (boot hi hb hnat mem) fun _ _ _ h hok hs => h.step hnat rfl hok hs

end Ordered

/-- No block is listed beside its buddy, and when nothing is handed out the lists hold the
blocks they held after init. -/
def Coalesced (i : Setup) (mem : Mem) (s : Sys) : Prop :=
  ∃ L₀ L, OnLists (boot i mem).buddy L₀ ∧ OnLists s.buddy L ∧
    (∀ o < maxOrder, ∀ a ∈ L o, buddyOf a i.base o ∉ L o) ∧
    (s.held = [] → ∀ o ≤ maxOrder, (L o).Perm (L₀ o))

/-- **Freed blocks are merged as far as possible.** In every run on a range that starts at a
block of the top order, but not at address `0`. -/
theorem buddies_coalesced {i : Setup} (hi : i.Valid) (hb : 0 < i.base)
    (hnat : blockSize maxOrder ∣ i.base) (mem : Mem) {s : Sys}
    (hrun : Runs (fun s c t => s.next c = some t) (fun s c => c.Fits s) (boot i mem) s) :
    Coalesced i mem s := by
  obtain ⟨L₀, hown₀, ht₀⟩ := i.run_tidy hi hb hnat mem
  obtain ⟨L, hown, ht⟩ := (Ordered.run hi hb hnat hrun).lists
  refine ⟨L₀, L, hown₀.chain, hown.chain, ht.apart, fun hheld o ho => ?_⟩
  have hA : (i.arena hi hb true).Natural := hnat
  rw [hheld] at hown
  exact Merged.perm hA hown ht.toMerged hown₀ ht₀.toMerged ho

theorem buddies_coalesced_four_pages : ∃ s,
    Runs.exec (fun s c => Call.Fits s c) next (boot (.range 0x400000 0x404000) fun _ => 0)
      [.alloc 0, .alloc 0, .free 0x402000 0, .free 0x401000 0] = some s ∧ s.held = [] ∧
    Coalesced (.range 0x400000 0x404000) (fun _ => 0) s := by
  have hrun : ((Runs.exec (fun s c => Call.Fits s c) next
      (boot (.range 0x400000 0x404000) fun _ => 0)
      [.alloc 0, .alloc 0, .free 0x402000 0, .free 0x401000 0]).any fun s => s.held.isEmpty) =
      true := by decide +kernel
  obtain ⟨s, hs, hempty⟩ := (Option.any_eq_true _ _).mp hrun
  refine ⟨s, hs, isEmpty_iff.mp hempty,
    buddies_coalesced ⟨?_, ?_, ?_, ?_, ?_⟩ ?_ ?_ _ (Runs.of_exec hs)⟩
  · decide
  · decide
  · decide
  · decide
  · simp [Setup.exclusions]
  · decide
  · decide

/-- On a range that starts at address `0`, freeing page `1` merges it with the bitmap page, and
all lists are empty afterwards. -/
theorem buddies_lost_at_zero : (Setup.range 0 0x4000).Valid ∧ blockSize maxOrder ∣ 0 ∧ ∃ s,
    Runs (fun s c t => next s c = some t) (fun s c => c.Fits s)
      (boot (.range 0 0x4000) fun _ => 0) s ∧
    ¬ Coalesced (.range 0 0x4000) (fun _ => 0) s := by
  refine ⟨⟨by decide, by decide, by decide, by decide, by simp [Setup.exclusions]⟩, dvd_zero _, ?_⟩
  have hrun : ((Runs.exec (fun s c => Call.Fits s c) next (boot (.range 0 0x4000) fun _ => 0)
      [.alloc 0, .free 0x1000 0]).any fun s =>
        s.held.isEmpty && s.buddy.freeHeads 0 == 0) = true := by decide +kernel
  obtain ⟨s, hs, hempty⟩ := (Option.any_eq_true _ _).mp hrun
  rw [Bool.and_eq_true, List.isEmpty_iff, beq_iff_eq] at hempty
  refine ⟨s, Runs.of_exec hs, ?_⟩
  rintro ⟨L₀, L, h₀, hL, -, hperm⟩
  have hfirst : (boot (.range 0 0x4000) fun _ => 0).buddy.freeHeads 0 = 0x1000 := by
    decide +kernel
  have hnow : L 0 = [] := hL.eq_nil (by omega) hempty.2
  have hthen : L₀ 0 ≠ [] := h₀.ne_nil (by omega) (by rw [hfirst]; decide)
  have hsame := hperm hempty.1 0 (by omega)
  rw [hnow] at hsame
  exact hthen hsame.nil_eq.symm

/-- **Blocks are aligned to their size.** In every run on a range that starts at a block of the
top order, but not at address `0`. -/
theorem alloc_aligned {i : Setup} (hi : i.Valid) (hb : 0 < i.base)
    (hnat : blockSize maxOrder ∣ i.base) (mem : Mem) {s : Sys}
    (hrun : Runs (fun s c t => s.next c = some t) (fun s c => c.Fits s) (boot i mem) s)
    {order addr : ℕ} {b : Buddy} (halloc : s.buddy.allocPages order = (some addr, b)) :
    blockSize order ∣ addr := by
  obtain ⟨L, hown, ht⟩ := (Ordered.run hi hb hnat hrun).lists
  rcases hown.alloc_cases order with heq | ⟨i, a, l, hoi, hi, hl, heq⟩
  · rw [heq] at halloc
    cases halloc
  · rw [heq] at halloc
    cases halloc
    exact (blockSize_dvd hoi).trans (ht.natural i hi addr (hl ▸ mem_cons_self))

theorem alloc_aligned_two_pages : ∃ s b,
    Runs.exec (fun s c => Call.Fits s c) next (boot (.range 0x400000 0x404000) fun _ => 0)
      [.alloc 0] = some s ∧
    s.buddy.allocPages 1 = (some 0x402000, b) ∧ blockSize 1 ∣ 0x402000 := by
  have hrun : ((Runs.exec (fun s c => Call.Fits s c) next
      (boot (.range 0x400000 0x404000) fun _ => 0) [.alloc 0]).any fun s =>
        (s.buddy.allocPages 1).1 == some 0x402000) = true := by decide +kernel
  obtain ⟨s, hs, halloc⟩ := (Option.any_eq_true _ _).mp hrun
  have heq : s.buddy.allocPages 1 = (some 0x402000, (s.buddy.allocPages 1).2) :=
    Prod.ext (beq_iff_eq.mp halloc) rfl
  refine ⟨s, _, hs, heq, alloc_aligned ⟨?_, ?_, ?_, ?_, ?_⟩ ?_ ?_ _ (Runs.of_exec hs) heq⟩
  · decide
  · decide
  · decide
  · decide
  · simp [Setup.exclusions]
  · decide
  · decide

/-- Buddies are told apart relative to the base, but the blocks of init are aligned to
addresses. On a range that starts at page `1`, the pages at `0x3000` and `0x4000` are merged. -/
theorem alloc_misaligned : (Setup.range 0x1000 0x6000).Valid ∧ ∃ s b,
    Runs (fun s c t => next s c = some t) (fun s c => c.Fits s)
      (boot (.range 0x1000 0x6000) fun _ => 0) s ∧
    s.buddy.allocPages 1 = (some 0x3000, b) ∧ ¬ blockSize 1 ∣ 0x3000 := by
  refine ⟨⟨by decide, by decide, by decide, by decide, by simp [Setup.exclusions]⟩, ?_⟩
  have hrun : ((Runs.exec (fun s c => Call.Fits s c) next
      (boot (.range 0x1000 0x6000) fun _ => 0)
      [.alloc 0, .alloc 0, .alloc 0, .alloc 0, .free 0x4000 0, .free 0x3000 0]).any fun s =>
        (s.buddy.allocPages 1).1 == some 0x3000) = true := by decide +kernel
  obtain ⟨s, hs, halloc⟩ := (Option.any_eq_true _ _).mp hrun
  exact ⟨s, _, Runs.of_exec hs, Prod.ext (beq_iff_eq.mp halloc) rfl, by decide⟩

end Sys

end Aios.Mm
