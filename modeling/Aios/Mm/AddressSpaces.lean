import Aios.Mm.Entries

/-!
The page tables of the address spaces are a map from addresses to pages.

`Forest` gives every table a home: the address space it belongs to and the indices that lead to it
from the first level. An entry above the last level is empty or names the table whose home is one
index longer. So a table has one place, a new table is reached by no walk that found something
before, and a walk ends in an entry that no walk for another address reads.
-/

namespace Aios.Mm.Uspace

open Aios.Lib Aios.Ipc PageTableEntry Option Function List

abbrev Home := ℕ → Option (ℕ × List ℕ)

structure Forest (f : Frames) (home : Home) : Prop where
  taken : ∀ t, home t ≠ none → t ∈ f.taken
  frame : ∀ t ∈ f.taken, Frame t
  fresh : Fresh f.taken f.supply
  link : ∀ t r p i, home t = some (r, p) → p.length < 3 → i < 512 →
    entry f.mem t i = 0 ∨ ∃ u, home u = some (r, p ++ [i]) ∧ entry f.mem t i = newTable u

structure Rest (p path : List ℕ) : Prop where
  length : p.length + path.length = 4
  bound : ∀ i ∈ path, i < 512

lemma Rest.tail {p path : List ℕ} {i : ℕ} (h : Rest p (i :: path)) : Rest (p ++ [i]) path where
  length := by
    have := h.length
    simp only [length_cons, length_append, length_nil] at this ⊢
    omega
  bound := fun j hj => h.bound j (mem_cons_of_mem i hj)

lemma rest_indices (va : ℕ) : Rest [] (indices va) := ⟨rfl, indices_lt va⟩

section walk

variable {m : Mem} {t u i j : ℕ} {path : List ℕ}

lemma walk_of_zero (h : entry m t i = 0) : walk m t (i :: path) = none := by
  cases path with
  | nil =>
    simp only [walk, h]
    rfl
  | cons j path =>
    simp only [walk, h]
    rfl

lemma walk_of_newTable (h : entry m t i = newTable u) (hu : Frame u) :
    walk m t (i :: j :: path) = walk m u (j :: path) := by
  simp only [walk, h, isTable_newTable, if_true, physAddr_newTable hu]

end walk

namespace Forest

variable {f f' : Frames} {home home' : Home} {t u r i : ℕ} {p path : List ℕ}

lemma isFrame (h : Forest f home) (ht : home t = some (r, p)) : Frame t :=
  h.frame t (h.taken t (by simp [ht]))

lemma walk_congr {m : Mem} (h : Forest f home) (ht : home t = some (r, p)) (hrest : Rest p path)
    (hm : ∀ t' p' i' rest, home t' = some (r, p') → Rest p' (i' :: rest) →
      p' ++ i' :: rest = p ++ path → entry m t' i' = entry f.mem t' i' ∨
        walk m t' (i' :: rest) = walk f.mem t' (i' :: rest)) :
    walk m t path = walk f.mem t path := by
  induction path generalizing t p with
  | nil => rfl
  | cons i path ih =>
    rcases hm t p i path ht hrest rfl with he | hwalk
    · cases path with
      | nil => simp only [walk, he]
      | cons j path =>
        have hlen := hrest.length
        simp only [length_cons] at hlen
        rcases h.link t r p i ht (by omega) (hrest.bound i mem_cons_self) with h0 | ⟨u, hu, hlink⟩
        · rw [walk_of_zero h0, walk_of_zero (he.trans h0)]
        · rw [walk_of_newTable hlink (h.isFrame hu),
            walk_of_newTable (he.trans hlink) (h.isFrame hu)]
          exact ih hu hrest.tail fun t' p' i' rest ht' hrest' heq =>
            hm t' p' i' rest ht' hrest' (by simpa using heq)
    · exact hwalk

end Forest

structure Grown (f : Frames) (home : Home) (f' : Frames) (home' : Home) : Prop where
  homes : ∀ t x, home t = some x → home' t = some x
  entries : ∀ t r p i, home t = some (r, p) → i < 512 → entry f.mem t i ≠ 0 →
    entry f'.mem t i = entry f.mem t i
  walks : ∀ t r p path, home t = some (r, p) → Rest p path →
    walk f'.mem t path = walk f.mem t path

lemma Grown.refl (f : Frames) (home : Home) : Grown f home f home :=
  ⟨fun _ _ h => h, fun _ _ _ _ _ _ _ => rfl, fun _ _ _ _ _ _ => rfl⟩

lemma Grown.trans {f1 f2 f3 : Frames} {home1 home2 home3 : Home} (h : Grown f1 home1 f2 home2)
    (h' : Grown f2 home2 f3 home3) : Grown f1 home1 f3 home3 where
  homes := fun t x ht => h'.homes t x (h.homes t x ht)
  entries := fun t r p i ht hi he => by
    have h2 := h.entries t r p i ht hi he
    rw [h'.entries t r p i (h.homes t _ ht) hi (by rwa [h2]), h2]
  walks := fun t r p path ht hrest =>
    (h'.walks t r p path (h.homes t _ ht) hrest).trans (h.walks t r p path ht hrest)

namespace Forest

variable {f f' : Frames} {home home' : Home} {t u r i : ℕ} {p path : List ℕ}

lemma zeroedPage (h : Forest f home) (hf : f.zeroedPage = some (u, f')) (x : ℕ × List ℕ) :
    home u = none ∧ Frame u ∧ Forest f' (update home u (some x)) ∧
      Grown f home f' (update home u (some x)) ∧ (∀ i < 512, entry f'.mem u i = 0) ∧
      ∀ t r p i, home t = some (r, p) → i < 512 → entry f'.mem t i = entry f.mem t i := by
  obtain ⟨mem, supply, taken⟩ := f
  cases supply with
  | nil => simp [Frames.zeroedPage] at hf
  | cons q supply =>
    simp only [Frames.zeroedPage, Option.some.injEq, Prod.mk.injEq] at hf
    obtain ⟨rfl, rfl⟩ := hf
    obtain ⟨hnodup, hall⟩ := h.fresh
    obtain ⟨hframe, hnot⟩ := hall q mem_cons_self
    have hnone : home q = none := by
      by_contra hne
      exact hnot (h.taken q hne)
    have hsame : ∀ t r p i, home t = some (r, p) → i < 512 →
        entry (mem.fill (physToDmap q) pageSize 0) t i = entry mem t i := by
      intro t r p i ht hi
      refine entry_fill_of_ne hframe (h.isFrame ht) hi ?_
      rintro rfl
      rw [hnone] at ht
      cases ht
    have hkeep : ∀ t y, home t = some y → update home q (some x) t = some y := by
      intro t y ht
      rw [update_of_ne, ht]
      rintro rfl
      rw [hnone] at ht
      cases ht
    refine ⟨hnone, hframe, ⟨?_, ?_, ?_, ?_⟩, ⟨?_, ?_, ?_⟩, fun i hi => entry_fill mem q hi, hsame⟩
    · intro t ht
      by_cases htq : t = q
      · exact htq ▸ mem_cons_self
      · rw [update_of_ne htq] at ht
        exact mem_cons_of_mem q (h.taken t ht)
    · exact forall_mem_cons.mpr ⟨hframe, h.frame⟩
    · obtain ⟨hq, hrest⟩ := nodup_cons.mp hnodup
      refine ⟨hrest, fun p hp => ⟨(hall p (mem_cons_of_mem q hp)).1, ?_⟩⟩
      rintro (_ | ⟨_, hp'⟩)
      · exact hq hp
      · exact (hall p (mem_cons_of_mem q hp)).2 hp'
    · intro t r p i ht hp hi
      by_cases htq : t = q
      · exact Or.inl (htq ▸ entry_fill mem q hi)
      · rw [update_of_ne htq] at ht
        change entry (mem.fill (physToDmap q) pageSize 0) t i = 0 ∨ ∃ u, _ ∧
          entry (mem.fill (physToDmap q) pageSize 0) t i = newTable u
        rw [hsame t r p i ht hi]
        rcases h.link t r p i ht hp hi with h0 | ⟨u, hu, he⟩
        · exact Or.inl h0
        · exact Or.inr ⟨u, hkeep u _ hu, he⟩
    · exact hkeep
    · exact fun t r p i ht hi _ => hsame t r p i ht hi
    · exact fun t r p path ht hrest => h.walk_congr ht hrest fun t' p' i' _ ht' hrest' _ =>
        .inl (hsame t' r p' i' ht' (hrest'.bound i' mem_cons_self))

section

variable (h : Forest f home) (ht : home t = some (r, p))
include h ht

lemma entry_other (hi : i < 512) (e : PageTableEntry) (t' r' : ℕ) (p' : List ℕ) (i' : ℕ)
    (ht' : home t' = some (r', p')) (hi' : i' < 512) :
    (t', i') ≠ (t, i) → entry (setEntry f.mem t i e) t' i' = entry f.mem t' i' :=
  entry_setEntry_of_ne (h.isFrame ht) (h.isFrame ht') hi hi'

lemma setLink (hp : p.length < 3) (hi : i < 512)
    (h0 : entry f.mem t i = 0) (hu : home u = some (r, p ++ [i]))
    (hempty : ∀ j < 512, entry f.mem u j = 0) :
    Forest { f with mem := setEntry f.mem t i (newTable u) } home ∧
      Grown f home { f with mem := setEntry f.mem t i (newTable u) } home := by
  have hne : u ≠ t := by
    rintro rfl
    simp [hu] at ht
  have hother := h.entry_other ht hi (newTable u)
  refine ⟨⟨h.taken, h.frame, h.fresh, ?_⟩, fun _ _ h => h, ?_, ?_⟩
  · intro t' r' p' i' ht' hp' hi'
    by_cases heq : (t', i') = (t, i)
    · cases heq
      cases ht'.symm.trans ht
      exact Or.inr ⟨u, hu, entry_setEntry _ _ _ _⟩
    · change entry (setEntry f.mem t i (newTable u)) t' i' = 0 ∨ ∃ u', _ ∧
        entry (setEntry f.mem t i (newTable u)) t' i' = newTable u'
      rw [hother t' r' p' i' ht' hi' heq]
      exact h.link t' r' p' i' ht' hp' hi'
  · intro t' r' p' i' ht' hi' hne'
    refine hother t' r' p' i' ht' hi' fun heq => ?_
    cases heq
    exact hne' h0
  · intro t' r' p' path ht' hrest
    refine h.walk_congr ht' hrest fun t' p' i' rest ht' hrest _ => ?_
    by_cases heq : (t', i') = (t, i)
    · -- the walk found nothing here; now it finds an empty table
      cases heq
      cases ht'.symm.trans ht
      have hlen := hrest.length
      cases rest with
      | nil => simp at hlen; omega
      | cons k rest =>
        have hk := hrest.bound k (by simp)
        rw [walk_of_zero h0, walk_of_newTable (entry_setEntry _ _ _ _) (h.isFrame hu)]
        refine .inr (walk_of_zero ?_)
        rw [hother u _ _ k hu hk fun h => hne (Prod.mk.inj h).1]
        exact hempty k hk
    · exact .inl (hother t' r' p' i' ht' (hrest.bound i' mem_cons_self) heq)

lemma ensureTableDmap (hp : p.length < 3) (hi : i < 512)
    (hf : f.ensureTableDmap t i = some (u, f')) : ∃ home', Forest f' home' ∧ Grown f home f' home' ∧
    home' u = some (r, p ++ [i]) ∧ entry f'.mem t i = newTable u := by
  unfold Frames.ensureTableDmap at hf
  by_cases h0 : entry f.mem t i = 0
  · simp only [h0, ne_eq, not_true_eq_false, if_false, bind_eq_bind,
      bind_eq_some_iff, Prod.exists, Option.some.injEq, Prod.mk.injEq] at hf
    obtain ⟨u', f1, hpage, rfl, rfl⟩ := hf
    obtain ⟨hnone, -, hforest, hgrown, hempty, hsame⟩ := h.zeroedPage hpage (r, p ++ [i])
    have hu : update home u' (some (r, p ++ [i])) u' = some (r, p ++ [i]) :=
      update_self _ _ _
    obtain ⟨hforest', hgrown'⟩ := hforest.setLink (hgrown.homes t _ ht) hp hi
      ((hsame t r p i ht hi).trans h0) hu hempty
    exact ⟨_, hforest', hgrown.trans hgrown', hu, entry_setEntry _ _ _ _⟩
  · rcases h.link t r p i ht hp hi with hz | ⟨v, hv, hlink⟩
    · exact absurd hz h0
    · simp only [hlink, ne_eq, newTable_ne_zero, not_false_eq_true, if_true, isTable_newTable,
        physAddr_newTable (h.isFrame hv), Option.some.injEq, Prod.mk.injEq] at hf
      obtain ⟨rfl, rfl⟩ := hf
      exact ⟨home, h, Grown.refl f home, hv, hlink⟩

lemma setLeaf (hp : p.length = 3) (hi : i < 512)
    (e : PageTableEntry) :
    Forest { f with mem := setEntry f.mem t i e } home ∧
      (∀ t' r' p' i', home t' = some (r', p') → p'.length < 3 → i' < 512 →
        entry (setEntry f.mem t i e) t' i' = entry f.mem t' i') ∧
      ∀ r' path, home r' = some (r', []) → Rest [] path → (r', path) ≠ (r, p ++ [i]) →
        walk (setEntry f.mem t i e) r' path = walk f.mem r' path := by
  have hother := h.entry_other ht hi e
  have habove : ∀ t' r' p' i', home t' = some (r', p') → p'.length < 3 → i' < 512 →
      entry (setEntry f.mem t i e) t' i' = entry f.mem t' i' := by
    intro t' r' p' i' ht' hp' hi'
    refine hother t' r' p' i' ht' hi' fun heq => ?_
    cases heq
    cases ht'.symm.trans ht
    omega
  refine ⟨⟨h.taken, h.frame, h.fresh, ?_⟩, habove, ?_⟩
  · intro t' r' p' i' ht' hp' hi'
    change entry (setEntry f.mem t i e) t' i' = 0 ∨ ∃ u', _ ∧
      entry (setEntry f.mem t i e) t' i' = newTable u'
    rw [habove t' r' p' i' ht' hp' hi']
    exact h.link t' r' p' i' ht' hp' hi'
  · intro r' path hr' hrest hne
    refine h.walk_congr hr' hrest fun t' p' i' rest ht' hrest' hsplit => ?_
    refine .inl (hother t' r' p' i' ht' (hrest'.bound i' mem_cons_self) fun heq => hne ?_)
    cases heq
    cases ht'.symm.trans ht
    have hlen := hrest'.length
    simp only [length_cons, hp] at hlen
    rw [length_eq_zero_iff.mp (by omega : rest.length = 0)] at hsplit
    rw [hsplit, nil_append]

end

lemma mapPageDmap {va pa : ℕ} {mair : BitVec 64} {flags : VmFlags} (h : Forest f home)
    (hr : home r = some (r, [])) (hf : f.mapPageDmap r va pa mair flags = some f') :
    ∃ home' pte, newPage pa mair flags = some pte ∧ Forest f' home' ∧
      (∀ t x, home t = some x → home' t = some x) ∧
      (pte.isValid = true → walk f'.mem r (indices va) = some pte) ∧
      ∀ r' path, home r' = some (r', []) → Rest [] path → (r', path) ≠ (r, indices va) →
        walk f'.mem r' path = walk f.mem r' path := by
  have hidx := indices_lt va
  simp only [indices, mem_cons, not_mem_nil, or_false, forall_eq_or_imp, forall_eq] at hidx
  obtain ⟨hi0, hi1, hi2, hi3⟩ := hidx
  simp only [Frames.mapPageDmap, bind_eq_bind, bind_eq_some_iff, Prod.exists,
    Option.some.injEq] at hf
  obtain ⟨l1, f1, h1, l2, f2, h2, l3, f3, h3, pte, hpte, rfl⟩ := hf
  obtain ⟨home1, hF1, hg1, hh1, he1⟩ := h.ensureTableDmap hr (by simp) hi0 h1
  obtain ⟨home2, hF2, hg2, hh2, he2⟩ := hF1.ensureTableDmap hh1 (by simp) hi1 h2
  obtain ⟨home3, hF3, hg3, hh3, he3⟩ := hF2.ensureTableDmap hh2 (by simp) hi2 h3
  obtain ⟨hF4, habove, hwalks⟩ := hF3.setLeaf hh3 (by simp) hi3 pte
  have hgrown := (hg1.trans hg2).trans hg3
  refine ⟨home3, pte, hpte, hF4, hgrown.homes, fun hvalid => ?_, ?_⟩
  · have hr3 := hgrown.homes r _ hr
    have hl1 := hg3.homes l1 _ (hg2.homes l1 _ hh1)
    have hl2 := hg3.homes l2 _ hh2
    -- the entries on the way down are still those that `ensure_table_dmap` found or made
    have e1 : entry f3.mem r (l0Index va) = newTable l1 :=
      ((hg2.trans hg3).entries r _ _ _ (hg1.homes r _ hr) hi0
        (by rw [he1]; exact newTable_ne_zero l1)).trans he1
    have e2 : entry f3.mem l1 (l1Index va) = newTable l2 :=
      (hg3.entries l1 _ _ _ (hg2.homes l1 _ hh1) hi1
        (by rw [he2]; exact newTable_ne_zero l2)).trans he2
    rw [← habove r _ _ _ hr3 (by simp) hi0] at e1
    rw [← habove l1 _ _ _ hl1 (by simp) hi1] at e2
    rw [← habove l2 _ _ _ hl2 (by simp) hi2] at he3
    change walk (setEntry f3.mem l3 (l3Index va) pte) r (indices va) = some pte
    rw [indices, walk_of_newTable e1 (hF3.isFrame hl1), walk_of_newTable e2 (hF3.isFrame hl2),
      walk_of_newTable he3 (hF3.isFrame hh3), walk, entry_setEntry]
    simp only [hvalid, if_true]
  · intro r' path hr' hrest hne
    rw [hwalks r' path (hgrown.homes r' _ hr') hrest hne]
    exact hgrown.walks r' r' [] path hr' hrest

end Forest

def Agrees (found : Option PageTableEntry) : Option Mapping → Prop
  | none => found = none
  | some m => ∃ e, found = some e ∧ e.Describes m.pa m.flags

structure Inv (s : Sys) (home : Home) : Prop where
  forest : Forest { s.frames with supply := [] } home
  roots : ∀ sp ∈ s.spaces, home sp.pgdPhys = some (sp.pgdPhys, [])
  distinct : (s.spaces.map (·.pgdPhys)).Nodup
  log : ∀ m ∈ s.log, m.space < s.spaces.length
  agrees : ∀ k sp va, s.spaces[k]? = some sp → va < 2 ^ 48 → pageSize ∣ va →
    Agrees (translate s.frames.mem sp.pgdPhys va) (s.lastMapping k va)

lemma Inv.boot (mem : Mem) : Inv (.boot mem) fun _ => none where
  forest := ⟨by simp, by simp [Sys.boot], ⟨nodup_nil, by simp⟩, by simp⟩
  roots := by simp [Sys.boot]
  distinct := nodup_nil
  log := by simp [Sys.boot]
  agrees := by simp [Sys.boot]

lemma Forest.supply {f : Frames} {home : Home} (h : Forest { f with supply := [] } home)
    {supply : List ℕ} (hs : Fresh f.taken supply) : Forest { f with supply := supply } home :=
  ⟨h.taken, h.frame, hs, h.link⟩

lemma Forest.clear {f : Frames} {home : Home} (h : Forest f home) :
    Forest { f with supply := [] } home :=
  ⟨h.taken, h.frame, ⟨nodup_nil, by simp⟩, h.link⟩

lemma Inv.create {s s' : Sys} {home : Home} (h : Inv s home) {supply : List ℕ}
    (hok : (Call.create supply).Ok s) (hs : s.next (.create supply) = some s') :
    ∃ home', Inv s' home' := by
  simp only [Sys.next, Sys.createUserAddressSpace, bind_eq_bind, bind_eq_some_iff,
    Prod.exists, Option.some.injEq] at hs
  obtain ⟨pgd, f', hpage, rfl⟩ := hs
  obtain ⟨hnone, hframe, hforest, hgrown, hempty, -⟩ :=
    (h.forest.supply hok).zeroedPage hpage (pgd, [])
  refine ⟨_, hforest.clear, ?_, ?_, ?_, ?_⟩
  · intro sp hsp
    rcases mem_append.mp hsp with hsp | hsp
    · exact hgrown.homes _ _ (h.roots sp hsp)
    · rw [mem_singleton.mp hsp]
      exact update_self _ _ _
  · rw [map_append, nodup_append]
    refine ⟨h.distinct, by simp, ?_⟩
    intro a ha b hb
    obtain ⟨sp, hsp, rfl⟩ := mem_map.mp ha
    simp only [map_cons, map_nil, mem_singleton] at hb
    rintro rfl
    have hroot := h.roots sp hsp
    rw [hb, hnone] at hroot
    cases hroot
  · intro m hm
    rw [length_append]
    exact Nat.lt_add_right _ (h.log m hm)
  · intro k sp va hk hva hd
    rcases Nat.lt_or_ge k s.spaces.length with hlt | hge
    · rw [getElem?_append_left hlt] at hk
      have hroot := h.roots sp (mem_of_getElem? hk)
      have hold := h.agrees k sp va hk hva hd
      unfold translate at hold ⊢
      rw [hgrown.walks _ _ _ _ hroot (rest_indices va)]
      exact hold
    · -- the new address space has no mappings, and its first table is empty
      have hnew : sp.pgdPhys = pgd := by
        rw [getElem?_append_right hge] at hk
        rw [mem_singleton.mp (mem_of_getElem? hk)]
      have hlast : s.lastMapping k va = none := by
        refine find?_eq_none.mpr fun m hm => ?_
        have := h.log m hm
        simp only [Bool.and_eq_true, beq_iff_eq, not_and]
        omega
      change Agrees _ (s.lastMapping k va)
      rw [hlast, hnew]
      exact walk_of_zero (hempty _ (indices_lt va _ mem_cons_self))

lemma Inv.mapUserPage {s s' : Sys} {home : Home} (h : Inv s home) {k va pa : ℕ}
    {flags : VmFlags} {supply : List ℕ} (hok : (Call.map k va pa flags supply).Ok s)
    (hs : s.next (.map k va pa flags supply) = some s') :
    ∃ home' sp pte, s.spaces[k]? = some sp ∧ va < 2 ^ 48 ∧ pageSize ∣ va ∧
      pte.Describes pa flags ∧ Forest { s'.frames with supply := [] } home' ∧
      (∀ t x, home t = some x → home' t = some x) ∧
      s'.spaces = s.spaces.set k { sp with stats := sp.stats.trackAlloc } ∧
      s'.log = ⟨k, va, pa, flags⟩ :: s.log ∧
      translate s'.frames.mem sp.pgdPhys va = some pte ∧
      ∀ j sp' va', s.spaces[j]? = some sp' → va' < 2 ^ 48 → pageSize ∣ va' → (j, va') ≠ (k, va) →
        translate s'.frames.mem sp'.pgdPhys va' = translate s.frames.mem sp'.pgdPhys va' := by
  simp only [Sys.next, Sys.mapUserPage, bind_eq_bind, bind_eq_some_iff] at hs
  obtain ⟨sp, hsp, hs⟩ := hs
  split_ifs at hs with huser hva hvad hpad
  obtain ⟨f', hmap, hs⟩ := bind_eq_some_iff.mp hs
  obtain rfl := Option.some.inj hs
  have haligned : ∀ x : ℕ, x &&& (pageSize - 1) = 0 → pageSize ∣ x := fun x hx => by
    rw [show pageSize - 1 = 2 ^ 12 - 1 from rfl, Nat.and_two_pow_sub_one_eq_mod] at hx
    exact Nat.dvd_of_mod_eq_zero hx
  have hva' : va < 2 ^ 48 := by simpa using hva
  have hdva := haligned va (by simpa using hvad)
  have hframe : Frame pa := ⟨haligned pa (by simpa using hpad), hok.1⟩
  have hroot := h.roots sp (mem_of_getElem? hsp)
  obtain ⟨home', pte, hpte, hforest, hhomes, hwalk, hwalks⟩ :=
    (h.forest.supply hok.2).mapPageDmap hroot hmap
  obtain ⟨hvalid, hdesc⟩ := newPage_describes hframe (by simpa using huser) hpte
  refine ⟨home', sp, pte, hsp, hva', hdva, hdesc, hforest.clear, hhomes, rfl, rfl, hwalk hvalid,
    fun j sp' va2 hj hva2 hd2 hne => ?_⟩
  refine hwalks sp'.pgdPhys (indices va2) (h.roots sp' (mem_of_getElem? hj))
    (rest_indices va2) fun heq => hne ?_
  obtain ⟨hpgd, hidx⟩ := Prod.mk.inj heq
  have hjk : j = k := by
    refine (getElem?_inj ?_ h.distinct).mp ?_
    · rw [List.length_map]
      exact (List.getElem?_eq_some_iff.mp hj).1
    · rw [List.getElem?_map, List.getElem?_map, hj, hsp, map_some, map_some, hpgd]
  rw [hjk, indices_inj hva2 hva' hd2 hdva hidx]

lemma getElem?_set_stats {l : List UserAddressSpace} {k j : ℕ} {sp sp' : UserAddressSpace}
    {stats : MemoryStats} (hk : l[k]? = some sp)
    (hj : (l.set k { sp with stats := stats })[j]? = some sp') :
    ∃ sp0, l[j]? = some sp0 ∧ sp0.pgdPhys = sp'.pgdPhys := by
  by_cases hkj : k = j
  · subst hkj
    rw [List.getElem?_set_self (List.getElem?_eq_some_iff.mp hk).1] at hj
    obtain rfl := Option.some.inj hj
    exact ⟨sp, hk, rfl⟩
  · rw [getElem?_set_ne hkj] at hj
    exact ⟨sp', hj, rfl⟩

lemma Inv.map {s s' : Sys} {home : Home} (h : Inv s home) {k va pa : ℕ} {flags : VmFlags}
    {supply : List ℕ} (hok : (Call.map k va pa flags supply).Ok s)
    (hs : s.next (.map k va pa flags supply) = some s') : ∃ home', Inv s' home' := by
  obtain ⟨home', sp, pte, hsp, hva, hd, hdesc, hforest, hhomes, hspaces, hlog, hhere, hthere⟩ :=
    h.mapUserPage hok hs
  have hk := (List.getElem?_eq_some_iff.mp hsp).1
  refine ⟨home', hforest, ?_, ?_, ?_, ?_⟩
  · intro sp' hsp'
    rw [hspaces] at hsp'
    obtain ⟨j, hj⟩ := getElem?_of_mem hsp'
    obtain ⟨sp0, hj0, hpgd⟩ := getElem?_set_stats hsp hj
    rw [← hpgd]
    exact hhomes _ _ (h.roots sp0 (mem_of_getElem? hj0))
  · have hsame : (s.spaces.set k { sp with stats := sp.stats.trackAlloc }).map (·.pgdPhys) =
        s.spaces.map (·.pgdPhys) := by
      refine ext_getElem? fun j => ?_
      rw [getElem?_map, getElem?_map]
      by_cases hkj : k = j
      · subst hkj
        rw [getElem?_set_self hk, hsp, map_some, map_some]
      · rw [getElem?_set_ne hkj]
    rw [hspaces, hsame]
    exact h.distinct
  · intro m hm
    rw [hlog] at hm
    rw [hspaces, length_set]
    rcases mem_cons.mp hm with rfl | hm
    · exact hk
    · exact h.log m hm
  · intro j sp' va' hj hva' hd'
    rw [hspaces] at hj
    obtain ⟨sp0, hj0, hpgd⟩ := getElem?_set_stats hsp hj
    rw [← hpgd, Sys.lastMapping, hlog]
    by_cases heq : (j, va') = (k, va)
    · cases heq
      obtain rfl := Option.some.inj (hj0.symm.trans hsp)
      rw [find?_cons_of_pos (by simp)]
      exact ⟨pte, hhere, hdesc⟩
    · rw [find?_cons_of_neg, hthere j sp0 va' hj0 hva' hd' heq]
      · exact h.agrees j sp0 va' hj0 hva' hd'
      · simp only [Bool.and_eq_true, beq_iff_eq]
        rintro ⟨rfl, rfl⟩
        exact heq rfl

lemma Inv.next {s s' : Sys} {home : Home} (h : Inv s home) {call : Call} (hok : call.Ok s)
    (hs : s.next call = some s') : ∃ home', Inv s' home' := by
  cases call with
  | create supply => exact h.create hok hs
  | map k va pa flags supply => exact h.map hok hs

lemma runs_inv {mem : Mem} {s : Sys}
    (h : Runs (fun a call b => a.next call = some b) (fun a call => call.Ok a) (.boot mem) s) :
    ∃ home, Inv s home := by
  induction h with
  | refl => exact ⟨_, Inv.boot mem⟩
  | tail _ hs ih =>
    obtain ⟨home, hinv⟩ := ih
    obtain ⟨call, hok, hs⟩ := hs
    exact hinv.next hok hs

/-- After any calls the tables of each address space translate every page as it was last mapped,
and a call that maps a page changes no other translation. -/
theorem translate_last_mapping {mem : Mem} {s : Sys}
    (h : Runs (fun a call b => a.next call = some b) (fun a call => call.Ok a) (.boot mem) s) :
    (∀ k sp va, s.spaces[k]? = some sp → va < 2 ^ 48 → pageSize ∣ va →
      Agrees (translate s.frames.mem sp.pgdPhys va) (s.lastMapping k va)) ∧
    ∀ k va pa flags supply s', (Call.map k va pa flags supply).Ok s →
      s.next (.map k va pa flags supply) = some s' →
      ∀ j sp sp' va', s.spaces[j]? = some sp → s'.spaces[j]? = some sp' → va' < 2 ^ 48 →
        pageSize ∣ va' → (j, va') ≠ (k, va) →
        translate s'.frames.mem sp'.pgdPhys va' = translate s.frames.mem sp.pgdPhys va' := by
  obtain ⟨home, hinv⟩ := runs_inv h
  refine ⟨hinv.agrees, ?_⟩
  intro k va pa flags supply s' hok hs j sp sp' va' hj hj' hva' hd' hne
  obtain ⟨-, spk, -, hspk, -, -, -, -, -, hspaces, -, -, hthere⟩ := hinv.mapUserPage hok hs
  rw [hspaces] at hj'
  obtain ⟨sp₀, hj₀, hpgd⟩ := getElem?_set_stats hspk hj'
  obtain rfl := Option.some.inj (hj.symm.trans hj₀)
  rw [← hpgd]
  exact hthere j sp va' hj hva' hd' hne

def twoSpaces : List Call :=
  [.create [0x1000], .create [0x2000],
   .map 0 0x400000 0x100000 (.user ||| .write) [0x3000, 0x4000, 0x5000],
   .map 1 0x400000 0x200000 (.user ||| .execute) [0x6000, 0x7000, 0x8000],
   .map 0 0x400000 0x300000 .user []]

theorem translate_last_mapping_twoSpaces :
    ∃ s : Sys, Runs (fun a call b => a.next call = some b) (fun a call => Call.Ok a call)
        (.boot fun _ => 0) s ∧ (s.lastMapping 0 0x400000).map (·.pa) = some 0x300000 ∧
      ∀ k sp va, s.spaces[k]? = some sp → va < 2 ^ 48 → pageSize ∣ va →
        Agrees (translate s.frames.mem sp.pgdPhys va) (s.lastMapping k va) := by
  have hsome : (Runs.exec (fun a call => Call.Ok a call) Sys.next (.boot fun _ => 0)
      twoSpaces).isSome = true := by decide +kernel
  obtain ⟨s, hs⟩ := isSome_iff_exists.mp hsome
  have hlast : ∀ s ∈ Runs.exec (fun a call => Call.Ok a call) Sys.next (.boot fun _ => 0)
      twoSpaces, (s.lastMapping 0 0x400000).map (·.pa) = some 0x300000 := by decide +kernel
  exact ⟨s, Runs.of_exec hs, hlast s hs, (translate_last_mapping (Runs.of_exec hs)).1⟩

end Aios.Mm.Uspace
