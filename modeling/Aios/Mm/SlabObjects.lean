import Aios.Mm.Slab

/-!
The slots of a cache are the objects handed out, the two magazines and the free list.

`Laid` says which slots are where and that the memory agrees: the free list is linked through its
slots, and the guard bytes of every other slot are in place. Every operation moves slots from one
list to another and writes inside a slot it moves.
-/

namespace Aios.Mm.Slab

open Aios.Lib List

structure Cells (size : ℕ) (S : List ℕ) : Prop where
  apart : S.Pairwise fun a b => a + size ≤ b ∨ b + size ≤ a
  pos : ∀ a ∈ S, 0 < a
  bound : ∀ a ∈ S, a + size ≤ 2 ^ 64

namespace Cells

variable {size a b : ℕ} {S T : List ℕ}

lemma perm (h : Cells size S) (hp : T.Perm S) : Cells size T where
  apart := hp.symm.pairwise h.apart fun {_ _} hab => hab.symm
  pos := fun a ha => h.pos a (hp.mem_iff.mp ha)
  bound := fun a ha => h.bound a (hp.mem_iff.mp ha)

lemma sublist (h : Cells size S) (hs : T.Sublist S) : Cells size T where
  apart := h.apart.sublist hs
  pos := fun a ha => h.pos a (hs.subset ha)
  bound := fun a ha => h.bound a (hs.subset ha)

lemma nodup (h : Cells size S) (hsize : 0 < size) : S.Nodup :=
  h.apart.imp fun {a b} hab heq => by omega

lemma cons_apart (h : Cells size (a :: S)) (hb : b ∈ S) : a + size ≤ b ∨ b + size ≤ a :=
  (pairwise_cons.mp h.apart).1 b hb

end Cells

/-- The memories agree outside the slot at `a`. -/
def Inside (size a : ℕ) (m m' : Mem) : Prop := ∀ x, x < a ∨ a + size ≤ x → m' x = m x

variable {m' m : Mem}

lemma Inside.readLe {size a b k n : ℕ} (h : Inside size a m m') (hab : a + size ≤ b ∨ b + size ≤ a)
    (hk : k + n ≤ size) : m'.readLe (b + k) n = m.readLe (b + k) n :=
  Mem.readLe_congr fun x h1 h2 => h x (by omega)

lemma Inside.link {size a b : ℕ} (h : Inside size a m m') (hsize : 8 ≤ size)
    (hab : a + size ≤ b ∨ b + size ≤ a) : link m' b = link m b := by
  rw [link_eq, link_eq]
  exact h.readLe (k := 0) hab (by omega)

def Guarded (objectSize : ℕ) (m : Mem) (slot : ℕ) : Prop :=
  m.readLe slot 8 = redZonePattern ∧ m.readLe (slot + (8 + objectSize)) 8 = redZonePattern

lemma Guarded.frame {obj a b : ℕ} (hg : Guarded obj m b) (h : Inside (obj + 16) a m m')
    (hab : a + (obj + 16) ≤ b ∨ b + (obj + 16) ≤ a) : Guarded obj m' b := by
  obtain ⟨h1, h2⟩ := hg
  refine ⟨?_, ?_⟩
  · have hfront := h.readLe (k := 0) (n := 8) hab (by omega)
    rw [Nat.add_zero] at hfront
    exact hfront.trans h1
  · exact (h.readLe hab (by omega)).trans h2

structure Sized (c : SlabCache) : Prop where
  guarded : c.hasRedZones = true → c.allocSize = c.objectSize + 16
  plain : c.hasRedZones = false → c.allocSize = c.objectSize
  room : 8 ≤ c.allocSize

lemma sized_new (size : ℕ) (mem : Mem) : Sized (.new size mem) := by
  by_cases hp : size < pageSize
  · have hz : (SlabCache.new size mem).hasRedZones = true := by
      simp [SlabCache.hasRedZones, SlabCache.new, hp, redZoneSize]
    have hsize : (SlabCache.new size mem).allocSize = size + 16 := by
      simp [SlabCache.new, hp, redZoneSize]
    exact ⟨fun _ => hsize, fun h => by simp [hz] at h, by omega⟩
  · have hz : (SlabCache.new size mem).hasRedZones = false := by
      simp [SlabCache.hasRedZones, SlabCache.new, hp]
    have hsize : (SlabCache.new size mem).allocSize = size := by simp [SlabCache.new, hp]
    exact ⟨fun h => by simp [hz] at h, fun _ => hsize, by simp only [pageSize] at hp; omega⟩

lemma Sized.object_le {c : SlabCache} (h : Sized c) :
    c.redZoneOffset + c.objectSize ≤ c.allocSize := by
  unfold SlabCache.redZoneOffset redZoneSize
  split_ifs with hz
  · rw [h.guarded hz]
    omega
  · rw [h.plain (by simpa using hz)]
    omega

def Same (c c' : SlabCache) : Prop := c'.objectSize = c.objectSize ∧ c'.allocSize = c.allocSize

lemma Same.refl (c : SlabCache) : Same c c := ⟨rfl, rfl⟩

lemma Same.trans {c1 c2 c3 : SlabCache} (h : Same c1 c2) (h' : Same c2 c3) : Same c1 c3 :=
  ⟨h'.1.trans h.1, h'.2.trans h.2⟩

lemma Same.redZoneOffset {c c' : SlabCache} (h : Same c c') :
    c'.redZoneOffset = c.redZoneOffset := by
  unfold SlabCache.redZoneOffset SlabCache.hasRedZones
  rw [h.1, h.2]

lemma fillRedZones_inside {c : SlabCache} (h : Sized c) (hz : c.hasRedZones = true) (a : ℕ) :
    Inside c.allocSize a c.mem (c.fillRedZones a).mem := by
  intro x hx
  have hsize := h.guarded hz
  simp only [SlabCache.fillRedZones, redZoneSize]
  rw [Mem.writeLe_outside (by omega), Mem.writeLe_outside (by omega)]

lemma fillRedZones_guarded (c : SlabCache) (a : ℕ) :
    Guarded c.objectSize (c.fillRedZones a).mem a := by
  simp only [Guarded, SlabCache.fillRedZones, redZoneSize]
  refine ⟨?_, ?_⟩
  · rw [Mem.readLe_writeLe_outside (by omega)]
    exact Mem.readLe_writeLe redZonePattern_lt
  · rw [← Nat.add_assoc]
    exact Mem.readLe_writeLe redZonePattern_lt

/-- The slots of the objects handed out are `L`, those in the magazines `C` and `P`, and the free
list is `F`. -/
structure Laid (c : SlabCache) (L C P F : List ℕ) : Prop where
  sized : Sized c
  cells : Cells c.allocSize (L ++ C ++ P ++ F)
  chain : Chain (link c.mem) c.freeHead F
  current : c.current.objects = C.map (· + c.redZoneOffset)
  prev : c.prev.objects = P.map (· + c.redZoneOffset)
  zones : c.hasRedZones = true → ∀ a ∈ L ++ C ++ P, Guarded c.objectSize c.mem a

/-- The slots of the page that `refill_magazine` asks for when the free list is empty. -/
def SlabCache.grown (c : SlabCache) (page : Option ℕ) : List ℕ :=
  if c.freeHead = 0 then page.toList.flatMap (SlabCache.slotsOf c.allocSize) else []

/-- The slots that a call of `alloc` adds to the cache. -/
def SlabCache.carved (c : SlabCache) (page : Option ℕ) : List ℕ :=
  if c.growsOnAlloc then page.toList.flatMap (SlabCache.slotsOf c.allocSize) else []

namespace Laid

variable {c : SlabCache} {L L' C C' P P' F N : List ℕ} {a : ℕ}

lemma rounds (h : Laid c L C P F) {cur prv : MagazineRound}
    (hperm : (L' ++ C' ++ P').Perm (L ++ C ++ P))
    (hcur : cur.objects = C'.map (· + c.redZoneOffset))
    (hprv : prv.objects = P'.map (· + c.redZoneOffset)) :
    Laid { c with current := cur, prev := prv } L' C' P' F where
  sized := ⟨h.sized.guarded, h.sized.plain, h.sized.room⟩
  cells := h.cells.perm (hperm.append_right F)
  chain := h.chain
  current := hcur
  prev := hprv
  zones := fun hz a ha => h.zones hz a (hperm.mem_iff.mp ha)

lemma pushSlot (h : Laid c L C P F) (ha : Cells c.allocSize (a :: (L ++ C ++ P ++ F))) :
    Laid (c.pushSlot a) L C P (a :: F) := by
  have hroom := h.sized.room
  have hbound := ha.bound a mem_cons_self
  have hin : Inside c.allocSize a c.mem (c.pushSlot a).mem :=
    fun x hx => Mem.writeLe_outside (by omega)
  have hhead : c.freeHead < 256 ^ 8 := by
    rcases h.chain.head_cases with ⟨h0, -⟩ | ⟨l, hl, -, -⟩
    · rw [h0]
      decide
    · have := h.cells.bound c.freeHead (by rw [hl]; simp)
      norm_num at this ⊢
      omega
  refine ⟨⟨h.sized.guarded, h.sized.plain, h.sized.room⟩, ?_, ?_, h.current, h.prev,
    fun hz b hb => ?_⟩
  · exact ha.perm perm_middle
  · refine ⟨rfl, (ha.pos a mem_cons_self).ne', ?_⟩
    have hnext : link (c.pushSlot a).mem a = c.freeHead := by
      rw [link_eq]
      exact Mem.readLe_writeLe hhead
    rw [hnext]
    exact h.chain.congr fun b hb => hin.link hroom (ha.cons_apart (by simp [hb]))
  · have hsize := h.sized.guarded hz
    have hapart := ha.cons_apart (b := b) (mem_append_left F hb)
    rw [hsize] at hin hapart
    exact (h.zones hz b hb).frame hin hapart

lemma pushSlots (h : Laid c L C P F) (hN : Cells c.allocSize (N ++ (L ++ C ++ P ++ F))) :
    Laid (N.reverse.foldl SlabCache.pushSlot c) L C P (N ++ F) ∧
      Same c (N.reverse.foldl SlabCache.pushSlot c) := by
  induction N with
  | nil => exact ⟨h, Same.refl c⟩
  | cons a N ih =>
    obtain ⟨hlaid, hsize⟩ := ih (hN.sublist (sublist_cons_self _ _))
    rw [reverse_cons, foldl_append, foldl_cons, foldl_nil]
    refine ⟨hlaid.pushSlot ?_, hsize⟩
    rw [hsize.2]
    refine hN.perm ?_
    rw [cons_append]
    exact List.Perm.cons a (perm_append_comm_assoc _ _ _)

lemma takeSlot_eq (hs : Sized c) (ha : c.freeHead = a) : ∃ m, Inside c.allocSize a c.mem m ∧
    (c.hasRedZones = true → Guarded c.objectSize m a) ∧
    c.takeSlot = { c with
      freeHead := link c.mem a
      mem := m
      current := (c.current.push (a + c.redZoneOffset)).getD c.current } := by
  unfold SlabCache.takeSlot
  rw [ha]
  cases hz : c.hasRedZones with
  | false => exact ⟨c.mem, fun _ _ => rfl, fun h => by simp at h, rfl⟩
  | true =>
    exact ⟨(c.fillRedZones a).mem, fillRedZones_inside hs hz a,
      fun _ => fillRedZones_guarded c a, rfl⟩

lemma takeSlot (h : Laid c L C P (a :: F)) (hroom : C.length < magazineSize) :
    Laid c.takeSlot L (a :: C) P F ∧ Same c c.takeSlot := by
  obtain ⟨hhead, -, hrest⟩ := h.chain
  have hmid : Cells c.allocSize (a :: (L ++ C ++ P ++ F)) := h.cells.perm perm_middle.symm
  have h8 := h.sized.room
  obtain ⟨m, hin, hguard, heq⟩ := takeSlot_eq h.sized hhead
  have hlen : c.current.objects.length < magazineSize := by
    rw [h.current, length_map]
    exact hroom
  obtain ⟨r, hr⟩ := MagazineRound.push_isSome (a + c.redZoneOffset) hlen
  rw [heq, hr]
  refine ⟨⟨⟨h.sized.guarded, h.sized.plain, h8⟩, ?_, ?_, ?_, h.prev, ?_⟩, rfl, rfl⟩
  · refine hmid.perm ?_
    simp only [append_assoc, cons_append]
    exact perm_middle
  · exact hrest.congr fun b hb => hin.link h8 (hmid.cons_apart (by simp [hb]))
  · have hobj := MagazineRound.push_eq_some hr
    rw [h.current] at hobj
    exact hobj
  · intro hz b hb
    have hsize := h.sized.guarded hz
    by_cases hba : b = a
    · subst hba
      exact hguard hz
    · have hb' : b ∈ L ++ C ++ P := by
        simp only [mem_append, mem_cons] at hb ⊢
        tauto
      have hapart := hmid.cons_apart (b := b) (mem_append_left F hb')
      rw [hsize] at hin hapart
      exact (h.zones hz b hb').frame hin hapart

lemma freeHead_eq_zero_iff (h : Laid c L C P F) : c.freeHead = 0 ↔ F = [] := by
  rcases h.chain.head_cases with ⟨h0, hF⟩ | ⟨l, hF, h0, -⟩
  · exact ⟨fun _ => hF, fun _ => h0⟩
  · exact ⟨fun h => absurd h h0, fun h => by rw [hF] at h; cases h⟩

lemma refillLoop {n : ℕ} (h : Laid c L C P F) (hn : C.length + n ≤ magazineSize) :
    ∃ C' F', Laid (SlabCache.refillLoop n c).2 L C' P F' ∧
      Same c (SlabCache.refillLoop n c).2 ∧ (C' ++ F').Perm (C ++ F) := by
  induction n generalizing c C F with
  | zero => exact ⟨C, F, h, Same.refl c, List.Perm.refl _⟩
  | succ n ih =>
    rw [SlabCache.refillLoop]
    cases F with
    | nil =>
      rw [if_pos (h.freeHead_eq_zero_iff.mpr rfl)]
      exact ⟨C, [], h, Same.refl c, List.Perm.refl _⟩
    | cons a F =>
      rw [if_neg fun h0 => by simpa using h.freeHead_eq_zero_iff.mp h0]
      obtain ⟨hlaid, hsame⟩ := h.takeSlot (by omega)
      obtain ⟨C', F', hlaid', hsame', hperm⟩ := ih hlaid (by rw [length_cons]; omega)
      refine ⟨C', F', hlaid', hsame.trans hsame', hperm.trans ?_⟩
      exact perm_middle.symm

variable {page : Option ℕ}

lemma grow (h : Laid c L C P F)
    (hN : Cells c.allocSize (page.toList.flatMap (SlabCache.slotsOf c.allocSize) ++ (L ++ C ++ P ++ F))) :
    Laid (c.grow page) L C P (page.toList.flatMap (SlabCache.slotsOf c.allocSize) ++ F) ∧
      Same c (c.grow page) := by
  cases page with
  | none => exact ⟨h, Same.refl c⟩
  | some page =>
    have hmore : Laid { c with pagesUsed := c.pagesUsed + 1 } L C P F :=
      ⟨⟨h.sized.guarded, h.sized.plain, h.sized.room⟩, h.cells, h.chain, h.current, h.prev,
        h.zones⟩
    simp only [Option.toList_some, flatMap_cons, flatMap_nil, append_nil] at hN ⊢
    exact hmore.pushSlots hN

lemma refillMagazine (h : Laid c L [] P F)
    (hN : Cells c.allocSize (c.grown page ++ (L ++ [] ++ P ++ F))) :
    ∃ C' F', Laid (c.refillMagazine page) L C' P F' ∧ Same c (c.refillMagazine page) ∧
      (C' ++ F').Perm (c.grown page ++ F) := by
  have hroom : ([] : List ℕ).length + magazineSize ≤ magazineSize := by simp
  unfold SlabCache.refillMagazine SlabCache.grown at *
  by_cases h0 : c.freeHead = 0
  · rw [if_pos h0] at hN ⊢
    have hnone : SlabCache.refillLoop magazineSize c = (0, c) := by
      rw [magazineSize, SlabCache.refillLoop, if_pos h0]
    rw [hnone]
    obtain ⟨hlaid, hsame⟩ := h.grow hN
    obtain ⟨C', F', hlaid', hsame', hperm⟩ := hlaid.refillLoop hroom
    exact ⟨C', F', hlaid', hsame.trans hsame', hperm⟩
  · rw [if_neg h0]
    obtain ⟨C', F', hlaid, hsame, hperm⟩ := h.refillLoop hroom
    have hsome : ∃ k c', SlabCache.refillLoop magazineSize c = (k + 1, c') := by
      rw [magazineSize, SlabCache.refillLoop, if_neg h0]
      exact ⟨_, _, rfl⟩
    obtain ⟨k, c', hk⟩ := hsome
    rw [hk] at hlaid hsame ⊢
    exact ⟨C', F', hlaid, hsame, hperm⟩

lemma swap (h : Laid c L C P F) : Laid c.swap L P C F :=
  h.rounds (by
    simp only [append_assoc]
    exact List.Perm.append_left L perm_append_comm) h.prev h.current

lemma pop (h : Laid c L (a :: C) P F) : ∃ r, c.current.pop = some (a + c.redZoneOffset, r) ∧
    Laid { c with current := r } (a :: L) C P F := by
  cases hp : c.current.pop with
  | none =>
    have hnil := MagazineRound.pop_eq_none.mp hp
    rw [h.current] at hnil
    cases hnil
  | some q =>
    obtain ⟨p, r⟩ := q
    have hobj := MagazineRound.pop_eq_some hp
    rw [h.current, map_cons, List.cons.injEq] at hobj
    refine ⟨r, by rw [hobj.1], h.rounds ?_ hobj.2.symm h.prev⟩
    simp only [append_assoc, cons_append]
    exact perm_middle.symm

lemma pop_nil (h : Laid c L [] P F) : c.current.pop = none :=
  MagazineRound.pop_eq_none.mpr h.current

lemma push (h : Laid c (a :: L) C P F) (hroom : C.length < magazineSize) :
    ∃ r, c.current.push (a + c.redZoneOffset) = some r ∧
      Laid { c with current := r } L (a :: C) P F := by
  have hlen : c.current.objects.length < magazineSize := by
    rw [h.current, length_map]
    exact hroom
  obtain ⟨r, hr⟩ := MagazineRound.push_isSome (a + c.redZoneOffset) hlen
  have hobj := MagazineRound.push_eq_some hr
  rw [h.current] at hobj
  refine ⟨r, hr, h.rounds ?_ hobj h.prev⟩
  simp only [append_assoc, cons_append]
  exact perm_middle

lemma push_full (h : Laid c L C P F) (hfull : ¬ C.length < magazineSize) (ptr : ℕ) :
    c.current.push ptr = none := by
  refine MagazineRound.push_eq_none ptr ?_
  rw [h.current, length_map]
  exact hfull

lemma carved_eq (h : Laid c L C P F) (page : Option ℕ) :
    c.carved page = if C = [] ∧ P = [] then c.grown page else [] := by
  unfold SlabCache.carved SlabCache.grown SlabCache.growsOnAlloc
  rw [h.current, h.prev]
  cases C <;> cases P <;> simp

lemma alloc (h : Laid c L C P F) (hN : Cells c.allocSize (c.carved page ++ (L ++ C ++ P ++ F))) :
    ∃ L' C' P' F', Laid (c.alloc page).2 L' C' P' F' ∧ Same c (c.alloc page).2 ∧
    (L' ++ C' ++ P' ++ F').Perm (c.carved page ++ (L ++ C ++ P ++ F)) ∧
    L'.map (· + c.redZoneOffset) = (c.alloc page).1.toList ++ L.map (· + c.redZoneOffset) := by
  rw [h.carved_eq] at *
  unfold SlabCache.alloc
  cases C with
  | cons a C =>
    obtain ⟨r, hr, hlaid⟩ := h.pop
    rw [hr]
    refine ⟨a :: L, C, P, F, hlaid, ⟨rfl, rfl⟩, ?_, rfl⟩
    rw [if_neg (by simp), nil_append]
    simp only [append_assoc, cons_append]
    exact perm_middle.symm
  | nil =>
    rw [h.pop_nil]
    cases P with
    | cons a P =>
      obtain ⟨r, hr, hlaid⟩ := h.swap.pop
      simp only [hr]
      refine ⟨a :: L, P, [], F, hlaid, ⟨rfl, rfl⟩, ?_, rfl⟩
      rw [if_neg (by simp), nil_append, append_nil, append_nil]
      simp only [append_assoc, cons_append]
      exact perm_middle.symm
    | nil =>
      rw [if_pos ⟨rfl, rfl⟩] at *
      simp only [h.swap.pop_nil]
      obtain ⟨C', F', hlaid, hsame, hperm⟩ := h.swap.refillMagazine hN
      rw [show c.swap.grown page = c.grown page from rfl, perm_iff_count] at hperm
      cases C' with
      | nil =>
        simp only [hlaid.pop_nil]
        refine ⟨L, [], [], F', hlaid, hsame, ?_, rfl⟩
        rw [perm_iff_count]
        intro x
        have := hperm x
        simp only [count_append, count_nil] at this ⊢
        omega
      | cons a C' =>
        obtain ⟨r, hr, hlaid'⟩ := hlaid.pop
        simp only [hr]
        refine ⟨a :: L, C', [], F', hlaid', hsame, ?_, ?_⟩
        · rw [perm_iff_count]
          intro x
          have := hperm x
          simp only [count_append, count_cons, count_nil] at this ⊢
          omega
        · rw [hsame.redZoneOffset]
          rfl

lemma flushLoop_eq (c : SlabCache) (D : List ℕ) :
    c.flushLoop (D.map (· + c.redZoneOffset)) = D.foldl SlabCache.pushSlot c := by
  induction D generalizing c with
  | nil => rfl
  | cons a D ih =>
    rw [map_cons, SlabCache.flushLoop, foldl_cons, Nat.add_sub_cancel]
    exact ih (c.pushSlot a)

lemma flushLoop_current (c : SlabCache) (l : List ℕ) (r : MagazineRound) :
    { c.flushLoop l with current := r } = { c with current := r }.flushLoop l := by
  induction l generalizing c with
  | nil => rfl
  | cons p l ih => exact ih _

lemma flush (h : Laid c L C P F) :
    Laid c.flushMagazineToFreelist L [] P (C.reverse ++ F) ∧ Same c c.flushMagazineToFreelist := by
  have hempty : Laid { c with current := .new } L [] P F :=
    ⟨⟨h.sized.guarded, h.sized.plain, h.sized.room⟩, h.cells.sublist (by simp), h.chain, rfl,
      h.prev, fun hz a ha => h.zones hz a (by simp at ha ⊢; tauto)⟩
  have hcells : Cells c.allocSize (C.reverse ++ (L ++ [] ++ P ++ F)) := by
    refine h.cells.perm ?_
    rw [perm_iff_count]
    intro x
    simp only [count_append, count_reverse, count_nil]
    omega
  have hflush := hempty.pushSlots hcells
  rw [reverse_reverse] at hflush
  unfold SlabCache.flushMagazineToFreelist
  rw [h.current, flushLoop_current]
  exact (flushLoop_eq { c with current := .new } C).symm ▸ hflush

/-- The check of `dealloc` finds the guards of a slot that was handed out in place. -/
lemma intact (h : Laid c L C P F) (ha : a ∈ L) :
    (!c.hasRedZones || c.checkRedZones (a + c.redZoneOffset)) = true := by
  cases hz : c.hasRedZones with
  | false => rfl
  | true =>
    obtain ⟨hfront, hback⟩ := h.zones hz a (by simp [ha])
    have hoff : c.redZoneOffset = 8 := if_pos hz
    simp only [SlabCache.checkRedZones, hoff, redZoneSize, Nat.add_sub_cancel, Nat.add_assoc,
      hfront, hback, beq_self_eq_true, Bool.and_self, Bool.not_true, Bool.or_true]

lemma dealloc (h : Laid c (a :: L) C P F) :
    ∃ C' P' F', Laid (c.dealloc (a + c.redZoneOffset)).2 L C' P' F' ∧
      Same c (c.dealloc (a + c.redZoneOffset)).2 ∧
      (L ++ C' ++ P' ++ F').Perm (a :: L ++ C ++ P ++ F) := by
  unfold SlabCache.dealloc
  by_cases hC : C.length < magazineSize
  · obtain ⟨r, hr, hlaid⟩ := h.push hC
    rw [hr]
    refine ⟨a :: C, P, F, hlaid, ⟨rfl, rfl⟩, ?_⟩
    simp only [append_assoc, cons_append]
    exact perm_middle
  · rw [h.push_full hC]
    by_cases hP : P.length < magazineSize
    · obtain ⟨r, hr, hlaid⟩ := h.swap.push hP
      have hr' : c.swap.current.push (a + c.redZoneOffset) = some r := hr
      simp only [hr']
      refine ⟨a :: P, C, F, hlaid, ⟨rfl, rfl⟩, ?_⟩
      rw [perm_iff_count]
      intro x
      simp only [count_append, count_cons]
      omega
    · obtain ⟨hflush, hsame⟩ := h.swap.flush
      obtain ⟨r, hr, hlaid⟩ := hflush.push (by simp [magazineSize])
      rw [hsame.redZoneOffset] at hr
      have hr' : c.swap.flushMagazineToFreelist.current.push (a + c.redZoneOffset) = some r := hr
      simp only [h.swap.push_full hP, hr']
      refine ⟨[a], C, P.reverse ++ F, hlaid, hsame, ?_⟩
      rw [perm_iff_count]
      intro x
      simp only [count_append, count_cons, count_nil, count_reverse]
      omega

lemma store (h : Laid c L C P F) (ha : a ∈ L) {m : Mem}
    (hm : ∀ x, x < a + c.redZoneOffset ∨ a + c.redZoneOffset + c.objectSize ≤ x → m x = c.mem x) :
    Laid { c with mem := m } L C P F := by
  have hobj := h.sized.object_le
  have hin : Inside c.allocSize a c.mem m := fun x hx => hm x (by omega)
  obtain ⟨l1, l2, hl⟩ := append_of_mem ha
  have hcells : Cells c.allocSize (a :: (l1 ++ l2 ++ C ++ P ++ F)) := by
    refine h.cells.perm ?_
    rw [hl]
    simp only [append_assoc, cons_append]
    exact perm_middle.symm
  refine ⟨⟨h.sized.guarded, h.sized.plain, h.sized.room⟩, h.cells, ?_, h.current, h.prev, ?_⟩
  · exact h.chain.congr fun b hb => hin.link h.sized.room (hcells.cons_apart (by simp [hb]))
  · intro hz b hb
    have hsize := h.sized.guarded hz
    by_cases hba : b = a
    · subst hba
      obtain ⟨hfront, hback⟩ := h.zones hz b hb
      have hoff : c.redZoneOffset = 8 := if_pos hz
      rw [hoff] at hm
      change Guarded c.objectSize m b
      exact ⟨(Mem.readLe_congr fun x h1 h2 => hm x (by omega)).trans hfront,
        (Mem.readLe_congr fun x h1 h2 => hm x (by omega)).trans hback⟩
    · have hb' : b ∈ l1 ++ l2 ++ C ++ P ++ F := by
        rw [hl] at hb
        simp only [mem_append, mem_cons] at hb ⊢
        tauto
      have hapart := hcells.cons_apart hb'
      rw [hsize] at hin hapart
      exact (h.zones hz b hb).frame hin hapart

end Laid

end Aios.Mm.Slab
