import Aios.Mm.SlabObjects

/-!
Along every run of a cache its slots are exactly those of the pages it has got, and none of them
is in two places.
-/

namespace Aios.Mm.Slab

open Aios.Lib List

variable {size base a : ℕ}

lemma mem_slotsOf (ha : a ∈ SlabCache.slotsOf size base) :
    base ≤ a ∧ a + size ≤ base + pageSize := by
  obtain ⟨i, hi, rfl⟩ := mem_map.mp ha
  have hi' : (i + 1) * size ≤ pageSize :=
    (Nat.mul_le_mul_right size (mem_range.mp hi)).trans (Nat.div_mul_le_self _ _)
  rw [Nat.add_mul, Nat.one_mul] at hi'
  omega

lemma cells_slotsOf (hpos : 0 < base) (hend : base + pageSize ≤ 2 ^ 64) :
    Cells size (SlabCache.slotsOf size base) where
  apart := by
    refine pairwise_map.mpr (pairwise_lt_range.imp fun {i j} hij => Or.inl ?_)
    have hij' : (i + 1) * size ≤ j * size := Nat.mul_le_mul_right size hij
    rw [Nat.add_mul, Nat.one_mul] at hij'
    omega
  pos := fun a ha => hpos.trans_le (mem_slotsOf ha).1
  bound := fun a ha => (mem_slotsOf ha).2.trans hend

lemma Cells.append {S T : List ℕ} (hS : Cells size S) (hT : Cells size T)
    (hST : ∀ a ∈ S, ∀ b ∈ T, a + size ≤ b ∨ b + size ≤ a) : Cells size (S ++ T) where
  apart := pairwise_append.mpr ⟨hS.apart, hT.apart, hST⟩
  pos := fun a ha => (mem_append.mp ha).elim (hS.pos a) (hT.pos a)
  bound := fun a ha => (mem_append.mp ha).elim (hS.bound a) (hT.bound a)

lemma Cells.page {pages S : List ℕ} (hS : Cells size S)
    (hperm : S.Perm (pages.flatMap (SlabCache.slotsOf size))) (hf : FreshPage pages base) :
    Cells size (SlabCache.slotsOf size base ++ S) := by
  obtain ⟨hpos, hend, hapart⟩ := hf
  refine (cells_slotsOf hpos hend).append hS fun a ha b hb => ?_
  obtain ⟨q, hq, hbq⟩ := mem_flatMap.mp (hperm.mem_iff.mp hb)
  have hb' := mem_slotsOf hbq
  have ha' := mem_slotsOf ha
  have := hapart q hq
  omega

/-- Where the slots of a cache are. `L` are the slots of the objects that are handed out, `C` and
`P` those in the current and the previous round of the magazine, `F` the free list. -/
structure Separated (s : Sys) (L C P F : List ℕ) : Prop where
  live : s.live = L.map (· + s.cache.redZoneOffset)
  current : s.cache.current.objects = C.map (· + s.cache.redZoneOffset)
  prev : s.cache.prev.objects = P.map (· + s.cache.redZoneOffset)
  freeList : Chain (link s.cache.mem) s.cache.freeHead F
  /-- Together they are the slots carved from the pages. -/
  exact : (L ++ C ++ P ++ F).Perm (s.pages.flatMap (SlabCache.slotsOf s.cache.allocSize))
  /-- The bytes of two slots are disjoint. -/
  apart : (L ++ C ++ P ++ F).Pairwise fun a b =>
    a + s.cache.allocSize ≤ b ∨ b + s.cache.allocSize ≤ a
  /-- No pointer is handed out twice. -/
  once : s.live.Nodup
  /-- The bytes of two objects are disjoint. -/
  objects : s.live.Pairwise fun p q =>
    p + s.cache.objectSize ≤ q ∨ q + s.cache.objectSize ≤ p
  /-- A check of an object's guards would find them in place. -/
  intact : ∀ p ∈ s.live, (!s.cache.hasRedZones || s.cache.checkRedZones p) = true
  /-- No check has found anything else. -/
  unreported : s.reported = false

/-- The invariant of a run. -/
def Inv (s : Sys) : Prop := ∃ L C P F, Laid s.cache L C P F ∧
  s.live = L.map (· + s.cache.redZoneOffset) ∧
  (L ++ C ++ P ++ F).Perm (s.pages.flatMap (SlabCache.slotsOf s.cache.allocSize)) ∧
  s.reported = false

lemma Inv.boot (size : ℕ) (mem : Mem) : Inv (.boot size mem) :=
  ⟨[], [], [], [], ⟨sized_new size mem, ⟨List.Pairwise.nil, by simp, by simp⟩, rfl, rfl, rfl,
    by simp⟩, rfl, List.Perm.refl _, rfl⟩

variable {s : Sys}

lemma Inv.alloc (h : Inv s) {answer : Option ℕ} (hok : (Call.alloc answer).Ok s) :
    Inv (s.next (.alloc answer)) := by
  obtain ⟨L, C, P, F, hlaid, hlive, hperm, hrep⟩ := h
  have hcells : Cells s.cache.allocSize (s.cache.carved answer ++ (L ++ C ++ P ++ F)) := by
    unfold SlabCache.carved
    split_ifs
    · cases answer with
      | none => exact hlaid.cells
      | some page => simpa using hlaid.cells.page hperm (hok page rfl)
    · exact hlaid.cells
  obtain ⟨L', C', P', F', hlaid', hsame, hperm', hlive'⟩ := hlaid.alloc hcells
  refine ⟨L', C', P', F', hlaid', ?_, ?_, hrep⟩
  · simp only [Sys.next]
    rw [hsame.redZoneOffset, hlive', hlive]
  · simp only [Sys.next]
    rw [hsame.2]
    refine hperm'.trans ((hperm.append_left _).trans ?_)
    unfold SlabCache.carved
    split_ifs
    · rw [flatMap_append]
    · rfl

lemma Inv.dealloc (h : Inv s) {ptr : ℕ} (hok : (Call.dealloc ptr).Ok s) :
    Inv (s.next (.dealloc ptr)) := by
  obtain ⟨L, C, P, F, hlaid, hlive, hperm, hrep⟩ := h
  have hptr : ptr ∈ s.live := hok
  rw [hlive] at hptr
  obtain ⟨a, ha, rfl⟩ := mem_map.mp hptr
  have hto := perm_cons_erase ha
  have hfirst : Laid s.cache (a :: L.erase a) C P F :=
    hlaid.rounds ((hto.symm.append_right C).append_right P) hlaid.current hlaid.prev
  obtain ⟨C', P', F', hlaid', hsame, hperm'⟩ := hfirst.dealloc
  have hintact := hlaid.intact ha
  refine ⟨L.erase a, C', P', F', hlaid', ?_, ?_, ?_⟩
  · simp only [Sys.next]
    rw [hsame.redZoneOffset, hlive]
    exact (map_erase (fun x y hxy => Nat.add_right_cancel hxy) L).symm
  · simp only [Sys.next]
    rw [hsame.2]
    refine hperm'.trans (List.Perm.trans ?_ hperm)
    exact (((hto.symm.append_right C).append_right P).append_right F)
  · have hfound : (s.cache.dealloc (a + s.cache.redZoneOffset)).1 = true := by
      unfold SlabCache.dealloc
      split
      · exact hintact
      · simp only []
        split <;> exact hintact
    simp only [Sys.next, hrep, hfound, Bool.not_true, Bool.or_self]

lemma Inv.store (h : Inv s) {addr : ℕ} {bytes : List UInt8} (hok : (Call.store addr bytes).Ok s) :
    Inv (s.next (.store addr bytes)) := by
  obtain ⟨L, C, P, F, hlaid, hlive, hperm, hrep⟩ := h
  obtain ⟨p, hp, hlo, hhi⟩ := hok
  rw [hlive] at hp
  obtain ⟨a, ha, rfl⟩ := mem_map.mp hp
  exact ⟨L, C, P, F, hlaid.store ha fun x hx => Mem.write_outside (by omega), hlive, hperm, hrep⟩

lemma Inv.next (h : Inv s) {call : Call} (hok : call.Ok s) : Inv (s.next call) := by
  cases call with
  | alloc page => exact h.alloc hok
  | dealloc ptr => exact h.dealloc hok
  | store addr bytes => exact h.store hok

lemma Inv.separated (h : Inv s) : ∃ L C P F, Separated s L C P F := by
  obtain ⟨L, C, P, F, hlaid, hlive, hperm, hrep⟩ := h
  have hobj := hlaid.sized.object_le
  have hroom := hlaid.sized.room
  have hL : Cells s.cache.allocSize L :=
    hlaid.cells.sublist (by simp only [append_assoc]; exact sublist_append_left _ _)
  refine ⟨L, C, P, F, hlive, hlaid.current, hlaid.prev, hlaid.chain, hperm, hlaid.cells.apart,
    ?_, ?_, ?_, hrep⟩
  · rw [hlive]
    exact (hL.nodup (by omega)).map fun x y hxy => Nat.add_right_cancel hxy
  · rw [hlive]
    exact pairwise_map.mpr (hL.apart.imp fun {x y} hxy => by omega)
  · intro p hp
    rw [hlive] at hp
    obtain ⟨a, ha, rfl⟩ := mem_map.mp hp
    exact hlaid.intact ha

/-- In every run of a cache the slots of the live objects, the two rounds and the free list are
those of its pages and disjoint; so are the objects, and no check reports corruption. -/
theorem slots_separated {size : ℕ} {mem : Mem} {s : Sys}
    (h : Runs (fun a call b => a.next call = b) (fun a call => call.Ok a) (.boot size mem) s) :
    ∃ L C P F, Separated s L C P F := by
  have hinv : Inv s := by
    induction h with
    | refl => exact Inv.boot size mem
    | tail _ hs ih =>
      obtain ⟨call, hok, rfl⟩ := hs
      exact ih.next hok
  exact hinv.separated

def threeObjects : List Call :=
  [.alloc (some 4096), .alloc none, .alloc none, .store 7152 [1, 2], .dealloc 6136]

theorem slots_separated_threeObjects :
    (threeObjects.foldl Sys.next (.boot 1000 fun _ => 0)).live = [5120, 7152] ∧
      ∃ L C P F, Separated (threeObjects.foldl Sys.next (.boot 1000 fun _ => 0)) L C P F :=
  ⟨by decide +kernel, @slots_separated 1000 (fun _ => 0) _
    (Runs.of_foldl (fun _ _ _ => rfl) (by decide +kernel))⟩

end Aios.Mm.Slab
