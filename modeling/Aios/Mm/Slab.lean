import Aios.Mm.Buddy
import Aios.Lib.Runs

/-!
One cache of the slab allocator: `kernel/src/mm/slab.rs`.

A cache carves pages into slots of `alloc_size` bytes. A free slot is on the free list, which is
linked through the first eight bytes of the slots, or in one of two magazines, from which objects
are handed out without touching the list. Caches for objects smaller than a page put eight guard
bytes in front of and behind the object; the link of a free slot lies where the front guard goes.
-/

namespace Aios.Mm.Slab

open Aios.Lib

def redZoneSize : ℕ := 8

@[irreducible] def redZonePattern : ℕ := 0xFEFEFEFEFEFEFEFE

lemma redZonePattern_lt : redZonePattern < 256 ^ 8 := by
  unfold redZonePattern
  norm_num

def magazineSize : ℕ := 32

/-- `MagazineRound`: the valid entries, the top of the stack first. -/
structure MagazineRound where
  objects : List ℕ
  length_le : objects.length ≤ magazineSize

namespace MagazineRound

def new : MagazineRound := ⟨[], Nat.zero_le _⟩

def pop (r : MagazineRound) : Option (ℕ × MagazineRound) :=
  match r with
  | ⟨[], _⟩ => none
  | ⟨p :: l, h⟩ => some (p, ⟨l, (Nat.le_succ _).trans h⟩)

def push (r : MagazineRound) (p : ℕ) : Option MagazineRound :=
  if h : r.objects.length < magazineSize then some ⟨p :: r.objects, h⟩ else none

variable {r r' : MagazineRound}

lemma pop_eq_none : r.pop = none ↔ r.objects = [] := by
  obtain ⟨l, hl⟩ := r
  cases l with
  | nil => simp [pop]
  | cons p l => simp [pop]

lemma pop_eq_some {p : ℕ} (h : r.pop = some (p, r')) : r.objects = p :: r'.objects := by
  obtain ⟨l, hl⟩ := r
  cases l with
  | nil => simp [pop] at h
  | cons q l =>
    simp only [pop, Option.some.injEq, Prod.mk.injEq] at h
    obtain ⟨rfl, rfl⟩ := h
    rfl

lemma push_eq_none (p : ℕ) (h : ¬ r.objects.length < magazineSize) : r.push p = none := dif_neg h

lemma push_eq_some {p : ℕ} (h : r.push p = some r') : r'.objects = p :: r.objects := by
  unfold push at h
  split_ifs at h
  cases h
  rfl

lemma push_isSome (p : ℕ) (h : r.objects.length < magazineSize) :
    ∃ r', r.push p = some r' := ⟨_, dif_pos h⟩

end MagazineRound

@[irreducible] def link (m : Mem) (slot : ℕ) : ℕ := m.readLe slot 8

lemma link_eq (m : Mem) (slot : ℕ) : link m slot = m.readLe slot 8 := by
  unfold link
  rfl

/-- `SlabCache` and the memory it works in. -/
structure SlabCache where
  objectSize : ℕ
  allocSize : ℕ
  freeHead : ℕ
  pagesUsed : ℕ
  current : MagazineRound
  prev : MagazineRound
  mem : Mem

namespace SlabCache

/-- `SlabCache::new`: no guard bytes for objects that fill a page. -/
def new (size : ℕ) (mem : Mem) : SlabCache where
  objectSize := size
  allocSize := size + 2 * (if size < pageSize then redZoneSize else 0)
  freeHead := 0
  pagesUsed := 0
  current := .new
  prev := .new
  mem := mem

def hasRedZones (c : SlabCache) : Bool := decide (c.objectSize < c.allocSize)

def redZoneOffset (c : SlabCache) : ℕ := if c.hasRedZones then redZoneSize else 0

def fillRedZones (c : SlabCache) (slot : ℕ) : SlabCache :=
  { c with
    mem := (c.mem.writeLe slot 8 redZonePattern).writeLe (slot + redZoneSize + c.objectSize) 8
      redZonePattern }

/-- `check_red_zones`: `true` when it reports nothing. -/
def checkRedZones (c : SlabCache) (ptr : ℕ) : Bool :=
  c.mem.readLe (ptr - redZoneSize) 8 == redZonePattern &&
    c.mem.readLe (ptr + c.objectSize) 8 == redZonePattern

def swap (c : SlabCache) : SlabCache := { c with current := c.prev, prev := c.current }

/-- One round of the loops of `refill_magazine`: the first free slot goes to the magazine. -/
def takeSlot (c : SlabCache) : SlabCache :=
  let slot := c.freeHead
  let c₁ := { c with freeHead := link c.mem slot }
  let c₂ := if c.hasRedZones then c₁.fillRedZones slot else c₁
  { c₂ with current := (c₂.current.push (slot + c.redZoneOffset)).getD c₂.current }

/-- The loop of `refill_magazine`, with the room that is left, and how many slots it moved. -/
def refillLoop : ℕ → SlabCache → ℕ × SlabCache
  | 0, c => (0, c)
  | room + 1, c =>
    if c.freeHead = 0 then (0, c)
    else
      let r := refillLoop room c.takeSlot
      (r.1 + 1, r.2)

/-- One slot of the loop of `grow`. -/
def pushSlot (c : SlabCache) (slot : ℕ) : SlabCache :=
  { c with mem := c.mem.writeLe slot 8 c.freeHead, freeHead := slot }

def slotsOf (allocSize page : ℕ) : List ℕ :=
  (List.range (pageSize / allocSize)).map fun i => page + i * allocSize

/-- `grow`, with the answer of `alloc_page`. -/
def grow (c : SlabCache) : Option ℕ → SlabCache
  | none => c
  | some page =>
    (slotsOf c.allocSize page).reverse.foldl pushSlot { c with pagesUsed := c.pagesUsed + 1 }

def refillMagazine (c : SlabCache) (page : Option ℕ) : SlabCache :=
  match refillLoop magazineSize c with
  | (0, c) => (refillLoop magazineSize (c.grow page)).2
  | (_ + 1, c) => c

def alloc (c : SlabCache) (page : Option ℕ) : Option ℕ × SlabCache :=
  match c.current.pop with
  | some (p, r) => (some p, { c with current := r })
  | none =>
    let c := c.swap
    match c.current.pop with
    | some (p, r) => (some p, { c with current := r })
    | none =>
      let c := c.refillMagazine page
      match c.current.pop with
      | some (p, r) => (some p, { c with current := r })
      | none => (none, c)

/-- Does `alloc` get as far as asking for a page? -/
def growsOnAlloc (c : SlabCache) : Bool :=
  c.current.objects.isEmpty && c.prev.objects.isEmpty && c.freeHead == 0

/-- `flush_magazine_to_freelist`, the loop over the objects of the round. -/
def flushLoop (c : SlabCache) : List ℕ → SlabCache
  | [] => c
  | p :: l => flushLoop (c.pushSlot (p - c.redZoneOffset)) l

def flushMagazineToFreelist (c : SlabCache) : SlabCache :=
  { c.flushLoop c.current.objects with current := .new }

/-- `dealloc`, and whether its check found the guard bytes intact. -/
def dealloc (c : SlabCache) (ptr : ℕ) : Bool × SlabCache :=
  let intact := !c.hasRedZones || c.checkRedZones ptr
  match c.current.push ptr with
  | some r => (intact, { c with current := r })
  | none =>
    let c := c.swap
    match c.current.push ptr with
    | some r => (intact, { c with current := r })
    | none =>
      let c := c.flushMagazineToFreelist
      (intact, { c with current := (c.current.push ptr).getD c.current })

end SlabCache

/-- A cache with the objects that are handed out, the pages it has got, and whether a check has
ever reported corruption. -/
structure Sys where
  cache : SlabCache
  live : List ℕ
  pages : List ℕ
  reported : Bool

/-- A call of the cache, with what `alloc_page` would answer, or a store of a holder. -/
inductive Call
  | alloc (page : Option ℕ)
  | dealloc (ptr : ℕ)
  | store (addr : ℕ) (bytes : List UInt8)

/-- A page that `alloc_page` may answer: it is not at the null pointer, and none of the pages it
has already given overlaps it. -/
def FreshPage (pages : List ℕ) (page : ℕ) : Prop :=
  0 < page ∧ page + pageSize ≤ 2 ^ 64 ∧
    ∀ q ∈ pages, page + pageSize ≤ q ∨ q + pageSize ≤ page

instance (pages : List ℕ) (page : ℕ) : Decidable (FreshPage pages page) :=
  inferInstanceAs (Decidable (_ ∧ _ ∧ _))

def Call.Ok (s : Sys) : Call → Prop
  | .alloc page => ∀ p ∈ page, FreshPage s.pages p
  | .dealloc ptr => ptr ∈ s.live
  | .store addr bytes => ∃ p ∈ s.live, p ≤ addr ∧ addr + bytes.length ≤ p + s.cache.objectSize

instance (s : Sys) (c : Call) : Decidable (c.Ok s) :=
  match c with
  | .alloc page => inferInstanceAs (Decidable (∀ p ∈ page, FreshPage s.pages p))
  | .dealloc ptr => inferInstanceAs (Decidable (ptr ∈ s.live))
  | .store addr bytes => inferInstanceAs (Decidable (∃ p ∈ s.live, p ≤ addr ∧
      addr + bytes.length ≤ p + s.cache.objectSize))

namespace Sys

def boot (size : ℕ) (mem : Mem) : Sys := ⟨.new size mem, [], [], false⟩

def next (s : Sys) : Call → Sys
  | .alloc page =>
    let r := s.cache.alloc page
    { s with
      cache := r.2
      live := r.1.toList ++ s.live
      pages := if s.cache.growsOnAlloc then page.toList ++ s.pages else s.pages }
  | .dealloc ptr =>
    let r := s.cache.dealloc ptr
    { s with
      cache := r.2
      live := s.live.erase ptr
      reported := s.reported || !r.1 }
  | .store addr bytes =>
    { s with cache := { s.cache with mem := s.cache.mem.write addr bytes } }

end Sys

end Aios.Mm.Slab
