import Aios.Lib.Bytes
import Aios.Lib.Chain

/-!
The buddy allocator for physical pages: `kernel/src/mm/buddy.rs`.

An allocator manages the pages of `[base, end)`. Free blocks of `2^order` pages are linked
through the first eight bytes of the block itself; the first pages of the range hold a
bitmap with one bit for each pair of buddies at each order. The memory the pointers live
in is part of the state and is addressed by physical address.
-/

namespace Aios.Mm

open Aios.Lib Function

def pageSize : ℕ := 4096

def maxOrder : ℕ := 10

def poisonPattern : ℕ := 0xDEADDEAD

def blockSize (order : ℕ) : ℕ := pageSize * 2 ^ order

lemma blockSize_pos (o : ℕ) : 0 < blockSize o := Nat.mul_pos (by decide) (Nat.two_pow_pos o)

def divCeil (a b : ℕ) : ℕ := (a + b - 1) / b

/-- The buddy pairs of the orders below `order` in a range of `total` pages. -/
def pairsBelow (total order : ℕ) : ℕ :=
  ((List.range order).map fun k => divCeil total (2 ^ (k + 1))).sum

/-- The pages the bitmap of a range of `total` pages takes. -/
def bitmapPagesFor (total : ℕ) : ℕ :=
  divCeil (divCeil (pairsBelow total (maxOrder + 1)) 8) pageSize

def buddyOf (addr base order : ℕ) : ℕ := base + ((addr - base) ^^^ 2 ^ (order + 12))

/-- How a call ends other than by returning: an assertion about its arguments, the assertion
against a double free, the walk along a free list that has become a cycle, or that follows a
link out of the range. -/
inductive Fault
  | badArgument
  | doubleFree
  | listLoop
  | dataAbort
  deriving DecidableEq, Repr

/-- `BuddyAllocator` and the physical memory it works in. -/
structure Buddy where
  base : ℕ
  endAddr : ℕ
  bitmap : ℕ
  bitmapPages : ℕ
  freeHeads : ℕ → ℕ
  freeCount : ℕ → ℕ
  totalFree : ℕ
  initialized : Bool
  mem : Mem

namespace Buddy

def new (mem : Mem) : Buddy where
  base := 0
  endAddr := 0
  bitmap := 0
  bitmapPages := 0
  freeHeads := fun _ => 0
  freeCount := fun _ => 0
  totalFree := 0
  initialized := false
  mem := mem

def next (b : Buddy) (addr : ℕ) : ℕ := b.mem.readLe addr 8

/-- `bitmap_index`: the byte and the bit of the pair `addr` belongs to. -/
def bitmapIndex (b : Buddy) (addr order : ℕ) : ℕ × ℕ :=
  let pfn := (addr - b.base) / pageSize
  let totalPages := (b.endAddr - b.base) / pageSize
  let bitPos := pairsBelow totalPages order + pfn / 2 ^ (order + 1)
  (bitPos / 8, bitPos % 8)

/-- `bitmap_toggle`: flips the bit of the pair and returns its new value. -/
def bitmapToggle (b : Buddy) (addr order : ℕ) : Bool × Buddy :=
  let (byteIdx, bit) := b.bitmapIndex addr order
  let newVal := b.mem (b.bitmap + byteIdx) ^^^ ((1 : UInt8) <<< UInt8.ofNat bit)
  ((newVal >>> UInt8.ofNat bit) &&& 1 == 1,
    { b with mem := b.mem.write (b.bitmap + byteIdx) [newVal] })

def pushBlock (b : Buddy) (addr order : ℕ) : Buddy :=
  { b with
    mem := b.mem.writeLe addr 8 (b.freeHeads order)
    freeHeads := update b.freeHeads order addr
    freeCount := update b.freeCount order (b.freeCount order + 1)
    totalFree := b.totalFree + 2 ^ order }

/-- `pop_block`: `total_free` is left to the caller. -/
def popBlock (b : Buddy) (order : ℕ) : Option ℕ × Buddy :=
  if b.freeHeads order = 0 then (none, b)
  else
    (some (b.freeHeads order),
      { b with
        freeHeads := update b.freeHeads order (b.next (b.freeHeads order))
        freeCount := update b.freeCount order (b.freeCount order - 1) })

/-- `remove_from_free_list`. The fuel of the walk is one more than the pages of the range;
a list without a cycle never uses it up. What lies outside the range is taken as not mapped. -/
def removeFromFreeList (b : Buddy) (target order : ℕ) : Except Fault (Bool × Buddy) :=
  let fuel := (b.endAddr - b.base) / pageSize + 1
  if b.freeHeads order = target then .ok (true, (b.popBlock order).2)
  else if ∃ a ∈ visited b.next target fuel (b.freeHeads order), a < b.base ∨ b.endAddr ≤ a then
    .error .dataAbort
  else
    match findPrev b.next target fuel (b.freeHeads order) with
    | none => .error .listLoop
    | some none => .ok (false, b)
    | some (some prev) =>
      .ok (true,
        { b with
          mem := b.mem.writeLe prev 8 (b.next target)
          freeCount := update b.freeCount order (b.freeCount order - 1) })

/-- The toggle that `alloc_pages` makes once the allocator is initialised. -/
def toggleIfInitialized (b : Buddy) (addr order : ℕ) : Buddy :=
  if b.initialized then (b.bitmapToggle addr order).2 else b

def splitStep (addr : ℕ) (b : Buddy) (splitOrder : ℕ) : Buddy :=
  (b.pushBlock (addr + blockSize splitOrder) splitOrder).toggleIfInitialized
    (addr + blockSize splitOrder) splitOrder

/-- The loop of `alloc_pages` over the higher orders. -/
def allocHigher (b : Buddy) (order : ℕ) : List ℕ → Option ℕ × Buddy
  | [] => (none, b)
  | higher :: rest =>
    match b.popBlock higher with
    | (some addr, b₁) =>
      let b₂ := (List.range' order (higher - order)).reverse.foldl (splitStep addr)
        (b₁.toggleIfInitialized addr higher)
      (some addr, { b₂ with totalFree := b₂.totalFree - 2 ^ higher })
    | (none, b₁) => allocHigher b₁ order rest

def allocPages (b : Buddy) (order : ℕ) : Option ℕ × Buddy :=
  if maxOrder < order then (none, b)
  else
    match b.popBlock order with
    | (some addr, b₁) =>
      (some addr,
        { b₁ with totalFree := b₁.totalFree - 2 ^ order }.toggleIfInitialized addr order)
    | (none, b₁) => b₁.allocHigher order (List.range' (order + 1) (maxOrder - order))

/-- The coalescing loop of `free_pages`; the first argument is `MAX_ORDER - current_order`. -/
def coalesce : ℕ → Buddy → ℕ → ℕ → Except Fault (Buddy × ℕ × ℕ)
  | 0, b, addr, order => .ok (b, addr, order)
  | n + 1, b, addr, order =>
    match b.bitmapToggle addr order with
    | (true, b₁) => .ok (b₁, addr, order)
    | (false, b₁) =>
      let buddyAddr := buddyOf addr b₁.base order
      if buddyAddr < b₁.base ∨ b₁.endAddr < buddyAddr + blockSize order then
        .ok ((b₁.bitmapToggle addr order).2, addr, order)
      else
        match b₁.removeFromFreeList buddyAddr order with
        | .error e => .error e
        | .ok (false, b₂) => .ok ((b₂.bitmapToggle addr order).2, addr, order)
        | .ok (true, b₂) =>
          coalesce n { b₂ with totalFree := b₂.totalFree - 2 ^ order } (min addr buddyAddr)
            (order + 1)

def poison (mem : Mem) (addr order : ℕ) : Mem :=
  (List.range (blockSize order / 4)).foldl
    (fun m i => m.writeLe (addr + 4 * i) 4 poisonPattern) mem

/-- The arguments that the `debug_assert!`s of `free_pages` let through. -/
def Frees (b : Buddy) (physAddr : ℕ) : Prop :=
  b.base ≤ physAddr ∧ physAddr < b.endAddr ∧ pageSize ∣ physAddr

instance (b : Buddy) (physAddr : ℕ) : Decidable (b.Frees physAddr) :=
  inferInstanceAs (Decidable (_ ∧ _ ∧ _))

def freePages (b : Buddy) (physAddr order : ℕ) : Except Fault Buddy :=
  if ¬ b.Frees physAddr then .error .badArgument
  else if !b.initialized then .ok (b.pushBlock physAddr order)
  else if b.mem.readLe physAddr 4 = poisonPattern then .error .doubleFree
  else
    match coalesce (maxOrder - order) { b with mem := poison b.mem physAddr order }
      physAddr order with
    | .error e => .error e
    | .ok (b₁, addr, order') =>
      let b₂ := if order' = maxOrder then (b₁.bitmapToggle addr order').2 else b₁
      .ok (b₂.pushBlock addr order')

/-- The order `add_aligned_blocks` picks: the largest whose block is aligned and fits, `0`
when none does. -/
def pickOrder (addr endAddr : ℕ) : ℕ → ℕ
  | 0 => 0
  | o + 1 =>
    if addr % blockSize (o + 1) = 0 ∧ addr + blockSize (o + 1) ≤ endAddr then o + 1
    else pickOrder addr endAddr o

/-- The loop of `add_aligned_blocks`. -/
def addBlocks : ℕ → Buddy → ℕ → ℕ → Buddy
  | 0, b, _, _ => b
  | n + 1, b, addr, endAddr =>
    let order := pickOrder addr endAddr maxOrder
    if endAddr < addr + blockSize order then b
    else addBlocks n (b.pushBlock addr order) (addr + blockSize order) endAddr

/-- `add_aligned_blocks`. A round that does not end the loop uses up a page or more, so the
pages of the range bound the rounds. -/
def addAlignedBlocks (b : Buddy) (addr endAddr : ℕ) : Buddy :=
  addBlocks ((endAddr - addr) / pageSize) b addr endAddr

/-- The walk of `add_region_excluding3` over the sorted exclusions, from the cursor on. -/
def walkExclusions (endAddr : ℕ) : List (ℕ × ℕ) → ℕ → Buddy → Buddy
  | [], cursor, b => if cursor < endAddr then b.addAlignedBlocks cursor endAddr else b
  | (es, ee) :: rest, cursor, b =>
    if es = ee then walkExclusions endAddr rest cursor b
    else
      walkExclusions endAddr rest (max cursor ee)
        (if cursor < es ∧ cursor < endAddr then b.addAlignedBlocks cursor (min es endAddr)
          else b)

/-- `add_region_excluding3`. -/
def addRegionExcluding3 (b : Buddy) (start endAddr : ℕ) (excl1 excl2 excl3 : ℕ × ℕ) : Buddy :=
  walkExclusions endAddr
    ([excl1, excl2, excl3].insertionSort fun x y => x.1 ≤ y.1) start b

def setRange (b : Buddy) (base endAddr : ℕ) : Buddy :=
  let bitmapPages := bitmapPagesFor ((endAddr - base) / pageSize)
  { b with
    base := base
    endAddr := endAddr
    bitmapPages := bitmapPages
    bitmap := base
    mem := b.mem.fill base (bitmapPages * pageSize) 0 }

def initWithRange (b : Buddy) (base endAddr : ℕ) : Buddy :=
  let b₁ := b.setRange base endAddr
  { b₁.addAlignedBlocks (base + b₁.bitmapPages * pageSize) endAddr with initialized := true }

def initWithRangeExcluding (b : Buddy) (base endAddr : ℕ) (excl1 excl2 : ℕ × ℕ) : Buddy :=
  let b₁ := b.setRange base endAddr
  let bitmapEnd := base + b₁.bitmapPages * pageSize
  { b₁.addRegionExcluding3 base endAddr (base, bitmapEnd) excl1 excl2 with initialized := true }

end Buddy

end Aios.Mm
