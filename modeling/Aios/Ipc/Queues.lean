import Aios.Lib.Ring
import Aios.Lib.Runs

/-!
The queues of `shared/src/collections.rs`.

`FixedQueue` and `RingBuffer` are circular buffers with the same code, one with optional cells and
one with plain ones. Both do what a list does that takes at most `N` elements. The iterator of
`FixedQueue` finds its cells with one conditional subtraction in place of the remainder.
-/

namespace Aios.Ipc

open Aios.Lib List Function

structure Circular (β : Type) (N : ℕ) where
  buf : Fin N → β
  head : Fin N
  tail : Fin N
  len : ℕ

namespace Circular

variable {β : Type} {N : ℕ} [NeZero N]

def new (blank : β) : Circular β N := ⟨fun _ => blank, 0, 0, 0⟩

def push (q : Circular β N) (cell : β) : Bool × Circular β N :=
  if N ≤ q.len then (false, q)
  else (true, { q with
    buf := update q.buf q.tail cell
    tail := Fin.ofNat N (q.tail + 1)
    len := q.len + 1 })

def pop (blank : β) (q : Circular β N) : Option β × Circular β N :=
  if q.len = 0 then (none, q)
  else (some (q.buf q.head), { q with
    buf := update q.buf q.head blank
    head := Fin.ofNat N (q.head + 1)
    len := q.len - 1 })

end Circular

abbrev FixedQueue (T : Type) (N : ℕ) := Circular (Option T) N

namespace FixedQueue

variable {T : Type} {N : ℕ} [NeZero N]

def new : FixedQueue T N := Circular.new none

def pushBack (q : FixedQueue T N) (val : T) : Bool × FixedQueue T N := Circular.push q (some val)

def popFront (q : FixedQueue T N) : Option T × FixedQueue T N :=
  ((Circular.pop none q).1.join, (Circular.pop none q).2)

/-- `buf.get(slot)` at a position of the iterator. -/
def cellAt (q : FixedQueue T N) (pos : ℕ) : Option (Option T) :=
  let raw := q.head + pos
  let slot := if N ≤ raw then raw - N else raw
  if h : slot < N then some (q.buf ⟨slot, h⟩) else none

/-- What `FixedQueueIter::next` yields from a position on; it skips empty cells. -/
def iterFrom (q : FixedQueue T N) (pos : ℕ) : List T :=
  if pos < q.len then
    match q.cellAt pos with
    | some (some val) => val :: iterFrom q (pos + 1)
    | _ => iterFrom q (pos + 1)
  else []
termination_by q.len - pos

def iter (q : FixedQueue T N) : List T := q.iterFrom 0

/-- What `n` calls of `pop_front` return, up to the first `None`. -/
def drain : ℕ → FixedQueue T N → List T
  | 0, _ => []
  | n + 1, q =>
    match q.popFront with
    | (none, _) => []
    | (some val, q') => val :: drain n q'

end FixedQueue

abbrev RingBuffer (T : Type) (N : ℕ) := Circular T N

namespace RingBuffer

variable {T : Type} {N : ℕ} [NeZero N]

def new (blank : T) : RingBuffer T N := Circular.new blank

def push (q : RingBuffer T N) (val : T) : Bool × RingBuffer T N := Circular.push q val

def pop [Inhabited T] (q : RingBuffer T N) : Option T × RingBuffer T N := Circular.pop default q

end RingBuffer

/-! ### Runs -/

inductive QueueCall (T : Type)
  | push (val : T)
  | pop

inductive QueueAnswer (T : Type)
  | pushed (ok : Bool)
  | popped (val : Option T)

section Runs

variable {T σ : Type}

def queueCall (push : σ → T → Bool × σ) (pop : σ → Option T × σ) (s : σ) :
    QueueCall T → QueueAnswer T × σ
  | .push val => (push s val).map .pushed id
  | .pop => (pop s).map .popped id

/-- A list that takes at most `N` elements. -/
def boundedPush (N : ℕ) (l : List T) (val : T) : Bool × List T :=
  if l.length < N then (true, l ++ [val]) else (false, l)

def listPop (l : List T) : Option T × List T := (l.head?, l.tail)

def listRun (N : ℕ) : List (QueueCall T) → List (QueueAnswer T) × List T :=
  answers (queueCall (boundedPush N) listPop) []

variable {N : ℕ} [NeZero N]

def FixedQueue.run : List (QueueCall T) → List (QueueAnswer T) × FixedQueue T N :=
  answers (queueCall FixedQueue.pushBack FixedQueue.popFront) FixedQueue.new

def RingBuffer.run [Inhabited T] (blank : T) :
    List (QueueCall T) → List (QueueAnswer T) × RingBuffer T N :=
  answers (queueCall RingBuffer.push RingBuffer.pop) (RingBuffer.new blank)

variable {push : σ → T → Bool × σ} {pop : σ → Option T × σ}

omit [NeZero N] in
/-- A queue that answers as the list and stays related to it does so over every sequence of
calls. -/
lemma answers_eq_listRun (R : σ → List T → Prop)
    (hpush : ∀ s l val, R s l →
      (push s val).1 = (boundedPush N l val).1 ∧ R (push s val).2 (boundedPush N l val).2)
    (hpop : ∀ s l, R s l → (pop s).1 = (listPop l).1 ∧ R (pop s).2 (listPop l).2) {s : σ}
    (h : R s []) (calls : List (QueueCall T)) :
    (answers (queueCall push pop) s calls).1 = (listRun N calls).1 ∧
      R (answers (queueCall push pop) s calls).2 (listRun N calls).2 := by
  refine answers_eq _ _ R (fun s l call h => ?_) h calls
  cases call with
  | push val => exact ⟨congrArg QueueAnswer.pushed (hpush s l val h).1, (hpush s l val h).2⟩
  | pop => exact ⟨congrArg QueueAnswer.popped (hpop s l h).1, (hpop s l h).2⟩

end Runs

/-! ### A circular buffer and its list -/

namespace Circular

variable {β : Type} {N : ℕ} [NeZero N] {q : Circular β N} {l : List β} {blank cell : β}

structure Is (q : Circular β N) (l : List β) : Prop where
  holds : Ring.Holds q.buf q.head l
  len : q.len = l.length
  room : l.length ≤ N
  tail : q.tail = Fin.ofNat N (q.head + l.length)

lemma is_new (blank : β) : Is (new blank : Circular β N) [] :=
  ⟨rfl, rfl, Nat.zero_le _, Fin.ext (by simp [new])⟩

lemma Is.push (h : Is q l) (cell : β) :
    (q.push cell).1 = (boundedPush N l cell).1 ∧ Is (q.push cell).2 (boundedPush N l cell).2 := by
  unfold Circular.push boundedPush
  rw [h.len]
  by_cases hfull : N ≤ l.length
  · rw [if_pos hfull, if_neg (not_lt.mpr hfull)]
    exact ⟨rfl, h⟩
  · rw [if_neg hfull, if_pos (not_le.mp hfull)]
    refine ⟨rfl, ?_, by simp, ?_, ?_⟩
    · rw [h.tail]
      exact h.holds.push (not_le.mp hfull)
    · rw [length_append]
      exact not_le.mp hfull
    · rw [h.tail, length_append, length_singleton, ← Nat.add_assoc]
      exact Ring.ofNat_mod _ _

lemma Is.pop (h : Is q l) (blank : β) : (q.pop blank).1 = l.head? ∧ Is (q.pop blank).2 l.tail := by
  unfold Circular.pop
  rw [h.len]
  cases l with
  | nil => exact ⟨rfl, h⟩
  | cons b l =>
    obtain ⟨hcell, hrest⟩ := Ring.holds_cons.mp h.holds
    have hhead : Fin.ofNat N q.head.val = q.head := Fin.ofNat_val_eq_self q.head
    rw [hhead] at hcell
    have hlt : l.length < N := h.room
    refine ⟨congrArg some hcell, ?_, rfl, hlt.le, ?_⟩
    · have hpop := hrest.pop hlt (b := blank)
      rw [hhead] at hpop
      exact (Ring.holds_mod _ _ _).mpr hpop
    · change q.tail = Fin.ofNat N ((q.head + 1) % N + l.length)
      rw [Ring.ofNat_mod, h.tail, length_cons, Nat.add_assoc, Nat.add_comm 1]

end Circular

namespace FixedQueue

variable {T : Type} {N : ℕ} [NeZero N] {q : FixedQueue T N} {l : List T}

section

variable (h : Circular.Is q (l.map some))
include h

lemma push_is (val : T) : (q.pushBack val).1 = (boundedPush N l val).1 ∧
    Circular.Is (q.pushBack val).2 ((boundedPush N l val).2.map some) := by
  have hpush := h.push (some val)
  unfold boundedPush at hpush ⊢
  rw [length_map] at hpush
  split_ifs at hpush ⊢
  · rw [map_append]
    exact hpush
  · exact hpush

lemma pop_is :
    q.popFront.1 = (listPop l).1 ∧ Circular.Is q.popFront.2 ((listPop l).2.map some) := by
  obtain ⟨hval, hrest⟩ := h.pop none
  rw [← map_tail] at hrest
  refine ⟨?_, hrest⟩
  rw [popFront, hval]
  cases l <;> rfl

lemma cellAt_eq {pos : ℕ} (hpos : pos < l.length) : q.cellAt pos = some (some l[pos]) := by
  have hle : l.length ≤ N := by simpa using h.room
  have hhead := q.head.isLt
  have hslot : (if N ≤ q.head + pos then q.head + pos - N else q.head + pos) =
      (q.head + pos) % N := by
    split_ifs with hwrap
    · rw [Nat.mod_eq_sub_mod hwrap, Nat.mod_eq_of_lt (by omega)]
    · exact (Nat.mod_eq_of_lt (not_le.mp hwrap)).symm
  have hcell : q.buf (Fin.ofNat N (q.head + pos)) = some l[pos] := by
    have hget := congrArg (·[pos]?) h.holds
    simpa [Ring.window, hpos] using hget
  unfold cellAt
  simp only [hslot]
  rw [dif_pos (Nat.mod_lt _ (Nat.pos_of_neZero N))]
  exact congrArg some hcell

lemma iterFrom_eq (pos : ℕ) : q.iterFrom pos = l.drop pos := by
  have hlen : q.len = l.length := by simpa using h.len
  induction hn : l.length - pos generalizing pos with
  | zero => rw [iterFrom, if_neg (by omega), drop_of_length_le (by omega)]
  | succ n ih =>
    have hpos : pos < l.length := by omega
    rw [iterFrom, if_pos (hlen ▸ hpos), cellAt_eq h hpos, ih (pos + 1) (by omega),
      drop_eq_getElem_cons hpos]

end

lemma drain_eq (n : ℕ) (h : Circular.Is q (l.map some)) : q.drain n = l.take n := by
  induction n generalizing q l with
  | zero => rfl
  | succ n ih =>
    obtain ⟨hval, hrest⟩ := pop_is h
    cases l with
    | nil => rw [drain, show q.popFront = (none, q.popFront.2) from Prod.ext hval rfl]; rfl
    | cons a l =>
      rw [drain, show q.popFront = (some a, q.popFront.2) from Prod.ext hval rfl]
      exact congrArg (a :: ·) (ih hrest)

lemma iter_eq_drain (h : Circular.Is q (l.map some)) (n : ℕ) : q.iter = q.drain (q.len + n) := by
  rw [iter, iterFrom_eq h, drain_eq _ h, h.len, length_map, drop_zero,
    take_of_length_le (Nat.le_add_right _ n)]

end FixedQueue

/-- **Queues are bounded FIFOs.** For every capacity and every sequence of calls both queues answer
as the list does, and the iterator yields what successive `pop_front` calls would return. -/
theorem queues_fifo {T : Type} [Inhabited T] (N : ℕ) (blank : T) (calls : List (QueueCall T)) :
    (FixedQueue.run calls : _ × FixedQueue T (N + 1)).1 = (listRun (N + 1) calls).1 ∧
    (RingBuffer.run blank calls : _ × RingBuffer T (N + 1)).1 = (listRun (N + 1) calls).1 ∧
    ∀ n, let q : FixedQueue T (N + 1) := (FixedQueue.run calls).2
      q.iter = q.drain (q.len + n) := by
  obtain ⟨hfixed, his⟩ := answers_eq_listRun
    (fun (q : FixedQueue T (N + 1)) l => Circular.Is q (l.map some))
    (fun _ _ val h => FixedQueue.push_is h val) (fun _ _ h => FixedQueue.pop_is h)
    (Circular.is_new none) calls
  obtain ⟨hring, -⟩ := answers_eq_listRun (fun (q : RingBuffer T (N + 1)) l => Circular.Is q l)
    (fun _ _ val h => h.push val) (fun _ _ h => h.pop default) (Circular.is_new blank) calls
  exact ⟨hfixed, hring, FixedQueue.iter_eq_drain his⟩

end Aios.Ipc
