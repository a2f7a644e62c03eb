import Aios.Input.Translate

/-!
Pointer coalescing: stage 1 of `kernel/src/compositor/input_route.rs`.

The compositor drains the input queue and keeps back the last position of a pointer that only moves,
until another event comes or the queue is empty. What an event does in the later stages is a
parameter; the position of the cursor, which they do not read, is left out.
-/

namespace Aios.Input

variable {κ σ : Type*} (runThroughStages : σ → InputEvent κ → σ)

def flush (pending : Option (ℕ × ℕ)) (s : σ) : σ :=
  match pending with
  | some (x, y) => runThroughStages s (.pointer x y none none)
  | none => s

/-- `drain_and_route`, from the pending position and the events left in the queue. -/
def drainFrom (pending : Option (ℕ × ℕ)) (s : σ) : List (InputEvent κ) → σ
  | [] => flush runThroughStages pending s
  | .pointer x y none none :: queue => drainFrom (some (x, y)) s queue
  | event :: queue =>
    drainFrom none (runThroughStages (flush runThroughStages pending s) event) queue

def drainAndRoute (s : σ) (queue : List (InputEvent κ)) : σ :=
  drainFrom runThroughStages none s queue

def InputEvent.isMotion : InputEvent κ → Bool
  | .pointer _ _ none none => true
  | _ => false

def coalesced (queue : List (InputEvent κ)) : List (InputEvent κ) :=
  (queue.splitBy fun a b => a.isMotion && b.isMotion).filterMap List.getLast?

/-! ### The last element of every run -/

lemma lasts_loop {α : Type*} (r : α → α → Bool) (l : List α) (a : α) (g : List α)
    (gs : List (List α)) : (List.splitBy.loop r l a g gs).filterMap List.getLast? =
      gs.reverse.filterMap List.getLast? ++ (List.splitBy r (a :: l)).filterMap List.getLast? := by
  induction l generalizing a g gs with
  | nil => simp [List.splitBy, List.splitBy.loop]
  | cons b l ih =>
    rw [List.splitBy, List.splitBy.loop, List.splitBy.loop]
    cases r a b with
    | true => simp only [ih]; simp
    | false => simp only [ih]; simp

lemma coalesced_cons (a b : InputEvent κ) (queue : List (InputEvent κ)) :
    coalesced (a :: b :: queue) =
      if a.isMotion && b.isMotion then coalesced (b :: queue) else a :: coalesced (b :: queue) := by
  rw [coalesced, List.splitBy, List.splitBy.loop]
  split_ifs with h
  · simp only [h, lasts_loop]
    rfl
  · simp only [h, lasts_loop]
    rfl

lemma coalesced_cons_of_not_motion {a : InputEvent κ} (h : a.isMotion = false)
    (queue : List (InputEvent κ)) : coalesced (a :: queue) = a :: coalesced queue := by
  cases queue with
  | nil => rfl
  | cons b queue => rw [coalesced_cons, h, Bool.false_and, if_neg Bool.false_ne_true]

lemma filter_coalesced (queue : List (InputEvent κ)) :
    (coalesced queue).filter (fun e => !e.isMotion) = queue.filter fun e => !e.isMotion := by
  induction queue with
  | nil => rfl
  | cons a queue ih =>
    cases ha : a.isMotion with
    | false => simp [coalesced_cons_of_not_motion ha, ha, ih]
    | true =>
      cases queue with
      | nil => rfl
      | cons b queue =>
        rw [coalesced_cons]
        split_ifs <;> simp [ha, ih]

lemma drainFrom_eq (queue : List (InputEvent κ)) (pending : Option (ℕ × ℕ)) (s : σ) :
    drainFrom runThroughStages pending s queue =
      (coalesced ((pending.map fun p => .pointer p.1 p.2 none none).toList ++ queue)).foldl
        runThroughStages s := by
  induction queue generalizing pending s with
  | nil => cases pending <;> rfl
  | cons event queue ih =>
    cases hm : event.isMotion with
    | true =>
      obtain ⟨x, y, rfl⟩ : ∃ x y, event = .pointer x y none none := by
        unfold InputEvent.isMotion at hm
        split at hm
        · exact ⟨_, _, rfl⟩
        · cases hm
      rw [drainFrom, ih]
      cases pending with
      | none => rfl
      | some p => simp [coalesced_cons, InputEvent.isMotion]
    | false =>
      have hstep : drainFrom runThroughStages pending s (event :: queue) = drainFrom
          runThroughStages none (runThroughStages (flush runThroughStages pending s) event)
            queue := by
        unfold InputEvent.isMotion at hm
        split at hm
        · cases hm
        · rw [drainFrom]
          assumption
      rw [hstep, ih]
      cases pending with
      | none => simp [coalesced_cons_of_not_motion hm, flush]
      | some p => simp [coalesced_cons, coalesced_cons_of_not_motion hm, hm, flush]

/-- **Coalescing.** The later stages see the queue with every maximal run of motion replaced by its
last event, so every other event is there, unchanged and in order. -/
theorem drain_coalesces (s : σ) (queue : List (InputEvent κ)) :
    drainAndRoute runThroughStages s queue = (coalesced queue).foldl runThroughStages s ∧
      (coalesced queue).filter (fun e => !e.isMotion) = queue.filter fun e => !e.isMotion :=
  ⟨drainFrom_eq runThroughStages queue none s, filter_coalesced queue⟩

end Aios.Input
