import Aios.Sched.Machine

/-!
The place of each thread in the scheduler.

A thread is in one queue, on one CPU, in the hands of a CPU that is about to queue it or to run
it, or nowhere. `Placed` says that the tables agree with such an assignment of one place to each
thread; since the assignment is a function, no thread is in two places. Each lemma below is what
one section of the scheduler does to the assignment.
-/

namespace Aios.Sched

open Aios.Lib List Function

/-! ### Queues -/

namespace RunQueue

variable {q q' : RunQueue} {tid : Tid}

lemma room (hnd : q.all.Nodup) (h : tid ∉ q.all) : q.all.length < maxThreads := by
  have hcard := (nodup_cons.mpr ⟨h, hnd⟩).length_le_card
  rw [length_cons, Fintype.card_fin] at hcard
  exact hcard

lemma pushBack_of_lt {l : List Tid} (h : l.length < maxThreads) : pushBack l tid = l ++ [tid] :=
  if_pos h

lemma enqueue_perm (cls : SchedulerClass) (h : q.all.length < maxThreads) :
    ((q.enqueue tid cls).all).Perm (tid :: q.all) := by
  simp only [all, length_append] at h
  have hend : ∀ a b : List Tid, (a ++ [tid] ++ b).Perm (tid :: (a ++ b)) := fun a b => by
    rw [append_assoc]
    exact perm_middle
  cases cls with
  | realTime =>
    simp only [enqueue, pushBack_of_lt (show q.rt.length < maxThreads by omega), all, append_assoc]
    exact append_assoc q.rt _ _ ▸ hend q.rt (q.interactive ++ (q.normal ++ q.idle))
  | interactive =>
    simp only [enqueue, pushBack_of_lt (show q.interactive.length < maxThreads by omega), all]
    simpa using hend (q.rt ++ q.interactive) (q.normal ++ q.idle)
  | normal =>
    simp only [enqueue, pushBack_of_lt (show q.normal.length < maxThreads by omega), all]
    simpa using hend (q.rt ++ q.interactive ++ q.normal) q.idle
  | idle =>
    simp only [enqueue, pushBack_of_lt (show q.idle.length < maxThreads by omega), all]
    simpa using hend (q.rt ++ q.interactive ++ q.normal ++ q.idle) []

lemma pickNext_some (h : q.pickNext = some (tid, q')) : q.all = tid :: q'.all := by
  obtain ⟨rt, interactive, normal, idle⟩ := q
  cases rt <;> cases interactive <;> cases normal <;> cases idle <;>
    simp [pickNext] at h <;> obtain ⟨rfl, rfl⟩ := h <;> rfl

lemma pickNext_none (h : q.pickNext = none) : q.all = [] := by
  obtain ⟨rt, interactive, normal, idle⟩ := q
  cases rt <;> cases interactive <;> cases normal <;> cases idle <;> simp [pickNext] at h
  rfl

lemma all_normal {l : List Tid} (h : q.normal = tid :: l) :
    q.all.Perm (tid :: { q with normal := l }.all) := by
  simp only [all, h]
  have hmid : (q.rt ++ q.interactive ++ tid :: (l ++ q.idle)).Perm
      (tid :: (q.rt ++ q.interactive ++ (l ++ q.idle))) := perm_middle
  simpa using hmid

end RunQueue

/-! ### Places -/

inductive Spot
  | nowhere
  /-- In a CPU's run queue. -/
  | queued (c : Cpu)
  /-- In the hands of a CPU. -/
  | held (c : Cpu)
  /-- The current thread of a CPU. -/
  | current (c : Cpu)
  /-- Current, and back in the queue of its CPU, which is in `schedule`. -/
  | requeued (c : Cpu)
  /-- Current, and picked again by its CPU, which is in `schedule`. -/
  | repicked (c : Cpu)

namespace Spot

def inQueue : Spot → Option Cpu
  | queued c | requeued c => some c
  | _ => none

def onCpu : Spot → Option Cpu
  | current c | requeued c | repicked c => some c
  | _ => none

def inHand : Spot → Option Cpu
  | held c | repicked c => some c
  | _ => none

/-- The states a thread can be in at a place. -/
@[grind] def Fits (state : Option ThreadState) : Spot → Prop
  | nowhere => state ≠ some .running ∧ state ≠ some .runnable
  | current _ => state ≠ none
  | _ => state = some .runnable

variable {p : Spot} {c : Cpu}

@[grind =] lemma inQueue_iff : p.inQueue = some c ↔ p = queued c ∨ p = requeued c := by
  cases p <;> simp [inQueue]

@[grind =] lemma onCpu_iff :
    p.onCpu = some c ↔ p = current c ∨ p = requeued c ∨ p = repicked c := by
  cases p <;> simp [onCpu]

@[grind =] lemma inHand_iff : p.inHand = some c ↔ p = held c ∨ p = repicked c := by
  cases p <;> simp [inHand]

end Spot

namespace Pc

@[grind] def hand : Pc → Option Tid
  | switch _ next => some next
  | enqueue _ tid _ => some tid
  | _ => none

/-- The current thread that `schedule` has done with. -/
@[grind] def leaving : Pc → Option Tid
  | pick cur => cur
  | switch cur _ => cur
  | _ => none

/-- What was read from `CURRENT_THREAD`. -/
@[grind] def reads : Pc → Option (Option Tid)
  | yieldStore cur | blockStore cur _ | check cur | pick cur | switch cur _ => some cur
  | requeue tid _ => some (some tid)
  | _ => none

@[grind] def still : Pc → Bool
  | user | yieldStore _ | blockStore _ _ | schedule | check _ => true
  | _ => false

variable {p : Pc}

@[grind →] lemma hand_of_still (h : p.still = true) : p.hand = none := by
  cases p <;> simp_all [still, hand]

@[grind →] lemma leaving_of_still (h : p.still = true) : p.leaving = none := by
  cases p <;> simp_all [still, leaving]

end Pc

structure Placed (state : Tid → Option ThreadState) (cur : Cpu → Option Tid)
    (queue : Cpu → List Tid) (pc : Cpu → Pc) (spot : Tid → Spot) : Prop where
  nodup : ∀ c, (queue c).Nodup
  in_queue : ∀ c tid, tid ∈ queue c ↔ (spot tid).inQueue = some c
  on_cpu : ∀ c tid, cur c = some tid ↔ (spot tid).onCpu = some c
  in_hand : ∀ c tid, (pc c).hand = some tid ↔ (spot tid).inHand = some c
  fits : ∀ tid, (spot tid).Fits (state tid)
  reads : ∀ c x, (pc c).reads = some x → cur c = x
  leaving : ∀ c tid, (pc c).leaving = some tid → spot tid = .requeued c ∨
    spot tid = .repicked c ∨
    spot tid = .current c ∧ state tid ≠ some .running ∧ state tid ≠ some .runnable
  busy : ∀ c tid, spot tid = .requeued c ∨ spot tid = .repicked c → (pc c).leaving = some tid
  requeue : ∀ c tid cls, pc c = .requeue tid cls →
    spot tid = .current c ∧ state tid = some .runnable

namespace Placed

attribute [local grind =] update_apply

variable {state : Tid → Option ThreadState} {cur : Cpu → Option Tid} {queue : Cpu → List Tid}
  {pc : Cpu → Pc} {spot : Tid → Spot} {c : Cpu} {tid : Tid} {l : List Tid}

/-! ### Facts about the places -/

section

variable (h : Placed state cur queue pc spot)
include h

lemma spot_current (hpc : (pc c).leaving = none)
    (hc : cur c = some tid) : spot tid = .current c := by
  have hon := Spot.onCpu_iff.mp ((h.on_cpu c tid).mp hc)
  have hbusy := h.busy c tid
  rcases hon with hon | hon | hon
  · exact hon
  · rw [hbusy (.inl hon)] at hpc; cases hpc
  · rw [hbusy (.inr hon)] at hpc; cases hpc

lemma spot_nowhere (hst : state tid ≠ some .runnable)
    (hc : ∀ c, cur c ≠ some tid) : spot tid = .nowhere := by
  have hfits := h.fits tid
  cases hs : spot tid with
  | nowhere => rfl
  | current c => exact absurd ((h.on_cpu c tid).mpr (by simp [hs, Spot.onCpu])) (hc c)
  | queued _ | held _ | requeued _ | repicked _ =>
    exact absurd (by simpa [hs, Spot.Fits] using hfits) hst

lemma spot_held (hh : (pc c).hand = some tid)
    (hl : (pc c).leaving ≠ some tid) : spot tid = .held c := by
  rcases Spot.inHand_iff.mp ((h.in_hand c tid).mp hh) with hs | hs
  · exact hs
  · exact absurd (h.busy c tid (.inr hs)) hl

/-! ### Sections that move nothing -/

lemma setPc {p : Pc} (hpc : (pc c).still = true) (hp : p.still = true)
    (hr : ∀ x, p.reads = some x → cur c = x) : Placed state cur queue (update pc c p) spot := by
  cases h
  constructor <;> grind -ring -linarith

lemma store (hpc : (pc c).still = true) (hc : cur c = some tid) {v : Option ThreadState}
    (hv : v ≠ none) : Placed (update state tid v) cur queue pc spot := by
  have hs := h.spot_current (Pc.leaving_of_still hpc) hc
  cases h
  constructor <;> grind -ring -linarith

end

/-! ### `schedule` -/

variable {cls : SchedulerClass} {x : Option Tid}

section

variable (h : Placed state cur queue pc spot)
include h

lemma expire (hpc : pc c = .check (some tid)) :
    Placed (update state tid (some .runnable)) cur queue (update pc c (.requeue tid cls)) spot := by
  have hs := h.spot_current (c := c) (by rw [hpc]; rfl) (h.reads c (some tid) (by rw [hpc]; rfl))
  cases h
  constructor <;> grind -ring -linarith

lemma leave (hpc : pc c = .check x)
    (hx : ∀ tid, x = some tid → state tid ≠ some .running ∧ state tid ≠ some .runnable) :
    Placed state cur queue (update pc c (.pick x)) spot := by
  have hs : ∀ tid, x = some tid → spot tid = .current c := by
    rintro tid rfl
    exact h.spot_current (by rw [hpc]; rfl) (h.reads c (some tid) (by rw [hpc]; rfl))
  have hr : cur c = x := h.reads c x (by rw [hpc]; rfl)
  cases h
  constructor <;> grind -ring -linarith

lemma look (hpc : (pc c).still = true) (hc : cur c = none) :
    Placed state cur queue (update pc c (.pick none)) spot := by
  cases h
  constructor <;> grind -ring -linarith

lemma requeueCurrent (hpc : pc c = .requeue tid cls)
    (hl : l.Perm (tid :: queue c)) :
    Placed state cur (update queue c l) (update pc c (.pick (some tid)))
      (update spot tid (.requeued c)) := by
  have hs := h.requeue c tid cls hpc
  have hnot : tid ∉ queue c := by
    rw [h.in_queue, hs.1]; simp [Spot.inQueue]
  have hmem : ∀ t, t ∈ l ↔ t = tid ∨ t ∈ queue c := fun t => by rw [hl.mem_iff]; simp
  have hnd : l.Nodup := hl.nodup_iff.mpr (nodup_cons.mpr ⟨hnot, h.nodup c⟩)
  clear hl
  cases h
  constructor <;> grind -ring -linarith

lemma pickThread (hpc : pc c = .pick x)
    (hl : queue c = tid :: l) :
    Placed state cur (update queue c l) (update pc c (.switch x tid))
      (update spot tid (if x = some tid then .repicked c else .held c)) := by
  have hin : spot tid = .queued c ∨ spot tid = .requeued c :=
    Spot.inQueue_iff.mp ((h.in_queue c tid).mp (by rw [hl]; exact mem_cons_self))
  have hmem : ∀ t, t ∈ queue c ↔ t = tid ∨ t ∈ l := fun t => by rw [hl]; simp
  have hnd := nodup_cons.mp (hl ▸ h.nodup c)
  have hr : cur c = x := h.reads c x (by rw [hpc]; rfl)
  clear hl
  cases h
  split_ifs with hx <;> constructor <;> grind -ring -linarith

lemma pickNothing (hpc : pc c = .pick x) (hl : queue c = []) :
    Placed state cur queue (update pc c .user) spot := by
  have hnone : ∀ t, spot t ≠ .requeued c := by
    intro t ht
    have := (h.in_queue c t).mpr (by rw [ht]; rfl)
    rw [hl] at this
    cases this
  cases h
  constructor <;> grind -ring -linarith

lemma resume (hpc : pc c = .switch (some tid) tid) :
    Placed (update state tid (some .running)) cur queue (update pc c .user)
      (update spot tid (.current c)) := by
  have hr : cur c = some tid := h.reads c (some tid) (by rw [hpc]; rfl)
  have hs : spot tid = .repicked c := by
    have hin := Spot.inHand_iff.mp ((h.in_hand c tid).mp (by rw [hpc]; rfl))
    have hon := Spot.onCpu_iff.mp ((h.on_cpu c tid).mp hr)
    grind -ring -linarith
  cases h
  constructor <;> grind -ring -linarith

end

def offCpu (spot : Tid → Spot) (tid : Tid) : Spot :=
  match spot tid with
  | .requeued c => .queued c
  | _ => .nowhere

section

variable (h : Placed state cur queue pc spot)
include h

lemma dispatch (hpc : pc c = .switch none tid) :
    Placed (update state tid (some .running)) (update cur c (some tid)) queue
      (update pc c .user) (update spot tid (.current c)) := by
  have hr : cur c = none := h.reads c none (by rw [hpc]; rfl)
  have hs : spot tid = .held c := h.spot_held (by rw [hpc]; rfl) (by rw [hpc]; simp [Pc.leaving])
  cases h
  constructor <;> grind -ring -linarith

lemma switchTo {old : Tid}
    (hpc : pc c = .switch (some old) tid) (hne : old ≠ tid) :
    state old ≠ some .running ∧
    Placed (update state tid (some .running)) (update cur c (some tid)) queue
      (update pc c .user)
      (update (update spot old (offCpu spot old)) tid (.current c)) := by
  have hr : cur c = some old := h.reads c (some old) (by rw [hpc]; rfl)
  have hs : spot tid = .held c :=
    h.spot_held (by rw [hpc]; rfl) (by rw [hpc]; simpa [Pc.leaving] using hne)
  have hl := h.leaving c old (by rw [hpc]; rfl)
  have hrep : spot old ≠ .repicked c := by
    intro ho
    have := (h.in_hand c old).mpr (by rw [ho]; rfl)
    rw [hpc] at this
    exact hne (Option.some.inj this).symm
  have hfit := h.fits old
  have hoff : spot old = .requeued c ∧ offCpu spot old = .queued c ∨
      spot old = .current c ∧ offCpu spot old = .nowhere := by
    unfold offCpu
    grind -ring -linarith
  refine ⟨by grind -ring -linarith, ?_⟩
  have hon : (offCpu spot old).onCpu = none := by
    rcases hoff with ⟨-, ho⟩ | ⟨-, ho⟩ <;> rw [ho] <;> rfl
  generalize offCpu spot old = off at hoff hon
  obtain ⟨h1, h2, h3, h4, h5, h6, h7, h8, h9⟩ := h
  constructor
  case on_cpu =>
    intro c' t
    rcases eq_or_ne t tid with rfl | ht
    · simp only [update_self, Spot.onCpu, Option.some.injEq]
      grind -ring -linarith
    · rw [update_of_ne ht]
      rcases eq_or_ne t old with rfl | ho
      · rw [update_self, hon]
        grind -ring -linarith
      · rw [update_of_ne ho, ← h3]
        grind -ring -linarith
  all_goals rcases hoff with ⟨ho, rfl⟩ | ⟨ho, rfl⟩ <;> grind -ring -linarith

/-! ### `unblock` and the direct switches -/

lemma wake (hpc : (pc c).still = true)
    (hs : spot tid = .nowhere) (target : Cpu) (cls : SchedulerClass) :
    Placed (update state tid (some .runnable)) cur queue
      (update pc c (.enqueue target tid cls)) (update spot tid (.held c)) := by
  cases h
  constructor <;> grind -ring -linarith

lemma enqueueHeld {target : Cpu}
    (hpc : pc c = .enqueue target tid cls) (hl : l.Perm (tid :: queue target)) :
    Placed state cur (update queue target l) (update pc c .user)
      (update spot tid (.queued target)) := by
  have hs : spot tid = .held c := h.spot_held (by rw [hpc]; rfl) (by rw [hpc]; simp [Pc.leaving])
  have hnot : tid ∉ queue target := by
    rw [h.in_queue, hs]; simp [Spot.inQueue]
  have hmem : ∀ t, t ∈ l ↔ t = tid ∨ t ∈ queue target := fun t => by rw [hl.mem_iff]; simp
  have hnd : l.Nodup := hl.nodup_iff.mpr (nodup_cons.mpr ⟨hnot, h.nodup target⟩)
  clear hl
  cases h
  constructor <;> grind -ring -linarith

lemma direct (hpc : (pc c).still = true)
    (hr : ∀ x, (pc c).reads ≠ some x) {sender receiver : Tid} (hc : cur c = some sender)
    (hs : spot receiver = .nowhere) {v : ThreadState} (hv : v.isReady = false) :
    Placed
      (update (update state receiver (some .runnable)) sender (some v))
      (update cur c (some receiver)) queue pc
      (update (update spot sender .nowhere) receiver (.current c)) := by
  have hsend := h.spot_current (Pc.leaving_of_still hpc) hc
  have hv1 : v ≠ .running := by rintro rfl; cases hv
  have hv2 : v ≠ .runnable := by rintro rfl; cases hv
  cases h
  constructor <;> grind -ring -linarith

lemma reply (hpc : (pc c).still = true)
    {replier caller : Tid} (hc : cur c = some replier) (hs : spot caller = .nowhere)
    (target : Cpu) (cls : SchedulerClass) :
    Placed
      (update (update state caller (some .running)) replier (some .runnable))
      (update cur c (some caller)) queue
      (update pc c (.enqueue target replier cls))
      (update (update spot replier (.held c)) caller (.current c)) := by
  have hrep := h.spot_current (Pc.leaving_of_still hpc) hc
  cases h
  constructor <;> grind -ring -linarith

/-! ### `try_load_balance` -/

lemma reorder (hl : l.Perm (queue c)) : Placed state cur (update queue c l) pc spot := by
  have hmem : ∀ t, t ∈ l ↔ t ∈ queue c := fun t => hl.mem_iff
  have hnd : l.Nodup := hl.nodup_iff.mpr (h.nodup c)
  clear hl
  cases h
  constructor <;> grind -ring -linarith

lemma migrate {src dst : Cpu} (hne : src ≠ dst) {l l' : List Tid}
    (hsrc : (queue src).Perm (tid :: l)) (hdst : l'.Perm (tid :: queue dst))
    (hc : ∀ c, cur c ≠ some tid) :
    Placed state cur (update (update queue src l) dst l') pc (update spot tid (.queued dst)) := by
  have hs : spot tid = .queued src := by
    have hin := Spot.inQueue_iff.mp ((h.in_queue src tid).mp (hsrc.mem_iff.mpr mem_cons_self))
    rcases hin with hin | hin
    · exact hin
    · exact absurd ((h.on_cpu src tid).mpr (by rw [hin]; rfl)) (hc src)
  have hnot : tid ∉ queue dst := by
    rw [h.in_queue, hs]; simpa [Spot.inQueue] using hne
  have hmem : ∀ t, t ∈ queue src ↔ t = tid ∨ t ∈ l := fun t => by rw [hsrc.mem_iff]; simp
  have hmem' : ∀ t, t ∈ l' ↔ t = tid ∨ t ∈ queue dst := fun t => by rw [hdst.mem_iff]; simp
  have hnd := nodup_cons.mp (hsrc.nodup_iff.mp (h.nodup src))
  have hnd' : l'.Nodup := hdst.nodup_iff.mpr (nodup_cons.mpr ⟨hnot, h.nodup dst⟩)
  clear hsrc hdst
  cases h
  constructor <;> grind -ring -linarith

end

end Placed

end Aios.Sched
