import Aios.Ipc.Errors
import Aios.Sched.Machine

/-!
Priority inheritance, `kernel/src/ipc/direct.rs`, over the machine of `Ipc.Errors`.

`try_direct_switch` lends the receiver the class and the priority of the caller, and
`try_reply_switch` gives the replier its own ones back. Each is one section under the lock of the
thread table that switches exactly when the other thread is blocked; otherwise the operation falls
back to an `unblock`, which is a section of its own. Time slices and run queues are left out.

`owed` records the channels with a request for which a thread was switched to directly and that it
has not replied to yet. A channel has one pending caller, so an `ipc_reply` on it settles what was
received there, also one that is refused because the call has timed out or was cancelled. Nothing
reads `owed`.
-/

namespace Aios.Ipc.Inherit

open Aios.Lib Function Option
open Sched (SchedulerClass)
open Errors (Tid Cid)

def maxInheritanceDepth : ℕ := 8

/-- The fields of `SchedEntity` that the switches read or write, and `inheritance_depth`. -/
structure SchedEntity where
  cls : SchedulerClass
  priority : ℕ
  deadline : Option ℕ
  effectiveClass : SchedulerClass
  effectivePriority : ℕ
  inheritedClass : Option SchedulerClass
  inheritedPriority : Option ℕ
  inheritedDeadline : Option ℕ
  inheritanceDepth : ℕ

namespace SchedEntity

def new (cls : SchedulerClass) (priority : ℕ) (deadline : Option ℕ) : SchedEntity :=
  ⟨cls, priority, deadline, cls, priority, none, none, none, 0⟩

/-- What `try_direct_switch` does to the receiver. -/
def inherit (receiver sender : SchedEntity) : SchedEntity :=
  let elevated := receiver.cls.rank < sender.effectiveClass.rank
  { receiver with
    inheritedClass := some sender.effectiveClass
    inheritedPriority := some sender.effectivePriority
    inheritedDeadline := sender.deadline
    effectiveClass := if elevated then sender.effectiveClass else receiver.effectiveClass
    effectivePriority := if elevated then sender.effectivePriority else receiver.effectivePriority
    inheritanceDepth := min (sender.inheritanceDepth + 1) maxInheritanceDepth }

/-- What `try_reply_switch` does to the replier. -/
def restore (replier : SchedEntity) : SchedEntity :=
  { replier with
    effectiveClass := replier.cls
    effectivePriority := replier.priority
    inheritedClass := none
    inheritedPriority := none
    inheritedDeadline := none
    inheritanceDepth := replier.inheritanceDepth - 1 }

def AtBase (e : SchedEntity) : Prop :=
  e.effectiveClass = e.cls ∧ e.effectivePriority = e.priority ∧ e.inheritanceDepth = 0

lemma atBase_new (cls : SchedulerClass) (priority : ℕ) (deadline : Option ℕ) :
    (new cls priority deadline).AtBase := ⟨rfl, rfl, rfl⟩

lemma atBase_restore {e : SchedEntity} : e.restore.AtBase ↔ e.inheritanceDepth ≤ 1 := by
  simp only [AtBase, restore, true_and]
  omega

end SchedEntity

structure Sys where
  ipc : Errors.Sys
  sched : Tid → SchedEntity
  /-- The switch that the thread tried has failed, and its `unblock` comes next. -/
  fellBack : Tid → Bool
  /-- The call that the thread is in the middle of replying to. -/
  replying : Tid → Option (Cid × Tid)
  owed : Tid → List Cid

namespace Sys

abbrev Act := Errors.Sys.Act

def boot (rings : Cid → Option (MessageRing RawMessage)) (threads : Tid → SchedulerClass × ℕ) :
    Sys where
  ipc := .boot rings
  sched t := .new (threads t).1 (threads t).2 none
  fellBack _ := false
  replying _ := none
  owed _ := []

/-- `try_direct_switch` from `t` to the receiver, or the `unblock` after it has failed. -/
def directSwitch (s : Sys) (t : Tid) (c : Cid) (receiver : Tid) (busy : Bool) : Option Sys :=
  if s.fellBack t then
    (s.ipc.run t busy false).map fun ipc =>
      { s with ipc := ipc, fellBack := update s.fellBack t false }
  else if s.ipc.blocked receiver then
    (s.ipc.run t busy true).map fun ipc =>
      { s with
        ipc := ipc
        sched := update s.sched receiver ((s.sched receiver).inherit (s.sched t))
        owed := update s.owed receiver (c :: s.owed receiver) }
  else some { s with fellBack := update s.fellBack t true }

def settled (s : Sys) (t : Tid) (c : Cid) : List Cid := (s.owed t).filter (· ≠ c)

def replied (s : Sys) (t : Tid) (c : Cid) (ipc : Errors.Sys) : Sys :=
  { s with
    ipc := ipc
    fellBack := update s.fellBack t false
    replying := update s.replying t none
    owed := update s.owed t (s.settled t c) }

/-- `ipc_reply` finds no caller: the call has ended, or the channel is gone. -/
def refuses (s : Sys) (c : Cid) (buf : List UInt8) : Bool :=
  decide (buf.length ≤ maxMessageSize) &&
    ((s.ipc.channels c).bind (·.pendingCaller)).isNone

/-- `try_reply_switch` from `t` to the caller, or the `unblock` after it has failed. -/
def replySwitch (s : Sys) (t : Tid) (c : Cid) (caller : Tid) (busy : Bool) : Option Sys :=
  if s.fellBack t then (s.ipc.run t busy false).map (s.replied t c)
  else if s.ipc.blocked caller then
    (s.ipc.run t busy false).map fun ipc =>
      { s.replied t c ipc with
        sched := update s.sched t (s.sched t).restore }
  else some { s with fellBack := update s.fellBack t true }

def plain (s : Sys) (a : Act) : Option Sys := (s.ipc.next a).map fun ipc => { s with ipc := ipc }

def beginsReply (c : Cid) : Errors.Pc → Option (Cid × Tid)
  | .waking (.clearTimeout caller :: _) => some (c, caller)
  | _ => none

def next (s : Sys) : Act → Option Sys
  | .reply t c buf =>
    (s.plain (.reply t c buf)).map fun s' =>
      { s' with
        replying := update s.replying t (beginsReply c (s'.ipc.pc t))
        owed := if s.refuses c buf then update s.owed t (s.settled t c) else s.owed }
  | .run t busy direct =>
    if s.ipc.blocked t then none
    else
      match s.ipc.pc t, s.replying t with
      | .callSwitch c receiver, _ => s.directSwitch t c receiver busy
      | .waking [.unblock _], some (c, caller) => s.replySwitch t c caller busy
      | _, _ => s.plain (.run t busy direct)
  | a => s.plain a

abbrev Step (s : Sys) (a : Act) (s' : Sys) : Prop := s.next a = some s'

def Undone (s : Sys) : Prop := ∀ t, s.owed t = [] → (s.sched t).AtBase

/-- The reply that settles the last request of a thread is made by a switch, out of the first level
of inheritance, or finds the thread with its own class, priority and depth 0. -/
def Restores (s : Sys) : Act → Prop
  | .reply t c buf => s.refuses c buf = true → s.settled t c = [] → (s.sched t).AtBase
  | .run t _ _ =>
    match s.ipc.pc t, s.replying t with
    | .waking [.unblock _], some (c, caller) => s.settled t c = [] →
        (s.fellBack t = true → (s.sched t).AtBase) ∧
        (s.fellBack t = false → s.ipc.blocked caller = true → (s.sched t).inheritanceDepth ≤ 1)
    | _, _ => True
  | _ => True

instance (e : SchedEntity) : Decidable e.AtBase := inferInstanceAs (Decidable (_ ∧ _ ∧ _))

instance (s : Sys) (a : Act) : Decidable (s.Restores a) := by
  unfold Restores
  split
  · infer_instance
  · split <;> infer_instance
  · infer_instance

variable {s s' : Sys} {a : Act}

lemma undone_plain (h : s.plain a = some s') : s'.Undone ↔ s.Undone := by
  obtain ⟨ipc, -, rfl⟩ := map_eq_some_iff.mp h
  exact Iff.rfl

lemma Undone.directSwitch (h : s.Undone) {t receiver : Tid} {c : Cid} {busy : Bool}
    (hs : s.directSwitch t c receiver busy = some s') : s'.Undone := by
  unfold Sys.directSwitch at hs
  split_ifs at hs
  · obtain ⟨ipc, -, rfl⟩ := map_eq_some_iff.mp hs
    exact h
  · obtain ⟨ipc, -, rfl⟩ := map_eq_some_iff.mp hs
    intro u hu
    dsimp only at hu ⊢
    by_cases hur : u = receiver
    · rw [hur, update_self] at hu
      cases hu
    · rw [update_of_ne hur] at hu ⊢
      exact h u hu
  · cases hs
    exact h

lemma Undone.replied (h : s.Undone) {t : Tid} {c : Cid} {e : SchedEntity}
    (hs : s'.sched = update s.sched t e) (ho : s'.owed = update s.owed t (s.settled t c)) :
    s'.Undone ↔ (s.settled t c = [] → e.AtBase) := by
  unfold Undone
  rw [hs, ho]
  constructor
  · intro hall hnil
    simpa using hall t (by simpa using hnil)
  · intro hself u hu
    by_cases hut : u = t
    · rw [hut, update_self] at hu ⊢
      exact hself hu
    · rw [update_of_ne hut] at hu ⊢
      exact h u hu

lemma Undone.replySwitch (h : s.Undone) {t caller : Tid} {c : Cid} {busy : Bool}
    (hs : s.replySwitch t c caller busy = some s') : s'.Undone ↔
      (s.settled t c = [] → (s.fellBack t = true → (s.sched t).AtBase) ∧
        (s.fellBack t = false → s.ipc.blocked caller = true →
          (s.sched t).inheritanceDepth ≤ 1)) := by
  unfold Sys.replySwitch at hs
  split_ifs at hs with hfell hblocked
  · obtain ⟨ipc, -, rfl⟩ := map_eq_some_iff.mp hs
    have hiff : (s.replied t c ipc).Undone ↔ _ := h.replied (update_eq_self t s.sched).symm rfl
    simp [hiff, hfell]
  · obtain ⟨ipc, -, rfl⟩ := map_eq_some_iff.mp hs
    refine (h.replied rfl rfl).trans ?_
    simp [hfell, hblocked, SchedEntity.atBase_restore]
  · cases hs
    exact iff_of_true h fun _ => ⟨fun hf => absurd hf hfell, fun _ hb => absurd hb hblocked⟩

lemma undone_step_iff (h : s.Undone) (hs : s.Step a s') : s'.Undone ↔ s.Restores a := by
  cases a with
  | reply t c buf =>
    obtain ⟨s1, hp, rfl⟩ := map_eq_some_iff.mp hs
    obtain ⟨ipc, -, rfl⟩ := map_eq_some_iff.mp hp
    show _ ↔ (s.refuses c buf = true → s.settled t c = [] → (s.sched t).AtBase)
    by_cases hr : s.refuses c buf = true
    · rw [if_pos hr]
      refine Iff.trans (h.replied (update_eq_self t s.sched).symm rfl) ?_
      simp [hr]
    · refine iff_of_true (fun u hu => h u ?_) fun hr' => absurd hr' hr
      rwa [if_neg hr] at hu
  | run t busy direct =>
    unfold Step Sys.next at hs
    dsimp only at hs
    split_ifs at hs with hblocked
    unfold Restores
    split at hs
    · next c receiver hpc =>
      simp only [hpc]
      exact iff_of_true (h.directSwitch hs) trivial
    · next w c caller hpc hreply =>
      simp only [hpc, hreply]
      exact h.replySwitch hs
    · next hno =>
      refine iff_of_true ((undone_plain hs).mpr h) ?_
      dsimp only
      split
      · next hpc hreply => exact absurd hreply (hno _ _ _ hpc)
      · trivial
  | _ => exact iff_of_true ((undone_plain hs).mpr h) trivial

end Sys

/-! ### Runs -/

def quiet : Sys :=
  .boot (fun _ => some .new) fun t => if t = 1 then (.interactive, 200) else (.normal, 128)

def sectionsOf (t : Tid) (n : ℕ) : List Sys.Act := List.replicate n (.run t false false)

def waits (t : Tid) (c : Cid) : List Sys.Act := .recv t c 9 :: sectionsOf t 2

def calls (t : Tid) (c : Cid) (server : Tid) : List Sys.Act :=
  .call t c [] 1 false :: sectionsOf t 2 ++ sectionsOf server 4

def served : List Sys.Act := waits 2 0 ++ calls 1 0 2 ++ [.reply 2 0 []] ++ sectionsOf 2 2

def replyTooLate : List Sys.Act :=
  waits 2 0 ++ calls 1 0 2 ++ [.tick, .checkTimeouts 0, .irq 0 false, .irq 0 false, .irq 0 false] ++
    [.reply 2 0 []] ++ sectionsOf 2 3

def callsOn : List Sys.Act :=
  waits 2 0 ++ waits 3 1 ++ calls 1 0 2 ++ calls 2 1 3 ++ [.reply 3 1 []] ++ sectionsOf 3 2

def replyRefused : List Sys.Act :=
  waits 2 0 ++ calls 1 0 2 ++ [.tick, .checkTimeouts 0, .irq 0 false, .irq 0 false, .irq 0 false] ++
    sectionsOf 1 3 ++ [.reply 2 0 []]

end Aios.Ipc.Inherit
