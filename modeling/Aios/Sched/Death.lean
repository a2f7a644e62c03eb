import Aios.Sched.Conserve

/-!
What becomes of a thread after `process_exit` has marked it dead.

Three places of the scheduler store a state without looking at the old one: `unblock` for any
thread that is not ready, `thread_yield`, `block_current` and the direct switches for the current
thread, and `schedule` for the thread it picked. A dead thread stays dead as long as none of them
gets hold of it.
-/

namespace Aios.Sched

open Aios.Lib Function Option List

def Pc.target : Pc → Option Tid
  | .yieldStore cur | .blockStore cur _ => cur
  | .requeue tid _ | .switch _ tid | .enqueue _ tid _ => some tid
  | _ => none

namespace RunQueue

variable {q : RunQueue} {tid t : Tid}

lemma mem_pushBack {l : List Tid} (h : t ∈ pushBack l tid) : t = tid ∨ t ∈ l := by
  unfold pushBack at h
  split_ifs at h
  · rw [mem_append, mem_singleton] at h
    exact h.symm
  · exact .inr h

lemma mem_enqueue {cls : SchedulerClass} (h : t ∈ (q.enqueue tid cls).all) :
    t = tid ∨ t ∈ q.all := by
  have hpush : ∀ l, t ∈ pushBack l tid → t = tid ∨ t ∈ l := fun l => mem_pushBack
  cases cls <;> simp only [enqueue, all, mem_append] at h ⊢ <;> grind

end RunQueue

namespace Sys

variable {s s' : Sys} {tid : Tid}

/-- The steps that do not touch the dead. A process exits when none of its threads is queued or in
the middle of a store; no dead thread is woken; and a dead thread that is still current does not
yield, block, call or reply. -/
def SparesDead (s : Sys) : Act → Prop
  | .yield c | .block c _ | .directSwitch c _ _ | .replySwitch c _ _ =>
    ∀ tid ∈ s.current c, s.stateOf tid ≠ some .dead
  | .unblock _ tid => s.stateOf tid ≠ some .dead
  | .processExit _ pid => ∀ tid th, s.threads tid = some th → th.ownerPid = some pid →
      ∀ k, tid ∉ s.queued k ∧ (s.pc k).target ≠ some tid
  | _ => True

structure Buried (s : Sys) (tid : Tid) : Prop where
  dead : s.stateOf tid = some .dead
  not_queued : ∀ k, tid ∉ s.queued k
  not_target : ∀ k, (s.pc k).target ≠ some tid

/-! ### The sections -/

lemma buried_iff : s.Buried tid ↔ (∃ th, s.threads tid = some th ∧ th.state = .dead) ∧
    (∀ k, tid ∉ (s.queues k).all) ∧ ∀ k, (s.pc k).target ≠ some tid :=
  ⟨fun h => ⟨map_eq_some_iff.mp h.dead, h.not_queued, h.not_target⟩,
    fun h => ⟨map_eq_some_iff.mpr h.1, h.2.1, h.2.2⟩⟩

lemma Buried.setPc (h : s.Buried tid) (c : Cpu) {p : Pc} (hp : p.target ≠ some tid) :
    (s.setPc c p).Buried tid := by
  refine ⟨h.dead, h.not_queued, ?_⟩
  have hk := h.not_target
  simp only [Sys.setPc, update_apply]
  grind

lemma Buried.setQueue (h : s.Buried tid) (c : Cpu) {q : RunQueue} (hq : tid ∉ q.all) :
    (s.setQueue c q).Buried tid := by
  refine ⟨h.dead, ?_, h.not_target⟩
  have hk := h.not_queued
  simp only [queued, Sys.setQueue, update_apply] at hk ⊢
  grind

lemma Buried.check (h : s.Buried tid) (c : Cpu) (cur : Option Tid) :
    (s.check c cur).Buried tid := by
  obtain ⟨⟨th, hth, hd⟩, hq, ht⟩ := buried_iff.mp h
  rw [buried_iff]
  simp only [Sys.check, Sys.setPc, Sys.modify]
  -- the thread whose slice is used up is running, so it is another one
  repeat' split
  all_goals grind [Pc.target, update_apply]

variable {c : Cpu} {cur : Option Tid}

section

variable (h : s.Buried tid)
include h

lemma Buried.switch {next : Tid} (hpc : s.pc c = .switch cur next) :
    (s.switch c cur next).Buried tid := by
  obtain ⟨⟨th, hth, hd⟩, hq, ht⟩ := buried_iff.mp h
  have hne := ht c
  rw [buried_iff]
  -- the thread that leaves is changed only if it is running
  cases cur <;>
    simp only [Sys.switch, Sys.setPc, Sys.setCurrent, Sys.modify, Sys.modifyCur, Option.elim]
  all_goals
    repeat' split
    all_goals grind [Pc.target, update_apply]

lemma Buried.unblock (c : Cpu) {t : Tid} (ht : s.stateOf t ≠ some .dead) :
    (s.unblock c t).Buried tid := by
  have hne : tid ≠ t := fun he => ht (he ▸ h.dead)
  obtain ⟨⟨th, hth, hd⟩, hq, ht⟩ := buried_iff.mp h
  rw [buried_iff]
  simp only [Sys.unblock, Sys.setPc, Sys.modify]
  repeat' split
  all_goals grind [Pc.target, update_apply]

lemma Buried.directSwitch (cpu : Cpu) {sender : Tid} (receiver : Tid)
    (hsender : s.stateOf sender ≠ some .dead) :
    (s.directSwitch cpu sender receiver).Buried tid := by
  have hne : tid ≠ sender := fun he => hsender (he ▸ h.dead)
  obtain ⟨⟨th, hth, hd⟩, hq, ht⟩ := buried_iff.mp h
  rw [buried_iff]
  simp only [Sys.directSwitch, Sys.setCurrent, Sys.modify]
  -- a thread that waits for a channel is not the dead one
  repeat' split
  all_goals grind [ThreadState.isBlockedIpc, update_apply]

lemma Buried.replySwitch (c cpu : Cpu) {replier : Tid} (caller : Tid)
    (hreplier : s.stateOf replier ≠ some .dead) :
    (s.replySwitch c cpu replier caller).Buried tid := by
  have hne : tid ≠ replier := fun he => hreplier (he ▸ h.dead)
  obtain ⟨⟨th, hth, hd⟩, hq, ht⟩ := buried_iff.mp h
  rw [buried_iff]
  simp only [Sys.replySwitch, Sys.setPc, Sys.setCurrent, Sys.modify]
  repeat' split
  all_goals grind [ThreadState.isBlockedIpc, Pc.target, update_apply]

lemma Buried.loadBalance (src dst : Cpu) : (s.loadBalance src dst).Buried tid := by
  obtain ⟨hd, hq, ht⟩ := buried_iff.mp h
  have hsrc := hq src
  have hdst := hq dst
  rw [buried_iff]
  unfold Sys.loadBalance
  repeat' split
  all_goals
    refine ⟨hd, ?_, ht⟩
    simp only [Sys.setQueue, update_apply, RunQueue.all, mem_append] at *
    grind [RunQueue.mem_pushBack]

lemma Buried.markDead (pid : ProcessId) : (s.markDead pid).Buried tid := by
  obtain ⟨⟨th, hth, hd⟩, hq, ht⟩ := buried_iff.mp h
  rw [buried_iff]
  simp only [Sys.markDead, hth]
  grind

lemma Buried.modifyCur {f : Thread → Thread}
    (hf : cur = some tid → ∀ th, th.state = .dead → (f th).state = .dead) :
    (s.modifyCur cur f).Buried tid := by
  obtain ⟨⟨th, hth, hd⟩, hq, ht⟩ := buried_iff.mp h
  rw [buried_iff]
  cases cur <;> simp only [Sys.modifyCur, Option.elim, Sys.modify, update_apply] <;> grind

lemma Buried.run (hs : s.run c = some s') : s'.Buried tid := by
  have htarget := h.not_target c
  have hqueue : ∀ k t cls, t ≠ tid → tid ∉ ((s.queues k).enqueue t cls).all := fun k t _ hne hin =>
    (RunQueue.mem_enqueue hin).elim (fun he => hne he.symm) (h.not_queued k)
  unfold Sys.run at hs
  cases hpc : s.pc c <;> simp only [hpc, Option.some.injEq, reduceCtorEq, Pc.target] at hs htarget
  case yieldStore | blockStore =>
    exact hs ▸ (h.modifyCur fun he => absurd he htarget).setPc c (by simp [Pc.target])
  case schedule => exact hs ▸ h.setPc c (by simp [Pc.target])
  case check cur => exact hs ▸ h.check c cur
  case requeue t cls =>
    exact hs ▸ (h.setQueue c (hqueue c t cls (by simpa using htarget))).setPc c
      (by simp [Pc.target])
  case pick cur =>
    split at hs <;> cases hs
    · exact h.setPc c (by simp [Pc.target])
    · rename_i t q hq
      have hnot := h.not_queued c
      rw [queued, RunQueue.pickNext_some hq, mem_cons, not_or] at hnot
      exact (h.setQueue c hnot.2).setPc c (by simpa [Pc.target] using Ne.symm hnot.1)
  case switch cur next => exact hs ▸ h.switch hpc
  case enqueue target t cls =>
    exact hs ▸ (h.setQueue target (hqueue target t cls (by simpa using htarget))).setPc c
      (by simp [Pc.target])

/-- **A step that spares the dead keeps them buried.** -/
lemma Buried.next {a : Act} (hok : s.SparesDead a) (hs : s.next a = some s') : s'.Buried tid := by
  have hcur : ∀ c, (∀ t ∈ s.current c, s.stateOf t ≠ some .dead) → s.current c ≠ some tid :=
    fun c hc he => hc tid he h.dead
  unfold Sys.next at hs
  split_ifs at hs
  cases a with
  | yield c =>
    cases hs
    exact h.setPc c (hcur c hok)
  | block c state =>
    dsimp only at hs
    split_ifs at hs
    cases hs
    exact h.setPc c (hcur c hok)
  | preempt c =>
    cases hs
    exact h.setPc c (by simp [Pc.target])
  | tick c =>
    cases hs
    exact h.modifyCur fun _ _ hd => hd
  | unblock c t =>
    cases hs
    exact h.unblock c hok
  | directSwitch c cpu receiver =>
    obtain ⟨sender, hc, rfl⟩ := map_eq_some_iff.mp hs
    exact h.directSwitch cpu receiver (hok sender hc)
  | replySwitch c cpu caller =>
    obtain ⟨replier, hc, rfl⟩ := map_eq_some_iff.mp hs
    exact h.replySwitch c cpu caller (hok replier hc)
  | loadBalance src dst =>
    dsimp only at hs
    split_ifs at hs
    cases hs
    exact h.loadBalance src dst
  | enter c =>
    dsimp only at hs
    split_ifs at hs
    cases hs
    exact h.setPc c (by simp [Pc.target])
  | processExit c pid =>
    cases hs
    exact h.markDead pid
  | run c => exact h.run hs

end

lemma buried_of_processExit {pid : ProcessId} (hok : s.SparesDead (.processExit c pid))
    (hs : s.next (.processExit c pid) = some s') {th : Thread} (hth : s.threads tid = some th)
    (hown : th.ownerPid = some pid) : s'.Buried tid := by
  unfold Sys.next at hs
  split_ifs at hs
  cases hs
  have hloose := hok tid th hth hown
  exact ⟨by simp [stateOf, markDead, hth, hown], fun k => (hloose k).1, fun k => (hloose k).2⟩

/-! ### Every run -/

/-- **Death is final.** A thread that `process_exit` marks dead is dead in every state reached by
steps that spare the dead, and no CPU picks it: it is in no queue and in no CPU's hands. -/
theorem dead_stays_dead {s₀ s₁ s : Sys} {c : Cpu} {pid : ProcessId}
    (hok : s₀.SparesDead (.processExit c pid)) (hexit : s₀.next (.processExit c pid) = some s₁)
    {tid : Tid} {th : Thread} (hth : s₀.threads tid = some th) (hown : th.ownerPid = some pid)
    (hrun : Runs (fun a i b => a.next i = some b) SparesDead s₁ s) :
    s.stateOf tid = some .dead ∧ ∀ k, tid ∉ s.queued k ∧ (s.pc k).hand ≠ some tid := by
  have hbur : s.Buried tid :=
    Runs.inv (Buried · tid) (buried_of_processExit hok hexit hth hown)
      (fun _ _ _ h hok' hs => h.next hok' hs) hrun
  refine ⟨hbur.dead, fun k => ⟨hbur.not_queued k, fun hh => hbur.not_target k ?_⟩⟩
  cases hpc : s.pc k <;> simp_all [Pc.hand, Pc.target]

open Classical in
noncomputable instance (s : Sys) (a : Act) : Decidable (s.SparesDead a) :=
  match a with
  | .yield c | .block c _ | .directSwitch c _ _ | .replySwitch c _ _ =>
    inferInstanceAs (Decidable (∀ tid ∈ s.current c, s.stateOf tid ≠ some .dead))
  | .unblock _ tid => inferInstanceAs (Decidable (s.stateOf tid ≠ some .dead))
  | .processExit _ _ => Classical.propDecidable _
  | .preempt _ | .tick _ | .loadBalance _ _ | .enter _ | .run _ => isTrue trivial

def exitingProcess : Sys where
  online := 1
  threads tid :=
    if tid = 0 then some (normalThread .running)
    else if tid = 1 then some (normalThread (.blockedIpc 5))
    else if tid = 2 then some { normalThread .runnable with ownerPid := some 2 }
    else none
  current c := if c = 0 then some 0 else none
  queues c := if c = 0 then ⟨[], [], [2], []⟩ else .empty
  pc _ := .user

lemma exitingProcess_spares : exitingProcess.SparesDead (.processExit 0 1) := by
  intro tid th hth hown k
  have hne : tid ≠ 2 := by
    rintro rfl
    cases hth
    cases hown
  refine ⟨?_, by simp [exitingProcess, Pc.target]⟩
  by_cases hk : k = 0
  · subst hk
    simpa [queued, exitingProcess, RunQueue.all] using hne
  · simp [queued, exitingProcess, hk, RunQueue.all, RunQueue.empty]

theorem dead_stays_dead_preempted : ∃ s,
    Runs.exec SparesDead next (exitingProcess.markDead 1) [.preempt 0, .run 0, .run 0, .run 0,
      .run 0] = some s ∧ s.current 0 = some 2 ∧ s.stateOf 0 = some .dead := by
  obtain ⟨s, hs, h⟩ := (any_eq_true _ _).mp
    (show ((Runs.exec SparesDead next (exitingProcess.markDead 1) [.preempt 0, .run 0, .run 0,
      .run 0, .run 0]).any fun s => s.current 0 == some 2) = true by decide +kernel)
  exact ⟨s, hs, beq_iff_eq.mp h, (dead_stays_dead (c := 0) exitingProcess_spares rfl rfl rfl
    (Runs.of_exec hs)).1⟩

/-- **The exit wakes its own dead.** After process 1 exits, the wake that `process_exit` makes for
its own blocked thread 1 makes that thread runnable again, and `schedule` runs the queued thread
2, which is dead as well. -/
theorem dead_wakes :
    ∃ s₀ s₁ s, Runs (fun a i b => a.next i = some b) (fun _ _ => True) threeThreads s₀ ∧
    s₀.next (.processExit 0 1) = some s₁ ∧ s₁.stateOf 1 = some .dead ∧ s₁.stateOf 2 = some .dead ∧
    Runs (fun a i b => a.next i = some b) (fun _ _ => True) s₁ s ∧ s.stateOf 1 = some .runnable ∧
    s.stateOf 2 = some .running ∧ s.current 0 = some 2 := by
  obtain ⟨s₀, hs₀, h⟩ := (any_eq_true _ _).mp
    (show ((Runs.exec (fun _ _ => True) next threeThreads [.enter 0, .run 0, .run 0]).any
      fun s₀ => (s₀.next (.processExit 0 1)).any fun s₁ =>
        s₁.stateOf 1 == some .dead && s₁.stateOf 2 == some .dead &&
        (Runs.exec (fun _ _ => True) next s₁ [.unblock 0 1, .run 0, .preempt 0, .run 0, .run 0,
          .run 0, .run 0]).any fun s =>
            s.stateOf 1 == some .runnable && s.stateOf 2 == some .running &&
              s.current 0 == some 2) = true by decide +kernel)
  obtain ⟨s₁, hs₁, h⟩ := (any_eq_true _ _).mp h
  simp only [Bool.and_eq_true, beq_iff_eq] at h
  obtain ⟨s, hs, h'⟩ := (any_eq_true _ _).mp h.2
  simp only [Bool.and_eq_true, beq_iff_eq] at h'
  exact ⟨s₀, s₁, s, Runs.of_exec hs₀, hs₁, h.1.1, h.1.2, Runs.of_exec hs, h'.1.1, h'.1.2, h'.2⟩

end Sys

end Aios.Sched
