import Aios.Sched.Places

/-!
Conservation of threads in every run of the scheduler.
-/

namespace Aios.Sched

open Aios.Lib Option Function

namespace Sys

/-! ### What the lemmas on places are about -/

def stateOf (s : Sys) (tid : Tid) : Option ThreadState := (s.threads tid).map (·.state)

def queued (s : Sys) (c : Cpu) : List Tid := (s.queues c).all

variable {s s' : Sys} {c : Cpu} {tid : Tid}

lemma stateOf_modify (s : Sys) (tid : Tid) (f : Thread → Thread) : (s.modify tid f).stateOf =
    update s.stateOf tid ((s.threads tid).map fun th => (f th).state) := by
  funext t
  rcases eq_or_ne t tid with rfl | ht
  · simp [stateOf, modify, comp_def]
  · simp [stateOf, modify, ht]

variable {spot : Tid → Spot} {cur : Option Tid} {th : Thread} {cpu : Cpu} {cls : SchedulerClass}

lemma stateOf_modify_some (h : s.threads tid = some th) (f : Thread → Thread) :
    (s.modify tid f).stateOf = update s.stateOf tid (some (f th).state) := by
  rw [stateOf_modify, h, map_some]

lemma queued_setQueue (s : Sys) (c : Cpu) (q : RunQueue) :
    (s.setQueue c q).queued = update s.queued c q.all := by
  funext k
  rcases eq_or_ne k c with rfl | hk
  · simp [queued, setQueue]
  · simp [queued, setQueue, hk]

lemma modifyCur_pc (s : Sys) (cur : Option Tid) (f : Thread → Thread) :
    (s.modifyCur cur f).pc = s.pc := by
  cases cur <;> rfl

structure Conserved (s : Sys) : Prop where
  placed : ∃ spot, Placed s.stateOf s.current s.queued s.pc spot
  online : ∀ k tid, s.current k = some tid → k < s.online

lemma conserved_of {state : Tid → Option ThreadState} {queue : Cpu → List Tid}
    (hp : Placed state s.current queue s.pc spot) (hstate : s.stateOf = state)
    (hqueue : s.queued = queue) (honline : ∀ k tid, s.current k = some tid → k < s.online) :
    s.Conserved :=
  ⟨⟨spot, hstate ▸ hqueue ▸ hp⟩, honline⟩

lemma Conserved.not_current (h : s.Conserved) (hk : ∀ k < s.online, s.current k ≠ some tid) :
    ∀ k, s.current k ≠ some tid := fun k hc => hk k (h.online k tid hc) hc

lemma Conserved.thread (h : s.Conserved) (hc : s.current c = some tid) :
    ∃ th, s.threads tid = some th := by
  obtain ⟨spot, hp⟩ := h.placed
  have hfits := hp.fits tid
  have hon := Spot.onCpu_iff.mp ((hp.on_cpu c tid).mp hc)
  cases hth : s.threads tid with
  | some th => exact ⟨th, rfl⟩
  | none => rcases hon with hs | hs | hs <;> simp [hs, stateOf, hth, Spot.Fits] at hfits

/-! ### The condition -/

/-- The steps that are safe. `schedule` does not meet a runnable current thread (a receiver of a
direct switch that has neither yielded nor blocked since); a blocked thread is woken, switched to
or migrated only when no CPU has it as current any more; a direct switch runs on the CPU whose
index it read. A process whose threads are marked dead has none left alive. -/
def Calm (s : Sys) : Act → Prop
  | .run c => ∀ tid, s.pc c = .check (some tid) → s.stateOf tid ≠ some .runnable
  | .unblock _ tid => (∀ k < s.online, s.current k ≠ some tid) ∨
      (s.stateOf tid).all (·.isReady) = true
  | .directSwitch c cpu tid | .replySwitch c cpu tid =>
    cpu = c ∧ (∀ k < s.online, s.current k ≠ some tid) ∨
      (s.stateOf tid).any (·.isBlockedIpc) = false
  | .loadBalance src dst => ∀ tid ∈ (s.queues src).normal.head?,
      ((s.threads tid).any fun th => th.affinity.contains dst) = true →
        ∀ k < s.online, s.current k ≠ some tid
  | .processExit _ pid => ∀ tid,
      (s.threads tid).all (fun th => decide (th.ownerPid = some pid → th.state = .dead)) = true
  | _ => True

instance (s : Sys) (a : Act) : Decidable (s.Calm a) := by
  cases a <;> unfold Calm <;> infer_instance

/-! ### The sections -/

lemma markDead_eq {pid : ProcessId} (hcalm : s.Calm (.processExit c pid)) : s.markDead pid = s := by
  have hth : ∀ tid, ((s.threads tid).map fun th =>
      if th.ownerPid = some pid then { th with state := .dead } else th) = s.threads tid := by
    intro tid
    have hdead := hcalm tid
    cases hth : s.threads tid with
    | none => rfl
    | some th =>
      rw [hth, all_some, decide_eq_true_iff] at hdead
      rw [map_some]
      split_ifs with hown
      · rw [← hdead hown]
      · rfl
  rw [markDead, funext hth]

section

variable (h : s.Conserved)
include h

lemma Conserved.setPc {p : Pc} (hpc : (s.pc c).still = true) (hp : p.still = true)
    (hr : ∀ x, p.reads = some x → s.current c = x) : (s.setPc c p).Conserved := by
  obtain ⟨spot, hs⟩ := h.placed
  exact ⟨⟨spot, hs.setPc hpc hp hr⟩, h.online⟩

lemma Conserved.modifyCur (hpc : (s.pc c).still = true) (f : Thread → Thread) :
    (s.modifyCur (s.current c) f).Conserved := by
  cases hc : s.current c with
  | none => exact h
  | some tid =>
    obtain ⟨th, hth⟩ := h.thread hc
    obtain ⟨spot, hs⟩ := h.placed
    exact conserved_of (hs.store hpc hc (by simp)) (stateOf_modify_some hth f) rfl h.online

lemma Conserved.check (hpc : s.pc c = .check cur) (hcalm : s.Calm (.run c)) :
    (s.check c cur).Conserved := by
  obtain ⟨spot, hs⟩ := h.placed
  have hcur : s.current c = cur := hs.reads c cur (by rw [hpc]; rfl)
  cases cur with
  | none => exact ⟨⟨spot, hs.leave hpc (by simp)⟩, h.online⟩
  | some tid =>
    obtain ⟨th, hth⟩ := h.thread hcur
    have hst : s.stateOf tid = some th.state := by simp [stateOf, hth]
    have hready : s.stateOf tid ≠ some .runnable := hcalm tid hpc
    simp only [Sys.check, hth]
    split_ifs with hexp hrun
    · -- the slice is used up
      exact conserved_of (hs.expire hpc) (stateOf_modify_some hth _) rfl h.online
    · exact h.setPc (by rw [hpc]; rfl) rfl (by simp [Pc.reads])
    · refine ⟨⟨spot, hs.leave hpc ?_⟩, h.online⟩
      rintro t ⟨⟩
      exact ⟨by rw [hst]; simpa using hrun, hready⟩

lemma Conserved.requeue (hpc : s.pc c = .requeue tid cls) :
    ((s.setQueue c ((s.queues c).enqueue tid cls)).setPc c (.pick (some tid))).Conserved := by
  obtain ⟨spot, hs⟩ := h.placed
  have hnot : tid ∉ s.queued c := by
    rw [hs.in_queue, (hs.requeue c tid cls hpc).1]; simp [Spot.inQueue]
  have hroom : (s.queues c).all.length < maxThreads := RunQueue.room (hs.nodup c) hnot
  exact conserved_of (hs.requeueCurrent hpc (RunQueue.enqueue_perm cls hroom)) rfl
    (queued_setQueue s c _) h.online

lemma Conserved.pick (hpc : s.pc c = .pick cur) (hs' : s.run c = some s') : s'.Conserved := by
  obtain ⟨spot, hs⟩ := h.placed
  simp only [run, hpc] at hs'
  cases hq : (s.queues c).pickNext with
  | none =>
    simp only [hq, Option.some.injEq] at hs'
    subst hs'
    exact ⟨⟨spot, hs.pickNothing hpc (RunQueue.pickNext_none hq)⟩, h.online⟩
  | some r =>
    obtain ⟨tid, q⟩ := r
    simp only [hq, Option.some.injEq] at hs'
    subst hs'
    exact conserved_of (hs.pickThread hpc (RunQueue.pickNext_some hq)) rfl
      (queued_setQueue s c q) h.online

end

lemma held_thread (hs : Placed s.stateOf s.current s.queued s.pc spot)
    (hh : (s.pc c).hand = some tid) : ∃ th, s.threads tid = some th := by
  have hfits := hs.fits tid
  have hin := Spot.inHand_iff.mp ((hs.in_hand c tid).mp hh)
  cases hth : s.threads tid with
  | some th => exact ⟨th, rfl⟩
  | none => rcases hin with hin | hin <;> simp [hin, stateOf, hth, Spot.Fits] at hfits

section

variable (h : s.Conserved)
include h

lemma Conserved.dispatch {p : Pc} (hlt : c < s.online)
    (hp : Placed (update s.stateOf tid (some .running))
      (update s.current c (some tid)) s.queued (update s.pc c p) spot)
    (hth : s.threads tid = some th) :
    (((s.modify tid fun th => { th with state := .running }).setCurrent c tid).setPc c
      p).Conserved := by
  refine conserved_of hp (stateOf_modify_some hth _) rfl ?_
  intro k t hk
  rcases eq_or_ne k c with rfl | hne
  · exact hlt
  · exact h.online k t (by simpa [Sys.setPc, setCurrent, modify, hne] using hk)

lemma Conserved.switch (hlt : c < s.online) (hpc : s.pc c = .switch cur tid) :
    (s.switch c cur tid).Conserved := by
  obtain ⟨spot, hs⟩ := h.placed
  obtain ⟨th, hth⟩ := held_thread hs (show (s.pc c).hand = some tid by rw [hpc]; rfl)
  unfold Sys.switch
  split_ifs with hsame
  · -- the thread goes on
    subst hsame
    exact conserved_of (hs.resume hpc) (stateOf_modify_some hth _) rfl h.online
  · cases cur with
    | none =>
      simp only [Sys.modifyCur, elim_none, hth]
      exact h.dispatch hlt (hs.dispatch hpc) hth
    | some old =>
      have hne : old ≠ tid := fun he => hsame (by rw [he])
      obtain ⟨hold, hp⟩ := hs.switchTo hpc hne
      -- the thread that leaves keeps its state
      have hmod : s.modify old (fun th => { th with
          state := if th.state = .running then .runnable else th.state }) = s := by
        have hmap : (s.threads old).map (fun th => { th with
            state := if th.state = .running then .runnable else th.state }) = s.threads old := by
          cases ho : s.threads old with
          | none => rfl
          | some th' =>
            have : th'.state ≠ .running := by simpa [stateOf, ho] using hold
            simp [this]
        simp only [modify, hmap, update_eq_self]
      simp only [Sys.modifyCur, elim_some, hmod, hth]
      exact h.dispatch hlt hp hth

lemma Conserved.unblock (hpc : s.pc c = .user)
    (hcalm : s.Calm (.unblock c tid)) : (s.unblock c tid).Conserved := by
  unfold Sys.unblock
  cases hth : s.threads tid with
  | none => exact h
  | some th =>
    dsimp only
    split_ifs with hready
    · exact h
    · obtain ⟨spot, hs⟩ := h.placed
      have hst : s.stateOf tid = some th.state := by simp [stateOf, hth]
      have hnc : ∀ k, s.current k ≠ some tid := by
        rcases hcalm with hk | hk
        · exact h.not_current hk
        · rw [hst] at hk
          exact absurd hk hready
      have hnr : s.stateOf tid ≠ some .runnable := by
        intro hr
        rw [hst, Option.some.injEq] at hr
        exact hready (by rw [hr]; rfl)
      exact conserved_of (hs.wake (c := c) (by rw [hpc]; rfl) (hs.spot_nowhere hnr hnc) _ _)
        (stateOf_modify_some hth _) rfl h.online

lemma Conserved.enqueue {target : Cpu} (hpc : s.pc c = .enqueue target tid cls) :
    ((s.setQueue target ((s.queues target).enqueue tid cls)).setPc c .user).Conserved := by
  obtain ⟨spot, hs⟩ := h.placed
  have hheld : spot tid = .held c :=
    hs.spot_held (by rw [hpc]; rfl) (by rw [hpc]; simp [Pc.leaving])
  have hnot : tid ∉ s.queued target := by
    rw [hs.in_queue, hheld]; simp [Spot.inQueue]
  have hroom : (s.queues target).all.length < maxThreads := RunQueue.room (hs.nodup target) hnot
  exact conserved_of (hs.enqueueHeld hpc (RunQueue.enqueue_perm cls hroom)) rfl
    (queued_setQueue s target _) h.online

lemma Conserved.receiver (hs : Placed s.stateOf s.current s.queued s.pc spot)
    (hth : s.threads tid = some th) (hipc : th.state.isBlockedIpc = true)
    (hcalm : cpu = c ∧ (∀ k < s.online, s.current k ≠ some tid) ∨
      (s.stateOf tid).any (·.isBlockedIpc) = false)
    : cpu = c ∧ spot tid = .nowhere := by
  have hst : s.stateOf tid = some th.state := by simp [stateOf, hth]
  rcases hcalm with ⟨hcpu, hk⟩ | hno
  · refine ⟨hcpu, hs.spot_nowhere ?_ (h.not_current hk)⟩
    intro hr
    rw [hst, Option.some.injEq] at hr
    rw [hr] at hipc
    cases hipc
  · rw [hst, any_some, hipc] at hno
    cases hno

lemma Conserved.directSwitch {sender receiver : Tid} (hlt : c < s.online) (hpc : s.pc c = .user)
    (hc : s.current c = some sender) (hcalm : s.Calm (.directSwitch c cpu receiver)) :
    (s.directSwitch cpu sender receiver).Conserved := by
  obtain ⟨sd, hsd⟩ := h.thread hc
  unfold Sys.directSwitch
  cases hrc : s.threads receiver with
  | none => simpa [hsd] using h
  | some rc =>
    simp only [hsd]
    split_ifs with hipc
    · obtain ⟨spot, hs⟩ := h.placed
      obtain ⟨rfl, hnow⟩ := h.receiver hs hrc hipc hcalm
      have hne : sender ≠ receiver := by
        rintro rfl
        have := (hs.on_cpu cpu sender).mp hc
        rw [hnow] at this
        cases this
      have hsd' : ∀ f, (s.modify receiver f).threads sender = some sd := fun f => by
        simpa [modify, hne] using hsd
      refine conserved_of (hs.direct (c := cpu) (by rw [hpc]; rfl) (by simp [hpc, Pc.reads]) hc hnow
        (v := .blockedIpc 0) rfl) ?_ rfl ?_
      · change (modify (modify s receiver _) sender _).stateOf = _
        rw [stateOf_modify_some (hsd' _), stateOf_modify_some hrc]
      · intro k t hk
        rcases eq_or_ne k cpu with rfl | hne
        · exact hlt
        · exact h.online k t (by simpa [setCurrent, modify, hne] using hk)
    · exact h

lemma Conserved.replySwitch {replier caller : Tid} (hlt : c < s.online) (hpc : s.pc c = .user)
    (hc : s.current c = some replier) (hcalm : s.Calm (.replySwitch c cpu caller)) :
    (s.replySwitch c cpu replier caller).Conserved := by
  obtain ⟨rp, hrp⟩ := h.thread hc
  unfold Sys.replySwitch
  cases hcl : s.threads caller with
  | none => simpa [hrp] using h
  | some cl =>
    simp only [hrp]
    split_ifs with hipc
    · obtain ⟨spot, hs⟩ := h.placed
      obtain ⟨rfl, hnow⟩ := h.receiver hs hcl hipc hcalm
      have hne : replier ≠ caller := by
        rintro rfl
        have := (hs.on_cpu cpu replier).mp hc
        rw [hnow] at this
        cases this
      have hcl' : ∀ f, (s.modify replier f).threads caller = some cl := fun f => by
        simpa [modify, hne.symm] using hcl
      have hrp' : ∀ f g, ((s.modify replier f).modify caller g).threads replier = some (f rp) :=
        fun f g => by simp [modify, hne, hrp]
      refine conserved_of (hs.reply (c := cpu) (by rw [hpc]; rfl) hc hnow cpu rp.cls) ?_ rfl ?_
      · change (modify (modify (modify s replier _) caller _) replier _).stateOf = _
        rw [stateOf_modify_some (hrp' _ _), stateOf_modify_some (hcl' _), stateOf_modify_some hrp]
        -- the first store leaves the replier's state
        have hsame : update s.stateOf replier (some rp.state) = s.stateOf := by
          rw [update_eq_self_iff]
          simp [stateOf, hrp]
        simp only [hsame]
      · intro k t hk
        rcases eq_or_ne k cpu with rfl | hne
        · exact hlt
        · exact h.online k t (by simpa [setCurrent, Sys.setPc, modify, hne] using hk)
    · exact h

lemma Conserved.loadBalance {src dst : Cpu} (hne : src ≠ dst)
    (hcalm : s.Calm (.loadBalance src dst)) : (s.loadBalance src dst).Conserved := by
  unfold Sys.loadBalance
  cases hn : (s.queues src).normal with
  | nil => exact h
  | cons tid l =>
    obtain ⟨spot, hs⟩ := h.placed
    have hperm := RunQueue.all_normal hn
    have hnd : (tid :: { s.queues src with normal := l }.all).Nodup :=
      hperm.nodup_iff.mp (hs.nodup src)
    dsimp only
    split_ifs with haff
    · -- to the other queue
      have hnc : ∀ k, s.current k ≠ some tid :=
        h.not_current (hcalm tid (by rw [hn]; rfl) haff)
      have hnot : tid ∉ s.queued dst := by
        intro hd
        have h1 := (hs.in_queue src tid).mp (hperm.mem_iff.mpr List.mem_cons_self)
        rw [(hs.in_queue dst tid).mp hd] at h1
        exact hne (Option.some.inj h1).symm
      have hroom : (s.queues dst).all.length < maxThreads :=
        RunQueue.room (hs.nodup dst) hnot
      refine conserved_of (hs.migrate hne hperm (RunQueue.enqueue_perm .normal hroom) hnc) rfl ?_
        h.online
      rw [queued_setQueue, queued_setQueue]
      rfl
    · -- pinned: back to the end of its own queue
      have hroom := RunQueue.room (List.nodup_cons.mp hnd).2 (List.nodup_cons.mp hnd).1
      exact conserved_of (hs.reorder ((RunQueue.enqueue_perm .normal hroom).trans hperm.symm)) rfl
        (queued_setQueue s src _) h.online

/-! ### Every run -/

lemma Conserved.run (hlt : c < s.online) (hcalm : s.Calm (.run c))
    (hs : s.run c = some s') : s'.Conserved := by
  have hreads : ∀ x, (s.pc c).reads = some x → s.current c = x := by
    obtain ⟨spot, hp⟩ := h.placed
    exact hp.reads c
  cases hpc : s.pc c with
  | user => simp [Sys.run, hpc] at hs
  | yieldStore cur =>
    have hstill : (s.pc c).still = true := by rw [hpc]; rfl
    simp only [Sys.run, hpc, Option.some.injEq] at hs
    obtain rfl : s.current c = cur := hreads cur (by rw [hpc]; rfl)
    subst hs
    exact (h.modifyCur hstill _).setPc (by rwa [modifyCur_pc]) rfl (by simp [Pc.reads])
  | blockStore cur state =>
    have hstill : (s.pc c).still = true := by rw [hpc]; rfl
    simp only [Sys.run, hpc, Option.some.injEq] at hs
    obtain rfl : s.current c = cur := hreads cur (by rw [hpc]; rfl)
    subst hs
    exact (h.modifyCur hstill _).setPc (by rwa [modifyCur_pc]) rfl (by simp [Pc.reads])
  | schedule =>
    simp only [Sys.run, hpc, Option.some.injEq] at hs
    subst hs
    exact h.setPc (by rw [hpc]; rfl) rfl (by simp [Pc.reads])
  | check cur =>
    simp only [Sys.run, hpc, Option.some.injEq] at hs
    exact hs ▸ h.check hpc hcalm
  | requeue tid cls =>
    simp only [Sys.run, hpc, Option.some.injEq] at hs
    exact hs ▸ h.requeue hpc
  | pick cur => exact h.pick hpc hs
  | switch cur tid =>
    simp only [Sys.run, hpc, Option.some.injEq] at hs
    exact hs ▸ h.switch hlt hpc
  | enqueue target tid cls =>
    simp only [Sys.run, hpc, Option.some.injEq] at hs
    exact hs ▸ h.enqueue hpc

/-- **Every safe section keeps the places.** -/
lemma Conserved.next {a : Act} (hcalm : s.Calm a) (hs : s.next a = some s') : s'.Conserved := by
  unfold Sys.next at hs
  split_ifs at hs with hon
  obtain ⟨hcpus, hstarts⟩ := hon
  cases a with
  | yield c =>
    cases hs
    exact h.setPc (by rw [hstarts c rfl]; rfl) rfl (by simp [Pc.reads])
  | block c state =>
    dsimp only at hs
    split_ifs at hs
    cases hs
    exact h.setPc (by rw [hstarts c rfl]; rfl) rfl (by simp [Pc.reads])
  | preempt c =>
    cases hs
    exact h.setPc (by rw [hstarts c rfl]; rfl) rfl (by simp [Pc.reads])
  | tick c =>
    cases hs
    exact h.modifyCur (by rw [hstarts c rfl]; rfl) _
  | unblock c tid =>
    cases hs
    exact h.unblock (hstarts c rfl) hcalm
  | directSwitch c cpu receiver =>
    obtain ⟨sender, hc, rfl⟩ := map_eq_some_iff.mp hs
    exact h.directSwitch (hcpus c (by simp [Act.cpus])) (hstarts c rfl) hc hcalm
  | replySwitch c cpu caller =>
    obtain ⟨replier, hc, rfl⟩ := map_eq_some_iff.mp hs
    exact h.replySwitch (hcpus c (by simp [Act.cpus])) (hstarts c rfl) hc hcalm
  | loadBalance src dst =>
    dsimp only at hs
    split_ifs at hs with hne
    cases hs
    exact h.loadBalance hne hcalm
  | enter c =>
    dsimp only at hs
    split_ifs at hs with hc
    cases hs
    obtain ⟨spot, hp⟩ := h.placed
    exact ⟨⟨spot, hp.look (by rw [hstarts c rfl]; rfl) hc⟩, h.online⟩
  | processExit c pid =>
    cases hs
    rwa [markDead_eq hcalm]
  | run c => exact h.run (hcpus c (by simp [Act.cpus])) hcalm hs

end

structure Start (s : Sys) : Prop where
  resting : ∀ c, s.current c = none ∧ s.pc c = .user
  nodup : ∀ c, (s.queued c).Nodup
  one : ∀ c k tid, tid ∈ s.queued c → tid ∈ s.queued k → c = k
  queued_iff : ∀ tid, (∃ c, tid ∈ s.queued c) ↔ s.stateOf tid = some .runnable
  not_running : ∀ tid, s.stateOf tid ≠ some .running

open Classical in
lemma Start.conserved (h : s.Start) : s.Conserved := by
  let spot (tid : Tid) : Spot :=
    if hq : ∃ c, tid ∈ s.queued c then .queued hq.choose else .nowhere
  have hspot : ∀ tid, (∃ c, spot tid = .queued c ∧ tid ∈ s.queued c) ∨
      spot tid = .nowhere ∧ ∀ c, tid ∉ s.queued c := by
    intro tid
    by_cases hq : ∃ c, tid ∈ s.queued c
    · exact .inl ⟨hq.choose, dif_pos hq, hq.choose_spec⟩
    · exact .inr ⟨dif_neg hq, not_exists.mp hq⟩
  refine ⟨⟨spot, ⟨h.nodup, ?_, ?_, ?_, ?_, ?_, ?_, ?_, ?_⟩⟩, ?_⟩
  · intro c tid
    rcases hspot tid with ⟨k, hk, hmem⟩ | ⟨hk, hno⟩
    · simp only [hk, Spot.inQueue, Option.some.injEq]
      exact ⟨fun hc => h.one k c tid hmem hc, fun hc => hc ▸ hmem⟩
    · simp [hk, Spot.inQueue, hno c]
  · intro c tid
    rcases hspot tid with ⟨k, hk, -⟩ | ⟨hk, -⟩ <;> simp [hk, Spot.onCpu, (h.resting c).1]
  · intro c tid
    rcases hspot tid with ⟨k, hk, -⟩ | ⟨hk, -⟩ <;>
      simp [hk, Spot.inHand, (h.resting c).2, Pc.hand]
  · intro tid
    rcases hspot tid with ⟨k, hk, hmem⟩ | ⟨hk, hno⟩
    · rw [hk]
      exact (h.queued_iff tid).mp ⟨k, hmem⟩
    · rw [hk]
      refine ⟨h.not_running tid, fun hr => ?_⟩
      obtain ⟨c, hc⟩ := (h.queued_iff tid).mpr hr
      exact hno c hc
  · simp [(h.resting _).2, Pc.reads]
  · simp [(h.resting _).2, Pc.leaving]
  · intro c tid hs
    rcases hspot tid with ⟨k, hk, -⟩ | ⟨hk, -⟩ <;> simp [hk] at hs
  · simp [(h.resting _).2]
  · simp [(h.resting _).1]

def QueuedOnce (s : Sys) (tid : Tid) : Prop :=
  ∃ c, ∀ k, (s.queued k).count tid = if k = c then 1 else 0

lemma queuedOnce_of_mem (hs : Placed s.stateOf s.current s.queued s.pc spot)
    (h : tid ∈ s.queued c) : s.QueuedOnce tid := by
  refine ⟨c, fun k => ?_⟩
  split_ifs with hk
  · exact List.count_eq_one_of_mem (hs.nodup k) (hk ▸ h)
  · refine List.count_eq_zero_of_not_mem fun hmem => hk ?_
    have h1 := (hs.in_queue k tid).mp hmem
    rw [(hs.in_queue c tid).mp h] at h1
    exact (Option.some.inj h1).symm

lemma current_unique (hs : Placed s.stateOf s.current s.queued s.pc spot)
    (h : (spot tid).onCpu = some c) : ∃! k, s.current k = some tid := by
  refine ⟨c, (hs.on_cpu c tid).mpr h, fun k hk => ?_⟩
  have h1 := (hs.on_cpu k tid).mp hk
  rw [h] at h1
  exact (Option.some.inj h1).symm

/-- **The scheduler conserves threads.** In every state that safe steps reach, a runnable thread
is in one run queue once, or the current thread of one CPU, or in the hands of one CPU that is
between two sections of an operation; a running thread is the current thread of one CPU and in no
queue; and a blocked thread is in no queue. When no CPU is inside an operation no thread is in a
CPU's hands. -/
theorem scheduler_conserves {s₀ s : Sys} (h0 : s₀.Start)
    (hrun : Runs (fun a i b => a.next i = some b) Calm s₀ s) {tid : Tid} {th : Thread}
    (hth : s.threads tid = some th) :
    (th.state = .runnable → s.QueuedOnce tid ∨ (∃! c, s.current c = some tid) ∨
      ∃! c, (s.pc c).hand = some tid) ∧
    (th.state = .running → (∃! c, s.current c = some tid) ∧ ∀ c, tid ∉ s.queued c) ∧
    (th.state.isBlocked = true → ∀ c, tid ∉ s.queued c) ∧
    ((∀ c, s.pc c = .user) → ∀ c, (s.pc c).hand ≠ some tid) := by
  have hcons : s.Conserved :=
    Runs.inv Conserved h0.conserved (fun _ _ _ h hok hs => h.next hok hs) hrun
  obtain ⟨spot, hs⟩ := hcons.placed
  have hst : s.stateOf tid = some th.state := by simp [stateOf, hth]
  have hfits := hs.fits tid
  rw [hst] at hfits
  have hnotin : th.state ≠ .runnable → ∀ c, tid ∉ s.queued c := by
    intro hne c hc
    have := Spot.inQueue_iff.mp ((hs.in_queue c tid).mp hc)
    rcases this with h | h <;> rw [h] at hfits <;> exact hne (Option.some.inj hfits)
  refine ⟨fun hr => ?_, fun hr => ?_, fun hb => ?_, fun hu c => ?_⟩
  · cases hp : spot tid with
    | nowhere => rw [hp] at hfits; exact absurd (congrArg some hr) hfits.2
    | queued c => exact .inl (queuedOnce_of_mem hs ((hs.in_queue c tid).mpr (by rw [hp]; rfl)))
    | requeued c => exact .inl (queuedOnce_of_mem hs ((hs.in_queue c tid).mpr (by rw [hp]; rfl)))
    | current c | repicked c => exact .inr (.inl (current_unique (c := c) hs (by rw [hp]; rfl)))
    | held c =>
      refine .inr (.inr ⟨c, (hs.in_hand c tid).mpr (by rw [hp]; rfl), fun k hk => ?_⟩)
      have h1 := (hs.in_hand k tid).mp hk
      rw [hp] at h1
      exact (Option.some.inj h1).symm
  · refine ⟨?_, hnotin (by rw [hr]; decide)⟩
    cases hp : spot tid with
    | nowhere => rw [hp] at hfits; exact absurd (congrArg some hr) hfits.1
    | current c => exact current_unique (c := c) hs (by rw [hp]; rfl)
    | queued c | requeued c | repicked c | held c =>
      rw [hp, hr] at hfits; cases Option.some.inj hfits
  · exact hnotin (by intro hr; rw [hr] at hb; cases hb)
  · rw [hu c]
    simp [Pc.hand]

/-! ### Two runs -/

def normalThread (state : ThreadState) : Thread :=
  ⟨state, 1000, .normal, .normal, BitVec.allOnes 64, some 1⟩

/-- One CPU with threads 0 and 2 in its queue; thread 1 waits in `ipc_recv`. -/
def threeThreads : Sys where
  online := 1
  threads tid :=
    if tid = 0 ∨ tid = 2 then some (normalThread .runnable)
    else if tid = 1 then some (normalThread (.blockedIpc 5))
    else none
  current _ := none
  queues c := if c = 0 then ⟨[], [], [0, 2], []⟩ else .empty
  pc _ := .user

lemma start_threeThreads : threeThreads.Start where
  resting _ := ⟨rfl, rfl⟩
  nodup c := by
    by_cases hc : c = 0
    · subst hc; decide
    · simp [queued, threeThreads, hc, RunQueue.all, RunQueue.empty]
  one c k tid hc hk := by
    have hzero : ∀ j, tid ∈ threeThreads.queued j → j = 0 := by
      intro j hj
      by_contra hne
      simp [queued, threeThreads, hne, RunQueue.all, RunQueue.empty] at hj
    rw [hzero c hc, hzero k hk]
  queued_iff tid := by
    constructor
    · rintro ⟨c, hc⟩
      by_cases h0 : c = 0
      · subst h0
        revert tid
        decide
      · simp [queued, threeThreads, h0, RunQueue.all, RunQueue.empty] at hc
    · intro h
      refine ⟨0, ?_⟩
      revert tid
      decide
  not_running := by decide

def wakeAndYield : List Act :=
  [.enter 0, .run 0, .run 0, .unblock 0 1, .run 0, .yield 0, .run 0, .run 0, .run 0, .run 0,
    .run 0, .run 0]

theorem scheduler_conserves_wakeAndYield : ∃ s,
    Runs.exec Calm next threeThreads wakeAndYield = some s ∧ s.current 0 = some 2 ∧
      (s.QueuedOnce 0 ∨ (∃! c, s.current c = some 0) ∨ ∃! c, (s.pc c).hand = some 0) := by
  obtain ⟨s, hs, h⟩ := (any_eq_true _ _).mp
    (show ((Runs.exec Calm next threeThreads wakeAndYield).any fun s =>
      s.current 0 == some 2 && (s.threads 0).any fun th => th.state == .runnable) = true by
        decide +kernel)
  rw [Bool.and_eq_true, beq_iff_eq] at h
  obtain ⟨th, hth, hr⟩ := (any_eq_true _ _).mp h.2
  exact ⟨s, hs, h.1, (scheduler_conserves start_threeThreads (Runs.of_exec hs) hth).1
    (beq_iff_eq.mp hr)⟩

def callAndPreempt : List Act :=
  [.enter 0, .run 0, .run 0, .directSwitch 0 0 1, .preempt 0, .run 0, .run 0, .run 0, .run 0]

/-- **A preempted receiver of a direct switch is lost.** Thread 1 is runnable, but in no queue and
on no CPU, and the CPU is in no operation. -/
theorem receiver_orphaned : threeThreads.Start ∧
    ∃ s, Runs (fun a i b => a.next i = some b) (fun _ _ => True) threeThreads s ∧ s.stateOf 1 =
    some .runnable ∧ ∀ c, 1 ∉ s.queued c ∧ s.current c ≠ some 1 ∧ s.pc c = .user := by
  refine ⟨start_threeThreads, ?_⟩
  obtain ⟨s, hs, h⟩ := (any_eq_true _ _).mp
    (show ((Runs.exec (fun _ _ => True) next threeThreads callAndPreempt).any fun s =>
      s.stateOf 1 == some .runnable && !(s.queued 0).contains 1 && s.current 0 == some 2 &&
        s.pc 0 == .user) = true by decide +kernel)
  simp only [Bool.and_eq_true, beq_iff_eq, Bool.not_eq_true', List.contains_eq_mem,
    decide_eq_false_iff_not] at h
  obtain ⟨⟨⟨hst, hq⟩, hc⟩, hpc⟩ := h
  refine ⟨s, Runs.of_exec hs, hst, fun c => ?_⟩
  cases c with
  | zero => exact ⟨hq, by rw [hc]; decide, hpc⟩
  | succ c =>
    -- no other CPU takes part
    have hfar : ((Runs.exec (fun _ _ => True) next threeThreads callAndPreempt).any fun s =>
        (s.queued (c + 1)).isEmpty && (s.current (c + 1)).isNone && s.pc (c + 1) == .user)
          = true := rfl
    simp only [hs, any_some, Bool.and_eq_true, List.isEmpty_iff, isNone_iff_eq_none,
      beq_iff_eq] at hfar
    simp [hfar]

end Sys

end Aios.Sched
