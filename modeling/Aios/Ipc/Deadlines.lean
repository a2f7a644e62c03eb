import Aios.Ipc.SelectSteps

/-!
The deadlines of waiting calls.

A call stores its deadline before it blocks, and the timer takes the deadline out of the table
before it looks at the thread. A deadline that passes in between, or whose thread the timer cannot
look at, is gone and the thread sleeps without it.
-/

namespace Aios.Ipc.Notify

namespace Pc

def flag : Pc → Option Bool
  | waitRegister _ _ timed | waitDeadline _ timed | selScan _ _ timed | selRecord _ timed
  | selRegister _ _ timed | selDeadline _ timed => some timed
  | _ => none

def sleeps : Pc → Bool
  | waitTake _ | selTake _ => true
  | _ => false

def armed : Pc → Bool
  | waitBlock _ | selBlock _ | waitTake _ | selTake _ => true
  | _ => false

lemma sleeps_of_flag {p : Pc} {timed : Bool} (h : p.flag = some timed) : p.sleeps = false := by
  cases p <;> first | rfl | cases h

lemma armed_of_sleeps {p : Pc} (h : p.sleeps = true) : p.armed = true := by
  cases p <;> first | rfl | cases h

end Pc

namespace Sys

variable {s s' : Sys} {u : Tid}

@[mk_iff Onward_iff]
structure Onward (u : Tid) (s s' : Sys) : Prop where
  armed : (s'.pc u).armed = false
  sleeps : (s'.pc u).sleeps = false
  flag : ∀ timed, (s'.pc u).flag = some timed → (s.pc u).flag = some timed
  blocked : s.blocked u = none → s'.blocked u = none

lemma wakeSelect_frame (s : Sys) (i : NotificationId) (t : Tid) (bits : Word) :
    (s.wakeSelect i t bits).pc = s.pc ∧ (s.wakeSelect i t bits).blocked = s.blocked ∧
      (s.wakeSelect i t bits).deadlines = s.deadlines := by
  obtain ⟨r, hr⟩ := wakeSelect_eq s i t bits
  simp [hr]

lemma dropWaiterAt_frame (s : Sys) (i : NotificationId) (t : Tid) : (s.dropWaiterAt i t).pc = s.pc ∧
    (s.dropWaiterAt i t).blocked = s.blocked ∧ (s.dropWaiterAt i t).deadlines = s.deadlines := by
  obtain ⟨r, hr⟩ := dropWaiterAt_eq s i t
  simp [hr]

lemma run_deadline {ready : Bool} (h : s.run u ready = some s') :
    Onward u s s' ∨
    (∃ timed, (s.pc u).flag = some timed ∧ Select.Sys.arms (s.pc u) = true ∧ s.timer = .idle ∧
      (s'.pc u).armed = true ∧ (s'.pc u).sleeps = false ∧ (s'.pc u).flag = none ∧
      s'.deadlines u = timed ∧ s'.blocked u = s.blocked u) ∨
    (s.pc u).armed = true ∧ (s.pc u).sleeps = false ∧ (s'.pc u).armed = true ∧
      (s'.pc u).sleeps = true ∧ (s'.pc u).flag = none ∧ s'.deadlines u = s.deadlines u := by
  simp only [run, waitRegister, selScan, selRegister, selUnregister, selReturn, takeBits] at h
  (repeat' split at h) <;> cases h
  all_goals
    simp only [Onward_iff, setPc, fail, answer, setBlocked, setObject, Function.update_apply,
      wakeSelect_frame, dropWaiterAt_frame, Option.getD_some, Option.getD_none]
    simp only [*, Pc.armed, Pc.sleeps, Pc.flag, Select.Sys.arms]
    grind

lemma run_awake {ready : Bool} (h : s.run u ready = some s') (hs : (s.pc u).sleeps = true) :
    s.blocked u = none := by
  unfold run at h
  cases hpc : s.pc u <;> rw [hpc] at h hs <;> try cases hs
  · dsimp only at h
    split_ifs at h with hb
    exact hb
  · dsimp only at h
    split_ifs at h with hb
    exact hb

end Sys

end Aios.Ipc.Notify

namespace Aios.Ipc.Select

open Aios.Lib Notify Function Option

def timerOn : TimerPc → Option Tid
  | .idle => none
  | .expired t | .cleanup t _ | .unblock t => some t

namespace Sys

/-- No deadline passes between the moment a call stores it and the moment the thread blocks, and
the timer's scan can read the state of a blocked thread whose deadline it has taken. -/
def Prompt (s : Sys) : Act → Prop
  | .expire t => (s.base.pc t).armed = true → (s.base.pc t).sleeps = true
  | .timer locked => ∀ t, s.base.timer = .expired t → s.base.blocked t ≠ none → locked = true
  | _ => True

instance (s : Sys) (a : Act) : Decidable (s.Prompt a) := by
  unfold Prompt
  split <;> infer_instance

structure Kept (s : Sys) (t : Tid) : Prop where
  flag : ∀ timed, (s.base.pc t).flag = some timed → timed = s.timed t
  number : (s.base.pc t).armed = true → s.armedBy t = s.number t
  awake : (s.base.pc t).sleeps = false → s.base.blocked t = none
  deadline : (s.base.pc t).armed = true → s.timed t = true →
    ((s.base.pc t).sleeps = true → s.base.blocked t ≠ none) →
    s.base.deadlines t = true ∨ (s.base.pc t).sleeps = true ∧ timerOn s.base.timer = some t

variable {s s' : Sys} {t u : Tid}

lemma Kept.congr (h : s.Kept t) (hpc : s'.base.pc t = s.base.pc t)
    (hb : s'.base.blocked t = s.base.blocked t ∨ s'.base.blocked t = none)
    (hd : s'.base.deadlines t = s.base.deadlines t)
    (htimer : timerOn s.base.timer = some t →
      timerOn s'.base.timer = some t ∨ s'.base.blocked t = none)
    (ht : s'.timed t = s.timed t) (hn : s'.number t = s.number t)
    (ha : s'.armedBy t = s.armedBy t) : s'.Kept t := by
  cases h
  constructor <;> grind

lemma Kept.outside (h : s.Kept t) (ho : Outside s s') : s'.Kept t :=
  h.congr (by rw [ho.pc]) (ho.blocked t) (by rw [ho.deadlines])
    (fun hon => .inl (by rw [ho.timer]; exact hon)) (by rw [ho.timed]) (by rw [ho.number])
    (by rw [ho.armedBy])

lemma Kept.afterRun {b : Notify.Sys} (h : s.Kept u)
    (hb : s.base.run u (s.scanReady u) = some b) : (s.afterRun u b).Kept u := by
  cases h
  have hsleeps := Notify.Sys.run_awake hb
  have hrun := Notify.Sys.run_deadline hb
  constructor <;> simp only [Sys.afterRun] <;>
    grind [Notify.Sys.Onward_iff, Pc.sleeps_of_flag]

lemma Kept.run {direct error : Bool} (h : ∀ t, s.Kept t)
    (hs : s.Step (.run u direct error) s') (t : Tid) : s'.Kept t := by
  rcases step_run hs with ⟨-, b, hb, rfl⟩ | ⟨-, hop⟩
  · by_cases htu : t = u
    · subst htu
      exact (h t).afterRun hb
    · have he := Notify.Sys.elsewhere_run hb
      refine (h t).congr (he.pc t htu) (he.blocked t htu) (he.deadlines t htu)
        (fun hon => .inl (by rwa [show (s.afterRun u b).base.timer = _ from he.timer])) rfl rfl ?_
      simp only [Sys.afterRun]
      grind
  · exact (h t).outside (Outside.runOp hop)

lemma Kept.next {a : Act} (h : ∀ t, s.Kept t) (hok : s.Prompt a) (hs : s.Step a s') (t : Tid) :
    s'.Kept t := by
  have hidle : ∀ {s1 : Sys} {tid : Tid}, (if s.Idle tid then some s1 else none) = some s' →
      Outside s s1 → s'.Kept t := by
    intro s1 tid hif ho
    split_ifs at hif
    obtain rfl := Option.some.inj hif
    exact (h t).outside ho
  cases a with
  | send u c buf => exact hidle hs (Outside.send s u c buf)
  | call u c buf => exact hidle hs (Outside.callOn s u c buf)
  | recv u c poll => exact hidle hs (Outside.recv s u c poll)
  | run u direct error => exact Kept.run h hs t
  | takeCaller c =>
    obtain rfl := Option.some.inj hs
    exact (h t).outside (Outside.takeCaller s c)
  | unblock u =>
    obtain rfl := Option.some.inj hs
    exact (h t).outside (Outside.unblock s u)
  | signal u i bits =>
    obtain ⟨-, hpc, rfl⟩ := step_signal hs
    obtain ⟨hflag, hnumber, hawake, hdeadline⟩ := h t
    simp only [Notify.Sys.signal]
    split <;> constructor <;>
      simp only [Notify.Sys.setPc, Notify.Sys.setObject, update_apply] <;>
      grind [Pc.flag, Pc.armed, Pc.sleeps]
  | wait u i mask timed =>
    obtain ⟨-, hpc, rfl⟩ := step_wait hs
    obtain ⟨hflag, hnumber, hawake, hdeadline⟩ := h t
    simp only [Notify.Sys.wait, Notify.Sys.takeBits]
    (repeat' split) <;> constructor <;>
      simp only [begin, Notify.Sys.setPc, Notify.Sys.setObject, Notify.Sys.answer, Notify.Sys.fail,
        update_apply, getD_some, getD_none] <;>
      grind [Pc.flag, Pc.armed, Pc.sleeps]
  | select u entries timed =>
    obtain ⟨-, hpc, rfl⟩ := step_select hs
    obtain ⟨hflag, hnumber, hawake, hdeadline⟩ := h t
    constructor <;> simp only [begin, Notify.Sys.setPc, update_apply] <;>
      grind [Pc.flag, Pc.armed, Pc.sleeps]
  | expire u =>
    obtain ⟨htimer, -, rfl⟩ := step_expire hs
    obtain ⟨hflag, hnumber, hawake, hdeadline⟩ := h t
    constructor <;> simp only [Prompt, update_apply] at * <;> grind [timerOn]
  | timer locked =>
    obtain ⟨b, hb, rfl⟩ := step_timer hs
    rcases Notify.Sys.runTimer_cases hb with ⟨x, hx, hgive, rfl⟩ | ⟨x, k, hx, -, rfl⟩ |
      ⟨x, k, hx, hx', hpc, hbl, hd, -⟩ | ⟨x, hx, rfl⟩
    all_goals refine (h t).congr ?_ ?_ ?_ ?_ rfl rfl rfl
    all_goals
      simp only [Notify.Sys.setBlocked, update_apply, Prompt] at * <;> grind [timerOn]

end Sys

/-- In every run in which no deadline passes between the store and the block, and in which the
timer can look at the threads it has to wake, a thread that is blocked in a call with a deadline
has that deadline in the table or somebody is about to wake it. -/
theorem deadline_kept {words : NotificationId → Option Word}
    {rings : ChannelId → Option (MessageRing RawMessage)} {s : Sys}
    (h : Runs Sys.Step Sys.Prompt (.boot words rings) s) (t : Tid) (hb : s.base.blocked t ≠ none)
    (ht : s.timed t = true) :
    s.base.deadlines t = true ∧ s.armedBy t = s.number t ∨
      s.WakePending t ∨ s.base.timer = .expired t := by
  have hkept : ∀ t, s.Kept t := by
    refine h.inv (fun s => ∀ t, s.Kept t) (fun t => ?_) fun a i b ha hok hs =>
      Sys.Kept.next ha hok hs
    constructor <;> simp [Sys.boot, Pc.flag, Pc.armed]
  have hk := hkept t
  have hsl : (s.base.pc t).sleeps = true := by
    have := hk.awake
    grind
  have harm := Pc.armed_of_sleeps hsl
  rcases hk.deadline harm ht fun _ => hb with hd | ⟨-, hon⟩
  · exact .inl ⟨hd, hk.number harm⟩
  · -- the timer has taken the deadline, and is about to look at the thread or to wake it
    cases htimer : s.base.timer <;> grind [timerOn, Sys.WakePending, timerWakes]

def quiet : Sys := .boot (fun _ => some 0) fun _ => none

def timedWait : List Sys.Act :=
  [.wait 1 0 1 true, .run 1 false false, .run 1 false false, .run 1 false false]

theorem deadline_kept_timedWait : ∃ s, Runs Sys.Step Sys.Prompt quiet s ∧
    s.base.blocked 1 ≠ none ∧ (s.base.deadlines 1 = true ∧ s.armedBy 1 = s.number 1 ∨
      s.WakePending 1 ∨ s.base.timer = .expired 1) := by
  have hsome : (Runs.exec Sys.Prompt Sys.next quiet timedWait).isSome = true := by decide +kernel
  obtain ⟨s, hs⟩ := isSome_iff_exists.mp hsome
  have hend : ∀ s ∈ Runs.exec Sys.Prompt Sys.next quiet timedWait,
      s.base.blocked 1 ≠ none ∧ s.timed 1 = true := by decide +kernel
  obtain ⟨hb, ht⟩ := hend s hs
  exact ⟨s, Runs.of_exec hs, hb, deadline_kept (Runs.of_exec hs) 1 hb ht⟩

def expiresEarly : List Sys.Act :=
  [.wait 1 0 1 true, .run 1 false false, .run 1 false false, .expire 1, .timer true,
    .run 1 false false]

def abandoned : List Sys.Act := timedWait ++ [.expire 1, .timer false]

/-- The thread is blocked in a call with a deadline; the deadline is gone, and nobody is going to
wake the thread. -/
def Sys.Forgotten (s : Sys) (t : Tid) : Prop :=
  s.base.blocked t ≠ none ∧ s.timed t = true ∧ s.base.deadlines t = false ∧ ¬ s.WakePending t ∧
    s.base.timer ≠ .expired t

instance (s : Sys) (t : Tid) : Decidable (s.Forgotten t) :=
  inferInstanceAs (Decidable (_ ∧ _ ∧ _ ∧ _ ∧ _))

lemma exists_forgotten {l : List Sys.Act}
    (hsome : (Runs.exec (fun _ _ => True) Sys.next quiet l).isSome = true)
    (hend : ∀ s ∈ Runs.exec (fun _ _ => True) Sys.next quiet l, s.Forgotten 1) :
    ∃ s, Runs.exec (fun _ _ => True) Sys.next quiet l = some s ∧
      Runs Sys.Step (fun _ _ => True) quiet s ∧ s.Forgotten 1 := by
  obtain ⟨s, hs⟩ := isSome_iff_exists.mp hsome
  exact ⟨s, hs, Runs.of_exec hs, hend s hs⟩

/-- **Lost deadlines.** -/
theorem deadline_lost :
    (∃ s, Runs.exec (fun _ _ => True) Sys.next quiet expiresEarly = some s ∧
      Runs Sys.Step (fun _ _ => True) quiet s ∧ s.Forgotten 1) ∧
    ∃ s, Runs.exec (fun _ _ => True) Sys.next quiet abandoned = some s ∧
      Runs Sys.Step (fun _ _ => True) quiet s ∧ s.Forgotten 1 :=
  ⟨exists_forgotten (by decide +kernel) (by decide +kernel),
    exists_forgotten (by decide +kernel) (by decide +kernel)⟩

end Aios.Ipc.Select
