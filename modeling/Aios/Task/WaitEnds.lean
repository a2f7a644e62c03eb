import Aios.Task.Wait

/-!
A wait for a process ends with its exit code.

The condition on the runs is `Sys.Orderly`. A thread that has registered is either still the waiter
of its process or about to be unblocked by the exit that took it out, and a thread that an exit
unblocks finds the code stored; so when the exit returns nobody is left. Four runs at the end show
what happens without the condition.
-/

namespace Aios.Task

open Aios.Lib Aios.Sched Function

def Pc.loose : Pc → Bool
  | .waitBlock _ | .waitWoken _ | .exitUnblock _ _ => false
  | _ => true

namespace Sys

/-! ### The invariant -/

variable {s s' : Sys} {t u w : ThreadId} {p q : ProcessId}

def Awaited (s : Sys) (t : ThreadId) (p : ProcessId) : Prop :=
  s.waiters p = some t ∨ ∃ u, s.pc u = .exitUnblock p t

def Sleeping (s : Sys) (t : ThreadId) (p : ProcessId) : Prop :=
  s.pc t = .waitBlock p ∨ s.pc t = .waitWoken p ∧ s.parked t = true

def ThreadOk (s : Sys) (t : ThreadId) : Prop :=
  match s.pc t with
  | .idle | .waitLookup _ | .waitRegister _ => s.parked t = false
  | .waitBlock p => s.parked t = false ∧ s.Awaited t p
  | .waitWoken p =>
    s.parked t = true ∧ s.Awaited t p ∧ (s.state t).isReady = false ∨
      s.parked t = false ∧ s.exitCodes p ≠ i32Min
  | .exitCheck p code => s.parked t = false ∧ code ∈ s.calls p ∧ code ≠ i32Min
  | .exitStore p code =>
    s.parked t = false ∧ s.process p = true ∧ code ∈ s.calls p ∧ code ≠ i32Min
  | .exitMark p b | .exitScan p b | .exitEpipe p b _ =>
    s.parked t = false ∧ s.process p = b ∧ (b = true → s.exitCodes p ≠ i32Min)
  | .exitTake p => s.parked t = false ∧ s.exitCodes p ≠ i32Min
  | .exitUnblock p w =>
    s.parked t = false ∧ s.exitCodes p ≠ i32Min ∧ s.taken p = true ∧ s.lock = some t ∧
      s.Sleeping w p

structure Inv (s : Sys) : Prop where
  thread : ∀ t, s.ThreadOk t
  waiter : ∀ p t, s.waiters p = some t → s.Sleeping t p
  locked : ∀ u, s.lock = some u → ∃ p w, s.pc u = .exitUnblock p w
  stored : ∀ p, s.exitCodes p ≠ i32Min → s.exitCodes p ∈ s.calls p
  blocked : ∀ t p, s.state t = .blockedProcessWait p → s.parked t = true ∧ s.pc t = .waitWoken p
  taken : ∀ p, s.taken p = true → s.waiters p = none
  exited : ∀ p, s.process p = true → s.exited p = true →
    s.taken p = true ∧ ∀ u w, s.pc u ≠ .exitUnblock p w
  answers : ∀ a ∈ s.answers, a.1 < maxProcesses → s.process a.1 = true →
    ∃ code ∈ s.calls a.1, a.2 = .ok code

lemma Boot.inv (h : s.Boot) : s.Inv where
  thread t := by
    unfold ThreadOk
    rw [h.pc t]
    exact h.parked t
  waiter p t hw := by rw [h.waiters p] at hw; cases hw
  locked u hu := by rw [h.lock] at hu; cases hu
  stored p hp := absurd (h.exitCodes p) hp
  blocked t p ht := absurd ht (h.state t p)
  taken p hp := by rw [h.taken p] at hp; cases hp
  exited p _ hp := by rw [h.exited p] at hp; cases hp
  answers a ha := by rw [h.answers] at ha; cases ha

/-! ### The steps -/

lemma Inv.move (h : s.Inv) (hl : (s.pc t).loose = true) {x : Pc} (hx : x.loose = true)
    (ht : (s.setPc t x).ThreadOk t) : (s.setPc t x).Inv := by
  obtain ⟨hthread⟩ := h
  constructor
  · intro u
    by_cases hut : u = t
    · exact hut ▸ ht
    have hu := hthread u
    simp only [ThreadOk, setPc, update_apply, Awaited, Sleeping] at hu ⊢
    grind -order -ring -linarith [Pc.loose]
  all_goals simp only [Sleeping, setPc, update_apply] at *
  all_goals grind -order -ring -linarith [Pc.loose]

lemma Inv.answer (h : s.Inv) (hl : (s.pc t).loose = true ∨ s.pc t = .waitWoken p)
    (hp : s.parked t = false) {r : Except IpcError ℤ}
    (hr : p < maxProcesses → s.process p = true → ∃ code ∈ s.calls p, r = .ok code) :
    (s.answer t p r).Inv := by
  obtain ⟨hthread⟩ := h
  constructor
  · intro u
    have hu := hthread u
    simp only [ThreadOk, Sys.answer, update_apply, Awaited, Sleeping] at hu ⊢
    grind -order -ring -linarith [Pc.loose]
  all_goals simp only [Sleeping, Sys.answer, update_apply] at *
  all_goals grind -order -ring -linarith [Pc.loose]

lemma Inv.no_unblock (h : s.Inv) (hlock : s.lock = none) (u : ThreadId) (p : ProcessId)
    (w : ThreadId) : s.pc u ≠ .exitUnblock p w := by
  intro hu
  have hok := h.thread u
  simp only [ThreadOk, hu, hlock, reduceCtorEq, false_and, and_false] at hok

lemma Inv.register (h : s.Inv) (hpc : s.pc t = .waitRegister p) (hlock : s.lock = none)
    (hfree : s.waiters p = none) (htaken : s.taken p = false) :
    ({ s with waiters := update s.waiters p (some t) }.setPc t (.waitBlock p)).Inv := by
  have hno := h.no_unblock hlock
  obtain ⟨hthread⟩ := h
  constructor
  · intro u
    have hu := hthread u
    simp only [ThreadOk, setPc, update_apply, Awaited, Sleeping] at hu hno ⊢
    grind -order -ring -linarith
  all_goals simp only [Sleeping, setPc, update_apply] at *
  all_goals grind -order -ring -linarith

lemma Inv.block (h : s.Inv) (hpc : s.pc t = .waitBlock p) :
    ((s.blockCurrent t (.blockedProcessWait p)).setPc t (.waitWoken p)).Inv := by
  have hready : (ThreadState.blockedProcessWait p).isReady = false := rfl
  obtain ⟨hthread⟩ := h
  constructor
  · intro u
    have hu := hthread u
    simp only [ThreadOk, setPc, blockCurrent, update_apply, Awaited, Sleeping] at hu ⊢
    grind -order -ring -linarith
  all_goals simp only [Sleeping, setPc, blockCurrent, update_apply] at *
  all_goals grind -order -ring -linarith

lemma Inv.take (h : s.Inv) (hpc : s.pc t = .exitTake p) (hlock : s.lock = none)
    (hw : s.waiters p = some w) :
    ({ s with
        waiters := update s.waiters p none
        taken := update s.taken p true
        lock := some t }.setPc t (.exitUnblock p w)).Inv := by
  have hno := h.no_unblock hlock
  have hsleep := h.waiter p w hw
  obtain ⟨hthread⟩ := h
  constructor
  · intro u
    have hu := hthread u
    simp only [ThreadOk, setPc, update_apply, Awaited, Sleeping] at hu hno hsleep ⊢
    grind -order -ring -linarith
  case locked => exact fun u hu => ⟨p, w, by simp_all [setPc]⟩
  all_goals simp only [Sleeping, setPc, update_apply] at *
  all_goals grind -order -ring -linarith

lemma unblock_parked (hr : (s.state w).isReady = false) :
    s.unblock w = { s with
      state := update s.state w .runnable
      parked := update s.parked w false } := by
  rw [unblock, hr, if_neg Bool.false_ne_true]

section

variable (h : s.Inv)
include h

lemma Inv.wake (hpc : s.pc t = .exitUnblock p w) (hp : s.parked w = true) :
    ({ s.unblock w with lock := none }.exit t p).Inv := by
  have hok := h.thread t
  simp only [ThreadOk, hpc] at hok
  obtain ⟨htp, hcode, htk, hlock, hsl⟩ := hok
  have hwok := h.thread w
  have hready : (s.state w).isReady = false := by
    rcases hsl with hsl | ⟨hsl, -⟩ <;> simp_all [ThreadOk]
  -- only this thread was about to unblock somebody
  have honly : ∀ u q x, s.pc u = .exitUnblock q x → u = t := by
    intro u q x hu
    have hx := h.thread u
    simp only [ThreadOk, hu, hlock, Option.some.injEq] at hx
    exact hx.2.2.2.1.symm
  rw [unblock_parked hready]
  obtain ⟨hthread⟩ := h
  constructor
  · intro u
    have hu := hthread u
    by_cases huw : u = w <;>
      simp only [ThreadOk, Sys.exit, update_apply, Awaited, Sleeping] at hu hwok hsl ⊢ <;>
      grind -order -ring -linarith
  all_goals simp only [Sleeping, Sys.exit, ThreadOk, update_apply] at *
  all_goals grind -order -ring -linarith

lemma Inv.epipe {b : Bool} {ws : List ThreadId} (hpc : s.pc t = .exitEpipe p b (w :: ws))
    (hp : s.parked w = false) : ((s.unblock w).setPc t (.exitEpipe p b ws)).Inv := by
  unfold unblock
  split_ifs with hr
  · have hok := h.thread t
    simp only [ThreadOk, hpc] at hok
    exact h.move (by rw [hpc]; rfl) rfl (by simpa [ThreadOk, setPc] using hok)
  obtain ⟨hthread⟩ := h
  constructor
  · intro u
    have hu := hthread u
    have hw : update s.parked w false = s.parked := by rw [← hp, update_eq_self]
    simp only [ThreadOk, setPc, hw, update_apply, Awaited, Sleeping] at hu ⊢
    grind -order -ring -linarith
  all_goals simp only [Sleeping, setPc, update_apply] at *
  all_goals grind -order -ring -linarith

lemma Inv.mark {b : Bool} (hpc : s.pc t = .exitMark p b) :
    ((s.markDead p).setPc t (.exitScan p b)).Inv := by
  have hdead : ThreadState.dead.isReady = false := rfl
  obtain ⟨hthread⟩ := h
  constructor
  · intro u
    have hu := hthread u
    simp only [ThreadOk, setPc, markDead, update_apply, Awaited, Sleeping] at hu ⊢
    grind -order -ring -linarith
  all_goals simp only [Sleeping, setPc, markDead, update_apply] at *
  all_goals grind -order -ring -linarith

lemma Inv.store {code : ℤ} (hpc : s.pc t = .exitStore p code) :
    ({ s with exitCodes := update s.exitCodes p code }.setPc t
      (.exitMark p true)).Inv := by
  have hok := h.thread t
  simp only [ThreadOk, hpc] at hok
  obtain ⟨hthread⟩ := h
  constructor
  · intro u
    have hu := hthread u
    simp only [ThreadOk, setPc, update_apply, Awaited, Sleeping] at hu ⊢
    grind -order -ring -linarith
  all_goals simp only [Sleeping, setPc, update_apply] at *
  all_goals grind -order -ring -linarith

lemma Inv.takeNone (hpc : s.pc t = .exitTake p) (hlock : s.lock = none)
    (hw : s.waiters p = none) :
    ({ s with
        waiters := update s.waiters p none
        taken := update s.taken p true }.exit t p).Inv := by
  have hok := h.thread t
  simp only [ThreadOk, hpc] at hok
  have hno := h.no_unblock hlock
  obtain ⟨hthread⟩ := h
  constructor
  · intro u
    have hu := hthread u
    simp only [ThreadOk, Sys.exit, update_apply, Awaited, Sleeping] at hu ⊢
    grind -order -ring -linarith
  all_goals simp only [Sleeping, Sys.exit, update_apply] at *
  all_goals grind -order -ring -linarith

lemma Inv.exit_missing {ws : List ThreadId} (hpc : s.pc t = .exitEpipe p false ws) :
    (s.exit t p).Inv := by
  have hok := h.thread t
  simp only [ThreadOk, hpc] at hok
  obtain ⟨hthread⟩ := h
  constructor
  · intro u
    have hu := hthread u
    simp only [ThreadOk, Sys.exit, update_apply, Awaited, Sleeping] at hu ⊢
    grind -order -ring -linarith
  all_goals simp only [Sleeping, Sys.exit, update_apply] at *
  all_goals grind -order -ring -linarith

lemma Inv.call (hpc : s.pc t = .idle) (hp : s.parked t = false) {code : ℤ}
    (hcode : code ≠ i32Min) :
    ({ s with calls := update s.calls p (code :: s.calls p) }.setPc t
      (.exitCheck p code)).Inv := by
  obtain ⟨hthread⟩ := h
  constructor
  · intro u
    have hu := hthread u
    simp only [ThreadOk, setPc, update_apply, Awaited, Sleeping] at hu ⊢
    grind -order -ring -linarith
  all_goals simp only [Sleeping, setPc, update_apply] at *
  all_goals grind -order -ring -linarith

/-! ### Runs -/

lemma Inv.advance {found : List ThreadId} (hok : s.OrderlyAt (s.pc t))
    (hpark : s.parked t = false) (hs : s.advance t found = some s') : s'.Inv := by
  have ht := h.thread t
  unfold Sys.advance at hs
  split at hs <;> rename_i hpc <;> simp only [ThreadOk, OrderlyAt, hpc] at ht hok <;>
    try simp only [Option.some.injEq] at hs <;> subst hs
  case h_1 => cases hs
  case h_2 p =>
    split_ifs with hproc
    · exact h.move (by rw [hpc]; rfl) rfl (by simpa [ThreadOk, setPc] using hpark)
    · exact h.answer (.inl (by rw [hpc]; rfl)) hpark fun _ hp => absurd hp hproc
  case h_3 p =>
    split_ifs at hs with hlock
    cases hs
    exact h.register hpc hlock hok.1 hok.2
  case h_4 p => exact h.block hpc
  case h_5 p =>
    simp only [hpark, Bool.false_eq_true, false_and, false_or, true_and] at ht
    refine h.answer (.inr hpc) hpark fun _ _ => ⟨_, h.stored p ht, ?_⟩
    rw [if_pos ht]
  case h_6 p code =>
    split_ifs with hproc <;> refine h.move (by rw [hpc]; rfl) rfl ?_ <;>
      simp_all [ThreadOk, setPc]
  case h_7 p code => exact h.store hpc
  case h_8 p b => exact h.mark hpc
  case h_9 p b => exact h.move (by rw [hpc]; rfl) rfl (by simpa [ThreadOk, setPc] using ht)
  case h_10 p b w ws => exact h.epipe hpc hok
  case h_11 p b =>
    split_ifs with hb
    · refine h.move (by rw [hpc]; rfl) rfl ?_
      simpa [ThreadOk, setPc] using ⟨ht.1, ht.2.2 hb⟩
    · exact h.exit_missing (by rw [hpc, Bool.eq_false_of_not_eq_true hb])
  case h_12 p =>
    split_ifs at hs with hlock
    cases hw : s.waiters p with
    | none =>
      simp only [hw, Option.some.injEq] at hs
      exact hs ▸ h.takeNone hpc hlock hw
    | some w =>
      simp only [hw, Option.some.injEq] at hs
      exact hs ▸ h.take hpc hlock hw
  case h_13 p w => exact h.wake hpc hok

lemma Inv.next {a : Act} (hok : s.Orderly a) (hs : s.next a = some s') : s'.Inv := by
  cases a with
  | wait t p =>
    simp only [Sys.next] at hs
    split_ifs at hs with hidle
    cases hs
    obtain ⟨hpark, hpc⟩ := hidle
    unfold Sys.wait
    split_ifs with hlt hcode
    · exact h.answer (.inl (by rw [hpc]; rfl)) hpark fun _ _ => ⟨_, h.stored p hcode, rfl⟩
    · exact h.move (by rw [hpc]; rfl) rfl (by simpa [ThreadOk, setPc] using hpark)
    · exact h.answer (.inl (by rw [hpc]; rfl)) hpark fun hp => absurd hp hlt
  | exit t p code =>
    simp only [Sys.next] at hs
    split_ifs at hs with hidle hlt
    · cases hs
      exact h.call hidle.2 hidle.1 hok
    · cases hs
      exact h
  | run t found =>
    simp only [Sys.next] at hs
    split_ifs at hs with hpark
    exact h.advance hok hpark hs

end

/-- **A wait ends with the exit code.** In every run whose steps are orderly, for any number of
waiters and any exit codes: when `process_exit` has returned for a process, no thread is blocked in
a wait for it, and every wait for a process that exists has returned a code that the process was
exited with. -/
theorem wait_ends_with_code (h : s.Boot) (hrun : Runs Step Orderly s s') :
    (∀ p, s'.process p = true → s'.exited p = true → ∀ t, s'.state t ≠ .blockedProcessWait p) ∧
    ∀ a ∈ s'.answers, a.1 < maxProcesses → s'.process a.1 = true → ∃ code ∈ s'.calls a.1, a.2 =
    .ok code := by
  have hinv : s'.Inv := hrun.inv Inv h.inv fun _ _ _ hI hok hs => hI.next hok hs
  refine ⟨fun p hp hex t ht => ?_, hinv.answers⟩
  obtain ⟨htaken, hno⟩ := hinv.exited p hp hex
  obtain ⟨hpark, hpc⟩ := hinv.blocked t p ht
  have hok := hinv.thread t
  simp only [ThreadOk, hpc, hpark, true_and, Bool.true_eq_false, false_and, or_false] at hok
  rcases hok.1 with hw | ⟨u, hu⟩
  · rw [hinv.taken p htaken] at hw
    cases hw
  · exact hno u t hu

def start : Sys where
  process p := decide (p < maxProcesses)
  owner _ := none
  exitCodes _ := i32Min
  waiters _ := none
  lock := none
  state _ := .running
  parked _ := false
  pc _ := .idle
  calls _ := []
  taken _ := false
  exited _ := false
  answers := []

lemma boot_start : start.Boot :=
  ⟨fun _ => rfl, fun _ => rfl, rfl, fun _ _ => by simp [start], fun _ => rfl, fun _ => rfl,
    fun _ => rfl, fun _ => rfl, rfl⟩

def waits : List Act := [.wait 1 2, .run 1 [], .run 1 [], .run 1 []]

def exits (code : ℤ) : List Act :=
  [.exit 5 2 code, .run 5 [], .run 5 [], .run 5 [], .run 5 [], .run 5 []]

theorem wait_ends_with_code_seven :
    ∃ s, Runs.exec Orderly next start (waits ++ exits 7 ++ [.run 5 [], .run 5 [], .run 1 []]) =
        some s ∧ s.answers.map (·.1) = [2] ∧ s.exited 2 = true ∧
      (∀ t, s.state t ≠ .blockedProcessWait 2) ∧
      ∀ a ∈ s.answers, ∃ code ∈ s.calls a.1, a.2 = .ok code := by
  obtain ⟨s, hs, h⟩ := (Option.any_eq_true _ _).mp
    (show ((Runs.exec Orderly next start
        (waits ++ exits 7 ++ [.run 5 [], .run 5 [], .run 1 []])).any fun s =>
      s.answers.map (·.1) == [2] && s.exited 2 && s.process 2) = true by decide +kernel)
  simp only [Bool.and_eq_true, beq_iff_eq] at h
  obtain ⟨⟨ha, hex⟩, hp⟩ := h
  obtain ⟨hblocked, hcodes⟩ := wait_ends_with_code boot_start (Runs.of_exec hs)
  refine ⟨s, hs, ha, hex, hblocked 2 hp hex, fun a hmem => ?_⟩
  have h2 : a.1 = 2 := by
    have := List.mem_map_of_mem (f := (·.1)) hmem
    rwa [ha, List.mem_singleton] at this
  exact hcodes a hmem (by rw [h2]; decide) (by rw [h2, hp])

/-! ### Runs that are not orderly -/

def lateRegistration : List Act :=
  [.wait 1 2, .run 1 []] ++ exits 7 ++ [.run 5 [], .run 1 [], .run 1 []]

def earlyWake : List Act :=
  [.wait 1 2, .run 1 [], .run 1 []] ++ exits 7 ++ [.run 5 [], .run 5 [], .run 1 []]

def twoWaiters : List Act :=
  waits ++ [.wait 3 2, .run 3 [], .run 3 [], .run 3 []] ++ exits 7 ++ [.run 5 [], .run 5 []]

def minimalCode : List Act := exits i32Min ++ [.run 5 []] ++ waits

def Forgets (acts : List Act) : Prop :=
  ∃ s, Runs Step (fun _ _ => True) start s ∧
    Runs.exec (fun _ _ => True) next start acts = some s ∧
    s.process 2 = true ∧ s.exited 2 = true ∧ s.state 1 = .blockedProcessWait 2

lemma forgets_of_exec {acts : List Act}
    (h : ((Runs.exec (fun _ _ => True) next start acts).any fun s =>
      s.process 2 && s.exited 2 && decide (s.state 1 = .blockedProcessWait 2)) = true) :
    Forgets acts := by
  obtain ⟨s, hs, h⟩ := (Option.any_eq_true _ _).mp h
  simp only [Bool.and_eq_true, decide_eq_true_eq] at h
  exact ⟨s, Runs.of_exec hs, hs, h.1.1, h.1.2, h.2⟩

/-- Each of the four orders of events leaves the waiter waiting. -/
theorem waiter_forgotten : Forgets lateRegistration ∧ Forgets earlyWake ∧ Forgets twoWaiters ∧
    Forgets minimalCode := by
  refine ⟨?_, ?_, ?_, ?_⟩ <;> exact forgets_of_exec (by decide +kernel)

end Sys

end Aios.Task
