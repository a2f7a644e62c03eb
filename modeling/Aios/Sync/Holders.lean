import Aios.Sync.Stamp

/-!
The holder fields of an `IrqSpinLock`, `kernel/src/sync/irq_spin_lock.rs`, and the readers that take
a `consistent_snapshot` of them, `shared/src/lock.rs`.

Every load, store and CAS is one step of a thread, in any interleaving. Acquisitions are counted:
`holds` is the number of the last one, and `stored` has what each of them records. Readers remember
which acquisition owned the word at their two loads; the code does not.
-/

namespace Aios.Sync.Holders

open Aios.Lib Function

def tidNone : BitVec 32 := BitVec.allOnes 32

abbrev Site := ℕ

inductive Pc
  | idle
  -- hold, after the CAS
  | storeTid (tid : BitVec 32) (site : Site)
  | storeSite (site : Site)
  | restamp
  | held
  -- dropping the guard
  | clearSite
  | clearTid
  | release
  -- consistent_snapshot, after its first load
  | readTid (first : BitVec 64) (hold : ℕ)
  | readSite (first : BitVec 64) (hold : ℕ) (tid : BitVec 32)
  | reload (first : BitVec 64) (hold : ℕ) (tid : BitVec 32) (site : Site)
  | snapshot (first : BitVec 64) (hold hold' : ℕ) (tid : BitVec 32) (site : Site)
  deriving DecidableEq

def Pc.holding : Pc → Bool
  | storeTid _ _ | storeSite _ | restamp | held | clearSite | clearTid | release => true
  | _ => false

structure Sys (τ : Type*) where
  word : BitVec 64
  tid : BitVec 32
  site : Site
  holds : ℕ
  stored : ℕ → BitVec 32 × Site
  pc : τ → Pc

inductive Act
  -- `try_lock` or `try_lock_weak`, with the thread's stamp, id and place
  | acquire (stamp : OwnerStamp) (tid : BitVec 32) (site : Site)
  | drop
  | snapshot
  -- the next access of whatever the thread is in; a stamp as the CPU gives it
  | step (stamp : OwnerStamp)

namespace Sys

variable {τ : Type*}

def init : Sys τ := ⟨0, tidNone, 0, 0, fun _ => (0, 0), fun _ => .idle⟩

variable [DecidableEq τ]

def goto (s : Sys τ) (t : τ) (p : Pc) : Sys τ := { s with pc := update s.pc t p }

def next (s : Sys τ) (a : τ × Act) : Option (Sys τ) :=
  let t := a.1
  match s.pc t, a.2 with
  | .idle, .acquire stamp tid site =>
    if s.word = 0 then
      some ({ s with
        word := stamp.word
        holds := s.holds + 1
        stored := update s.stored (s.holds + 1) (tid, site) }.goto t (.storeTid tid site))
    else some s
  | .storeTid tid site, .step _ => some ({ s with tid := tid }.goto t (.storeSite site))
  | .storeSite site, .step _ => some ({ s with site := site }.goto t .restamp)
  | .restamp, .step stamp => some ({ s with word := stamp.word }.goto t .held)
  | .held, .drop => some (s.goto t .clearSite)
  | .clearSite, .step _ => some ({ s with site := 0 }.goto t .clearTid)
  | .clearTid, .step _ => some ({ s with tid := tidNone }.goto t .release)
  | .release, .step _ => some ({ s with word := 0 }.goto t .idle)
  | .idle, .snapshot =>
    match OwnerStamp.fromWord s.word with
    | none => some s
    | some stamp => some (s.goto t (.readTid stamp.word s.holds))
  | .readTid first hold, .step _ => some (s.goto t (.readSite first hold s.tid))
  | .readSite first hold tid, .step _ => some (s.goto t (.reload first hold tid s.site))
  | .reload first hold tid site, .step _ =>
    if s.word = first then some (s.goto t (.snapshot first hold s.holds tid site))
    else some (s.goto t .idle)
  | .snapshot _ _ _ _ _, .step _ => some (s.goto t .idle)
  | _, _ => none

abbrev Step (s : Sys τ) (a : τ × Act) (s' : Sys τ) : Prop := s.next a = some s'

omit [DecidableEq τ]

def Owned (s : Sys τ) (hold : ℕ) (tid : BitVec 32) (site : Site) : Prop :=
  (tid = tidNone ∨ tid = (s.stored hold).1) ∧ (site = 0 ∨ site = (s.stored hold).2)

/-! ### The protocol -/

def Ended (s : Sys τ) (hold : ℕ) : Prop := hold < s.holds ∨ s.word = 0

def Fine (s : Sys τ) : Pc → Prop
  | .storeTid tid site => s.stored s.holds = (tid, site)
  | .storeSite site => (s.stored s.holds).2 = site
  | .clearTid => s.site = 0
  | .release => s.site = 0 ∧ s.tid = tidNone
  | .readTid first hold => first ≠ 0 ∧ hold ≤ s.holds
  | .readSite first hold tid => first ≠ 0 ∧ hold ≤ s.holds ∧
      (s.Ended hold ∨ tid = tidNone ∨ tid = (s.stored hold).1)
  | .reload first hold tid site => first ≠ 0 ∧ hold ≤ s.holds ∧
      (s.Ended hold ∨ s.Owned hold tid site)
  | .snapshot _ hold hold' tid site => hold ≤ hold' ∧ hold' ≤ s.holds ∧
      (hold < hold' ∨ s.Owned hold tid site)
  | _ => True

structure Inv (s : Sys τ) : Prop where
  one : ∀ t u, (s.pc t).holding = true → (s.pc u).holding = true → t = u
  taken : ∀ t, (s.pc t).holding = true → s.word ≠ 0
  free : s.word = 0 → s.tid = tidNone ∧ s.site = 0
  owned : s.Owned s.holds s.tid s.site
  fine : ∀ t, s.Fine (s.pc t)

lemma inv_init : (init : Sys τ).Inv := by
  constructor <;> simp [init, Pc.holding, Owned, Fine]

variable {s s' : Sys τ} {t : τ} {p : Pc}

lemma Fine.mono (h : s.Fine p) (hp : p.holding = false) (hholds : s.holds ≤ s'.holds)
    (hstored : ∀ k ≤ s.holds, s'.stored k = s.stored k)
    (hended : ∀ k ≤ s.holds, s.Ended k → s'.Ended k) : s'.Fine p := by
  cases p with
  | readTid first hold => exact ⟨h.1, h.2.trans hholds⟩
  | readSite first hold tid =>
    obtain ⟨hne, hle, h⟩ := h
    exact ⟨hne, hle.trans hholds, h.imp (hended hold hle) fun h => by rwa [hstored hold hle]⟩
  | reload first hold tid site =>
    obtain ⟨hne, hle, h⟩ := h
    exact ⟨hne, hle.trans hholds, h.imp (hended hold hle) fun h => by rwa [Owned, hstored hold hle]⟩
  | snapshot first hold hold' tid site =>
    obtain ⟨hle, hle', h⟩ := h
    exact ⟨hle, hle'.trans hholds,
      h.imp_right fun h => by rwa [Owned, hstored hold (hle.trans hle')]⟩
  | _ => trivial

variable [DecidableEq τ]

lemma Inv.hold (h : s.Inv) (ht : ∀ u, (s.pc u).holding = true → u = t)
    (hholds : s.holds ≤ s'.holds) (hstored : ∀ k ≤ s.holds, s'.stored k = s.stored k)
    (hended : ∀ k ≤ s.holds, s.Ended k → s'.Ended k) (hpc : s'.pc = update s.pc t p)
    (htaken : p.holding = true → s'.word ≠ 0) (hfree : s'.word = 0 → s'.tid = tidNone ∧ s'.site = 0)
    (howned : s'.Owned s'.holds s'.tid s'.site) (hfine : s'.Fine p) : s'.Inv := by
  have hpcs : ∀ u, s'.pc u = if u = t then p else s.pc u := fun u => by
    rw [hpc, update_apply]
  refine ⟨fun u v hu hv => ?_, fun u hu => ?_, hfree, howned, fun u => ?_⟩
  · rw [hpcs] at hu hv
    have hu' := ht u
    have hv' := ht v
    grind -ring -linarith
  · rw [hpcs] at hu
    have hu' := ht u
    grind -ring -linarith
  · rw [hpcs]
    split_ifs with hut
    · exact hfine
    · refine (h.fine u).mono ?_ hholds hstored hended
      cases hp : (s.pc u).holding with
      | false => rfl
      | true => exact absurd (ht u hp) hut

lemma Inv.goto (h : s.Inv) (hfine : s.Fine p) (hp : p.holding = true → (s.pc t).holding = true) :
    (s.goto t p).Inv := by
  have hpcs : ∀ u, (s.goto t p).pc u = if u = t then p else s.pc u := fun u => by
    simp only [Sys.goto, update_apply]
  refine ⟨fun u v hu hv => ?_, fun u hu => ?_, h.free, h.owned, fun u => ?_⟩
  · rw [hpcs] at hu hv
    have := h.one u v
    grind -ring -linarith
  · rw [hpcs] at hu
    have := h.taken u
    grind -ring -linarith [Sys.goto]
  · rw [hpcs]
    split_ifs
    · exact hfine
    · exact h.fine u

lemma Inv.next {a : Act} (h : s.Inv) (hstep : s.next (t, a) = some s') : s'.Inv := by
  have hfine := h.fine t
  have hword : ∀ stamp : OwnerStamp, stamp.word ≠ 0 := fun stamp h0 => stamp.held (by simp [h0])
  obtain ⟨htid, hsite⟩ := h.owned
  -- the holder changes the fields
  have hown (w : BitVec 64) (i : BitVec 32) (x : Site) (p : Pc)
      (ht : (s.pc t).holding = true) (hp : p.holding = true) (hw : w ≠ 0)
      (howned : s.Owned s.holds i x) (hf : Sys.Fine { s with word := w, tid := i, site := x } p) :
      (Sys.goto { s with word := w, tid := i, site := x } t p).Inv := by
    refine h.hold (fun u hu => h.one u t hu ht) le_rfl (fun _ _ => rfl) (fun k _ hk => ?_) rfl
      (fun _ => hw) (fun h0 => absurd h0 hw) howned hf
    exact .inl (hk.resolve_right (h.taken t ht))
  unfold Sys.next at hstep
  cases hpc : s.pc t <;> cases a <;> simp only [hpc, reduceCtorEq] at hstep <;> rw [hpc] at hfine
  case idle.acquire stamp tid site =>
    split_ifs at hstep with hfree
    · cases hstep
      obtain ⟨hnone, hnull⟩ := h.free hfree
      refine h.hold (fun u hu => absurd hfree (h.taken u hu)) (Nat.le_succ _) (fun k hk => ?_)
        (fun k hk _ => .inl (Nat.lt_succ_of_le hk)) rfl (fun _ => hword stamp)
        (fun h0 => absurd h0 (hword stamp)) ⟨.inl hnone, .inl hnull⟩ (update_self _ _ _)
      exact update_of_ne (by omega) _ _
    · cases hstep
      exact h
  case idle.snapshot =>
    unfold OwnerStamp.fromWord at hstep
    split_ifs at hstep with hheld
    · cases hstep
      exact h
    · cases hstep
      exact h.goto ⟨fun (h0 : s.word = 0) => hheld (by simp [h0]), le_rfl⟩ (absurd · Bool.false_ne_true)
  case storeTid.step tid site stamp =>
    cases hstep
    refine hown s.word tid s.site _ (by rw [hpc]; rfl) rfl (h.taken t (by rw [hpc]; rfl))
      ⟨?_, hsite⟩ ?_
    · rw [hfine]; exact .inr rfl
    · exact congrArg Prod.snd hfine
  case storeSite.step site stamp =>
    cases hstep
    exact hown s.word s.tid site _ (by rw [hpc]; rfl) rfl (h.taken t (by rw [hpc]; rfl))
      ⟨htid, .inr hfine.symm⟩ trivial
  case restamp.step stamp =>
    cases hstep
    exact hown stamp.word s.tid s.site _ (by rw [hpc]; rfl) rfl (hword stamp) ⟨htid, hsite⟩ trivial
  case held.drop =>
    cases hstep
    exact h.goto trivial fun _ => by rw [hpc]; rfl
  case clearSite.step stamp =>
    cases hstep
    exact hown s.word s.tid 0 _ (by rw [hpc]; rfl) rfl (h.taken t (by rw [hpc]; rfl))
      ⟨htid, .inl rfl⟩ rfl
  case clearTid.step stamp =>
    cases hstep
    exact hown s.word tidNone s.site _ (by rw [hpc]; rfl) rfl (h.taken t (by rw [hpc]; rfl))
      ⟨.inl rfl, hsite⟩ ⟨hfine, rfl⟩
  case release.step stamp =>
    cases hstep
    refine h.hold (fun u hu => h.one u t hu (by rw [hpc]; rfl)) le_rfl (fun _ _ => rfl)
      (fun _ _ _ => .inr rfl) rfl (absurd · Bool.false_ne_true) (fun _ => hfine.symm) ⟨htid, hsite⟩ trivial
  case readTid.step first hold stamp =>
    cases hstep
    obtain ⟨hne, hle⟩ := hfine
    refine h.goto ⟨hne, hle, ?_⟩ (absurd · Bool.false_ne_true)
    rcases hle.lt_or_eq with hlt | rfl
    · exact .inl (.inl hlt)
    · exact .inr htid
  case readSite.step first hold tid stamp =>
    cases hstep
    obtain ⟨hne, hle, ht⟩ := hfine
    refine h.goto ⟨hne, hle, ?_⟩ (absurd · Bool.false_ne_true)
    rcases hle.lt_or_eq with hlt | rfl
    · exact .inl (.inl hlt)
    · exact ht.imp_right fun ht => ⟨ht, hsite⟩
  case reload.step first hold tid site stamp =>
    obtain ⟨hne, hle, hf⟩ := hfine
    split_ifs at hstep with hsame
    · cases hstep
      refine h.goto ⟨hle, le_rfl, hf.imp_left fun hend => ?_⟩ (absurd · Bool.false_ne_true)
      exact hend.resolve_right (hsame ▸ hne)
    · cases hstep
      exact h.goto trivial (absurd · Bool.false_ne_true)
  case snapshot.step =>
    cases hstep
    exact h.goto trivial (absurd · Bool.false_ne_true)

lemma Inv.runs (hrun : Runs Step (fun _ _ => True) init s) : s.Inv :=
  hrun.inv Inv inv_init fun _ _ _ h _ hstep => h.next hstep

end Sys

open Sys

/-- **Snapshots.** A snapshot that is returned shows, field by field, what the acquisition that
owned the stamp records, or a cleared field, unless that one was released and a later acquisition
owns the same stamp at the second load. -/
theorem snapshots_unmixed {τ : Type*} [DecidableEq τ] {s : Sys τ} {t : τ} {first : BitVec 64}
    {hold hold' : ℕ} {tid : BitVec 32} {site : Site} (hrun : Runs Step (fun _ _ => True) init s)
    (h : s.pc t = .snapshot first hold hold' tid site) : hold < hold' ∨ s.Owned hold tid site := by
  have hfine := (Inv.runs hrun).fine t
  rw [h] at hfine
  exact hfine.2.2

def between : List (Bool × Act) :=
  let stamp := OwnerStamp.new 0 5 false
  [(false, .acquire stamp 7 9), (true, .snapshot), (false, .step stamp), (true, .step stamp),
    (true, .step stamp), (false, .step stamp), (true, .step stamp)]

theorem snapshots_unmixed_between : ∃ s : Sys Bool, Runs Step (fun _ _ => True) init s ∧
    s.pc true = .snapshot (OwnerStamp.new 0 5 false).word 1 1 7 0 ∧ (1 < 1 ∨ s.Owned 1 7 0) := by
  obtain ⟨s, hrun, h⟩ : ∃ s : Sys Bool, Runs Step (fun _ _ => True) init s ∧
      s.pc true = .snapshot (OwnerStamp.new 0 5 false).word 1 1 7 0 :=
    Runs.exists_of_exec between (by decide +kernel)
  exact ⟨s, hrun, h, snapshots_unmixed hrun h⟩

end Aios.Sync.Holders
