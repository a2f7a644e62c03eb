import Aios.Sync.Machine

/-!
A reported re-entry of a lock is one.

A stamp that a frame has read names a generation that has ended or the one its own thread is running
in (`Valid`); this is what the second read of the CPU id is for. The stamp in the lock word has the
same property for the holder, so two stamps that name one current generation belong to one thread.
A dispatch under way needs care, because the thread that is switched out and the one that is resumed
share the new generation; there a stamp of the new generation is only in the frame that dispatches,
and the guards taken with one are released before the other thread starts.
-/

namespace Aios.Sync

open Aios.Lib Aios.Sched Option BitVec

lemma Core.toNat_id (c : Core) : (Core.id c).toNat = c := by
  have hc : (c : ℕ) < 8 := c.isLt
  simp only [Core.id, toNat_ofNat]
  omega

lemma Core.id_inj {c d : Core} (h : Core.id c = Core.id d) : c = d := by
  apply Fin.ext
  rw [← Core.toNat_id c, ← Core.toNat_id d, h]

namespace Sys

variable {s s' : Sys} {t u : ThreadId} {l m : ℕ} {c d : Core} {g : ℕ} {st : OwnerStamp} {p : Pc}

lemma switchGen_id (s : Sys) (c : Core) : s.switchGen c.id = BitVec.ofNat 64 (s.gen c) := by
  have hc : c.id.toNat < maxCores := by rw [Core.toNat_id]; exact c.isLt
  unfold switchGen
  rw [dif_pos hc]
  congr 2
  exact Fin.ext (Core.toNat_id c)

lemma switchGenMasked_id (s : Sys) (c : Core) : s.switchGenMasked c.id = s.switchGen c.id := by
  have hc : ∀ c : Core, c.id &&& BitVec.ofNat 8 (maxCores - 1) = c.id := by decide
  unfold switchGenMasked
  rw [hc]

lemma toNat_switchGen (h : s.gen c < 2 ^ 54) : (s.switchGen c.id).toNat = s.gen c := by
  rw [switchGen_id, toNat_ofNat]
  omega

/-! ### The invariant -/

/-- A generation that has ended, or the one the thread runs in. While a dispatch is under way only
the topmost frame has seen the new generation. -/
def Pair (s : Sys) (t : ThreadId) (l : ℕ) (c : Core) (g : ℕ) : Prop :=
  g ≤ s.gen c ∧ (g = s.gen c → s.running c = t ∧ (s.window c = true → l = s.top t))

def Valid (s : Sys) (t : ThreadId) (l : ℕ) (st : OwnerStamp) : Prop :=
  ∃ c : Core, st.cpu = c.id ∧ s.Pair t l c st.gen.toNat

/-- If the observed word has the frame's own stamp and that generation is current, the frame's
thread holds the lock with that word. -/
def Own (s : Sys) (t : ThreadId) (l : ℕ) (st : OwnerStamp) (observed : BitVec 64) : Prop :=
  ∀ owner (c : Core), OwnerStamp.fromWord observed = some owner → owner.cpu = st.cpu →
    owner.gen = st.gen → st.cpu = c.id → st.gen.toNat = s.gen c →
      s.word = observed ∧ ∃ m ≤ l, s.holder = some (t, m)

def Holding (s : Sys) (t : ThreadId) (l : ℕ) : Prop :=
  s.holder = some (t, l) ∧
    (l = s.top t → ∀ c, s.running c = t → s.window c = true → s.fresh = true)

def FrameOk (s : Sys) (t : ThreadId) (l : ℕ) : Pc → Prop
  | .idle | .readCpu _ _ | .readGen _ _ _ | .panicked => True
  | .readAgain _ _ cpu gen => gen.toNat ≤ s.gen cpu
  | .recheck _ _ cpu gen => s.Pair t l cpu gen.toNat
  | .cas _ stamp | .observe _ stamp | .spin stamp => s.Valid t l stamp
  | .classify _ stamp observed => s.Valid t l stamp ∧ s.Own t l stamp observed
  | .holdCpu stamp | .holdGen stamp _ | .restamp stamp => s.Holding t l ∧ s.Valid t l stamp
  | .holdAgain stamp cpu gen => s.Holding t l ∧ s.Valid t l stamp ∧ gen.toNat ≤ s.gen cpu

def WordOk (s : Sys) : Prop :=
  match s.holder with
  | none => s.word = 0
  | some (t, l) => l ≤ s.top t ∧ ∃ (st : OwnerStamp) (c : Core), s.word = st.word ∧
      st.cpu = c.id ∧ st.gen.toNat ≤ s.gen c ∧
      (st.gen.toNat = s.gen c → s.running c = t ∧ (s.window c = true → s.fresh = true))

structure Inv (s : Sys) : Prop where
  inj : Function.Injective s.running
  small : ∀ c, s.gen c < 2 ^ 54
  masked : ∀ c, s.window c = true → (s.current c).irqsOn = false
  frame : ∀ t l, l ≤ s.top t → s.FrameOk t l (s.frames t l).pc
  word : s.WordOk

lemma Boot.inv (h : s.Boot) : s.Inv where
  inj := h.running
  small c := by rw [h.gen c]; decide
  masked c hw := absurd hw (by rw [h.window c]; decide)
  frame t l _ := by rw [h.pc t l]; trivial
  word := by simp only [WordOk, h.holder, h.word]

lemma WordOk.holder_eq_none (h : s.WordOk) (h0 : s.word = 0) : s.holder = none := by
  unfold WordOk at h
  split at h
  · assumption
  · obtain ⟨-, st, _, hw, -⟩ := h
    exact absurd (hw.symm.trans h0) st.word_ne_zero

/-! ### Keeping what holds of a frame -/

lemma Valid.mono (hpair : ∀ c g, s.Pair t l c g → s'.Pair t m c g) (h : s.Valid t l st) :
    s'.Valid t m st := by
  obtain ⟨c, hc, hp⟩ := h
  exact ⟨c, hc, hpair c _ hp⟩

/-- A frame keeps what holds of it when the generations only grow, the pairs it has read stay good,
and nobody takes its thread's guard away. -/
lemma FrameOk.mono (h : s.FrameOk t l p) (hgen : ∀ c, s.gen c ≤ s'.gen c)
    (hpair : ∀ c g, s.Pair t l c g → s'.Pair t l c g)
    (hword : ∀ m ≤ l, s.holder = some (t, m) → s'.holder = s.holder ∧ s'.word = s.word)
    (hhold : s.Holding t l → s'.Holding t l) : s'.FrameOk t l p := by
  cases p with
  | idle | readCpu | readGen | panicked => trivial
  | readAgain _ _ cpu => exact h.trans (hgen cpu)
  | recheck _ _ cpu => exact hpair _ _ h
  | cas | observe | spin => exact Valid.mono hpair h
  | holdCpu | holdGen | restamp => exact ⟨hhold h.1, Valid.mono hpair h.2⟩
  | holdAgain _ cpu => exact ⟨hhold h.1, Valid.mono hpair h.2.1, h.2.2.trans (hgen cpu)⟩
  | classify _ stamp observed =>
    obtain ⟨hv, ho⟩ := h
    refine ⟨Valid.mono hpair hv, ?_⟩
    intro owner c h1 h2 h3 h4 h5
    -- the generation is current after the step, so it was before
    have hcur : stamp.gen.toNat = s.gen c := by
      obtain ⟨d, hd, hp, -⟩ := hv
      cases Core.id_inj (hd.symm.trans h4)
      exact le_antisymm hp (h5 ▸ hgen c)
    obtain ⟨hw, m, hm, hh⟩ := ho owner c h1 h2 h3 h4 hcur
    obtain ⟨hh', hw'⟩ := hword m hm hh
    exact ⟨hw'.trans hw, m, hm, hh'.trans hh⟩

/-! ### Steps that change only the frame -/

@[simp] lemma setFrame_frames_self (s : Sys) (t : ThreadId) (l : ℕ) (f : Frame) :
    (s.setFrame t l f).frames t l = f := by
  simp [setFrame]

lemma setFrame_frames_of_ne (f : Frame) (h : ¬ (u = t ∧ m = l)) :
    (s.setFrame t l f).frames u m = s.frames u m := by
  by_cases hu : u = t
  · subst hu
    simp only [setFrame, Function.update_self]
    exact Function.update_of_ne (fun hm => h ⟨rfl, hm⟩) _ _
  · simp only [setFrame, Function.update_of_ne hu]

lemma Inv.setFrame (h : s.Inv) {f : Frame} (hf : s.FrameOk t l f.pc)
    (hmask : ∀ c, s.running c = t → s.top t = l → s.window c = true → f.irqsOn = false) :
    (s.setFrame t l f).Inv where
  inj := h.inj
  small := h.small
  masked c hw := by
    change ((s.setFrame t l f).frames (s.running c) (s.top (s.running c))).irqsOn = false
    by_cases hc : s.running c = t ∧ s.top (s.running c) = l
    · obtain ⟨rfl, rfl⟩ := hc
      rw [setFrame_frames_self]
      exact hmask c rfl rfl hw
    · rw [setFrame_frames_of_ne f hc]
      exact h.masked c hw
  frame u m hm := by
    change s.FrameOk u m _
    by_cases hu : u = t ∧ m = l
    · obtain ⟨rfl, rfl⟩ := hu
      rw [setFrame_frames_self]
      exact hf
    · rw [setFrame_frames_of_ne f hu]
      exact h.frame u m hm
  word := h.word

lemma Inv.goto (h : s.Inv) (hp : s.FrameOk (s.running c) (s.top (s.running c)) p) :
    (s.goto c p).Inv := by
  refine h.setFrame hp ?_
  intro d hd _ hw
  rw [h.inj hd] at hw
  exact h.masked c hw

lemma Inv.current (h : s.Inv) (c : Core) :
    s.FrameOk (s.running c) (s.top (s.running c)) (s.current c).pc :=
  h.frame _ _ le_rfl

/-! ### Taking the stamp -/

lemma pair_of_again (hg : g ≤ s.gen c) : s.Pair (s.running c) (s.top (s.running c)) c g :=
  ⟨hg, fun _ => ⟨rfl, fun _ => rfl⟩⟩

lemma Pair.valid_new (h : s.Inv) {gen : BitVec 64} (b : Bool) (hp : s.Pair t l c gen.toNat) :
    s.Valid t l (OwnerStamp.new c.id gen b) := by
  have hg : (OwnerStamp.new c.id gen b).gen.toNat = gen.toNat := by
    have hlt : gen.toNat < 2 ^ 54 := lt_of_le_of_lt hp.1 (h.small c)
    rw [OwnerStamp.gen_new]
    have := toNat_genMask hlt
    rwa [ofNat_toNat, setWidth_eq] at this
  exact ⟨c, OwnerStamp.cpu_new _ _ _, hg ▸ hp⟩

/-! ### The word -/

lemma Inv.cas (h : s.Inv) (h0 : s.word = 0)
    (hv : s.Valid (s.running c) (s.top (s.running c)) st) :
    ({ s with
        word := st.word
        holder := some (s.running c, s.top (s.running c))
        fresh := s.window c } : Sys).Inv where
  inj := h.inj
  small := h.small
  masked := h.masked
  frame t l hl := by
    have hnone := h.word.holder_eq_none h0
    refine (h.frame t l hl).mono (fun _ => le_rfl) (fun _ _ hp => hp) ?_ ?_
    · intro m _ hm
      rw [hnone] at hm
      cases hm
    · intro hh
      rw [hh.1] at hnone
      cases hnone
  word := by
    obtain ⟨d, hd, hle, hcur⟩ := hv
    refine ⟨le_rfl, st, d, rfl, hd, hle, ?_⟩
    intro hg
    have hrun := (hcur hg).1
    cases h.inj hrun
    exact ⟨rfl, fun hw => hw⟩

lemma Inv.restamp (h : s.Inv) (hpc : (s.current c).pc = .restamp st) :
    ({ s with word := st.word } : Sys).Inv where
  inj := h.inj
  small := h.small
  masked := h.masked
  frame t l hl := by
    obtain ⟨hh, hv⟩ : s.Holding _ _ ∧ s.Valid _ _ st := by
      have := h.current c
      rwa [hpc] at this
    by_cases hc : t = s.running c ∧ l = s.top (s.running c)
    · obtain ⟨rfl, rfl⟩ := hc
      change FrameOk _ _ _ (s.current c).pc
      rw [hpc]
      exact ⟨hh, hv⟩
    · refine (h.frame t l hl).mono (fun _ => le_rfl) (fun _ _ hp => hp) ?_ (fun hh => hh)
      -- the holder is the running frame, so no other frame is on top of it
      intro m hm hm'
      rw [hh.1] at hm'
      obtain ⟨rfl, rfl⟩ := Prod.mk.inj (Option.some.inj hm')
      exact absurd ⟨rfl, le_antisymm hl hm⟩ hc
  word := by
    obtain ⟨hh, d, hd, hle, hcur⟩ : s.Holding _ _ ∧ s.Valid _ _ st := by
      have := h.current c
      rwa [hpc] at this
    simp only [WordOk, hh.1]
    refine ⟨le_rfl, st, d, rfl, hd, hle, ?_⟩
    intro hg
    have hrun := (hcur hg).1
    exact ⟨hrun, hh.2 rfl d hrun⟩

lemma Inv.own (h : s.Inv) (hv : s.Valid (s.running c) (s.top (s.running c)) st) :
    s.Own (s.running c) (s.top (s.running c)) st s.word := by
  intro owner e h1 h2 h3 h4 h5
  refine ⟨rfl, ?_⟩
  obtain ⟨d, hd, -, hcur⟩ := hv
  obtain rfl : e = d := Core.id_inj (h4.symm.trans hd)
  have hrun := (hcur h5).1
  have hw := h.word
  unfold WordOk at hw
  split at hw
  · have hfree : OwnerStamp.fromWord 0 = none := by decide
    rw [hw, hfree] at h1
    cases h1
  · rename_i t m hh
    obtain ⟨hm, so, d, hso, hcpu, -, hcur'⟩ := hw
    rw [hso, OwnerStamp.fromWord_word] at h1
    cases Option.some.inj h1
    -- both stamps name this CPU's generation, in which one thread runs
    obtain rfl : e = d := Core.id_inj (h4.symm.trans (h2.symm.trans hcpu))
    have ht : s.running e = t := (hcur' (by rw [h3, h5])).1
    have hct : t = s.running c := ht.symm.trans hrun
    subst hct
    exact ⟨m, hm, hh⟩

/-! ### One step -/

lemma Inv.advance {b : Bool} (h : s.Inv) (hs : s.advance c b = some s') : s'.Inv := by
  have hcur := h.current c
  unfold Sys.advance at hs
  split at hs <;> rename_i hpc <;> rw [hpc] at hcur
  · cases hs
  · -- readCpu
    cases hs
    exact h.goto trivial
  · -- readGen
    cases hs
    exact h.goto (toNat_switchGen (h.small _)).le
  · -- readAgain
    rename_i cpu gen
    cases hs
    refine h.goto ?_
    split_ifs with hc
    · subst hc
      exact pair_of_again hcur
    · trivial
  · -- recheck
    cases hs
    refine h.goto ?_
    split_ifs
    · exact Pair.valid_new h _ hcur
    · trivial
  · -- cas
    rename_i kind stamp
    split_ifs at hs with h0
    · cases hs
      have hv : s.Valid _ _ stamp := hcur
      refine (h.cas h0.1 hv).goto ⟨⟨rfl, ?_⟩, hv⟩
      intro _ d hd hw
      cases h.inj hd
      exact hw
    · cases hs
      refine h.goto ?_
      cases kind
      · exact hcur
      · exact hcur
      · trivial
  · -- observe
    cases hs
    refine h.goto ?_
    split_ifs
    · exact hcur
    · exact ⟨hcur, h.own hcur⟩
  · -- classify
    rename_i kind stamp observed
    cases hs
    refine h.goto ?_
    cases kind
    · dsimp only
      split_ifs
      · trivial
      · exact hcur.1
    · trivial
    · trivial
  · -- spin
    cases hs
    split_ifs
    · exact h.goto trivial
    · exact h.goto hcur
    · exact h
  · cases hs
  · -- holdCpu
    cases hs
    exact h.goto hcur
  · -- holdGen
    cases hs
    refine h.goto ⟨hcur.1, hcur.2, ?_⟩
    rw [switchGenMasked_id, toNat_switchGen (h.small _)]
  · -- holdAgain
    rename_i cpu gen
    obtain ⟨hh, hv, hg⟩ := hcur
    cases hs
    refine h.goto ⟨hh, ?_⟩
    split_ifs with hc
    · subst hc
      exact Pair.valid_new h _ (pair_of_again hg)
    · exact hv
  · -- restamp
    cases hs
    exact (h.restamp hpc).goto trivial

lemma Inv.release (h : s.Inv) (hpc : (s.current c).pc = .idle)
    (hh : s.holder = some (s.running c, s.top (s.running c))) :
    ({ s with word := 0, holder := none, fresh := false } : Sys).Inv where
  inj := h.inj
  small := h.small
  masked := h.masked
  frame t l hl := by
    by_cases hc : t = s.running c ∧ l = s.top (s.running c)
    · obtain ⟨rfl, rfl⟩ := hc
      change FrameOk _ _ _ (s.current c).pc
      rw [hpc]
      trivial
    · -- the guard was not this frame's, nor one of a frame below it
      have hne : ∀ m ≤ l, s.holder ≠ some (t, m) := by
        intro m hm hm'
        rw [hh] at hm'
        obtain ⟨rfl, rfl⟩ := Prod.mk.inj (Option.some.inj hm')
        exact hc ⟨rfl, le_antisymm hl hm⟩
      exact (h.frame t l hl).mono (fun _ => le_rfl) (fun _ _ hp => hp)
        (fun m hm hm' => absurd hm' (hne m hm)) (fun hh' => absurd hh'.1 (hne l le_rfl))
  word := rfl

/-- The word stays the holder's stamp when the guard stays where it is and a generation that has
ended, or that the holder runs in, is one of these afterwards too. -/
lemma WordOk.mono (h : s.WordOk) (hword : s'.word = s.word) (hholder : s'.holder = s.holder)
    (htop : ∀ t l, s.holder = some (t, l) → l ≤ s.top t → l ≤ s'.top t)
    (hgen : ∀ t l c g, s.holder = some (t, l) → g ≤ s.gen c →
      (g = s.gen c → s.running c = t ∧ (s.window c = true → s.fresh = true)) →
      g ≤ s'.gen c ∧ (g = s'.gen c → s'.running c = t ∧ (s'.window c = true → s'.fresh = true))) :
    s'.WordOk := by
  unfold WordOk at h ⊢
  rw [hword, hholder]
  split at h
  · exact h
  · rename_i t l hh
    obtain ⟨hl, st, c, hw, hc, hg, hcur⟩ := h
    exact ⟨htop t l hh hl, st, c, hw, hc, hgen t l c _ hh hg hcur⟩

lemma Inv.setTop (h : s.Inv) {n : ℕ} (hwin : s.window c = false)
    (hle : ∀ l ≤ n, s.FrameOk (s.running c) l (s.frames (s.running c) l).pc)
    (hhold : ∀ m, s.holder = some (s.running c, m) → m ≤ n) :
    ({ s with top := Function.update s.top (s.running c) n } : Sys).Inv := by
  have hother : ∀ d, s.window d = true → s.running d ≠ s.running c := by
    intro d hd hdc
    rw [h.inj hdc, hwin] at hd
    cases hd
  refine ⟨h.inj, h.small, ?_, ?_, ?_⟩
  · intro d hd
    have hmask := h.masked d hd
    simp only [Sys.current, Function.update_of_ne (hother d hd)] at hmask ⊢
    exact hmask
  · intro t l hl
    have hok : s.FrameOk t l (s.frames t l).pc := by
      have hframe := h.frame t l
      grind -ring -linarith [Function.update_apply]
    refine hok.mono (fun _ => le_rfl) ?_ (fun _ _ _ => ⟨rfl, rfl⟩) ?_
    · intro d g
      have hd := hother d
      simp only [Pair, Function.update_apply]
      grind -ring -linarith
    · have hd := hother
      simp only [Holding, Function.update_apply]
      grind -ring -linarith
  · refine h.word.mono rfl rfl ?_ (fun _ _ _ _ _ hg hcur => ⟨hg, hcur⟩)
    intro t l hh hl
    simp only [Function.update_apply]
    grind -ring -linarith

lemma WordOk.holder_le (h : s.WordOk) (hh : s.holder = some (t, l)) : l ≤ s.top t := by
  unfold WordOk at h
  rw [hh] at h
  exact h.1

lemma Inv.irq (h : s.Inv) (hon : (s.current c).irqsOn = true) :
    ({ s.setFrame (s.running c) (s.top (s.running c) + 1) ⟨false, .idle⟩ with
        top := Function.update s.top (s.running c) (s.top (s.running c) + 1) } : Sys).Inv := by
  have hwin : s.window c = false := by
    by_contra hw
    rw [h.masked c (by simpa using hw)] at hon
    cases hon
  have h1 : (s.setFrame (s.running c) (s.top (s.running c) + 1) ⟨false, .idle⟩).Inv :=
    h.setFrame trivial fun _ _ hlt => absurd hlt (by omega)
  refine h1.setTop (c := c) hwin ?_ ?_
  · intro l hl
    rcases Nat.lt_or_ge l (s.top (s.running c) + 1) with hlt | hge
    · exact h1.frame _ l (Nat.lt_succ_iff.mp hlt)
    · cases le_antisymm hl hge
      change FrameOk _ _ _ ((s.setFrame _ _ _).frames (s.running c) _).pc
      rw [setFrame_frames_self]
      trivial
  · intro m hm
    exact (h.word.holder_le hm).trans (Nat.le_succ _)

lemma Inv.eret (h : s.Inv) (hwin : s.window c = false)
    (hh : s.holder ≠ some (s.running c, s.top (s.running c))) :
    ({ s with
        top := Function.update s.top (s.running c) (s.top (s.running c) - 1) } : Sys).Inv := by
  refine h.setTop hwin ?_ ?_
  · intro l hl
    exact h.frame _ l (hl.trans (Nat.sub_le _ _))
  · intro m hm
    have hle := h.word.holder_le hm
    have hne : m ≠ s.top (s.running c) := by
      rintro rfl
      exact hh hm
    omega

lemma Inv.bump (h : s.Inv) (hpc : (s.current c).pc = .idle) (hoff : (s.current c).irqsOn = false)
    (hfit : s.gen c + 1 < 2 ^ 54) :
    ({ s with
        gen := Function.update s.gen c (s.gen c + 1)
        window := Function.update s.window c true } : Sys).Inv := by
  refine ⟨h.inj, ?_, ?_, ?_, ?_⟩
  · intro d
    have hd := h.small d
    grind -ring -linarith [Function.update_apply]
  · intro d hw
    have hd := h.masked d
    change (s.current d).irqsOn = false
    grind -ring -linarith [Function.update_apply]
  · intro t l hl
    by_cases hc : t = s.running c ∧ l = s.top (s.running c)
    · obtain ⟨rfl, rfl⟩ := hc
      change FrameOk _ _ _ (s.current c).pc
      rw [hpc]
      trivial
    · refine (h.frame t l hl).mono ?_ ?_ (fun _ _ _ => ⟨rfl, rfl⟩) ?_
      · grind -ring -linarith [Function.update_apply]
      · -- a generation that is current after the bump is another CPU's
        simp only [Pair, Function.update_apply]
        grind -ring -linarith
      · simp only [Holding, Function.update_apply]
        grind -ring -linarith
  · refine h.word.mono rfl rfl (fun _ _ _ hl => hl) ?_
    simp only [Function.update_apply]
    grind -ring -linarith

lemma Inv.restore (h : s.Inv) (hpc : (s.current c).pc = .idle) (hwin : s.window c = true)
    (hfree : ¬ (s.fresh = true ∧ s.holder.map Prod.fst = some (s.running c)))
    (hrun : ∀ d, d ≠ c → s.running d ≠ u) :
    ({ s with
        running := Function.update s.running c u
        window := Function.update s.window c false } : Sys).Inv := by
  refine ⟨?_, h.small, ?_, ?_, ?_⟩
  · intro d e hde
    have hinj := @h.inj d e
    grind -ring -linarith [Function.update_apply]
  · intro d hw
    have hd := h.masked d
    simp only [Sys.current, Function.update_apply] at hw hd ⊢
    grind -ring -linarith
  · intro t l hl
    by_cases hc : t = s.running c ∧ l = s.top (s.running c)
    · obtain ⟨rfl, rfl⟩ := hc
      change FrameOk _ _ _ (s.current c).pc
      rw [hpc]
      trivial
    · refine (h.frame t l hl).mono (fun _ => le_rfl) ?_ (fun _ _ _ => ⟨rfl, rfl⟩) ?_
      · -- only the frame that dispatched has seen the new generation
        simp only [Pair, Function.update_apply]
        grind -ring -linarith
      · simp only [Holding, Function.update_apply]
        grind -ring -linarith
  · refine h.word.mono rfl rfl (fun _ _ _ hl => hl) ?_
    intro t l d g hh hg hcur
    have hd : g = s.gen d → d ≠ c := by
      rintro hgd rfl
      exact hfree ⟨(hcur hgd).2 hwin, by rw [hh, (hcur hgd).1]; rfl⟩
    simp only [Function.update_apply]
    grind -ring -linarith

lemma Inv.next {a : Act} (h : s.Inv) (hfit : s.Fits a) (hs : s.next a = some s') : s'.Inv := by
  cases a with
  | acquire c kind =>
    simp only [Sys.next] at hs
    split_ifs at hs
    cases hs
    exact h.goto trivial
  | step c b => exact h.advance hs
  | release c =>
    obtain ⟨hc, ⟨⟩⟩ := ite_none_right_eq_some.mp hs
    exact h.release hc.1 hc.2
  | setIrqs c on =>
    obtain ⟨hc, ⟨⟩⟩ := ite_none_right_eq_some.mp hs
    refine h.setFrame (h.current c) ?_
    intro d hd _ hw
    rw [h.inj hd, hc.2] at hw
    cases hw
  | irq c =>
    obtain ⟨hc, ⟨⟩⟩ := ite_none_right_eq_some.mp hs
    exact h.irq hc
  | eret c =>
    obtain ⟨hc, ⟨⟩⟩ := ite_none_right_eq_some.mp hs
    exact h.eret hc.2.1 hc.2.2.2
  | bump c =>
    obtain ⟨hc, ⟨⟩⟩ := ite_none_right_eq_some.mp hs
    exact h.bump hc.1 hc.2.1 hfit
  | restore c u =>
    obtain ⟨hc, ⟨⟩⟩ := ite_none_right_eq_some.mp hs
    exact h.restore hc.1 hc.2.1 hc.2.2.1 hc.2.2.2

/-- **No false re-entry.** In every interleaving, when the classification of a contended word
reports a re-entry, the lock is held with that word by the waiter's own thread, in the waiter's
frame or in one it is nested on, and the word names the CPU and the dispatch the waiter runs in. -/
theorem reentry_is_own_stream {s₀ s : Sys} (hboot : s₀.Boot) (hrun : Runs Step Fits s₀ s) {c : Core}
    {kind : Kind} {stamp : OwnerStamp} {observed : BitVec 64}
    (hpc : (s.current c).pc = .classify kind stamp observed)
    (hre : Sync.classify observed stamp s.switchGen = .reentry) : s.word = observed ∧
    (∃ l ≤ s.top (s.running c), s.holder = some (s.running c, l)) ∧
    (OwnerStamp.fromWord s.word).map (fun o => (o.cpu, o.gen.toNat)) = some (c.id, s.gen c) := by
  have h : s.Inv := hrun.inv Inv hboot.inv fun a i b ha hok hb => ha.next hok hb
  obtain ⟨hv, hown⟩ : s.Valid _ _ stamp ∧ s.Own _ _ stamp observed := by
    have := h.current c
    rwa [hpc] at this
  obtain ⟨owner, ho, hcpu, hgen, hnow⟩ := classify_reentry hre
  obtain ⟨d, hd, -, hcur⟩ := hv
  have hg : stamp.gen.toNat = s.gen d := by
    rw [hnow, hd, switchGen_id, toNat_genMask (h.small d)]
  -- the generation is current, so this is the CPU the waiter runs on
  obtain rfl : d = c := h.inj (hcur hg).1
  obtain ⟨hw, hold⟩ := hown owner d ho hcpu hgen hd hg
  refine ⟨hw, hold, ?_⟩
  rw [hw, ho, map_some, hcpu, hd, hgen, hg]

def start : Sys where
  word := 0
  gen _ := 0
  running c := c
  window _ := false
  frames _ _ := ⟨true, .idle⟩
  top _ := 0
  holder := none
  fresh := false

lemma boot_start : start.Boot where
  word := rfl
  gen _ := rfl
  running _ _ h := Fin.ext h
  window _ := rfl
  pc _ _ := rfl
  holder := rfl
  fresh := rfl

abbrev core1 : Core := ⟨1, by decide⟩

def reenter : List Act :=
  [.setIrqs core1 false, .bump core1, .restore core1 9, .acquire core1 .lock] ++
    List.replicate 9 (.step core1 false) ++ [.irq core1, .acquire core1 .lock] ++
    List.replicate 6 (.step core1 false)

theorem reentry_is_own_stream_irq : ∃ s stamp, Runs Step Fits start s ∧
    (s.current core1).pc = .classify .lock stamp s.word ∧
    Sync.classify s.word stamp s.switchGen = .reentry ∧ s.gen core1 = 1 ∧
    ∃ l ≤ s.top (s.running core1), s.holder = some (s.running core1, l) := by
  obtain ⟨s, hs, h⟩ := (any_eq_true _ _).mp
    (show ((Runs.exec Fits next start reenter).any fun s =>
      decide ((s.current core1).pc = .classify .lock (OwnerStamp.new 1 1 false) s.word) &&
      decide (Sync.classify s.word (OwnerStamp.new 1 1 false) s.switchGen = .reentry) &&
      decide (s.gen core1 = 1)) = true by decide +kernel)
  simp only [Bool.and_eq_true, decide_eq_true_eq] at h
  obtain ⟨⟨hpc, hre⟩, hgen⟩ := h
  have hrun : Runs Step Fits start s := Runs.of_exec hs
  exact ⟨s, _, hrun, hpc, hre, hgen, (reentry_is_own_stream boot_start hrun hpc hre).2.1⟩

end Sys

end Aios.Sync
