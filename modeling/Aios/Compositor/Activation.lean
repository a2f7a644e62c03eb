import Aios.Compositor.Surface

/-!
The states a surface goes through, over whole runs of requests.

`live` records the owner of every surface that a reply announced as created and none as destroyed.
A surface enters the table as `created`, and the transition relation leads from there to `active`
only by way of `configured`, which no request sets.
-/

namespace Aios.Compositor

open Aios.Lib Function Slots

namespace Sys

variable {s : Sys} {id : SurfaceId} {pid : ProcessId} {i j : Fin maxSurfaces} {a b : Surface}

lemma slotOf_some (h : s.slotOf id = some i) : ∃ a, s.table i = some a ∧ a.id = id := by
  have := List.find?_some h
  cases ha : s.table i with
  | none => simp [ha] at this
  | some a => exact ⟨a, rfl, by simpa [ha] using this⟩

def Distinct (s : Sys) : Prop :=
  ∀ i j a b, s.table i = some a → s.table j = some b → a.id = b.id → i = j

lemma Distinct.slotOf (h : s.Distinct) (ha : s.table i = some a) : s.slotOf a.id = some i := by
  cases hs : s.slotOf a.id with
  | none =>
    have := List.find?_eq_none.mp hs i (List.mem_finRange i)
    simp [ha] at this
  | some j =>
    obtain ⟨b, hb, hid⟩ := slotOf_some hs
    rw [h j i b a hb ha hid]

lemma Distinct.find (h : s.Distinct) (ha : s.table i = some a) : s.find a.id = some a := by
  rw [Sys.find, h.slotOf ha, Option.bind_some, ha]

lemma find_some (h : s.find id = some a) : ∃ i, s.table i = some a ∧ a.id = id := by
  obtain ⟨i, hs, ha⟩ := Option.bind_eq_some_iff.mp h
  obtain ⟨b, hb, hid⟩ := slotOf_some hs
  rw [ha] at hb
  cases hb
  exact ⟨i, ha, hid⟩

/-! ### What a request can do -/

/-- A request changes nothing in the table, adds a surface, changes one of its caller's surfaces
without changing its id and owner, or releases the slot of one. -/
inductive Outcome (s : Sys) (req : CompositorRequest) (pid : ProcessId) (s' : Sys) :
    CompositorEvent → Prop
  | refused (htable : s'.table = s.table)
      (hnext : s'.nextSurfaceId = s.nextSurfaceId ∨
        CompositorCommand.fromU32 req.command = some .createSurface ∧
          s'.nextSurfaceId = (s.nextSurfaceId + 1) % 2 ^ 64) : Outcome s req pid s' .zeroed
  | created (hcmd : CompositorCommand.fromU32 req.command = some .createSurface)
      (i : Fin maxSurfaces) (a : Surface) (hfree : s.table i = none)
      (htable : s'.table = update s.table i (some a))
      (hnext : s'.nextSurfaceId = (s.nextSurfaceId + 1) % 2 ^ 64)
      (hid : a.id = s.nextSurfaceId) (howner : a.ownerPid = pid) (hstate : a.state = .created) :
      Outcome s req pid s' (.configure s.nextSurfaceId req.width req.height 100)
  | changed (hcmd : CompositorCommand.fromU32 req.command ≠ some .createSurface)
      (i : Fin maxSurfaces) (a a' : Surface) (ha : s.table i = some a)
      (htable : s'.table = update s.table i (some a'))
      (hnext : s'.nextSurfaceId = s.nextSurfaceId)
      (hid : a'.id = a.id) (howner : a'.ownerPid = a.ownerPid)
      (hstate : a'.state = a.state ∨
        a'.state = .active ∧ a.state.canTransitionTo .active = true)
      (event : CompositorEvent) (hevent : ∀ id, event ≠ .closeRequested id) :
      Outcome s req pid s' event
  | destroyed (hcmd : CompositorCommand.fromU32 req.command ≠ some .createSurface)
      (i : Fin maxSurfaces) (a : Surface) (ha : s.table i = some a)
      (htable : s'.table = update s.table i none)
      (hnext : s'.nextSurfaceId = s.nextSurfaceId)
      (hid : a.id = req.surfaceId) (howner : a.ownerPid = pid)
      (hstate : a.state.canTransitionTo .destroyed = true) :
      Outcome s req pid s' (.closeRequested req.surfaceId)

lemma onSurface_cases (s : Sys) (id : SurfaceId) (pid : ProcessId)
    (f : Surface → Except SurfaceError (Option Surface)) :
    (∃ e, s.onSurface id pid f = (.error e, s)) ∨
      ∃ i a r, s.table i = some a ∧ a.id = id ∧ a.ownerPid = pid ∧ f a = .ok r ∧
        s.onSurface id pid f = (.ok (), { s with table := update s.table i r }) := by
  unfold onSurface
  cases hs : s.slotOf id with
  | none => exact .inl ⟨_, rfl⟩
  | some i =>
    obtain ⟨a, ha, hid⟩ := slotOf_some hs
    simp only [ha]
    by_cases hp : a.ownerPid = pid
    · rw [if_neg (not_not.mpr hp)]
      cases hf : f a with
      | error e => exact .inl ⟨e, rfl⟩
      | ok r => exact .inr ⟨i, a, r, ha, hid, hp, hf, rfl⟩
    · exact .inl ⟨_, by rw [if_pos hp]⟩

lemma attach_ok {shmemId : SharedMemoryId} {damage : DamageRegion} {r : Option Surface}
    (h : attach shmemId damage a = .ok r) :
    a.state.canTransitionTo .active = true ∧
      r = some { a with
        shmemId := some shmemId
        state := .active
        damaged := a.damaged || damage.hasDamage } := by
  unfold attach at h
  cases hst : a.state with
  | created => rw [hst] at h; cases h
  | destroyed => rw [hst] at h; cases h
  | configured => rw [hst] at h; cases h; exact ⟨rfl, rfl⟩
  | active => rw [hst] at h; cases h; exact ⟨rfl, rfl⟩
  | suspended => rw [hst] at h; cases h; exact ⟨rfl, rfl⟩

variable {req : CompositorRequest} {ch : ChannelId}

lemma outcome_onSurface {id : SurfaceId} {f : Surface → Except SurfaceError (Option Surface)}
    {event : CompositorEvent} (hcmd : CompositorCommand.fromU32 req.command ≠ some .createSurface)
    (hevent : ∀ id, event ≠ .closeRequested id)
    (hf : ∀ a r, f a = .ok r → ∃ a', r = some a' ∧ a'.id = a.id ∧ a'.ownerPid = a.ownerPid ∧
      (a'.state = a.state ∨ a'.state = .active ∧ a.state.canTransitionTo .active = true)) :
    Outcome s req pid (reply event (s.onSurface id pid f)).2
      (reply event (s.onSurface id pid f)).1 := by
  rcases onSurface_cases s id pid f with ⟨e, he⟩ | ⟨i, a, r, ha, -, -, hr, he⟩
  · rw [he]
    exact .refused rfl (.inl rfl)
  · obtain ⟨a', rfl, hid, howner, hstate⟩ := hf a r hr
    rw [he]
    exact .changed hcmd i a a' ha (by rfl) (by rfl) hid howner hstate event hevent

lemma processRequest_cases (s : Sys) (req : CompositorRequest) (pid : ProcessId) (ch : ChannelId) :
    Outcome s req pid (s.processRequest req pid ch).2 (s.processRequest req pid ch).1 := by
  unfold processRequest
  cases hc : CompositorCommand.fromU32 req.command with
  | none => exact .refused rfl (.inl rfl)
  | some c =>
    cases c with
    | createSurface =>
      simp only [handleCreateSurface, surfaceCreate]
      split_ifs
      · exact .refused rfl (.inl rfl)
      · cases hf : s.table.firstFree with
        | none => exact .refused rfl (.inr ⟨hc, rfl⟩)
        | some i => exact .created hc i _ (firstFree_some hf) rfl rfl rfl rfl rfl
    | attachBuffer =>
      refine outcome_onSurface (by simp [hc]) (by simp) fun a r hr => ?_
      obtain ⟨hst, rfl⟩ := attach_ok hr
      exact ⟨_, rfl, rfl, rfl, .inr ⟨rfl, hst⟩⟩
    | destroySurface =>
      simp only [handleDestroySurface, surfaceDestroy]
      rcases onSurface_cases s req.surfaceId pid _ with ⟨e, he⟩ | ⟨i, a, r, ha, hid, hp, hr, he⟩
      · rw [he]
        exact .refused rfl (.inl rfl)
      · rw [he]
        split_ifs at hr with hst
        cases hr
        exact .destroyed (by simp [hc]) i a ha rfl rfl hid hp hst
    | resize =>
      simp only [handleResize, surfaceResize]
      split_ifs
      · exact .refused rfl (.inl rfl)
      · refine outcome_onSurface (by simp [hc]) (by simp) fun a r hr => ?_
        split_ifs at hr
        cases hr
        exact ⟨_, rfl, rfl, rfl, .inl rfl⟩
    | setLayer =>
      simp only [handleSetLayer, surfaceSetLayer]
      rcases onSurface_cases s req.surfaceId pid _ with ⟨e, he⟩ | ⟨i, a, r, ha, -, -, hr, he⟩
      · rw [he]
        exact .refused rfl (.inl rfl)
      · rw [he]
        split_ifs at hr
        cases hr
        have hne : CompositorCommand.fromU32 req.command ≠ some .createSurface := by simp [hc]
        refine .changed hne i a _ ha (by rfl) (by rfl) (by rfl) (by rfl) (.inl (by rfl)) _ ?_
        nofun

end Sys

/-! ### Runs -/

structure Act where
  pid : ProcessId
  channel : ChannelId
  req : CompositorRequest
  deriving DecidableEq

structure Desk where
  sys : Sys
  live : SurfaceId → Option ProcessId

def note (live : SurfaceId → Option ProcessId) (a : Act) (event : CompositorEvent) :
    SurfaceId → Option ProcessId :=
  match CompositorCommand.fromU32 a.req.command, event with
  | some .createSurface, .configure id _ _ _ => update live id (some a.pid)
  | _, .closeRequested id => update live id none
  | _, _ => live

namespace Desk

variable {d d' : Desk} {a : Act}

def next (d : Desk) (a : Act) : Desk where
  sys := (d.sys.processRequest a.req a.pid a.channel).2
  live := note d.live a (d.sys.processRequest a.req a.pid a.channel).1

def Fresh (d : Desk) (a : Act) : Prop :=
  CompositorCommand.fromU32 a.req.command = some .createSurface → d.sys.nextSurfaceId ≠ 0

instance (d : Desk) (a : Act) : Decidable (d.Fresh a) := by unfold Fresh; infer_instance

/-- Ids are distinct and below the next one, no surface in the table is destroyed, and `live` names
the surfaces in the table. -/
structure Tracked (d : Desk) : Prop where
  distinct : d.sys.Distinct
  below : d.sys.nextSurfaceId ≠ 0 → ∀ i f, d.sys.table i = some f → f.id < d.sys.nextSurfaceId
  next_lt : d.sys.nextSurfaceId < 2 ^ 64
  alive : ∀ i f, d.sys.table i = some f → f.state ≠ .destroyed
  live : ∀ id pid, d.live id = some pid ↔
    ∃ i f, d.sys.table i = some f ∧ f.id = id ∧ f.ownerPid = pid

def init : Desk := ⟨.init, fun _ => none⟩

lemma tracked_init : init.Tracked where
  distinct i j a b ha := by cases ha
  below _ i f hf := by cases hf
  next_lt := by decide
  alive i f hf := by cases hf
  live id pid := by
    constructor
    · intro h
      cases h
    · rintro ⟨i, f, hf, -⟩
      cases hf

section

variable (live : SurfaceId → Option ProcessId)
include live

lemma note_zeroed (a : Act) : note live a .zeroed = live := by
  unfold note
  split <;> simp_all

lemma note_configure {id w h x : ℕ}
    (hc : CompositorCommand.fromU32 a.req.command = some .createSurface) :
    note live a (.configure id w h x) = update live id (some a.pid) := by
  simp [note, hc]

lemma note_close (a : Act) (id : SurfaceId) :
    note live a (.closeRequested id) = update live id none := by
  unfold note
  split <;> simp_all

lemma note_other {event : CompositorEvent}
    (hc : CompositorCommand.fromU32 a.req.command ≠ some .createSurface)
    (hevent : ∀ id, event ≠ .closeRequested id) : note live a event = live := by
  unfold note
  split
  · exact absurd ‹_› hc
  · exact absurd rfl (hevent _)
  · rfl

end

variable {s' : Sys} {k : Fin maxSurfaces} {f f' : Surface}

section

variable (h : d.Tracked)
include h

lemma Tracked.refused (hok : d.Fresh a) (htable : s'.table = d.sys.table)
    (hnext : s'.nextSurfaceId = d.sys.nextSurfaceId ∨
      CompositorCommand.fromU32 a.req.command = some .createSurface ∧
        s'.nextSurfaceId = (d.sys.nextSurfaceId + 1) % 2 ^ 64) : Tracked ⟨s', d.live⟩ := by
  obtain ⟨hdist⟩ := h
  unfold Sys.Distinct at hdist
  unfold Fresh at hok
  constructor <;> simp only [Sys.Distinct, htable] <;> grind

lemma Tracked.created (hok : d.sys.nextSurfaceId ≠ 0)
    (hfree : d.sys.table k = none) (htable : s'.table = update d.sys.table k (some f))
    (hnext : s'.nextSurfaceId = (d.sys.nextSurfaceId + 1) % 2 ^ 64)
    (hid : f.id = d.sys.nextSurfaceId) (hstate : f.state ≠ .destroyed) :
    Tracked ⟨s', update d.live f.id (some f.ownerPid)⟩ := by
  -- the id is new, since the ids in the table are below it
  have hnew : ∀ i g, d.sys.table i = some g → g.id ≠ f.id := fun i g hg he =>
    absurd (h.below hok i g hg) (by rw [he, hid]; exact Nat.lt_irrefl _)
  obtain ⟨hdist⟩ := h
  unfold Sys.Distinct at hdist
  constructor <;> simp only [Sys.Distinct, htable, update_eq_some] <;> grind

lemma Tracked.changed (hf : d.sys.table k = some f)
    (htable : s'.table = update d.sys.table k (some f'))
    (hnext : s'.nextSurfaceId = d.sys.nextSurfaceId) (hid : f'.id = f.id)
    (howner : f'.ownerPid = f.ownerPid) (hstate : f'.state ≠ .destroyed) :
    Tracked ⟨s', d.live⟩ := by
  obtain ⟨hdist⟩ := h
  unfold Sys.Distinct at hdist
  constructor <;> simp only [Sys.Distinct, htable, update_eq_some] <;> grind

lemma Tracked.destroyed (hf : d.sys.table k = some f)
    (htable : s'.table = update d.sys.table k none)
    (hnext : s'.nextSurfaceId = d.sys.nextSurfaceId) : Tracked ⟨s', update d.live f.id none⟩ := by
  obtain ⟨hdist⟩ := h
  unfold Sys.Distinct at hdist
  constructor <;> simp only [Sys.Distinct, htable, update_eq_some] <;> grind

lemma Tracked.next (hok : d.Fresh a) : (d.next a).Tracked := by
  have hout := Sys.processRequest_cases d.sys a.req a.pid a.channel
  unfold Desk.next
  generalize (d.sys.processRequest a.req a.pid a.channel).2 = s' at hout ⊢
  generalize (d.sys.processRequest a.req a.pid a.channel).1 = event at hout ⊢
  cases hout with
  | refused htable hnext =>
    rw [note_zeroed]
    exact h.refused hok htable hnext
  | created hc k f hfree htable hnext hid howner hstate =>
    rw [note_configure _ hc, ← hid, ← howner]
    exact h.created (hok hc) hfree htable hnext hid (by rw [hstate]; decide)
  | changed hc k f f' hf htable hnext hid howner hstate event hevent =>
    rw [note_other _ hc hevent]
    refine h.changed hf htable hnext hid howner ?_
    rcases hstate with hst | ⟨hst, -⟩
    · rw [hst]; exact h.alive k f hf
    · rw [hst]; decide
  | destroyed hc k f hf htable hnext hid howner hstate =>
    rw [note_close, ← hid]
    exact h.destroyed hf htable hnext

end

abbrev Step (d : Desk) (a : Act) (d' : Desk) : Prop := d' = d.next a

lemma Tracked.runs (h : d.Tracked) (hrun : Runs Step Fresh d d') : d'.Tracked := by
  refine hrun.inv Tracked h ?_
  rintro e b _ hI hok rfl
  exact hI.next hok

lemma Tracked.find_live (h : d.Tracked) {id : SurfaceId} {pid : ProcessId}
    (hl : d.live id = some pid) : ∃ f, d.sys.find id = some f ∧ f.ownerPid = pid := by
  obtain ⟨i, f, hf, rfl, hp⟩ := (h.live id pid).mp hl
  exact ⟨f, h.distinct.find hf, hp⟩

lemma Tracked.transition (h : d.Tracked) (hok : d.Fresh a) {id : SurfaceId}
    (hf : d.sys.find id = some f) :
    match (d.next a).sys.find id with
    | some f' => f'.state = f.state ∨ f.state.canTransitionTo f'.state = true
    | none => f.state.canTransitionTo .destroyed = true := by
  have hdist := (h.next hok).distinct
  have hout := Sys.processRequest_cases d.sys a.req a.pid a.channel
  change Sys.Outcome _ _ _ (d.next a).sys _ at hout
  generalize (d.sys.processRequest a.req a.pid a.channel).1 = event at hout
  obtain ⟨i, hi, rfl⟩ := Sys.find_some hf
  have hbelow := fun hne => h.below hne i f hi
  have hold := h.distinct
  unfold Fresh at hok
  unfold Sys.Distinct at hold
  cases hfind : (d.next a).sys.find f.id with
  | some f' =>
    obtain ⟨j, hj, hjd⟩ := Sys.find_some hfind
    show _ ∨ _
    cases hout with
    | refused htable => rw [htable] at hj; grind
    | created hc k g hfree htable => rw [htable, update_eq_some] at hj; grind
    | changed hc k g g' hg htable => rw [htable, update_eq_some] at hj; grind
    | destroyed hc k g hg htable => rw [htable, update_eq_some] at hj; grind
  | none =>
    have hgone : ∀ j g, (d.next a).sys.table j = some g → g.id ≠ f.id := by
      intro j g hj he
      rw [← he, hdist.find hj] at hfind
      cases hfind
    show _ = true
    cases hout with
    | refused htable => simp only [htable] at hgone; grind
    | created hc k g hfree htable => simp only [htable, update_eq_some] at hgone; grind
    | changed hc k g g' hg htable => simp only [htable, update_eq_some] at hgone; grind
    | destroyed hc k g hg htable => simp only [htable, update_eq_some] at hgone; grind

/-! ### Surfaces stay as they were created -/

def Idle (d : Desk) : Prop := ∀ i f, d.sys.table i = some f → f.state = .created

lemma Idle.next (h : d.Idle) (a : Act) : (d.next a).Idle := by
  intro i f hf
  have hout := Sys.processRequest_cases d.sys a.req a.pid a.channel
  change Sys.Outcome _ _ _ (d.next a).sys _ at hout
  generalize (d.sys.processRequest a.req a.pid a.channel).1 = event at hout
  have hstay : SurfaceState.created.canTransitionTo .active = false := rfl
  unfold Idle at h
  cases hout with
  | refused htable => rw [htable] at hf; grind
  | created hc k g hfree htable => rw [htable, update_eq_some] at hf; grind
  | changed hc k g g' hg htable => rw [htable, update_eq_some] at hf; grind
  | destroyed hc k g hg htable => rw [htable, update_eq_some] at hf; grind

/-- The relation has no step from `created` to `active`, so that an idle surface takes no buffer. -/
lemma Idle.attach_refused (h : d.Idle)
    (hc : CompositorCommand.fromU32 a.req.command = some .attachBuffer) :
    d.sys.processRequest a.req a.pid a.channel = (.zeroed, d.sys) := by
  simp only [Sys.processRequest, hc, Sys.handleAttachBuffer, Sys.surfaceAttachBuffer]
  rcases Sys.onSurface_cases d.sys a.req.surfaceId a.pid
    (Sys.attach a.req.shmemId a.req.decodeDamage) with ⟨e, he⟩ | ⟨i, f, r, hf, -, -, hr, -⟩
  · rw [he, Sys.reply]
  · have hcan := (Sys.attach_ok hr).1
    rw [h i f hf] at hcan
    cases hcan

lemma idle_of_runs {ok : Desk → Act → Prop} (hrun : Runs Step ok init d) : d.Idle := by
  refine hrun.inv Idle (fun i f hf => by cases hf) ?_
  rintro e b _ hI - rfl
  exact hI.next b

def Activates (d : Desk) (a : Act) : Prop :=
  (d.sys.processRequest a.req a.pid a.channel).1 =
      .bufferReleased a.req.surfaceId a.req.shmemId ∧
    ∃ f, (d.next a).sys.find a.req.surfaceId = some f ∧ f.state = .active ∧
      f.shmemId = some a.req.shmemId

/-- **Activation of surfaces.** After any requests by any processes from boot, as long as the ids
have not run out: a surface announced as created and not as destroyed is in the table with its
owner, but no `AttachBuffer` of the owner activates it. Whatever the next request is, a surface
keeps its state, or goes to one that `canTransitionTo` allows, or leaves the table from a state that
may go to `destroyed`. -/
theorem surfaces_activate (hrun : Runs Step Fresh init d) (a : Act) (hok : d.Fresh a) :
    (CompositorCommand.fromU32 a.req.command = some .attachBuffer →
      d.live a.req.surfaceId = some a.pid →
        (∃ f, d.sys.find a.req.surfaceId = some f ∧ f.ownerPid = a.pid ∧ f.state = .created) ∧
          ¬ d.Activates a) ∧
      ∀ id f, d.sys.find id = some f →
        match (d.next a).sys.find id with
        | some f' => f'.state = f.state ∨ f.state.canTransitionTo f'.state = true
        | none => f.state.canTransitionTo .destroyed = true := by
  have ht := tracked_init.runs hrun
  have hidle := idle_of_runs hrun
  refine ⟨fun hc hl => ⟨?_, fun hact => ?_⟩, fun id f hf => ht.transition hok hf⟩
  · obtain ⟨f, hf, hp⟩ := ht.find_live hl
    obtain ⟨i, hi, -⟩ := Sys.find_some hf
    exact ⟨f, hf, hp, hidle i f hi⟩
  · have hanswer := hact.1
    rw [hidle.attach_refused hc] at hanswer
    cases hanswer

/-- **No surface is ever activated.** In every run from boot, whatever is requested, every surface is
still in the state `created` and every `AttachBuffer` is refused. -/
theorem attach_always_refused (hrun : Runs Step (fun _ _ => True) init d)
    (hc : CompositorCommand.fromU32 a.req.command = some .attachBuffer) :
    d.Idle ∧ d.sys.processRequest a.req a.pid a.channel = (.zeroed, d.sys) := by
  have hidle := idle_of_runs hrun
  exact ⟨hidle, hidle.attach_refused hc⟩

def firstFrame : List Act :=
  [⟨3, 1, { CompositorRequest.zeroed with command := 1, width := 640, height := 480 }⟩,
    ⟨3, 1, { CompositorRequest.zeroed with command := 2, surfaceId := 1, shmemId := 9 }⟩]

/-- The window is resized before its first frame is attached, which does not activate it. -/
theorem surfaces_activate_window : ∃ create attach, firstFrame = [create, attach] ∧
    let d := (init.next create).next
      ⟨3, 1, { CompositorRequest.zeroed with command := 4, surfaceId := 1, width := 800 }⟩
    d.live attach.req.surfaceId = some attach.pid ∧
      (d.sys.find 1).map Surface.width = some 800 ∧ ¬ d.Activates attach :=
  ⟨_, _, rfl, by decide +kernel, by decide +kernel,
    ((surfaces_activate (((Runs.refl init).snoc (fun _ => by decide) rfl).snoc
      (fun h => by cases h) rfl) _ (fun h => by cases h)).1 rfl (by decide +kernel)).2⟩

theorem attach_refused_window : ∃ create attach, firstFrame = [create, attach] ∧
    (init.next create).sys.processRequest attach.req attach.pid attach.channel =
      (.zeroed, (init.next create).sys) :=
  ⟨_, _, rfl, (attach_always_refused ((Runs.refl init).snoc trivial rfl) rfl).2⟩

/-- The owner of surface 1 attaches a buffer to it, and is refused: the surface is still `created`,
from where the relation does not lead to `active`. -/
theorem first_attach_fails :
    ∃ create attach, firstFrame = [create, attach] ∧
      Runs Step Fresh init (init.next create) ∧
      CompositorCommand.fromU32 attach.req.command = some .attachBuffer ∧
      (init.next create).live attach.req.surfaceId = some attach.pid ∧
      ((init.next create).sys.processRequest attach.req attach.pid attach.channel).1 = .zeroed ∧
      (((init.next create).next attach).sys.find attach.req.surfaceId).map
        (fun f => (f.state, f.shmemId)) = some (.created, none) := by
  refine ⟨_, _, rfl, ?_, rfl, rfl, ?_, ?_⟩
  · exact (Runs.refl init).snoc (fun _ => by decide) rfl
  · decide +kernel
  · decide +kernel

end Desk

end Aios.Compositor
