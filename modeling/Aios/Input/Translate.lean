import Aios.Lib.Runs

/-!
Raw device events become typed ones: `kernel/src/input/mod.rs` with the types of
`shared/src/input.rs`.

A key event is passed on at once, with the modifier bits of that moment. What a pointing device
reports is gathered in one record and passed on when `SYN_REPORT` ends the group.
-/

namespace Aios.Input

open Aios.Lib List Option

inductive KeyState
  | released | pressed | repeated
  deriving DecidableEq

def KeyState.fromValue : ℕ → Option KeyState
  | 0 => some .released
  | 1 => some .pressed
  | 2 => some .repeated
  | _ => none

inductive MouseButton
  | left | right | middle
  deriving DecidableEq

inductive ButtonState
  | pressed | released
  deriving DecidableEq

inductive Modifier
  | shift | ctrl | alt | super
  deriving DecidableEq

abbrev Modifiers := BitVec 8

def Modifier.flag : Modifier → Modifiers
  | shift => 1
  | ctrl => 2
  | alt => 4
  | super => 8

def Modifiers.contains (m flag : Modifiers) : Bool := m &&& flag != 0

inductive InputEvent (κ : Type*)
  | keyboard (key : κ) (state : KeyState) (modifiers : Modifiers)
  | pointer (x y : ℕ) (button : Option MouseButton) (state : Option ButtonState)
  deriving DecidableEq

structure VirtioInputEvent where
  eventType : ℕ
  code : ℕ
  value : ℕ
  deriving DecidableEq

abbrev evSyn : ℕ := 0
abbrev evKey : ℕ := 1
abbrev evAbs : ℕ := 3
abbrev synReport : ℕ := 0
abbrev absX : ℕ := 0
abbrev absY : ℕ := 1
abbrev btnLeft : ℕ := 0x110
abbrev btnRight : ℕ := 0x111
abbrev btnMiddle : ℕ := 0x112

def modifierOf : ℕ → Option Modifier
  | 42 | 54 => some .shift
  | 29 | 97 => some .ctrl
  | 56 | 100 => some .alt
  | 125 | 126 => some .super
  | _ => none

def Modifier.keys : Modifier → List ℕ
  | shift => [42, 54]
  | ctrl => [29, 97]
  | alt => [56, 100]
  | super => [125, 126]

lemma modifierOf_eq_some {k : ℕ} {f : Modifier} : modifierOf k = some f ↔ k ∈ f.keys := by
  constructor
  · intro h
    unfold modifierOf at h
    split at h <;> cases h <;> decide
  · intro h
    cases f <;> simp only [Modifier.keys, mem_cons, not_mem_nil, or_false] at h <;>
      rcases h with rfl | rfl <;> rfl

def updateModifiers (m : Modifiers) (code value : ℕ) : Modifiers :=
  match modifierOf code with
  | none => m
  | some f => if value ≠ 0 then m ||| f.flag else m &&& ~~~f.flag

def buttonOf (code : ℕ) : Option MouseButton :=
  if code = btnLeft then some .left
  else if code = btnRight then some .right
  else if code = btnMiddle then some .middle
  else none

def buttonState (value : ℕ) : ButtonState := if value ≠ 0 then .pressed else .released

def absToDisplay (absVal absMax displayDim : ℕ) : ℕ :=
  if absMax = 0 ∨ displayDim = 0 then 0
  else min absVal absMax * displayDim / (absMax + 1) % 2 ^ 32

structure PendingPointer where
  x : ℕ
  y : ℕ
  button : Option MouseButton
  buttonState : Option ButtonState
  dirty : Bool
  deriving DecidableEq

/-- `MODIFIER_STATE` and `PENDING_POINTER`. -/
structure State where
  modifiers : Modifiers
  pending : PendingPointer
  deriving DecidableEq

def State.new : State := ⟨0, 0, 0, none, none, false⟩

structure Device (κ : Type*) where
  fromEvdev : ℕ → κ
  width : ℕ
  height : ℕ
  maxX : ℕ
  maxY : ℕ

namespace Device

variable {κ : Type*} (c : Device κ) (s : State)

def processKeyEvent (code value : ℕ) : State × Option (InputEvent κ) :=
  let modifiers := updateModifiers s.modifiers code value
  ({ s with modifiers := modifiers },
    (KeyState.fromValue value).map fun state => .keyboard (c.fromEvdev code) state modifiers)

def processButtonEvent (code value : ℕ) : State :=
  match buttonOf code with
  | none => s
  | some button => { s with pending := { s.pending with
      button := some button, buttonState := some (buttonState value), dirty := true } }

def processAbsEvent (code value : ℕ) : State :=
  if code = absX then
    { s with pending := { s.pending with x := absToDisplay value c.maxX c.width, dirty := true } }
  else if code = absY then
    { s with pending := { s.pending with y := absToDisplay value c.maxY c.height, dirty := true } }
  else s

def flushPendingPointer : State × Option (InputEvent κ) :=
  if s.pending.dirty then
    ({ s with pending := { s.pending with button := none, buttonState := none, dirty := false } },
      some (.pointer s.pending.x s.pending.y s.pending.button s.pending.buttonState))
  else (s, none)

def processRawEvent (raw : VirtioInputEvent) : State × Option (InputEvent κ) :=
  if raw.eventType = evKey then
    if raw.code < btnLeft then c.processKeyEvent s raw.code raw.value
    else (processButtonEvent s raw.code raw.value, none)
  else if raw.eventType = evAbs then (c.processAbsEvent s raw.code raw.value, none)
  else if raw.eventType = evSyn ∧ raw.code = synReport then flushPendingPointer s
  else (s, none)

def feed (r : State × List (InputEvent κ)) (raw : VirtioInputEvent) :
    State × List (InputEvent κ) :=
  ((c.processRawEvent r.1 raw).1, r.2 ++ (c.processRawEvent r.1 raw).2.toList)

def fed (raws : List VirtioInputEvent) : State × List (InputEvent κ) := raws.foldl c.feed (.new, [])

lemma fed_concat (raws : List VirtioInputEvent) (raw : VirtioInputEvent) :
    c.fed (raws ++ [raw]) = c.feed (c.fed raws) raw :=
  foldl_append

/-! ### Modifiers -/

def held (k : ℕ) (raws : List VirtioInputEvent) : Bool :=
  raws.foldl (fun b raw =>
    if raw.eventType = evKey ∧ raw.code = k then
      (KeyState.fromValue raw.value).elim b fun state => state ≠ .released
    else b) false

/-- A key of the modifier is down. -/
def Down (f : Modifier) (raws : List VirtioInputEvent) : Prop := ∃ k ∈ f.keys, held k raws = true

/-- Every key event says which modifiers are down. -/
def Tracked (raws : List VirtioInputEvent) : Prop :=
  ∀ i raw, raws[i]? = some raw → ∀ key state m,
    (c.processRawEvent (c.fed (raws.take i)).1 raw).2 = some (.keyboard key state m) →
      ∀ f : Modifier, m.contains f.flag = true ↔ Down f (raws.take (i + 1))

/-- A modifier key is released only when the other key of the modifier is up. -/
def Alone (raws : List VirtioInputEvent) : Prop :=
  ∀ i raw, raws[i]? = some raw → raw.eventType = evKey → raw.value = 0 →
    ∀ f : Modifier, raw.code ∈ f.keys → ¬Down f (raws.take (i + 1))

def ValidValues (raws : List VirtioInputEvent) : Prop :=
  ∀ i raw, raws[i]? = some raw → raw.eventType = evKey →
    ∀ f : Modifier, raw.code ∈ f.keys → raw.value ≤ 2 ∨ Down f (raws.take i)

variable {c s} {f : Modifier} {raws : List VirtioInputEvent} {raw : VirtioInputEvent}

lemma getElem?_of_take {k j : ℕ} (h : (raws.take k)[j]? = some raw) :
    j < k ∧ raws[j]? = some raw := by
  rw [getElem?_take] at h
  split_ifs at h with hlt
  exact ⟨hlt, h⟩

lemma ValidValues.take (h : ValidValues raws) (k : ℕ) : ValidValues (raws.take k) := by
  intro j r hj
  obtain ⟨hlt, hj⟩ := getElem?_of_take hj
  rw [take_take, Nat.min_eq_left hlt.le]
  exact h j r hj

lemma Alone.take (h : Alone raws) (k : ℕ) : Alone (raws.take k) := by
  intro j r hj
  obtain ⟨hlt, hj⟩ := getElem?_of_take hj
  rw [take_take, Nat.min_eq_left hlt]
  exact h j r hj

lemma contains_set (m : Modifiers) (f g : Modifier) :
    (m ||| f.flag).contains g.flag = (decide (g = f) || m.contains g.flag) := by
  revert m
  cases f <;> cases g <;> decide +kernel

lemma contains_clear (m : Modifiers) (f g : Modifier) :
    (m &&& ~~~f.flag).contains g.flag = (!decide (g = f) && m.contains g.flag) := by
  revert m
  cases f <;> cases g <;> decide +kernel

lemma held_concat (k : ℕ) : held k (raws ++ [raw]) =
    if raw.eventType = evKey ∧ raw.code = k then
      (KeyState.fromValue raw.value).elim (held k raws) fun state => state ≠ .released
    else held k raws :=
  foldl_append

lemma down_concat (h : ¬(raw.eventType = evKey ∧ raw.code ∈ f.keys)) :
    Down f (raws ++ [raw]) ↔ Down f raws := by
  refine exists_congr fun k => and_congr_right fun hk => ?_
  rw [held_concat, if_neg]
  rintro ⟨hev, rfl⟩
  exact h ⟨hev, hk⟩

/-- A press or a repeat; any other value changes nothing. -/
lemma down_pressed (hkey : raw.eventType = evKey) (hf : raw.code ∈ f.keys) (h0 : raw.value ≠ 0)
    (hv : raw.value ≤ 2 ∨ Down f raws) : Down f (raws ++ [raw]) := by
  by_cases hle : raw.value ≤ 2
  · refine ⟨raw.code, hf, ?_⟩
    rw [held_concat, if_pos ⟨hkey, rfl⟩]
    obtain h1 | h2 : raw.value = 1 ∨ raw.value = 2 := by omega
    · simp [h1, KeyState.fromValue]
    · simp [h2, KeyState.fromValue]
  · obtain ⟨k, hk, hdown⟩ := hv.resolve_left hle
    refine ⟨k, hk, ?_⟩
    have hnone : KeyState.fromValue raw.value = none := by
      unfold KeyState.fromValue
      split <;> first | omega | rfl
    rw [held_concat, hnone, hdown]
    exact ite_self true

lemma code_lt_of_modifierOf {code : ℕ} (h : modifierOf code = some f) : code < btnLeft := by
  unfold modifierOf at h
  split at h <;> first | decide | cases h

lemma modifiers_processRawEvent : (c.processRawEvent s raw).1.modifiers =
    if raw.eventType = evKey then updateModifiers s.modifiers raw.code raw.value
    else s.modifiers := by
  unfold processRawEvent
  split_ifs with hkey hcode habs hsyn
  · rfl
  · have hnone : modifierOf raw.code = none :=
      eq_none_iff_forall_ne_some.mpr fun f hf => hcode (code_lt_of_modifierOf hf)
    rw [updateModifiers, hnone]
    unfold processButtonEvent
    split <;> rfl
  · unfold processAbsEvent
    split_ifs <;> rfl
  · unfold flushPendingPointer
    split_ifs <;> rfl
  · rfl

lemma eq_of_keyboard {key : κ} {state : KeyState} {m : Modifiers}
    (h : (c.processRawEvent s raw).2 = some (.keyboard key state m)) :
    m = (c.processRawEvent s raw).1.modifiers := by
  unfold processRawEvent at h ⊢
  split_ifs at h ⊢
  · obtain ⟨_, -, he⟩ := map_eq_some_iff.mp h
    cases he
    rfl
  · unfold flushPendingPointer at h
    split_ifs at h
    cases h

lemma contains_iff_down (c : Device κ) (hv : ValidValues raws) (ha : Alone raws) (f : Modifier) :
    (c.fed raws).1.modifiers.contains f.flag = true ↔ Down f raws := by
  induction raws using List.reverseRecOn with
  | nil =>
    have hoff : Modifiers.contains 0 f.flag = false := by cases f <;> rfl
    exact ⟨fun h => absurd (hoff.symm.trans h) nofun, fun ⟨_, _, hk⟩ => nomatch hk⟩
  | append_singleton l raw ih =>
    have hlast := ha l.length raw (by simp)
    rw [List.take_of_length_le (by simp)] at hlast
    have hvalid := hv l.length raw (by simp)
    rw [List.take_left] at hvalid
    have ih := ih (by simpa using hv.take l.length) (by simpa using ha.take l.length)
    rw [fed_concat, feed, modifiers_processRawEvent]
    by_cases hkey : raw.eventType = evKey
    · rw [if_pos hkey, updateModifiers]
      cases hg : modifierOf raw.code with
      | none => rw [ih, down_concat (by simp [← modifierOf_eq_some, hg])]
      | some g =>
        have hmem := modifierOf_eq_some.mp hg
        by_cases hfg : f = g
        · subst hfg
          by_cases h0 : raw.value = 0
          · simp [h0, contains_clear, hlast hkey h0 f hmem]
          · simp [h0, contains_set, down_pressed hkey hmem h0 (hvalid hkey f hmem)]
        · rw [down_concat (by simp [← modifierOf_eq_some, hg, Ne.symm hfg]), ← ih]
          dsimp only
          split_ifs
          · simp [contains_set, hfg]
          · simp [contains_clear, hfg]
    · rw [if_neg hkey, ih, down_concat (by simp [hkey])]

/-- **Modifiers.** With valid values, the modifier bits are right in every key event exactly when no
modifier key is released while the other one is down. -/
theorem modifiers_tracked (hv : ValidValues raws) : c.Tracked raws ↔ Alone raws := by
  constructor
  · intro h i raw hi hkey h0 f hmem hdown
    have hf := modifierOf_eq_some.mpr hmem
    have hout : (c.processRawEvent (c.fed (raws.take i)).1 raw).2 =
        some (.keyboard (c.fromEvdev raw.code) .released
          (updateModifiers (c.fed (raws.take i)).1.modifiers raw.code raw.value)) := by
      rw [processRawEvent, if_pos hkey, if_pos (code_lt_of_modifierOf hf), processKeyEvent, h0]
      rfl
    have hm := (h i raw hi _ _ _ hout f).mpr hdown
    simp [updateModifiers, hf, h0, contains_clear] at hm
  · intro h i raw hi key state m hm f
    have htake : raws.take (i + 1) = raws.take i ++ [raw] := by
      rw [take_add_one, hi]
      rfl
    rw [eq_of_keyboard hm, ← contains_iff_down c (hv.take _) (h.take _), htake, fed_concat]
    rfl

def qemu : Device ℕ := ⟨id, 1280, 800, 32767, 32767⟩

theorem modifiers_tracked_shift :
    qemu.Tracked [⟨1, 42, 1⟩, ⟨1, 30, 1⟩, ⟨1, 42, 0⟩, ⟨1, 30, 0⟩] := by
  refine (modifiers_tracked fun i raw hi _ f _ => .inl ?_).mpr fun i raw hi _ h0 f hf => ?_
  · have hmem := mem_of_getElem? hi
    simp only [mem_cons, not_mem_nil, or_false] at hmem
    rcases hmem with rfl | rfl | rfl | rfl <;> decide
  · unfold Down
    rcases i with _ | _ | _ | _ | i <;> cases hi <;> cases h0 <;> cases f <;> decide

/-- Both shift keys are pressed and one is released: the event does not say that shift is down. -/
theorem modifiers_lost : ¬qemu.Tracked [⟨1, 42, 1⟩, ⟨1, 54, 1⟩, ⟨1, 42, 0⟩] := by
  intro h
  have hm := (h 2 ⟨1, 42, 0⟩ rfl 42 .released 0 (by decide +kernel) .shift).mpr ⟨54, by decide, rfl⟩
  exact absurd hm (by decide)

/-! ### Positions -/

variable (c) in
def Shows (x y : ℕ) : Prop := x < c.width ∧ y < c.height

lemma absToDisplay_lt (v m : ℕ) {d : ℕ} (hd : 0 < d) : absToDisplay v m d < d := by
  unfold absToDisplay
  split_ifs
  · exact hd
  · have hlt : min v m * d < (m + 1) * d := Nat.mul_lt_mul_of_pos_right (by omega) hd
    exact (Nat.mod_le _ _).trans_lt (Nat.div_lt_of_lt_mul hlt)

lemma Shows.step (hw : 0 < c.width) (hh : 0 < c.height) (h : c.Shows s.pending.x s.pending.y) :
    let r := c.processRawEvent s raw
    c.Shows r.1.pending.x r.1.pending.y ∧
      ∀ x y b t, r.2 = some (.pointer x y b t) → c.Shows x y := by
  unfold processRawEvent processKeyEvent processButtonEvent processAbsEvent flushPendingPointer
  split_ifs
  · cases KeyState.fromValue raw.value <;> exact ⟨h, by simp⟩
  · cases buttonOf raw.code <;> exact ⟨h, by simp⟩
  · exact ⟨⟨absToDisplay_lt _ _ hw, h.2⟩, by simp⟩
  · exact ⟨⟨h.1, absToDisplay_lt _ _ hh⟩, by simp⟩
  · exact ⟨h, by simp⟩
  · exact ⟨h, fun x y b t he => by cases he; exact h⟩
  all_goals exact ⟨h, by simp⟩

/-- **Pointers are on the display.** Whatever is reported, every pointer event is at a pixel. -/
theorem pointers_on_display (hw : 0 < c.width) (hh : 0 < c.height) (raws : List VirtioInputEvent) :
    ∀ x y b t, .pointer x y b t ∈ (c.fed raws).2 → c.Shows x y := by
  suffices h : c.Shows (c.fed raws).1.pending.x (c.fed raws).1.pending.y ∧
      ∀ x y b t, .pointer x y b t ∈ (c.fed raws).2 → c.Shows x y from h.2
  induction raws using List.reverseRecOn with
  | nil => exact ⟨⟨hw, hh⟩, by simp [fed]⟩
  | append_singleton l raw ih =>
    obtain ⟨hpos, hnew⟩ := @Shows.step _ c _ raw hw hh ih.1
    rw [fed_concat]
    refine ⟨hpos, fun x y b t he => ?_⟩
    rcases mem_append.mp he with he | he
    · exact ih.2 x y b t he
    · exact hnew x y b t (mem_toList.mp he)

theorem pointers_on_display_edge : qemu.Shows 1279 0 :=
  pointers_on_display (by decide) (by decide) [⟨3, 0, 32767⟩, ⟨0, 0, 0⟩] 1279 0 none none
    (by decide +kernel)

/-! ### Button transitions -/

def transitionOf : VirtioInputEvent → Option (MouseButton × ButtonState)
  | ⟨1, 272, value⟩ => some (.left, if value = 0 then .released else .pressed)
  | ⟨1, 273, value⟩ => some (.right, if value = 0 then .released else .pressed)
  | ⟨1, 274, value⟩ => some (.middle, if value = 0 then .released else .pressed)
  | _ => none

lemma transitionOf_eq (raw : VirtioInputEvent) : transitionOf raw =
    if raw.eventType = evKey then (buttonOf raw.code).map (·, buttonState raw.value) else none := by
  obtain ⟨ty, code, value⟩ := raw
  unfold transitionOf buttonOf buttonState
  split <;> split_ifs <;> simp_all

variable (c) in
def axis (pos : ℕ × ℕ) (raw : VirtioInputEvent) : ℕ × ℕ :=
  if raw.eventType = evAbs then
    if raw.code = absX then (absToDisplay raw.value c.maxX c.width, pos.2)
    else if raw.code = absY then (pos.1, absToDisplay raw.value c.maxY c.height)
    else pos
  else pos

def Report (raw : VirtioInputEvent) : Prop := raw.eventType = evSyn ∧ raw.code = synReport

/-- Events up to a `SYN_REPORT`. -/
def IsGroup (g : List VirtioInputEvent) : Prop :=
  ∃ body syn, g = body ++ [syn] ∧ Report syn ∧ ∀ raw ∈ body, ¬Report raw

variable (c) in
def transitions (pos : ℕ × ℕ) :
    List (List VirtioInputEvent) → List ((MouseButton × ButtonState) × ℕ × ℕ)
  | [] => []
  | g :: groups =>
    (g.filterMap transitionOf).map (·, g.foldl c.axis pos) ++
      transitions (g.foldl c.axis pos) groups

def carried : InputEvent κ → Option ((MouseButton × ButtonState) × ℕ × ℕ)
  | .pointer x y (some button) (some state) => some ((button, state), x, y)
  | _ => none

structure Gathers (p : PendingPointer) (pos : ℕ × ℕ) (t : Option (MouseButton × ButtonState)) :
    Prop where
  position : (p.x, p.y) = pos
  button : p.button = t.map Prod.fst
  state : p.buttonState = t.map Prod.snd
  dirty : t.isSome = true → p.dirty = true

variable {pos : ℕ × ℕ} {t : Option (MouseButton × ButtonState)} {r : State × List (InputEvent κ)}

lemma transitionOf_key (h : raw.code < 0x110) : transitionOf raw = none := by
  have hnone : buttonOf raw.code = none := by
    rw [buttonOf, if_neg (show raw.code ≠ 0x110 by omega), if_neg (show raw.code ≠ 0x111 by omega),
      if_neg (show raw.code ≠ 0x112 by omega)]
  rw [transitionOf_eq, hnone]
  exact ite_self none

lemma Gathers.step (h : Gathers s.pending pos t) (hraw : ¬Report raw) :
    Gathers (c.processRawEvent s raw).1.pending (c.axis pos raw) ((transitionOf raw).or t) ∧
      (c.processRawEvent s raw).2.bind carried = none := by
  obtain ⟨rfl, hbutton, hstate, hdirty⟩ := h
  have haxis : raw.eventType = evKey → ∀ pos, c.axis pos raw = pos :=
    fun hkey _ => if_neg (by rw [hkey]; decide)
  unfold processRawEvent
  split_ifs with hkey hcode habs hsyn
  · rw [haxis hkey, transitionOf_key hcode]
    refine ⟨⟨rfl, hbutton, hstate, hdirty⟩, ?_⟩
    simp only [processKeyEvent, bind_map]
    cases KeyState.fromValue raw.value <;> rfl
  · rw [haxis hkey, transitionOf_eq, if_pos hkey, processButtonEvent]
    cases buttonOf raw.code with
    | none => exact ⟨⟨rfl, hbutton, hstate, hdirty⟩, rfl⟩
    | some b => exact ⟨⟨rfl, rfl, rfl, fun _ => rfl⟩, rfl⟩
  · rw [transitionOf_eq, if_neg hkey, axis, if_pos habs, processAbsEvent]
    split_ifs
    · exact ⟨⟨rfl, hbutton, hstate, fun _ => rfl⟩, rfl⟩
    · exact ⟨⟨rfl, hbutton, hstate, fun _ => rfl⟩, rfl⟩
    · exact ⟨⟨rfl, hbutton, hstate, hdirty⟩, rfl⟩
  · exact absurd hsyn hraw
  · rw [transitionOf_eq, if_neg hkey, axis, if_neg habs]
    exact ⟨⟨rfl, hbutton, hstate, hdirty⟩, rfl⟩

lemma Gathers.report (h : Gathers s.pending pos t) (hraw : Report raw) :
    Gathers (c.processRawEvent s raw).1.pending pos none ∧
      (c.processRawEvent s raw).2.bind carried = t.map (·, pos) := by
  obtain ⟨rfl, hbutton, hstate, hdirty⟩ := h
  rw [processRawEvent, if_neg (by rw [hraw.1]; decide), if_neg (by rw [hraw.1]; decide),
    if_pos ⟨hraw.1, hraw.2⟩, flushPendingPointer]
  split_ifs with hd
  · refine ⟨⟨rfl, rfl, rfl, nofun⟩, ?_⟩
    rw [bind_some, hbutton, hstate]
    cases t <;> rfl
  · cases t with
    | none => exact ⟨⟨rfl, hbutton, hstate, nofun⟩, rfl⟩
    | some t => exact absurd (hdirty rfl) hd

lemma carried_feed : (c.feed r raw).2.filterMap carried =
    r.2.filterMap carried ++ ((c.processRawEvent r.1 raw).2.bind carried).toList := by
  rw [feed, filterMap_append]
  cases (c.processRawEvent r.1 raw).2 with
  | none => rfl
  | some e => cases h : carried e <;> simp [h]

lemma Gathers.body {body : List VirtioInputEvent} (h : Gathers r.1.pending pos none)
    (hbody : ∀ raw ∈ body, ¬Report raw) :
    Gathers (body.foldl c.feed r).1.pending (body.foldl c.axis pos)
        (body.filterMap transitionOf).getLast? ∧
      (body.foldl c.feed r).2.filterMap carried = r.2.filterMap carried := by
  induction body using List.reverseRecOn with
  | nil => exact ⟨h, rfl⟩
  | append_singleton l raw ih =>
    obtain ⟨hl, hout⟩ := ih fun r hr => hbody r (mem_append_left _ hr)
    obtain ⟨hstep, hout'⟩ := hl.step (c := c) (hbody raw (by simp))
    rw [foldl_append, foldl_append, filterMap_append, getLast?_append]
    constructor
    · cases ht : transitionOf raw <;> simpa [ht, feed] using hstep
    · exact carried_feed.trans (by rw [hout', hout]; exact append_nil _)

lemma Gathers.group {g : List VirtioInputEvent} (h : Gathers r.1.pending pos none)
    (hg : IsGroup g) : Gathers (g.foldl c.feed r).1.pending (g.foldl c.axis pos) none ∧
      (g.foldl c.feed r).2.filterMap carried = r.2.filterMap carried ++
        ((g.filterMap transitionOf).getLast?.map (·, g.foldl c.axis pos)).toList := by
  obtain ⟨body, syn, rfl, hsyn, hbody⟩ := hg
  obtain ⟨hb, hout⟩ := h.body (c := c) hbody
  obtain ⟨hend, hout'⟩ := hb.report (c := c) hsyn
  have haxis : ∀ q, c.axis q syn = q := fun q => if_neg (by rw [hsyn.1]; decide)
  have ht : transitionOf syn = none :=
    (transitionOf_eq syn).trans (if_neg (by rw [hsyn.1]; decide))
  have hlast : (body ++ [syn]).filterMap transitionOf = body.filterMap transitionOf := by
    simp [ht]
  rw [foldl_append, foldl_append, hlast]
  simp only [foldl_cons, foldl_nil, haxis]
  exact ⟨hend, by rw [carried_feed, hout, hout']⟩

lemma last_spec {α β : Type*} (l : List α) (f : α → β) : (l.getLast?.map f).toList.length =
    min 1 l.length ∧ (l.length ≤ 1 → (l.getLast?.map f).toList = l.map f) := by
  match l with
  | [] => simp
  | [_] => simp
  | a :: b :: l => simp [getLast?_eq_some_getLast (cons_ne_nil a (b :: l))]

lemma carried_eq_iff {groups : List (List VirtioInputEvent)} (h : Gathers r.1.pending pos none)
    (hg : ∀ g ∈ groups, IsGroup g) :
    ((groups.flatten.foldl c.feed r).2.filterMap carried =
        r.2.filterMap carried ++ c.transitions pos groups ↔
      ∀ g ∈ groups, (g.filterMap transitionOf).length ≤ 1) ∧
    ((groups.flatten.foldl c.feed r).2.filterMap carried).length ≤
      (r.2.filterMap carried ++ c.transitions pos groups).length := by
  induction groups generalizing r pos with
  | nil => simp [transitions]
  | cons g groups ih =>
    obtain ⟨hend, hout⟩ := h.group (c := c) (hg g (by simp))
    obtain ⟨ih, hle⟩ := ih hend fun g' hg' => hg g' (mem_cons_of_mem g hg')
    rw [hout] at ih hle
    rw [flatten_cons, foldl_append, transitions, forall_mem_cons]
    generalize g.filterMap transitionOf = l at ih hle ⊢
    obtain ⟨hlast, hone⟩ := last_spec l (·, g.foldl c.axis pos)
    simp only [length_append, length_map] at hle ⊢
    refine ⟨⟨fun he => ?_, fun ⟨h1, hrest⟩ => ?_⟩, by omega⟩
    · -- a transition that is lost is missing in the number of them
      have hlen := congrArg List.length he
      simp only [length_append, length_map] at hlen
      have h1 : l.length ≤ 1 := by omega
      exact ⟨h1, ih.mp (by rw [he, hone h1, append_assoc])⟩
    · rw [ih.mpr hrest, hone h1, append_assoc]

end Device

/-- The input thread with `INPUT_QUEUE`, what the compositor has taken from it, and the raw events
so far. -/
structure Sys (κ : Type*) where
  state : State
  queue : List (InputEvent κ)
  popped : List (InputEvent κ)
  raws : List VirtioInputEvent

namespace Sys

inductive Act
  | raw (raw : VirtioInputEvent)
  | pop

variable {κ : Type*} (c : Device κ) (s : Sys κ)

def init : Sys κ := ⟨.new, [], [], []⟩

/-- `push_back`, which drops the event when the queue is full. -/
def pushBack (queue : List (InputEvent κ)) (event : InputEvent κ) : List (InputEvent κ) :=
  if queue.length < 256 then queue ++ [event] else queue

def next : Act → Sys κ
  | .raw raw =>
    let r := c.processRawEvent s.state raw
    { s with
      state := r.1
      queue := r.2.elim s.queue (pushBack s.queue)
      raws := s.raws ++ [raw] }
  | .pop =>
    match s.queue with
    | [] => s
    | event :: queue => { s with queue := queue, popped := s.popped ++ [event] }

def Room : Act → Prop
  | .raw _ => s.queue.length < 256
  | .pop => True

instance (a : Act) : Decidable (s.Room a) := by
  cases a <;> unfold Room <;> infer_instance

abbrev Step (s : Sys κ) (a : Act) (s' : Sys κ) : Prop := s' = s.next c a

variable {c s}

lemma fed_of_runs (hrun : Runs (Step c) Room init s) :
    (s.state, s.popped ++ s.queue) = c.fed s.raws := by
  refine hrun.inv (fun s => (s.state, s.popped ++ s.queue) = c.fed s.raws) rfl ?_
  rintro s a _ h hok rfl
  cases a with
  | raw raw =>
    show _ = c.fed (s.raws ++ [raw])
    rw [Device.fed_concat, ← h]
    cases hr : (c.processRawEvent s.state raw).2 with
    | none => simp [next, Device.feed, hr]
    | some event => simp [next, Device.feed, hr, pushBack, show s.queue.length < 256 from hok]
  | pop =>
    unfold next
    cases hq : s.queue with
    | nil => simpa [hq] using h
    | cons event queue => simpa [hq] using h

/-- **Buttons.** With room in the queue, the typed events hold every press and release, in order and
where the group says, exactly when no group has more than one of them. -/
theorem transitions_carried (hrun : Runs (Step c) Room init s)
    {groups : List (List VirtioInputEvent)} (hraws : s.raws = groups.flatten)
    (hg : ∀ g ∈ groups, Device.IsGroup g) : (s.popped ++ s.queue).filterMap Device.carried =
    c.transitions (0, 0) groups ↔ ∀ g ∈ groups, (g.filterMap Device.transitionOf).length ≤ 1 := by
  have h : s.popped ++ s.queue = (c.fed s.raws).2 := congrArg Prod.snd (fed_of_runs hrun)
  rw [h, hraws]
  exact (Device.carried_eq_iff (r := (.new, [])) ⟨rfl, rfl, rfl, nofun⟩ hg).1

lemma isGroup_concat (body : List VirtioInputEvent) (h : ∀ raw ∈ body, raw.eventType ≠ evSyn) :
    Device.IsGroup (body ++ [⟨0, 0, 0⟩]) :=
  ⟨body, _, rfl, ⟨rfl, rfl⟩, fun raw hraw hrep => h raw hraw hrep.1⟩

def click : Sys ℕ :=
  [Act.raw ⟨3, 0, 32767⟩, .raw ⟨1, 0x110, 1⟩, .raw ⟨0, 0, 0⟩, .pop, .raw ⟨1, 0x110, 0⟩,
    .raw ⟨0, 0, 0⟩].foldl (next .qemu) init

theorem transitions_carried_click : (click.popped ++ click.queue).filterMap Device.carried =
    Device.qemu.transitions (0, 0)
      [[⟨3, 0, 32767⟩, ⟨1, 0x110, 1⟩, ⟨0, 0, 0⟩], [⟨1, 0x110, 0⟩, ⟨0, 0, 0⟩]] := by
  refine (transitions_carried (Runs.of_foldl (fun _ _ _ => rfl) (by decide +kernel)) rfl ?_).mpr
    (by decide +kernel)
  simp only [forall_mem_cons]
  exact ⟨isGroup_concat [⟨3, 0, 32767⟩, ⟨1, 0x110, 1⟩] (by decide),
    isGroup_concat [⟨1, 0x110, 0⟩] (by decide), nofun⟩

def chord : Sys ℕ :=
  [Act.raw ⟨1, 0x110, 1⟩, .raw ⟨1, 0x111, 1⟩, .raw ⟨0, 0, 0⟩].foldl (next .qemu) init

/-- Of two presses in one group the first is lost. -/
theorem transitions_lost : Runs (Step .qemu) Room init chord ∧
    (chord.popped ++ chord.queue).filterMap Device.carried = [((.right, .pressed), 0, 0)] ∧
    Device.qemu.transitions (0, 0) [chord.raws] =
      [((.left, .pressed), 0, 0), ((.right, .pressed), 0, 0)] :=
  ⟨Runs.of_foldl (fun _ _ _ => rfl) (by decide +kernel), by decide +kernel, by decide +kernel⟩

end Sys

end Aios.Input
