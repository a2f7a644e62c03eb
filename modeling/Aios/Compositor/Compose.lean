import Aios.Compositor.Render

/-!
A frame, `compose_frame` of `kernel/src/compositor/render.rs`.

The surfaces are drawn in the order of the list, so that a pixel shows the last surface that covers
it. The damage of the frame is the hull of the rectangles that were drawn.
-/

namespace Aios.Compositor

open Option List

structure DamageTracker where
  bounds : Option DamageRect
  full : Bool

namespace DamageTracker

def new : DamageTracker := ⟨none, false⟩

def isFull (d : DamageTracker) : Bool := d.full

def markFull (_ : DamageTracker) : DamageTracker := ⟨none, true⟩

def unionRect (a b : DamageRect) : DamageRect :=
  let x0 := if a.x < b.x then a.x else b.x
  let y0 := if a.y < b.y then a.y else b.y
  let x1 := if a.x + a.width > b.x + b.width then a.x + a.width else b.x + b.width
  let y1 := if a.y + a.height > b.y + b.height then a.y + a.height else b.y + b.height
  ⟨x0, y0, x1 - x0, y1 - y0⟩

def union (d : DamageTracker) (rect : DamageRect) : DamageTracker :=
  if rect.width = 0 ∨ rect.height = 0 then d
  else if d.full then d
  else
    { d with bounds := some (match d.bounds with
        | none => rect
        | some existing => unionRect existing rect) }

def getBounds (d : DamageTracker) : Option DamageRect := if d.full then none else d.bounds

end DamageTracker

section

variable {σ : Type*} (resolveSrc : σ → Surface → Option (List Pixel) × σ)

/-- The loop of `compose_frame`; `resolve_src` may change a state of its own. -/
def composeSurfaces (dstW dstH : ℕ) : List Surface → σ → List Pixel → DamageTracker →
    Option (List Pixel × DamageTracker)
  | [], _, dst, damage => some (dst, damage)
  | surface :: surfaces, st, dst, damage =>
    match resolveSrc st surface with
    | (none, st) => composeSurfaces dstW dstH surfaces st dst damage
    | (some src, st) =>
      if surface.width = 0 ∨ surface.height = 0 then
        composeSurfaces dstW dstH surfaces st dst damage
      else if src.length < surface.width * surface.height then
        composeSurfaces dstW dstH surfaces st dst damage
      else do
        let (blitted, dst) ←
          blitOpaque src surface.width surface.height dst dstW dstH surface.x surface.y
        composeSurfaces dstW dstH surfaces st dst (match blitted with
          | some rect => damage.union rect
          | none => damage)

def composeFrame (dst : List Pixel) (dstW dstH : ℕ) (surfaces : List Surface)
    (damage : DamageTracker) (clearFirst : Bool) (clearColor : Pixel) (st : σ) :
    Option (List Pixel × DamageTracker) :=
  if dstW = 0 ∨ dstH = 0 ∨ dst = [] then some (dst, damage)
  else if clearFirst then
    composeSurfaces resolveSrc dstW dstH surfaces st (List.replicate dst.length clearColor)
      damage.markFull
  else composeSurfaces resolveSrc dstW dstH surfaces st dst damage

/-! ### What a frame shows -/

def resolved : σ → List Surface → List (Surface × Option (List Pixel))
  | _, [] => []
  | st, surface :: surfaces =>
    (surface, (resolveSrc st surface).1) :: resolved (resolveSrc st surface).2 surfaces

end

def drawable (p : Surface × Option (List Pixel)) : Option (List Pixel) :=
  p.2.filter fun src => decide (p.1.width * p.1.height ≤ src.length)

/-- The pixel that a surface shows at the column `px` of the row `py`. -/
def shownAt (px py : ℕ) (p : Surface × Option (List Pixel)) : Option Pixel :=
  (drawable p).bind fun src => sourceAt src p.1.width p.1.height p.1.x p.1.y px py

def topmost (pairs : List (Surface × Option (List Pixel))) (px py : ℕ) : Option Pixel :=
  (pairs.filterMap (shownAt px py)).getLast?

def rectOf (dstW dstH : ℕ) (p : Surface × Option (List Pixel)) : Option DamageRect :=
  (drawable p).bind fun _ =>
    let left := max 0 p.1.x
    let top := max 0 p.1.y
    let right := min (p.1.x + p.1.width) dstW
    let bottom := min (p.1.y + p.1.height) dstH
    if left < right ∧ top < bottom then
      some ⟨left.toNat, top.toNat, (right - left).toNat, (bottom - top).toNat⟩
    else none

def blitted (dstW dstH : ℕ) (pairs : List (Surface × Option (List Pixel))) : List DamageRect :=
  pairs.filterMap (rectOf dstW dstH)

structure Painted (dstW dstH : ℕ) (pairs : List (Surface × Option (List Pixel)))
    (dst dst' : List Pixel) : Prop where
  length : dst'.length = dst.length
  pixel : ∀ px py old, px < dstW → py < dstH → dst[py * dstW + px]? = some old →
    dst'[py * dstW + px]? = some ((topmost pairs px py).getD old)

section

variable {dstW dstH : ℕ} {p : Surface × Option (List Pixel)}
  {pairs : List (Surface × Option (List Pixel))}

lemma rectOf_eq : rectOf dstW dstH p = (drawable p).bind fun _ =>
    (ClipRect.new p.1.x p.1.y p.1.width p.1.height dstW dstH).map ClipRect.damage := by
  unfold rectOf ClipRect.new
  refine congrArg (Option.bind (drawable p)) (funext fun _ => ?_)
  dsimp only
  by_cases hin : max 0 p.1.x < min (p.1.x + p.1.width) dstW ∧
      max 0 p.1.y < min (p.1.y + p.1.height) dstH
  · rw [if_pos hin, if_neg (by omega), if_neg (by omega)]
    simp [ClipRect.damage, max_comm]
  · rw [if_neg hin]
    split_ifs with hzero hout
    · rfl
    · rfl
    · omega

lemma sourceAt_empty {src : List Pixel} {w h px py : ℕ} {x y : ℤ} (hz : w = 0 ∨ h = 0) :
    sourceAt src w h x y px py = none := by
  unfold sourceAt
  rw [if_neg]
  rcases hz with rfl | rfl <;> omega

lemma topmost_cons {px py : ℕ} :
    topmost (p :: pairs) px py = (topmost pairs px py).or (shownAt px py p) := by
  unfold topmost
  cases h : shownAt px py p with
  | none => simp [filterMap_cons_none h]
  | some s =>
    rw [filterMap_cons_some h, getLast?_cons]
    cases (List.filterMap (shownAt px py) pairs).getLast? <;> rfl

variable {dst : List Pixel}

lemma Painted.cons {mid dst' : List Pixel} (h : Painted dstW dstH pairs mid dst')
    (hlen : mid.length = dst.length)
    (hmid : ∀ px py old, px < dstW → py < dstH → dst[py * dstW + px]? = some old →
      mid[py * dstW + px]? = some ((shownAt px py p).getD old)) :
    Painted dstW dstH (p :: pairs) dst dst' := by
  refine ⟨h.length.trans hlen, fun px py old hpx hpy ho => ?_⟩
  rw [h.pixel px py _ hpx hpy (hmid px py old hpx hpy ho), topmost_cons]
  cases topmost pairs px py <;> rfl

lemma blitted_cons : blitted dstW dstH (p :: pairs) =
    (rectOf dstW dstH p).toList ++ blitted dstW dstH pairs := by
  unfold blitted
  cases h : rectOf dstW dstH p with
  | none => rw [filterMap_cons_none h]; rfl
  | some r => rw [filterMap_cons_some h]; rfl

lemma composeSurfaces_spec {σ : Type*} (resolveSrc : σ → Surface → Option (List Pixel) × σ)
    (surfaces : List Surface) (st : σ) (damage : DamageTracker) (hdst : dst.length = dstW * dstH) :
    ∃ dst', composeSurfaces resolveSrc dstW dstH surfaces st dst damage = some (dst',
        (blitted dstW dstH (resolved resolveSrc st surfaces)).foldl DamageTracker.union damage) ∧
      Painted dstW dstH (resolved resolveSrc st surfaces) dst dst' := by
  induction surfaces generalizing st dst damage with
  | nil => exact ⟨dst, rfl, rfl, fun _ _ _ _ _ h => h⟩
  | cons surface surfaces ih =>
    obtain ⟨source, st', hres⟩ : ∃ source st', resolveSrc st surface = (source, st') := ⟨_, _, rfl⟩
    have hskip (hshown : ∀ px py, shownAt px py (surface, source) = none)
        (hrect : rectOf dstW dstH (surface, source) = none) :
        ∃ dst', composeSurfaces resolveSrc dstW dstH surfaces st' dst damage = some (dst',
            (blitted dstW dstH ((surface, source) :: resolved resolveSrc st' surfaces)).foldl
              DamageTracker.union damage) ∧
          Painted dstW dstH ((surface, source) :: resolved resolveSrc st' surfaces) dst dst' := by
      obtain ⟨dst', heq, hp⟩ := ih st' damage hdst
      refine ⟨dst', by rw [heq, blitted_cons, hrect]; rfl, hp.cons rfl fun px py old _ _ ho => ?_⟩
      rw [hshown, ho]
      rfl
    unfold composeSurfaces resolved
    rw [hres]
    cases source with
    | none => exact hskip (fun _ _ => rfl) rfl
    | some src =>
      dsimp only
      split_ifs with hzero hshort
      · refine hskip (fun px py => ?_) ?_
        · simp [shownAt, sourceAt_empty hzero]
        · simp [rectOf_eq, ClipRect.new, hzero]
      · have hnone : drawable (surface, some src) = none := by
          simpa [drawable, Option.filter] using hshort
        exact hskip (fun _ _ => by simp [shownAt, hnone]) (by simp [rectOf_eq, hnone])
      · have hsome : drawable (surface, some src) = some src := by
          simpa [drawable, Option.filter] using hshort
        obtain ⟨mid, hblit, hlen, hget⟩ :=
          blit_spec (fun s _ => s) surface.x surface.y (Nat.le_of_not_lt hshort) hdst
        simp only [blitOpaque, hblit, bind_eq_bind, bind_some]
        obtain ⟨dst', heq, hp⟩ := ih st' (match
          (ClipRect.new surface.x surface.y surface.width surface.height dstW dstH).map
            ClipRect.damage with
          | some rect => damage.union rect
          | none => damage) (hlen.trans hdst)
        refine ⟨dst', ?_, hp.cons hlen fun px py old hpx hpy ho => ?_⟩
        · rw [heq, blitted_cons, rectOf_eq, hsome]
          cases ClipRect.new surface.x surface.y surface.width surface.height dstW dstH <;> rfl
        · rw [hget px py hpx hpy, ho, shownAt, hsome, bind_some]
          cases sourceAt src surface.width surface.height surface.x surface.y px py <;> rfl

end

/-! ### The damage -/

def DamageRect.Within (a b : DamageRect) : Prop :=
  b.x ≤ a.x ∧ a.x + a.width ≤ b.x + b.width ∧ b.y ≤ a.y ∧ a.y + a.height ≤ b.y + b.height

def Hull (rects : List DamageRect) : Option DamageRect → Prop
  | none => rects = []
  | some r => rects ≠ [] ∧ (∀ a ∈ rects, a.Within r) ∧ ∀ b, (∀ a ∈ rects, a.Within b) → r.Within b

variable {a : DamageRect} {rects : List DamageRect} {d : DamageTracker} {px py : ℕ}

lemma DamageRect.Within.contains {b : DamageRect} (h : a.Within b) (ha : a.Contains px py) :
    b.Contains px py := by
  obtain ⟨h1, h2, h3, h4⟩ := h
  obtain ⟨g1, g2, g3, g4⟩ := ha
  refine ⟨?_, ?_, ?_, ?_⟩ <;> omega

lemma within_unionRect {b c : DamageRect} :
    (DamageTracker.unionRect a b).Within c ↔ a.Within c ∧ b.Within c := by
  simp only [DamageTracker.unionRect, DamageRect.Within]
  split_ifs <;> omega

lemma Hull.snoc (hfull : d.full = false) (h : Hull rects d.bounds)
    (ha : 0 < a.width ∧ 0 < a.height) :
    (d.union a).full = false ∧ Hull (rects ++ [a]) (d.union a).bounds := by
  have hrefl : ∀ r : DamageRect, r.Within r := fun r => ⟨le_rfl, le_rfl, le_rfl, le_rfl⟩
  unfold DamageTracker.union
  rw [if_neg (by omega), if_neg (by simp [hfull])]
  refine ⟨hfull, ?_⟩
  dsimp only
  cases hb : d.bounds with
  | none =>
    rw [hb] at h
    obtain rfl : rects = [] := h
    exact ⟨by simp, by simpa using hrefl a, fun b hall => hall a (by simp)⟩
  | some r =>
    rw [hb] at h
    obtain ⟨-, hin, hleast⟩ := h
    obtain ⟨hr, har⟩ := within_unionRect.mp (hrefl (DamageTracker.unionRect r a))
    refine ⟨by simp, fun b hmem => ?_, fun b hall => within_unionRect.mpr ⟨?_, hall a (by simp)⟩⟩
    · rcases mem_append.mp hmem with hmem | hmem
      · obtain ⟨h1, h2, h3, h4⟩ := hin b hmem
        obtain ⟨g1, g2, g3, g4⟩ := hr
        refine ⟨?_, ?_, ?_, ?_⟩ <;> dsimp only <;> omega
      · rw [mem_singleton.mp hmem]
        exact har
    · exact hleast b fun c hc => hall c (mem_append_left _ hc)

lemma hull_foldl (h : ∀ a ∈ rects, 0 < a.width ∧ 0 < a.height) :
    (rects.foldl DamageTracker.union .new).full = false ∧
      Hull rects (rects.foldl DamageTracker.union .new).bounds := by
  induction rects using List.reverseRecOn with
  | nil => exact ⟨rfl, rfl⟩
  | append_singleton rects a ih =>
    obtain ⟨hfull, hhull⟩ := ih fun b hb => h b (mem_append_left _ hb)
    rw [foldl_append]
    exact hhull.snoc hfull (h a (by simp))

lemma full_foldl (rects : List DamageRect) (h : d.full = true) :
    (rects.foldl DamageTracker.union d).full = true := by
  induction rects generalizing d with
  | nil => exact h
  | cons a rects ih =>
    refine ih ?_
    unfold DamageTracker.union
    split_ifs <;> exact h

lemma clip_pos {x y : ℤ} {srcW srcH dstW dstH : ℕ} {c : ClipRect}
    (h : ClipRect.new x y srcW srcH dstW dstH = some c) :
    0 < c.damage.width ∧ 0 < c.damage.height := by
  unfold ClipRect.new at h
  dsimp only at h
  split_ifs at h with hzero hout
  cases h
  rw [not_or] at hout
  simp only [ClipRect.damage]
  omega

lemma blitted_pos {dstW dstH : ℕ} {pairs : List (Surface × Option (List Pixel))}
    (h : a ∈ blitted dstW dstH pairs) : 0 < a.width ∧ 0 < a.height := by
  obtain ⟨p, -, hp⟩ := mem_filterMap.mp h
  rw [rectOf_eq] at hp
  obtain ⟨src, -, hmap⟩ := bind_eq_some_iff.mp hp
  obtain ⟨c, hc, rfl⟩ := map_eq_some_iff.mp hmap
  exact clip_pos hc

lemma contains_of_topmost {dstW dstH : ℕ} {pairs : List (Surface × Option (List Pixel))}
    {q : Pixel} (hpx : px < dstW) (hpy : py < dstH) (h : topmost pairs px py = some q) :
    ∃ a ∈ blitted dstW dstH pairs, a.Contains px py := by
  obtain ⟨p, hp, hshown⟩ := mem_filterMap.mp (mem_of_getLast? h)
  obtain ⟨src, hsrc, hs⟩ := bind_eq_some_iff.mp hshown
  unfold sourceAt at hs
  split_ifs at hs with hin
  cases hc : ClipRect.new p.1.x p.1.y p.1.width p.1.height dstW dstH with
  | none => exact absurd hin (ClipRect.new_none hc hpx hpy)
  | some c =>
    have hrect : rectOf dstW dstH p = some c.damage := by
      rw [rectOf_eq, hsrc, bind_some, hc]
      rfl
    exact ⟨c.damage, mem_filterMap.mpr ⟨p, hp, hrect⟩, (ClipRect.contains_new hc hpx hpy).mpr hin⟩

lemma blitted_empty {dstW dstH : ℕ} (h : dstW = 0 ∨ dstH = 0)
    (pairs : List (Surface × Option (List Pixel))) : blitted dstW dstH pairs = [] := by
  refine filterMap_eq_nil_iff.mpr fun p _ => ?_
  have hnone : ClipRect.new p.1.x p.1.y p.1.width p.1.height dstW dstH = none := by
    cases hc : ClipRect.new p.1.x p.1.y p.1.width p.1.height dstW dstH with
    | none => rfl
    | some c =>
      obtain ⟨-, -, hx, hy⟩ := ClipRect.fits_new hc
      have hpos : 0 < c.copyW ∧ 0 < c.copyH := clip_pos hc
      omega
  rw [rectOf_eq, hnone]
  cases drawable p <;> rfl

lemma Painted.changed {dstW dstH : ℕ} {pairs : List (Surface × Option (List Pixel))}
    {dst dst' : List Pixel} (h : Painted dstW dstH pairs dst dst') (hdst : dst.length = dstW * dstH)
    (hpx : px < dstW) (hpy : py < dstH) (hne : dst'[py * dstW + px]? ≠ dst[py * dstW + px]?) :
    ∃ a ∈ blitted dstW dstH pairs, a.Contains px py := by
  have hlt : py * dstW + px < dst.length := by
    have := row_le (n := 1) hpy (show px + 1 ≤ dstW by omega)
    omega
  have hnew := h.pixel px py _ hpx hpy (getElem?_eq_getElem hlt)
  cases htop : topmost pairs px py with
  | none =>
    rw [hnew, htop, getElem?_eq_getElem hlt] at hne
    exact absurd rfl hne
  | some q => exact contains_of_topmost hpx hpy htop

lemma Hull.contains (h : Hull rects d.bounds) (hfull : d.full = false) (ha : a ∈ rects)
    (hin : a.Contains px py) : ∃ r ∈ d.getBounds, r.Contains px py := by
  rw [DamageTracker.getBounds, hfull]
  cases hb : d.bounds with
  | none =>
    rw [hb] at h
    rw [show rects = [] from h] at ha
    cases ha
  | some r =>
    rw [hb] at h
    exact ⟨r, rfl, (h.2.1 a ha).contains hin⟩

/-! ### Frames -/

/-- **Painter's algorithm.** After a frame every pixel shows the last surface of the list that
covers it, or the background. The damage holds every pixel that changed; unless it is everything,
it is the smallest rectangle around the parts that were drawn. -/
theorem frame_painted {σ : Type*} (resolveSrc : σ → Surface → Option (List Pixel) × σ)
    (dst : List Pixel) (dstW dstH : ℕ) (surfaces : List Surface) (clearFirst : Bool)
    (clearColor : Pixel) (st : σ) (hdst : dst.length = dstW * dstH) :
    ∃ dst' damage, composeFrame resolveSrc dst dstW dstH surfaces .new clearFirst clearColor st =
        some (dst', damage) ∧ dst'.length = dst.length ∧
      (∀ px py old, px < dstW → py < dstH → dst[py * dstW + px]? = some old →
        dst'[py * dstW + px]? = some ((topmost (resolved resolveSrc st surfaces) px py).getD
          (if clearFirst then clearColor else old))) ∧
      (∀ px py, px < dstW → py < dstH → dst'[py * dstW + px]? ≠ dst[py * dstW + px]? →
        damage.isFull = true ∨ ∃ r ∈ damage.getBounds, r.Contains px py) ∧
      (damage.isFull = false →
        Hull (blitted dstW dstH (resolved resolveSrc st surfaces)) damage.getBounds) := by
  unfold composeFrame
  by_cases hzero : dstW = 0 ∨ dstH = 0 ∨ dst = []
  · -- there are no pixels
    have hempty : dstW = 0 ∨ dstH = 0 := by
      rcases hzero with h | h | rfl
      · exact .inl h
      · exact .inr h
      · exact Nat.mul_eq_zero.mp hdst.symm
    rw [if_pos hzero]
    exact ⟨dst, .new, rfl, rfl, by omega, by omega, fun _ => blitted_empty hempty _⟩
  rw [if_neg hzero]
  cases clearFirst with
  | true =>
    -- everything is cleared first, and everything counts as damaged
    rw [if_pos rfl]
    have hlen : (List.replicate dst.length clearColor).length = dstW * dstH := by
      rw [length_replicate, hdst]
    obtain ⟨dst', heq, hp⟩ :=
      composeSurfaces_spec resolveSrc surfaces st DamageTracker.new.markFull hlen
    have hfull := full_foldl (blitted dstW dstH (resolved resolveSrc st surfaces))
      (show DamageTracker.new.markFull.full = true from rfl)
    refine ⟨dst', _, heq, by rw [hp.length, length_replicate], fun px py old hpx hpy ho => ?_,
      fun _ _ _ _ _ => .inl hfull, fun h => ?_⟩
    · refine hp.pixel px py clearColor hpx hpy ?_
      rw [List.getElem?_replicate_of_lt (List.getElem?_eq_some_iff.mp ho).1]
    · exact absurd (hfull.symm.trans h) (by simp)
  | false =>
    rw [if_neg (by simp)]
    obtain ⟨dst', heq, hp⟩ := composeSurfaces_spec resolveSrc surfaces st .new hdst
    obtain ⟨hfull, hhull⟩ := hull_foldl fun a (ha : a ∈ blitted dstW dstH _) => blitted_pos ha
    refine ⟨dst', _, heq, hp.length, hp.pixel, fun px py hpx hpy hne => .inr ?_, fun _ => ?_⟩
    · obtain ⟨a, ha, hin⟩ := hp.changed hdst hpx hpy hne
      exact hhull.contains hfull ha hin
    · unfold DamageTracker.getBounds
      rw [hfull]
      exact hhull

def overlapping : List Surface :=
  [⟨5, .active, .normal, .generic, 0, 0, 2, 1, none, 0, 0, 1, true⟩,
    ⟨6, .active, .normal, .generic, 1, 0, 1, 1, none, 0, 0, 1, true⟩]

theorem frame_painted_overlapping : ∃ dst' damage,
    composeFrame (fun st surface => (some (List.replicate surface.width surface.id), st))
      [7, 8, 9] 3 1 overlapping .new false 0 () = some (dst', damage) ∧
    dst'[0]? = some 5 ∧ dst'[1]? = some 6 ∧ dst'[2]? = some 9 := by
  obtain ⟨dst', damage, h, -, hpixel, -⟩ := frame_painted
    (fun (st : Unit) surface => (some (List.replicate surface.width (surface.id : Pixel)), st))
    [7, 8, 9] 3 1 overlapping false 0 () rfl
  exact ⟨dst', damage, h, hpixel 0 0 7 (by decide) (by decide) rfl,
    hpixel 1 0 8 (by decide) (by decide) rfl, hpixel 2 0 9 (by decide) (by decide) rfl⟩

end Aios.Compositor
