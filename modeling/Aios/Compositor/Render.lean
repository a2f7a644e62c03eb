import Aios.Compositor.Surface

/-!
The software renderer, `kernel/src/compositor/render.rs`, and the damage of a frame,
`DamageTracker` of `shared/src/compositor.rs`.

An image is the list of its pixels, row after row. `none` stands for a slice or an index out of
bounds, which stops the kernel. The source converts between `i32`, `u32`, `i64` and `usize` only
where the value fits, so that positions are integers here and everything else is a number.
-/

namespace Aios.Compositor

abbrev Pixel := BitVec 32

/-- A rectangle of the screen, `DamageRect`. -/
structure DamageRect where
  x : ℕ
  y : ℕ
  width : ℕ
  height : ℕ
  deriving DecidableEq, Repr

structure ClipRect where
  srcX : ℕ
  srcY : ℕ
  dstX : ℕ
  dstY : ℕ
  copyW : ℕ
  copyH : ℕ

/-- The part of a source at `(x, y)` that lies on the destination. -/
def ClipRect.new (x y : ℤ) (srcW srcH dstW dstH : ℕ) : Option ClipRect :=
  if srcW = 0 ∨ srcH = 0 then none
  else
    let xStart := max x 0
    let yStart := max y 0
    let xEnd := min (x + srcW) dstW
    let yEnd := min (y + srcH) dstH
    if xEnd ≤ xStart ∨ yEnd ≤ yStart then none
    else
      some {
        srcX := (xStart - x).toNat
        srcY := (yStart - y).toNat
        dstX := xStart.toNat
        dstY := yStart.toNat
        copyW := (xEnd - xStart).toNat
        copyH := (yEnd - yStart).toNat }

def ClipRect.damage (c : ClipRect) : DamageRect := ⟨c.dstX, c.dstY, c.copyW, c.copyH⟩

section Blit

variable (f : Pixel → Pixel → Pixel) (src : List Pixel)

/-- One row of a blit: `n` pixels from `a` on are drawn from `b` on. -/
def blitRow (dst : List Pixel) (a b n : ℕ) : Option (List Pixel) :=
  (List.range n).foldlM (fun dst col => do
    let s ← src[a + col]?
    let d ← dst[b + col]?
    return dst.set (b + col) (f s d)) dst

def blitRows (srcW dstW : ℕ) (clip : ClipRect) (dst : List Pixel) (n : ℕ) : Option (List Pixel) :=
  (List.range n).foldlM (fun dst row =>
    blitRow f src dst ((clip.srcY + row) * srcW + clip.srcX) ((clip.dstY + row) * dstW + clip.dstX)
      clip.copyW) dst

/-- A blit that draws a source pixel onto a destination pixel by `f`. -/
def blit (srcW srcH : ℕ) (dst : List Pixel) (dstW dstH : ℕ) (x y : ℤ) :
    Option (Option DamageRect × List Pixel) :=
  match ClipRect.new x y srcW srcH dstW dstH with
  | none => some (none, dst)
  | some clip => do
    let dst ← blitRows f src srcW dstW clip dst clip.copyH
    return (some clip.damage, dst)

end Blit

/-- `blit_opaque`. The source copies a row at a time. -/
def blitOpaque : List Pixel → ℕ → ℕ → List Pixel → ℕ → ℕ → ℤ → ℤ →
    Option (Option DamageRect × List Pixel) := blit fun s _ => s

/-! ### One blit -/

/-- The pixel of the source that a blit at `(x, y)` draws at the column `px` of the row `py`. -/
def sourceAt (src : List Pixel) (srcW srcH : ℕ) (x y : ℤ) (px py : ℕ) : Option Pixel :=
  if x ≤ px ∧ (px : ℤ) < x + srcW ∧ y ≤ py ∧ (py : ℤ) < y + srcH then
    src[(py - y).toNat * srcW + (px - x).toNat]?
  else none

def DamageRect.Contains (r : DamageRect) (px py : ℕ) : Prop :=
  r.x ≤ px ∧ px < r.x + r.width ∧ r.y ≤ py ∧ py < r.y + r.height

section

variable {f : Pixel → Pixel → Pixel} {src dst : List Pixel}

variable {srcW srcH dstW dstH px py n : ℕ} {x y : ℤ} {c : ClipRect}

lemma blitRow_spec (f : Pixel → Pixel → Pixel) {a b : ℕ} (ha : a + n ≤ src.length)
    (hb : b + n ≤ dst.length) : ∃ dst', blitRow f src dst a b n = some dst' ∧ dst'.length =
    dst.length ∧ ∀ i, dst'[i]? = if b ≤ i ∧
    i < b + n then (src[a + (i - b)]?).bind fun s => dst[i]?.map (f s) else dst[i]? := by
  induction n with
  | zero => exact ⟨dst, rfl, rfl, fun i => by rw [if_neg (by omega)]⟩
  | succ n ih =>
    obtain ⟨mid, hmid, hlen, hget⟩ := ih (by omega) (by omega)
    obtain ⟨s, hs⟩ : ∃ s, src[a + n]? = some s :=
      Option.isSome_iff_exists.mp (by rw [isSome_getElem?]; simpa using by omega)
    obtain ⟨d, hd⟩ : ∃ d, mid[b + n]? = some d :=
      Option.isSome_iff_exists.mp (by rw [isSome_getElem?]; simpa using by omega)
    refine ⟨mid.set (b + n) (f s d), ?_, by simpa using hlen, fun i => ?_⟩
    · unfold blitRow at hmid ⊢
      rw [List.range_succ, List.foldlM_append, hmid]
      simp [hs, hd]
    · by_cases hi : i = b + n
      · have hold : dst[b + n]? = some d := by
          rw [← hd, hget, if_neg (by omega)]
        subst hi
        rw [List.getElem?_set_self (by omega), if_pos (by omega),
          show a + (b + n - b) = a + n by omega, hs, hold]
        rfl
      · rw [List.getElem?_set_ne (Ne.symm hi), hget]
        by_cases h : b ≤ i ∧ i < b + n
        · rw [if_pos h, if_pos (by omega)]
        · rw [if_neg h, if_neg (by omega)]

lemma row_cell {w r c : ℕ} (hpx : px < w) (hc : c + n ≤ w) :
    r * w + c ≤ py * w + px ∧ py * w + px < r * w + c + n ↔ py = r ∧ c ≤ px ∧ px < c + n := by
  rcases Nat.lt_trichotomy py r with h | rfl | h
  · have := Nat.mul_le_mul_right w (Nat.succ_le_of_lt h)
    rw [Nat.succ_mul] at this
    omega
  · omega
  · have := Nat.mul_le_mul_right w (Nat.succ_le_of_lt h)
    rw [Nat.succ_mul] at this
    omega

structure ClipRect.Fits (c : ClipRect) (srcW srcH dstW dstH : ℕ) : Prop where
  srcX : c.srcX + c.copyW ≤ srcW
  srcY : c.srcY + c.copyH ≤ srcH
  dstX : c.dstX + c.copyW ≤ dstW
  dstY : c.dstY + c.copyH ≤ dstH

lemma row_le {r c w h : ℕ} (hr : r < h) (hc : c + n ≤ w) : r * w + c + n ≤ w * h := by
  have := Nat.mul_le_mul_right w (Nat.succ_le_of_lt hr)
  rw [Nat.succ_mul, Nat.mul_comm h w] at this
  omega

lemma blitRows_spec {clip : ClipRect} (hclip : clip.Fits srcW srcH dstW dstH)
    (hsrc : srcW * srcH ≤ src.length) (hdst : dst.length = dstW * dstH) (hn : n ≤ clip.copyH) :
    ∃ dst', blitRows f src srcW dstW clip dst n = some dst' ∧ dst'.length = dst.length ∧
      ∀ px py, px < dstW → dst'[py * dstW + px]? =
        if clip.dstY ≤ py ∧ py < clip.dstY + n ∧ clip.dstX ≤ px ∧ px < clip.dstX + clip.copyW then
          (src[(clip.srcY + (py - clip.dstY)) * srcW + (clip.srcX + (px - clip.dstX))]?).bind
            fun s => dst[py * dstW + px]?.map (f s)
        else dst[py * dstW + px]? := by
  obtain ⟨hsx, hsy, hdx, hdy⟩ := hclip
  induction n with
  | zero => exact ⟨dst, rfl, rfl, fun px py _ => by rw [if_neg (by omega)]⟩
  | succ n ih =>
    obtain ⟨mid, hmid, hlen, hget⟩ := ih (by omega)
    obtain ⟨dst', hrow, hlen', hget'⟩ := blitRow_spec f
      ((row_le (show clip.srcY + n < srcH by omega) hsx).trans hsrc)
      ((row_le (show clip.dstY + n < dstH by omega) hdx).trans (hlen.trans hdst).ge)
    refine ⟨dst', ?_, hlen'.trans hlen, fun px py hpx => ?_⟩
    · unfold blitRows at hmid ⊢
      rw [List.range_succ, List.foldlM_append, hmid]
      simpa using hrow
    · rw [hget', hget px py hpx]
      simp only [row_cell hpx hdx]
      by_cases hpy : py = clip.dstY + n
      · subst hpy
        rw [if_neg (show ¬(clip.dstY ≤ clip.dstY + n ∧ clip.dstY + n < clip.dstY + n ∧ _) by omega)]
        by_cases hx : clip.dstX ≤ px ∧ px < clip.dstX + clip.copyW
        · rw [if_pos ⟨rfl, hx⟩, if_pos (by omega)]
          congr 2
          rw [Nat.add_sub_cancel_left]
          omega
        · rw [if_neg (by tauto), if_neg (by omega)]
      · rw [if_neg (by tauto)]
        by_cases h : clip.dstY ≤ py ∧ py < clip.dstY + n ∧ clip.dstX ≤ px ∧
            px < clip.dstX + clip.copyW
        · rw [if_pos h, if_pos (by omega)]
        · rw [if_neg h, if_neg (by omega)]

section

variable (h : ClipRect.new x y srcW srcH dstW dstH = some c)
include h

lemma ClipRect.fits_new : c.Fits srcW srcH dstW dstH := by
  unfold ClipRect.new at h
  dsimp only at h
  split_ifs at h
  cases h
  constructor <;> dsimp only <;> omega

lemma ClipRect.contains_new (hpx : px < dstW) (hpy : py < dstH) : c.damage.Contains px py ↔ x ≤ px ∧
    (px : ℤ) < x + srcW ∧ y ≤ py ∧ (py : ℤ) < y + srcH := by
  unfold ClipRect.new at h
  dsimp only at h
  split_ifs at h
  cases h
  simp only [DamageRect.Contains, ClipRect.damage]
  omega

lemma ClipRect.offset_new (hin : c.damage.Contains px py) :
    c.srcX + (px - c.dstX) = (px - x).toNat ∧ c.srcY + (py - c.dstY) = (py - y).toNat := by
  unfold ClipRect.new at h
  dsimp only at h
  split_ifs at h
  cases h
  simp only [DamageRect.Contains, ClipRect.damage] at hin
  dsimp only
  omega

end

lemma ClipRect.new_none (h : ClipRect.new x y srcW srcH dstW dstH = none) (hpx : px < dstW)
    (hpy : py < dstH) : ¬(x ≤ px ∧ (px : ℤ) < x + srcW ∧ y ≤ py ∧ (py : ℤ) < y + srcH) := by
  unfold ClipRect.new at h
  dsimp only at h
  split_ifs at h <;> omega

/-- **One blit.** It stays inside both images, and draws exactly the pixels of the source that lie
on the destination, inside the rectangle that it returns. -/
lemma blit_spec (f : Pixel → Pixel → Pixel) (x y : ℤ) (hsrc : srcW * srcH ≤ src.length)
    (hdst : dst.length = dstW * dstH) :
    ∃ dst', blit f src srcW srcH dst dstW dstH x y =
        some ((ClipRect.new x y srcW srcH dstW dstH).map ClipRect.damage, dst') ∧
      dst'.length = dst.length ∧
      ∀ px py, px < dstW → py < dstH → dst'[py * dstW + px]? =
        match sourceAt src srcW srcH x y px py with
        | some s => dst[py * dstW + px]?.map (f s)
        | none => dst[py * dstW + px]? := by
  unfold blit sourceAt
  cases hc : ClipRect.new x y srcW srcH dstW dstH with
  | none =>
    refine ⟨dst, rfl, rfl, fun px py hpx hpy => ?_⟩
    rw [if_neg (ClipRect.new_none hc hpx hpy)]
  | some clip =>
    obtain ⟨dst', hrows, hlen, hget⟩ :=
      blitRows_spec (f := f) (ClipRect.fits_new hc) hsrc hdst le_rfl
    refine ⟨dst', by simp [hrows], hlen, fun px py hpx hpy => ?_⟩
    have hin := ClipRect.contains_new hc hpx hpy
    rw [hget px py hpx]
    by_cases h : clip.damage.Contains px py
    · obtain ⟨hox, hoy⟩ := ClipRect.offset_new hc h
      obtain ⟨hx, hx', hy, hy'⟩ := hin.mp h
      obtain ⟨s, hs⟩ : ∃ s, src[(py - y).toNat * srcW + (px - x).toNat]? = some s := by
        have := row_le (show (py - y).toNat < srcH by omega)
          (show (px - x).toNat + 1 ≤ srcW by omega)
        exact Option.isSome_iff_exists.mp (by rw [isSome_getElem?]; simpa using by omega)
      rw [if_pos (hin.mp h), hox, hoy, hs, if_pos ⟨h.2.2.1, h.2.2.2, h.1, h.2.1⟩]
      rfl
    · rw [if_neg fun hn => h (hin.mpr hn), if_neg fun hn => h ⟨hn.2.2.1, hn.2.2.2, hn.1, hn.2.1⟩]

end

end Aios.Compositor
