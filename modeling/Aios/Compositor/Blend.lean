import Aios.Compositor.Render

/-!
Premultiplied alpha, `blit_alpha_premultiplied` of `kernel/src/compositor/render.rs`.

The blend shifts by 8 where the exact formula divides by 255. The source says so: a pixel that
should shine through loses one in every channel.
-/

namespace Aios.Compositor

def blendPremultiplied (src dst : Pixel) : Pixel :=
  let sa := (src >>> 24) &&& 0xFF
  let inv := 255 - sa
  let sr := (src >>> 16) &&& 0xFF
  let sg := (src >>> 8) &&& 0xFF
  let sb := src &&& 0xFF
  let dr := (dst >>> 16) &&& 0xFF
  let dg := (dst >>> 8) &&& 0xFF
  let db := dst &&& 0xFF
  let da := (dst >>> 24) &&& 0xFF
  let outA := sa + ((da * inv) >>> 8)
  let outR := sr + ((dr * inv) >>> 8)
  let outG := sg + ((dg * inv) >>> 8)
  let outB := sb + ((db * inv) >>> 8)
  ((outA &&& 0xFF) <<< 24) ||| ((outR &&& 0xFF) <<< 16) ||| ((outG &&& 0xFF) <<< 8) |||
    (outB &&& 0xFF)

def blitAlphaPremultiplied : List Pixel → ℕ → ℕ → List Pixel → ℕ → ℕ → ℤ → ℤ →
    Option (Option DamageRect × List Pixel) := blit blendPremultiplied

/-! ### Channels -/

namespace Pixel

def channel (p : Pixel) (k : Fin 4) : Pixel := (p >>> (8 * k.val)) &&& 0xFF

def alpha (p : Pixel) : ℕ := (channel p 3).toNat

def Premultiplied (p : Pixel) : Prop := ∀ k, (channel p k).toNat ≤ alpha p

lemma getLsbD_mask (i : ℕ) : (0xFF : Pixel).getLsbD i = decide (i < 8) := by
  rw [show (0xFF : Pixel) = BitVec.ofNat 32 (2 ^ 8 - 1) from rfl, BitVec.getLsbD_ofNat,
    Nat.testBit_two_pow_sub_one]
  grind

lemma toNat_mask (p : Pixel) : (p &&& 0xFF).toNat = p.toNat % 256 := by
  rw [BitVec.toNat_and]
  exact Nat.and_two_pow_sub_one_eq_mod p.toNat 8

lemma channel_lt (p : Pixel) (k : Fin 4) : (channel p k).toNat < 256 := by
  rw [channel, toNat_mask]
  omega

lemma ext_channel {p q : Pixel} (h : ∀ k, channel p k = channel q k) : p = q := by
  refine BitVec.eq_of_getLsbD_eq fun i hi => ?_
  have hk := congrArg (fun c : Pixel => c.getLsbD (i % 8)) (h ⟨i / 8, by omega⟩)
  simp only [channel, BitVec.getLsbD_and, BitVec.getLsbD_ushiftRight, getLsbD_mask] at hk
  simpa [Nat.mod_lt, Nat.div_add_mod] using hk

lemma channel_pack (a r g b : Pixel) (k : Fin 4) :
    channel (((a &&& 0xFF) <<< 24) ||| ((r &&& 0xFF) <<< 16) ||| ((g &&& 0xFF) <<< 8) |||
      (b &&& 0xFF)) k = ![b, g, r, a] k &&& 0xFF := by
  refine BitVec.eq_of_getLsbD_eq fun i hi => ?_
  simp only [channel, BitVec.getLsbD_and, BitVec.getLsbD_or, BitVec.getLsbD_shiftLeft,
    BitVec.getLsbD_ushiftRight, getLsbD_mask]
  fin_cases k <;> by_cases h : i < 8 <;> simp [h] <;> grind

end Pixel

open Pixel BitVec

lemma channel_blend_eq (src dst : Pixel) (k : Fin 4) : channel (blendPremultiplied src dst) k =
    (channel src k + ((channel dst k * (255 - channel src 3)) >>> 8)) &&& 0xFF := by
  unfold blendPremultiplied
  rw [channel_pack]
  fin_cases k <;> rfl

variable {src : Pixel}

lemma channel_blend (h : Premultiplied src) (dst : Pixel) (k : Fin 4) :
    (channel (blendPremultiplied src dst) k).toNat =
      (channel src k).toNat + (channel dst k).toNat * (255 - alpha src) / 256 := by
  have ha : alpha src < 256 := channel_lt src 3
  have hs := h k
  have hd := channel_lt dst k
  have hinv : ((255 : Pixel) - channel src 3).toNat = 255 - alpha src := by
    rw [toNat_sub_of_le (by rw [le_def]; exact Nat.le_of_lt_succ ha)]
    rfl
  have hprod : (channel dst k).toNat * (255 - alpha src) ≤ 255 * (255 - alpha src) :=
    Nat.mul_le_mul_right _ (by omega)
  rw [channel_blend_eq, toNat_mask, toNat_add, toNat_ushiftRight, toNat_mul,
    hinv, Nat.shiftRight_eq_div_pow]
  generalize (channel dst k).toNat * (255 - alpha src) = prod at hprod ⊢
  omega

lemma channel_blend_transparent (h : Premultiplied src) (ha : alpha src = 0) (dst : Pixel)
    (k : Fin 4) : (channel (blendPremultiplied src dst) k).toNat = (channel dst k).toNat - 1 := by
  have hs := h k
  have hd := channel_lt dst k
  rw [channel_blend h, ha]
  omega

lemma blend_opaque (h : Premultiplied src) (ha : alpha src = 255) (dst : Pixel) :
    blendPremultiplied src dst = src := by
  refine ext_channel fun k => eq_of_toNat_eq ?_
  rw [channel_blend h, ha]
  simp

/-- **Alpha blits.** A fully transparent pixel takes one off every channel that is not zero, a fully
opaque pixel replaces what it covers, no channel overflows, and nothing changes outside of the
rectangle that is returned. -/
theorem blit_blends (src dst : List Pixel) (srcW srcH dstW dstH : ℕ) (x y : ℤ)
    (hpre : ∀ s ∈ src, Premultiplied s) (hsrc : srcW * srcH ≤ src.length)
    (hdst : dst.length = dstW * dstH) :
    ∃ rect dst', blitAlphaPremultiplied src srcW srcH dst dstW dstH x y = some (rect, dst') ∧
    dst'.length = dst.length ∧
    ∀ px py old, px < dstW → py < dstH → dst[py * dstW + px]? = some old →
      ∃ new, dst'[py * dstW + px]? = some new ∧
        ((∀ r ∈ rect, ¬r.Contains px py) → new = old) ∧
        ∀ s, sourceAt src srcW srcH x y px py = some s →
          (alpha s = 0 → ∀ k, (channel new k).toNat = (channel old k).toNat - 1) ∧
          (alpha s = 255 → new = s) ∧
          ∀ k, (channel new k).toNat
            = (channel s k).toNat + (channel old k).toNat * (255 - alpha s) / 256 := by
  obtain ⟨dst', hblit, hlen, hget⟩ := blit_spec blendPremultiplied x y hsrc hdst
  refine ⟨_, dst', hblit, hlen, fun px py old hpx hpy ho => ?_⟩
  have hnew := hget px py hpx hpy
  rw [ho] at hnew
  cases hs : sourceAt src srcW srcH x y px py with
  | none =>
    rw [hs] at hnew
    exact ⟨old, hnew, fun _ => rfl, nofun⟩
  | some s =>
    rw [hs] at hnew
    unfold sourceAt at hs
    split_ifs at hs with hin
    have hp := hpre s (List.mem_of_getElem? hs)
    refine ⟨blendPremultiplied s old, hnew, fun hout => ?_, ?_⟩
    · cases hc : ClipRect.new x y srcW srcH dstW dstH with
      | none => exact absurd hin (ClipRect.new_none hc hpx hpy)
      | some c =>
        refine absurd ((ClipRect.contains_new hc hpx hpy).mpr hin) (hout c.damage ?_)
        rw [hc]
        rfl
    · rintro _ ⟨⟩
      exact ⟨fun ha => channel_blend_transparent hp ha old, fun ha => blend_opaque hp ha old,
        channel_blend hp old⟩

/-- A half-transparent pixel on a white one; the pixel to its left is off the screen. -/
theorem blit_blends_clipped : ∃ rect dst',
    blitAlphaPremultiplied [0xFF102030, 0x80402010] 2 1 [0xFFFFFFFF] 1 1 (-1) 0
      = some (rect, dst') ∧
    dst'[0]? = some 0xFEBE9E8E := by
  have hpre : ∀ s ∈ [(0xFF102030 : Pixel), 0x80402010], Premultiplied s := by
    simp only [List.mem_cons, List.not_mem_nil, or_false, forall_eq_or_imp, forall_eq]
    unfold Premultiplied
    decide
  obtain ⟨rect, dst', h, -, hpixel⟩ :=
    blit_blends [0xFF102030, 0x80402010] [0xFFFFFFFF] 2 1 1 1 (-1) 0 hpre (by decide) rfl
  obtain ⟨new, hnew, -, hsource⟩ := hpixel 0 0 0xFFFFFFFF (by decide) (by decide) rfl
  have hchannels := (hsource 0x80402010 (by decide)).2.2
  have hsame : new = 0xFEBE9E8E := ext_channel fun k => BitVec.eq_of_toNat_eq (by
    rw [hchannels k]
    revert k
    decide)
  exact ⟨rect, dst', h, hsame ▸ hnew⟩

/-- A transparent pixel darkens a white one. -/
theorem transparent_darkens : Premultiplied 0 ∧ alpha 0 = 0 ∧
    blitAlphaPremultiplied [0] 1 1 [0xFFFFFFFF] 1 1 0 0 =
      some (some ⟨0, 0, 1, 1⟩, [0xFEFEFEFE]) := by
  unfold Premultiplied
  decide

end Aios.Compositor
