/-
# Proofs.Premultiplied: no channel of a composite exceeds its alpha

A tinted pixel has no channel above its alpha, whatever its colour and coverage, since a scaled byte is
at most the byte that scales it (`scaled255_le`). What is over such a pixel takes at most the share of
what is below that is let through, so the sum of the two stays within a byte and the clamp of
`addClamped` never acts (`Premultiplied.blendsExactly`). Scaling keeps order, so the sum of two pixels
with all channels up to their alphas is again one (`Premultiplied.blend`), and rounding never takes more
from an alpha below than the alpha above brings (`alpha_le_blend`). From these, part by part, what a
frame has at any place (`premultiplied_pixelAt`, `alpha_pixelAt_le`).
-/
import Subtitles.Proofs.Canvas
namespace Subtitles

set_option autoImplicit false

/-! ## Scaled bytes -/

variable {a b c : UInt8}

theorem toNat_scaled255 (a b : UInt8) : (scaled255 a b).toNat = (a.toNat * b.toNat + 127) / 255 := by
  have largest : a.toNat * b.toNat ≤ 255 * 255 :=
    Nat.mul_le_mul (Nat.le_of_lt_succ a.toNat_lt) (Nat.le_of_lt_succ b.toNat_lt)
  rw [scaled255, UInt8.toNat_ofNat_of_lt']
  show _ < 256
  omega

theorem scaled255_le (a b : UInt8) : scaled255 a b ≤ b := by
  have scaled : a.toNat * b.toNat ≤ 255 * b.toNat := Nat.mul_le_mul_right _ (Nat.le_of_lt_succ a.toNat_lt)
  rw [UInt8.le_iff_toNat_le, toNat_scaled255]
  omega

theorem scaled255_mono (le : a ≤ b) (c : UInt8) : scaled255 a c ≤ scaled255 b c := by
  rw [UInt8.le_iff_toNat_le, toNat_scaled255, toNat_scaled255]
  apply Nat.div_le_div_right
  have := Nat.mul_le_mul_right c.toNat (UInt8.le_iff_toNat_le.1 le)
  omega

theorem toNat_addClamped (fits : a.toNat + b.toNat ≤ 255) : (addClamped a b).toNat = a.toNat + b.toNat := by
  rw [addClamped, Nat.min_eq_right fits, UInt8.toNat_ofNat_of_lt']
  exact Nat.lt_succ_of_le fits

theorem toNat_through (a : UInt8) : (255 - a).toNat = 255 - a.toNat :=
  UInt8.toNat_sub_of_le _ _ (UInt8.le_iff_toNat_le.2 (Nat.le_of_lt_succ a.toNat_lt))

/-- A channel and what is let through below it add up within a byte, if the channel is within the alpha. -/
theorem add_scaled255_le {channel alpha : UInt8} (within : channel ≤ alpha) (below : UInt8) :
    channel.toNat + (scaled255 below (255 - alpha)).toNat ≤ 255 := by
  have share := UInt8.le_iff_toNat_le.1 (scaled255_le below (255 - alpha))
  have := UInt8.le_iff_toNat_le.1 within
  have := alpha.toNat_lt
  rw [toNat_through] at share
  omega

namespace Pixel

variable {above below p : Pixel}

/-! ## One blend -/

/-- No channel of colour exceeds the alpha. -/
structure Premultiplied (p : Pixel) : Prop where
  red : p.red ≤ p.alpha
  green : p.green ≤ p.alpha
  blue : p.blue ≤ p.alpha

/-- In every channel, a blend is the sum of what is above and what is let through: no clamp acts. -/
structure BlendsExactly (above below : Pixel) : Prop where
  red : (above.blend below).red.toNat = above.red.toNat + (scaled255 below.red (255 - above.alpha)).toNat
  green : (above.blend below).green.toNat = above.green.toNat + (scaled255 below.green (255 - above.alpha)).toNat
  blue : (above.blend below).blue.toNat = above.blue.toNat + (scaled255 below.blue (255 - above.alpha)).toNat
  alpha : (above.blend below).alpha.toNat = above.alpha.toNat + (scaled255 below.alpha (255 - above.alpha)).toNat

theorem premultiplied_transparent : transparent.Premultiplied :=
  ⟨UInt8.le_refl 0, UInt8.le_refl 0, UInt8.le_refl 0⟩

theorem premultiplied_tint (color : Color) (coverage : UInt8) : (tint color coverage).Premultiplied := by
  constructor
  · exact scaled255_le color.red _
  · exact scaled255_le color.green _
  · exact scaled255_le color.blue _

theorem Premultiplied.blendsExactly (tinted : above.Premultiplied) (below : Pixel) : above.BlendsExactly below := by
  constructor
  · exact toNat_addClamped (add_scaled255_le tinted.red below.red)
  · exact toNat_addClamped (add_scaled255_le tinted.green below.green)
  · exact toNat_addClamped (add_scaled255_le tinted.blue below.blue)
  · exact toNat_addClamped (add_scaled255_le (UInt8.le_refl _) below.alpha)

theorem Premultiplied.blend (tinted : above.Premultiplied) (beneath : below.Premultiplied) :
    (above.blend below).Premultiplied := by
  have sums := tinted.blendsExactly below
  -- A channel and an alpha of the sum are compared summand by summand.
  have channel : ∀ {upper lower : UInt8}, upper ≤ above.alpha → lower ≤ below.alpha →
      upper.toNat + (scaled255 lower (255 - above.alpha)).toNat ≤
        above.alpha.toNat + (scaled255 below.alpha (255 - above.alpha)).toNat := by
    intro upper lower first second
    exact Nat.add_le_add (UInt8.le_iff_toNat_le.1 first) (UInt8.le_iff_toNat_le.1 (scaled255_mono second _))
  constructor
  · rw [UInt8.le_iff_toNat_le, sums.red, sums.alpha]
    exact channel tinted.red beneath.red
  · rw [UInt8.le_iff_toNat_le, sums.green, sums.alpha]
    exact channel tinted.green beneath.green
  · rw [UInt8.le_iff_toNat_le, sums.blue, sums.alpha]
    exact channel tinted.blue beneath.blue

/-- What rounding takes from the alpha below, the alpha above makes up for. -/
theorem alpha_le_blend (tinted : above.Premultiplied) (below : Pixel) : below.alpha ≤ (above.blend below).alpha := by
  rw [UInt8.le_iff_toNat_le, (tinted.blendsExactly below).alpha, toNat_scaled255, toNat_through]
  have upper := above.alpha.toNat_lt
  have lower := below.alpha.toNat_lt
  have kept : below.alpha.toNat - above.alpha.toNat ≤
      (below.alpha.toNat * (255 - above.alpha.toNat) + 127) / 255 := by
    rw [Nat.le_div_iff_mul_le (by decide), Nat.mul_sub]
    have taken : below.alpha.toNat * above.alpha.toNat ≤ 255 * above.alpha.toNat :=
      Nat.mul_le_mul_right _ (Nat.le_of_lt_succ lower)
    omega
  omega

end Pixel

/-! ## Part over part -/

namespace Part

open Pixel

variable {below : Pixel}

theorem premultiplied_shade (p : Part) (row : Bytes) (dx : Nat) (beneath : below.Premultiplied) :
    (p.shade row dx below).Premultiplied := by
  unfold shade
  split
  · exact (premultiplied_tint _ _).blend beneath
  · exact beneath

theorem alpha_le_shade (p : Part) (row : Bytes) (dx : Nat) (below : Pixel) :
    below.alpha ≤ (p.shade row dx below).alpha := by
  unfold shade
  split
  · exact alpha_le_blend (premultiplied_tint _ _) below
  · exact UInt8.le_refl _

theorem premultiplied_overlay (p : Part) (X Y : Nat) (beneath : below.Premultiplied) :
    (p.overlay X Y below).Premultiplied := by
  unfold overlay
  split
  · exact premultiplied_shade p _ _ beneath
  · exact beneath

theorem alpha_le_overlay (p : Part) (X Y : Nat) (below : Pixel) : below.alpha ≤ (p.overlay X Y below).alpha := by
  unfold overlay
  split
  · exact alpha_le_shade p _ _ below
  · exact UInt8.le_refl _

end Part

namespace Frame

open Pixel

variable {f : Frame} {width height : UInt32} {bytes : Bytes}

theorem premultiplied_foldl (ps : List Part) (X Y : Nat) {below : Pixel} (beneath : below.Premultiplied) :
    (ps.foldl (fun below p => p.overlay X Y below) below).Premultiplied := by
  induction ps generalizing below with
  | nil => exact beneath
  | cons p ps ih => exact ih (p.premultiplied_overlay X Y beneath)

/-- Whatever its parts are and however they overlap, a frame has a premultiplied pixel at every place. -/
theorem premultiplied_pixelAt (f : Frame) (X Y : Nat) : (f.pixelAt X Y).Premultiplied := by
  unfold pixelAt
  split
  · exact premultiplied_transparent
  · exact premultiplied_foldl f.parts X Y premultiplied_transparent

/-- The frame with one more part, drawn last. -/
def withPart (f : Frame) (p : Part) : Frame := { f with parts := f.parts ++ [p] }

/-- One more part is blended over what the frame has, if frames of its format are drawn at all. -/
theorem pixelAt_withPart (f : Frame) (p : Part) (X Y : Nat) :
    (f.withPart p).pixelAt X Y = if f.format = .empty then .transparent else p.overlay X Y (f.pixelAt X Y) := by
  obtain ⟨format, parts, changeId⟩ := f
  cases format with
  | empty => rfl
  | alpha8 =>
      cases parts with
      | nil => rfl
      | cons first rest => simp [pixelAt, withPart, isEmpty]

theorem alpha_pixelAt_le (f : Frame) (p : Part) (X Y : Nat) :
    (f.pixelAt X Y).alpha ≤ ((f.withPart p).pixelAt X Y).alpha := by
  rw [pixelAt_withPart]
  split
  · next undrawn =>
      have nothing : f.pixelAt X Y = .transparent := by simp [pixelAt, isEmpty, undrawn]
      rw [nothing]
      exact UInt8.le_refl _
  · exact p.alpha_le_overlay X Y _

/-- Whether memory holds a canvas does not depend on what is drawn. -/
theorem composite_withPart (composed : f.composite width height = .ok bytes) (p : Part) :
    ∃ more, (f.withPart p).composite width height = .ok more :=
  composite_ends_iff.2 (composite_ends_iff.1 ⟨bytes, composed⟩)

/-- Every pixel of a composite is premultiplied. Each blend of a part over whatever is below it adds up exactly,
without a clamp. One more part lowers the alpha of no pixel. -/
theorem composite_premultiplied (composed : f.composite width height = .ok bytes) :
    (∀ X Y, X < width.toNat → Y < height.toNat → ∃ pixel : Pixel, pixel.Premultiplied ∧
      ∀ k < 4, bytes[4 * (Y * width.toNat + X) + k]? = pixel.bytes[k]?) ∧
    (∀ p ∈ f.parts, ∀ coverage below, (Pixel.tint p.color coverage).BlendsExactly below) ∧
    ∀ p, ∃ more, (f.withPart p).composite width height = .ok more ∧
      ∀ X Y, X < width.toNat → Y < height.toNat → ∃ alpha alpha',
        bytes[4 * (Y * width.toNat + X) + 3]? = some alpha ∧
        more[4 * (Y * width.toNat + X) + 3]? = some alpha' ∧ alpha ≤ alpha' := by
  refine ⟨fun X Y inside above => ?_, fun p _ coverage below => ?_, fun p => ?_⟩
  · refine ⟨f.pixelAt X Y, premultiplied_pixelAt f X Y, fun k channel => ?_⟩
    exact getElem?_composite composed inside above channel
  · exact (premultiplied_tint p.color coverage).blendsExactly below
  · obtain ⟨more, composed'⟩ := composite_withPart composed p
    refine ⟨more, composed', fun X Y inside above => ?_⟩
    refine ⟨(f.pixelAt X Y).alpha, ((f.withPart p).pixelAt X Y).alpha, ?_, ?_, alpha_pixelAt_le f p X Y⟩
    · exact getElem?_composite composed inside above (k := 3) (by decide)
    · exact getElem?_composite composed' inside above (k := 3) (by decide)

/-- Half a red pixel, and a faint white one that covers it and its neighbour. -/
def halfRed : Frame :=
  ⟨.alpha8, [⟨0, 0, 1, 1, 1, 1, 1, ⟨255, 0, 0, 128⟩, #[255]⟩, ⟨0, 0, 1, 1, 2, 1, 1, .white, #[101]⟩], 1⟩

theorem composite_premultiplied_halfRed :
    ∃ bytes, halfRed.composite 2 1 = .ok bytes ∧ bytes.toList = [178, 101, 101, 178, 101, 101, 101, 101] ∧
      ∃ pixel : Pixel, pixel.Premultiplied ∧ ∀ k < 4, bytes[4 * (0 * 2 + 0) + k]? = pixel.bytes[k]? := by
  have fits : (2 : UInt32).toNat * (1 : UInt32).toNat * 4 < 0x8000000000000000 := by decide
  obtain ⟨bytes, composed⟩ := halfRed.composite_of_fits fits
  have made : (halfRed.composite 2 1).toOption.map Array.toList = some [178, 101, 101, 178, 101, 101, 101, 101] := by
    decide +kernel
  rw [composed] at made
  obtain ⟨pixels, -⟩ := composite_premultiplied composed
  exact ⟨bytes, composed, Option.some.inj made, pixels 0 0 (by decide) (by decide)⟩

end Frame
end Subtitles
