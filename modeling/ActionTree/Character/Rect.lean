/-!
# Bounds

* `Rect` - bounds in twips, of which 20 make a pixel;
* `Rect.resized` - bounds with the same origin and a size in pixels.
-/

namespace ActionTree

/-- Bounds in twips. -/
structure Rect where
  xMin : Int32
  yMin : Int32
  xMax : Int32
  yMax : Int32
  deriving DecidableEq, Inhabited

namespace Rect

/-- Bounds of no extent at the origin. -/
def zero : Rect := ⟨0, 0, 0, 0⟩

/-- The number of twips in a pixel. -/
def twipsPerPixel : Int := 20

/-- The 32 bit number that is nearest to an integer. -/
def saturate (i : Int) : Int32 :=
  Int32.ofInt (max Int32.minValue.toInt (min i Int32.maxValue.toInt))

/-- A number of pixels in twips, as far as 32 bits hold it. -/
def twips (pixels : UInt32) : Int32 := saturate (pixels.toNat * twipsPerPixel)

/-- Bounds with the same origin and a size in pixels. -/
def resized (r : Rect) (width height : UInt32) : Rect :=
  { r with
    xMax := saturate (r.xMin.toInt + (twips width).toInt)
    yMax := saturate (r.yMin.toInt + (twips height).toInt) }

/-- The width in twips. -/
def width (r : Rect) : Int := r.xMax.toInt - r.xMin.toInt

/-- The height in twips. -/
def height (r : Rect) : Int := r.yMax.toInt - r.yMin.toInt

end Rect

end ActionTree
