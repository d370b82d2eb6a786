import ActionTree.Character.Rect
import ActionTree.Image.Format

/-!
# Characters of a movie

* `TagCode` - the codes of the tags that define shapes and images;
* `Fill`, `Content`, `Character` - what a tag defines.
-/

namespace ActionTree

/-! ### Tag codes -/

/-- The code of a tag. -/
abbrev TagCode := UInt16

namespace TagCode

/-- A shape. -/
def shape : TagCode := 2
/-- An image that was encoded as JPEG. -/
def jpegImage : TagCode := 21
/-- A shape, second version. -/
def shape2 : TagCode := 22
/-- A shape, third version. -/
def shape3 : TagCode := 32
/-- An image without loss. -/
def losslessImage : TagCode := 36
/-- A shape, fourth version. -/
def shape4 : TagCode := 83

/-- Tells the codes of shapes. -/
def isShape (code : TagCode) : Bool :=
  code == shape || code == shape2 || code == shape3 || code == shape4

/-- Tells the codes of images. -/
def isImage (code : TagCode) : Bool := code == jpegImage || code == losslessImage

/-- The code of a named version of shape tags, zero for an unknown name. -/
def ofShapeName : String → TagCode
  | "shape" => shape
  | "shape2" => shape2
  | "shape3" => shape3
  | "shape4" => shape4
  | _ => 0

end TagCode

/-! ### Characters -/

/-- What a shape is filled with: an image, by its id, or a drawing. -/
inductive Fill where
  | bitmap (image : UInt16)
  | vector (svg : String)
  deriving DecidableEq

/-- What a character is. -/
inductive Content where
  | shape (bounds : Rect) (fill : Option Fill)
  | image (format : ImageFormat) (width height : UInt32) (data : List UInt8)
  | other
  deriving DecidableEq

/-- A character, defined by a tag. -/
structure Character where
  id : UInt16
  code : TagCode
  content : Content
  modified : Bool
  deriving DecidableEq

namespace Character

/-- A shape without a fill. -/
def ofBounds (id : UInt16) (code : TagCode) (bounds : Rect) : Character :=
  ⟨id, code, .shape bounds none, false⟩

/-- Whether a character is a shape. -/
def isShape (c : Character) : Bool :=
  match c.content with
  | .shape .. => true
  | _ => false

/-- Whether a character is an image. -/
def isImage (c : Character) : Bool :=
  match c.content with
  | .image .. => true
  | _ => false

end Character

end ActionTree
