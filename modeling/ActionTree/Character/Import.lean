import ActionTree.Character.Table

/-!
# Importing an image or a drawing

* `CharacterTable.newImage` - the character that an encoded image becomes, or why it cannot;
* `CharacterTable.importImage` - an image in front of a shape that it fills;
* `CharacterTable.importSvg` - a shape filled with a drawing.

An operation answers with its result and the table after it.
-/

namespace ActionTree

/-! ### Filling shapes -/

/-- A shape with another fill; other characters keep their content.  Either way it counts as
modified. -/
def Character.filled (fill : Fill) (c : Character) : Character :=
  match c.content with
  | .shape bounds _ => { c with content := .shape bounds (some fill), modified := true }
  | _ => { c with modified := true }

/-- A shape with its bounds resized to an image, unless one side of the image is zero. -/
def Character.fitted (width height : UInt32) (c : Character) : Character :=
  match c.content with
  | .shape bounds fill =>
    if 0 < width ∧ 0 < height then { c with content := .shape (bounds.resized width height) fill }
    else c
  | _ => c

/-! ### Images -/

/-- The format of encoded bytes; the error names where they come from. -/
def ImageFormat.detect (name : String) (bytes : List UInt8) : Except Error ImageFormat :=
  match sniff bytes with
  | some format => .ok format
  | none => .error (.unsupportedImage name)

namespace CharacterTable

/-- The tag code of an image: the one that was asked for, or for zero the one of its format. -/
def imageCode (format : ImageFormat) (kind : TagCode) : Except Error TagCode :=
  if kind = 0 then .ok (if format = .jpeg then .jpegImage else .losslessImage)
  else if kind.isImage then .ok kind
  else .error (.config ("unsupported image tag kind " ++ Error.idText kind))

/-- The character that an image for a shape becomes.  Its size is zero where the header is not
complete. -/
def newImage (t : CharacterTable) (shape : UInt16) (bytes : List UInt8) (kind : TagCode) :
    Except Error Character := do
  let format ← ImageFormat.detect ("image for character " ++ Error.idText shape) bytes
  let _ ← t.shape? shape
  let code ← imageCode format kind
  let (width, height) := (format.size? bytes).getD (0, 0)
  let id ← t.nextId
  return ⟨id, code, .image format width height bytes, true⟩

/-- The shape that an image fills.  Its bounds stay when the image is stretched over them, and else
take the size of the image. -/
def showImage (image : Character) (stretch : Bool) (shape : Character) : Character :=
  match image.content with
  | .image _ width height _ =>
    let shape := if stretch then shape else shape.fitted width height
    shape.filled (.bitmap image.id)
  | _ => shape

/-- Fills a shape with an encoded image, which becomes a character in front of the shape.  Gives the
id of the image. -/
def importImage (t : CharacterTable) (shape : UInt16) (bytes : List UInt8) (kind : TagCode)
    (stretch : Bool) : Except Error UInt16 × CharacterTable :=
  match t.newImage shape bytes kind with
  | .error e => (.error e, t)
  | .ok image =>
    match t.insertBefore? shape image with
    | .error e => (.error e, t)
    | .ok inserted =>
      -- the shape is looked up once more, now behind the image
      match inserted.shape? shape with
      | .error e => (.error e, inserted)
      | .ok _ => (.ok image.id, inserted.modify shape (showImage image stretch))

/-! ### Drawings -/

/-- Fills a shape with a drawing. -/
def importSvg (t : CharacterTable) (shape : UInt16) (svg : String) :
    Except Error Unit × CharacterTable :=
  match t.shape? shape with
  | .error e => (.error e, t)
  | .ok _ => (.ok (), t.modify shape (Character.filled (.vector svg)))

end CharacterTable

end ActionTree
