/-!
# Encoded images

* `ImageFormat.sniff` - the format that the first bytes announce;
* `ImageFormat.size?` - the width and height in the header, if the header is complete;
* `jpegSize?` - the same for JPEG, where the size stands in the first frame segment.
-/

namespace ActionTree

/-! ### Numbers in bytes -/

/-- The number of some bytes, the high ones first. -/
def bigEndian (bytes : List UInt8) : Nat := bytes.foldl (fun n b => n * 256 + b.toNat) 0

/-- The number of some bytes, the low ones first. -/
def littleEndian (bytes : List UInt8) : Nat := bigEndian bytes.reverse

/-- A run of bytes, if all of it is there. -/
def field? (start length : Nat) (bytes : List UInt8) : Option (List UInt8) :=
  let field := (bytes.drop start).take length
  if field.length = length then some field else none

/-- The magnitude of a 32 bit number in two's complement. -/
def magnitude32 (n : Nat) : Nat := if n < 0x80000000 then n else UInt32.size - n

/-! ### JPEG -/

/-- Markers without a segment. -/
def isStandalone (marker : UInt8) : Bool :=
  marker == 0x01 || (0xd0 ≤ marker && marker ≤ 0xd8)

/-- Markers of a frame segment. -/
def isFrameStart (marker : UInt8) : Bool :=
  0xc0 ≤ marker && marker ≤ 0xcf && marker != 0xc4 && marker != 0xc8 && marker != 0xcc

/-- The size in a frame segment: after its length and precision, the height before the width. -/
def frameSize? : List UInt8 → Option (UInt32 × UInt32)
  | _ :: _ :: _ :: h1 :: h0 :: w1 :: w0 :: _ =>
    some (.ofNat (bigEndian [w1, w0]), .ofNat (bigEndian [h1, h0]))
  | _ => none

/-- The size in the first frame segment of bytes that stand at a marker.  Segments are skipped by
their length, and the walk ends at image data or the end of the image. -/
def jpegSize? : List UInt8 → Option (UInt32 × UInt32)
  | 0xff :: marker :: rest =>
    if marker = 0xff then jpegSize? (marker :: rest)
    else if isStandalone marker then jpegSize? rest
    else if isFrameStart marker then frameSize? rest
    else if marker = 0xd9 ∨ marker = 0xda then none
    else match field? 0 2 rest with
      | some length => jpegSize? (rest.drop (bigEndian length))
      | none => none
  | _ => none
termination_by bytes => bytes.length
decreasing_by all_goals (simp only [List.length_cons, List.length_drop]; omega)

/-! ### Formats -/

/-- The formats of images. -/
inductive ImageFormat where
  | bmp
  | jpeg
  | png
  | gif
  deriving DecidableEq, Inhabited

namespace ImageFormat

/-- All formats. -/
def all : List ImageFormat := [.bmp, .jpeg, .png, .gif]

/-- The name of a format. -/
def text : ImageFormat → String
  | .bmp => "BMP"
  | .jpeg => "JPEG"
  | .png => "PNG"
  | .gif => "GIF"

/-- The bytes that an image of a format starts with. -/
def signature : ImageFormat → List UInt8
  | .bmp => [0x42, 0x4d]
  | .jpeg => [0xff, 0xd8]
  | .png => [0x89, 0x50, 0x4e, 0x47]
  | .gif => [0x47, 0x49, 0x46, 0x38]

/-- The format of encoded bytes. -/
def sniff (bytes : List UInt8) : Option ImageFormat :=
  all.find? fun f => f.signature.isPrefixOf bytes

/-- The width and height in pixels.  A negative BMP height only tells that the rows run from the
top. -/
def size? (format : ImageFormat) (bytes : List UInt8) : Option (UInt32 × UInt32) :=
  match format with
  | .png => do
    let width ← field? 16 4 bytes
    let height ← field? 20 4 bytes
    return (.ofNat (bigEndian width), .ofNat (bigEndian height))
  | .gif => do
    let width ← field? 6 2 bytes
    let height ← field? 8 2 bytes
    return (.ofNat (littleEndian width), .ofNat (littleEndian height))
  | .bmp => do
    let width ← field? 18 4 bytes
    let height ← field? 22 4 bytes
    return (.ofNat (magnitude32 (littleEndian width)),
      .ofNat (magnitude32 (littleEndian height)))
  | .jpeg => jpegSize? (bytes.drop 2)

end ImageFormat

end ActionTree
