/-!
# Decoding UTF-8

* `Utf8.Fault` - why bytes are not UTF-8: where the valid text ends, and how many bytes there begin
  like a character, or that the bytes end inside one;
* `Utf8.decode` - the characters of a byte string, or the fault.
-/

namespace ActionTree.Utf8

/-- Why a byte string is not UTF-8.  `length` is the number of bytes that begin like a character;
it is absent when the bytes end there. -/
structure Fault where
  index : Nat
  length : Option Nat
  deriving DecidableEq, Repr

/-- The fault in words. -/
def Fault.message (f : Fault) : String :=
  match f.length with
  | some n => "invalid utf-8 sequence of " ++ toString n ++ " bytes from index " ++ toString f.index
  | none => "incomplete utf-8 byte sequence from index " ++ toString f.index

/-- Whether a byte lies in a range. -/
def within (lo hi b : UInt8) : Bool := lo ≤ b && b ≤ hi

/-- The number of bytes that a first byte announces after itself, with the range of the second
byte.  The ranges leave out overlong forms, surrogates and codes past `0x10ffff`. -/
def continuation (b : UInt8) : Option (Nat × UInt8 × UInt8) :=
  if within 0xc2 0xdf b then some (1, 0x80, 0xbf)
  else if b == 0xe0 then some (2, 0xa0, 0xbf)
  else if b == 0xed then some (2, 0x80, 0x9f)
  else if within 0xe1 0xef b then some (2, 0x80, 0xbf)
  else if b == 0xf0 then some (3, 0x90, 0xbf)
  else if within 0xf1 0xf3 b then some (3, 0x80, 0xbf)
  else if b == 0xf4 then some (3, 0x80, 0x8f)
  else none

/-- A character in the making: its code so far, the bytes it has, the bytes it still needs and the
range of the next one. -/
structure Pending where
  code : Nat
  taken : Nat
  needed : Nat
  lo : UInt8
  hi : UInt8

/-- Adds the characters of the bytes from `index` on to those of `done`, which stand in reverse.
`pending` is the character that the bytes before have begun, and `index` is where it or the next one
starts. -/
def decodeFrom : List UInt8 → Nat → Option Pending → List Char → Except Fault (List Char)
  | [], _, none, done => .ok done.reverse
  | [], index, some _, _ => .error ⟨index, none⟩
  | b :: bytes, index, none, done =>
    if b < 0x80 then decodeFrom bytes (index + 1) none (Char.ofNat b.toNat :: done)
    else match continuation b with
      | none => .error ⟨index, some 1⟩
      | some (n, lo, hi) =>
        let lead := b.toNat % (if n = 1 then 0x20 else if n = 2 then 0x10 else 8)
        decodeFrom bytes index (some ⟨lead, 1, n, lo, hi⟩) done
  | b :: bytes, index, some p, done =>
    if within p.lo p.hi b then
      let code := p.code * 64 + b.toNat % 64
      if p.needed = 1 then
        decodeFrom bytes (index + p.taken + 1) none (Char.ofNat code :: done)
      else decodeFrom bytes index (some ⟨code, p.taken + 1, p.needed - 1, 0x80, 0xbf⟩) done
    else .error ⟨index, some p.taken⟩

/-- The text of a byte string. -/
def decode (bytes : List UInt8) : Except Fault String :=
  (decodeFrom bytes 0 none []).map String.ofList

end ActionTree.Utf8
