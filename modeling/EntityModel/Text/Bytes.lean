/-!
# Text out of bytes

Bytes that are no text in UTF-8 are shown as text all the same: every longest piece that could have
become a character, or else every single byte, stands as one replacement character.
-/

namespace EntityModel.Text

/-- What the second byte of a character may be, by its first: how many bytes the character has, and
the least and greatest second byte. -/
def leadByte? (b : UInt8) : Option (Nat × UInt8 × UInt8) :=
  if 0xc2 ≤ b && b ≤ 0xdf then some (2, 0x80, 0xbf)
  else if b == 0xe0 then some (3, 0xa0, 0xbf)
  else if b == 0xed then some (3, 0x80, 0x9f)
  else if 0xe1 ≤ b && b ≤ 0xef then some (3, 0x80, 0xbf)
  else if b == 0xf0 then some (4, 0x90, 0xbf)
  else if 0xf1 ≤ b && b ≤ 0xf3 then some (4, 0x80, 0xbf)
  else if b == 0xf4 then some (4, 0x80, 0x8f)
  else none

def isContinuation (b : UInt8) : Bool := 0x80 ≤ b && b ≤ 0xbf

/-- The character that these bytes are in full. -/
def charOfBytes (bs : List UInt8) : Char :=
  match bs.map UInt8.toNat with
  | [a] => Char.ofNat a
  | [a, b] => Char.ofNat (a % 0x20 * 0x40 + b % 0x40)
  | [a, b, c] => Char.ofNat (a % 0x10 * 0x1000 + b % 0x40 * 0x40 + c % 0x40)
  | [a, b, c, d] => Char.ofNat (a % 8 * 0x40000 + b % 0x40 * 0x1000 + c % 0x40 * 0x40 + d % 0x40)
  | _ => '\ufffd'

/-- The first character, and how many bytes it takes. -/
def firstChar (b : UInt8) (rest : List UInt8) : Char × Nat :=
  if b < 0x80 then (charOfBytes [b], 1)
  else match leadByte? b, rest with
    | some (width, low, high), second :: more =>
      if low ≤ second && second ≤ high then
        let tail := (more.take (width - 2)).takeWhile isContinuation
        let piece := b :: second :: tail
        (if piece.length == width then charOfBytes piece else '\ufffd', piece.length)
      else ('\ufffd', 1)
    | _, _ => ('\ufffd', 1)

def charsOfBytes : Nat → List UInt8 → List Char
  | 0, _ => []
  | _, [] => []
  | fuel + 1, b :: rest =>
    let (c, size) := firstChar b rest
    c :: charsOfBytes fuel (rest.drop (size - 1))

/-- Bytes as text, with replacement characters for what is none. -/
def ofBytes (bs : List UInt8) : String := String.ofList (charsOfBytes bs.length bs)

end EntityModel.Text
