import LarkCheck.Source.Units
import LarkCheck.Source.Utf8
import LarkCheck.Text.Quoted

/-!
# The encoding of a source

A byte order mark at the front tells the encoding; without one it is UTF-8. The
longer marks are looked for first, since one of them begins with a shorter one.
What cannot be decoded is named by its first malformed place.
-/

namespace LarkCheck.Source

inductive Encoding where
  | utf8
  | utf16 (order : ByteOrder)
  | utf32 (order : ByteOrder)
deriving DecidableEq, Repr

/-- The byte order marks, in the order in which they are looked for. -/
def marks : List (List UInt8 × Encoding) :=
  [([0xff, 0xfe, 0x00, 0x00], .utf32 .littleEndian),
   ([0x00, 0x00, 0xfe, 0xff], .utf32 .bigEndian),
   ([0xef, 0xbb, 0xbf], .utf8),
   ([0xff, 0xfe], .utf16 .littleEndian),
   ([0xfe, 0xff], .utf16 .bigEndian)]

/-- The encoding of some bytes, and the length of the mark that tells it. -/
def detect (bytes : List UInt8) : Encoding × Nat :=
  match marks.find? fun (mark, _) => mark.isPrefixOf bytes with
  | some (mark, encoding) => (encoding, mark.length)
  | none => (.utf8, 0)

/-- Why bytes cannot be decoded. -/
inductive Fault where
  | invalidUtf8 (index : Nat)
  | truncatedUnit16
  | unpairedSurrogate (unit : Nat)
  | truncatedUnit32
  | invalidCodePoint (unit : Nat)
deriving DecidableEq, Repr

/-- The digits of a number in base sixteen, in capital letters and at least so many. -/
def hexText (width n : Nat) : String :=
  let digits := (Text.hexDigits n).map Char.toUpper
  "0x" ++ String.ofList (List.replicate (width - digits.length) '0' ++ digits)

def Fault.reason : Fault → String
  | invalidUtf8 index => "invalid UTF-8 at byte " ++ toString index
  | truncatedUnit16 => "truncated UTF-16 code unit"
  | unpairedSurrogate unit => "unpaired surrogate " ++ hexText 4 unit
  | truncatedUnit32 => "truncated UTF-32 code unit"
  | invalidCodePoint unit => "invalid code point " ++ hexText 1 unit

/-- Decodes what follows a mark of length `skipped`. -/
def decodeBody (encoding : Encoding) (skipped : Nat) (body : List UInt8) :
    Except Fault (List Char) :=
  match encoding with
  | .utf8 =>
    (Utf8.decode body).mapError fun rest => .invalidUtf8 (skipped + (body.length - rest.length))
  | .utf16 order =>
    if body.length % 2 ≠ 0 then .error .truncatedUnit16
    else (decodeUnits16 (pairs order body)).mapError .unpairedSurrogate
  | .utf32 order =>
    if body.length % 4 ≠ 0 then .error .truncatedUnit32
    else (decodeUnits32 (quads order body)).mapError .invalidCodePoint

/-- The characters of a source, without its mark. -/
def decode (bytes : List UInt8) : Except Fault (List Char) :=
  let (encoding, skipped) := detect bytes
  decodeBody encoding skipped (bytes.drop skipped)

end LarkCheck.Source
