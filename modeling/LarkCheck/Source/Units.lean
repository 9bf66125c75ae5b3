import LarkCheck.Source.Scalar

/-!
# Units of two and of four bytes

The bytes of a unit come with the lower one first or last. A unit of four bytes is
the number of a character. A unit of two is too, unless it is a surrogate: a high
surrogate and a low one after it make one character above 0xffff.
-/

namespace LarkCheck.Source

inductive ByteOrder where
  | littleEndian | bigEndian
deriving DecidableEq, Repr

/-- The number that some bytes stand for. -/
def ByteOrder.value (order : ByteOrder) (bytes : List UInt8) : Nat :=
  let highFirst := match order with
    | littleEndian => bytes.reverse
    | bigEndian => bytes
  highFirst.foldl (fun n b => n * 256 + b.toNat) 0

/-- Units of two bytes, as long as there are two. -/
def pairs (order : ByteOrder) : List UInt8 → List Nat
  | a :: b :: rest => order.value [a, b] :: pairs order rest
  | _ => []

/-- Units of four bytes, as long as there are four. -/
def quads (order : ByteOrder) : List UInt8 → List Nat
  | a :: b :: c :: d :: rest => order.value [a, b, c, d] :: quads order rest
  | _ => []

def isHighSurrogate (unit : Nat) : Bool :=
  0xd800 ≤ unit && unit < 0xdc00

def isLowSurrogate (unit : Nat) : Bool :=
  0xdc00 ≤ unit && unit < 0xe000

/-- The number of the character that two surrogates make. -/
def surrogateValue (high low : Nat) : Nat :=
  0x10000 + (high - 0xd800) * 0x400 + (low - 0xdc00)

/-- The character that a high surrogate makes with the unit after it. -/
def surrogatePair? (high low : Nat) : Option Char :=
  if isLowSurrogate low then scalar? (surrogateValue high low) else none

/-- The characters of units of two bytes, or the first unit that makes none. -/
def decodeUnits16 : List Nat → Except Nat (List Char)
  | [] => .ok []
  | unit :: rest =>
    if isHighSurrogate unit then
      match rest with
      | [] => .error unit
      | low :: rest =>
        match surrogatePair? unit low with
        | some c => (decodeUnits16 rest).map (c :: ·)
        | none => .error unit
    else
      match scalar? unit with
      | some c => (decodeUnits16 rest).map (c :: ·)
      | none => .error unit

/-- The characters of units of four bytes, or the first unit that is none. -/
def decodeUnits32 : List Nat → Except Nat (List Char)
  | [] => .ok []
  | unit :: rest =>
    match scalar? unit with
    | some c => (decodeUnits32 rest).map (c :: ·)
    | none => .error unit

end LarkCheck.Source
