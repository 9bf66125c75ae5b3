import LarkCheck.Decimal.Shortest

/-!
# Real numbers of the language

A real is a binary number of 64 bits. Two reals are the same exactly when their
bits are, so not-a-number equals itself here; `ieeeEq` compares them as numbers.
The text of a real has the fewest digits that read back.
-/

namespace LarkCheck

structure Double where
  bits : UInt64
deriving DecidableEq, Repr

namespace Double

def ofFloat (x : Float) : Double :=
  ⟨x.toBits⟩

def isNegative (x : Double) : Bool :=
  x.bits >>> 63 == 1

/-- The eleven bits of the exponent. -/
def exponentField (x : Double) : Nat :=
  ((x.bits >>> 52) &&& 0x7ff).toNat

/-- The fifty-two bits of the fraction. -/
def fractionField (x : Double) : Nat :=
  (x.bits &&& 0xfffffffffffff).toNat

def isNaN (x : Double) : Bool :=
  x.exponentField == 0x7ff && x.fractionField != 0

def isInfinite (x : Double) : Bool :=
  x.exponentField == 0x7ff && x.fractionField == 0

def isFinite (x : Double) : Bool :=
  x.exponentField != 0x7ff

def isZero (x : Double) : Bool :=
  x.exponentField == 0 && x.fractionField == 0

/-- Equality of numbers: both zeros are equal, and not-a-number equals nothing. -/
def ieeeEq (x y : Double) : Bool :=
  !x.isNaN && !y.isNaN && (x.bits == y.bits || (x.isZero && y.isZero))

/-- The magnitude of a finite real. -/
def magnitude (x : Double) : Decimal.Binary :=
  if x.exponentField = 0 then
    ⟨x.fractionField, -1074, false⟩
  else
    ⟨0x10000000000000 + x.fractionField, (x.exponentField : Int) - 1075,
      x.fractionField == 0 && x.exponentField != 1⟩

/-- The smallest power of ten that is written positionally. -/
def firstPlain : Int := -4

/-- The first power of ten that is written with an exponent. -/
def firstScientific : Int := 16

/-- Digits positionally, with a fraction of at least one digit. -/
def plainText (digits : List Char) (exponent : Int) : String :=
  let point := exponent + digits.length
  if point ≤ 0 then
    "0." ++ String.ofList (List.replicate (-point).toNat '0' ++ digits)
  else
    let whole := digits.take point.toNat
    let fraction := digits.drop point.toNat
    String.ofList (whole ++ List.replicate (point.toNat - whole.length) '0') ++ "." ++
      if fraction.isEmpty then "0" else String.ofList fraction

/-- One digit, the others after a point, and the power of ten of the first. -/
def scientificText (digits : List Char) (exponent : Int) : String :=
  let fraction := digits.drop 1
  String.ofList (digits.take 1) ++
    (if fraction.isEmpty then "" else "." ++ String.ofList fraction) ++
    "e" ++ toString (exponent + digits.length - 1)

def magnitudeText (x : Double) : String :=
  if x.isZero then
    "0.0"
  else
    let decimal := x.magnitude.shortest
    let digits := Nat.toDigits 10 decimal.digits
    let leading := decimal.exponent + digits.length - 1
    if firstPlain ≤ leading ∧ leading < firstScientific then
      plainText digits decimal.exponent
    else
      scientificText digits decimal.exponent

def text (x : Double) : String :=
  if x.isNaN then
    "NaN"
  else
    (if x.isNegative then "-" else "") ++ if x.isInfinite then "inf" else x.magnitudeText

end Double

end LarkCheck
