/-!
# The fewest digits that name a binary number

A binary number is a mantissa times a power of two. The decimals that read back
as it lie between the two points halfway to its neighbours, the ends included
when the mantissa is even. On each grid of powers of ten, from coarse to fine,
only the two points next to the number can lie there; the first grid with such a
point gives the digits. All comparisons are exact.
-/

namespace LarkCheck.Decimal

/-- The number `mantissa * 2 ^ exponent`; `closerBelow` when the gap below it is half the gap
above. -/
structure Binary where
  mantissa : Nat
  exponent : Int
  closerBelow : Bool
deriving DecidableEq, Repr

/-- The number `digits * 10 ^ exponent`. -/
structure Scientific where
  digits : Nat
  exponent : Int
deriving DecidableEq, Repr

namespace Binary

/-- `quarters * 2 ^ (b.exponent - 2)` and `10 ^ grid` over a common unit. -/
def onGrid (b : Binary) (grid : Int) (quarters : Nat) : Nat :=
  quarters * Nat.pow 2 (b.exponent - 2).toNat * Nat.pow 10 (-grid).toNat

def gridUnit (b : Binary) (grid : Int) : Nat :=
  Nat.pow 2 (2 - b.exponent).toNat * Nat.pow 10 grid.toNat

/-- Whether `digits * 10 ^ grid` reads back as the number. -/
def readsBack (b : Binary) (grid : Int) (digits : Nat) : Bool :=
  let point := digits * b.gridUnit grid
  let low := b.onGrid grid (4 * b.mantissa - if b.closerBelow then 1 else 2)
  let high := b.onGrid grid (4 * b.mantissa + 2)
  if b.mantissa % 2 = 0 then low ≤ point && point ≤ high else low < point && point < high

/-- The point of the grid that reads back and lies nearest, the upper one if both are as near. -/
def nearest? (b : Binary) (grid : Int) : Option Scientific :=
  let value := b.onGrid grid (4 * b.mantissa)
  let unit := b.gridUnit grid
  let below := value / unit
  let above : Scientific := ⟨below + 1, grid⟩
  if b.readsBack grid below then
    if b.readsBack grid (below + 1) && (2 * below + 1) * unit ≤ 2 * value then some above
    else some ⟨below, grid⟩
  else if b.readsBack grid (below + 1) then some above
  else none

/-- A power of ten that is not below the number, and at most a few above it. -/
def topGrid (b : Binary) : Int :=
  (b.exponent + (b.mantissa.log2 + 1 : Nat)) * 1233 / 4096 + 1

/-- The shortest decimal that reads back. Nineteen grids always suffice for 53 binary digits. -/
def shortest (b : Binary) : Scientific :=
  let grids := (List.range 20).map fun i : Nat => b.topGrid - i
  (grids.findSome? b.nearest?).getD ⟨b.onGrid 0 (4 * b.mantissa) / b.gridUnit 0, 0⟩

end Binary

end LarkCheck.Decimal
