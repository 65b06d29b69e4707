/-!
The finite binary64 numbers, as whole multiples of the least positive one. All rounding is to the
nearest such number, a tie going to the even significand, so every operation is exact arithmetic on
natural numbers followed by one `round`.
-/
namespace TypeSchema

/-- The quotient of `num` by `den`, a half going to the even neighbour. -/
def roundDiv (num den : Nat) : Nat :=
  let q := num / den
  let r := num % den
  if 2 * r < den then q
  else if den < 2 * r then q + 1
  else q + q % 2

/-- The number `±units * 2 ^ (-1074)`. -/
structure Double where
  negative : Bool
  units : Nat
  deriving DecidableEq, Repr, Inhabited

namespace Double

def unit : Nat := Nat.pow 2 1074

def overflow : Nat := Nat.pow 2 2098

/-- The distance from a magnitude to the next one above it: significands have 53 bits, fewer only
where the distance would fall below one unit. -/
def spacing (units : Nat) : Nat := Nat.pow 2 (units.log2 - 52)

def roundUnits (num den : Nat) : Nat :=
  let step := spacing (num / den)
  roundDiv num (den * step) * step

def round? (negative : Bool) (num den : Nat) : Option Double :=
  let units := roundUnits num den
  if units < overflow then some ⟨negative, units⟩ else none

def zero : Double := ⟨false, 0⟩

def neg (x : Double) : Double := ⟨!x.negative, x.units⟩

def isZero (x : Double) : Bool := x.units == 0

/-- Equality of values: the two zeros are equal. -/
def same (x y : Double) : Bool :=
  x.units == y.units && (x.negative == y.negative || x.units == 0)

def toInt (x : Double) : Int := if x.negative then -(x.units : Int) else x.units

def ofNat? (n : Nat) : Option Double := round? false (n * unit) 1

def mul? (x y : Double) : Option Double :=
  round? (x.negative != y.negative) (x.units * y.units) unit

def div? (x y : Double) : Option Double :=
  if y.isZero then none else round? (x.negative != y.negative) (x.units * unit) y.units

/-- A sum that is zero is positive, unless both terms are negative. -/
def add? (x y : Double) : Option Double :=
  let sum := x.toInt + y.toInt
  let negative := if sum = 0 then x.negative && y.negative else decide (sum < 0)
  round? negative sum.natAbs 1

def pow10? (k : Nat) : Option Double := ofNat? (Nat.pow 10 k)

end Double

end TypeSchema
