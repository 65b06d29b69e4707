import TypeSchema.Json.Number

/-!
The numbers of filters. Integers that fit 64 signed bits are exact; every other number keeps the
text it was written as until something is calculated with it, and is then a binary64 number.
Calculation always has a result: beside the finite numbers there are the two infinities and the
number that stands for no value.
-/
namespace TypeSchema

inductive Extended where
  | finite (value : Double)
  | infinite (negative : Bool)
  | nan
  deriving DecidableEq, Repr

namespace Extended

/-- A finite result, or the infinity in place of one that is too large. -/
def ofResult (negative : Bool) (result : Option Double) : Extended :=
  result.elim (.infinite negative) .finite

def round (negative : Bool) (num den : Nat) : Extended :=
  ofResult negative (Double.round? negative num den)

def ofInt (n : Int) : Extended := round (n < 0) (n.natAbs * Double.unit) 1

/-- The number nearest to a numeral. Where its first digit stands tells which numerals are beyond
all finite numbers or nearest to zero, before a power of ten is multiplied out. -/
def nearest (s : Numeral) : Extended :=
  let n := (s.whole ++ s.fraction).foldl (fun n d => 10 * n + d) 0
  let e := s.exponent.getD 0 - s.fraction.length
  let top := (Nat.toDigits 10 n).length + e
  if n = 0 || top < -330 then .finite ⟨s.negative, 0⟩
  else if 310 < top then .infinite s.negative
  else round s.negative (n * Nat.pow 10 e.toNat * Double.unit) (Nat.pow 10 (-e).toNat)

def neg : Extended → Extended
  | finite x => finite x.neg
  | infinite s => infinite (!s)
  | nan => nan

def abs : Extended → Extended
  | finite x => finite ⟨false, x.units⟩
  | infinite _ => infinite false
  | nan => nan

def add : Extended → Extended → Extended
  | finite x, finite y => ofResult (x.toInt + y.toInt < 0) (x.add? y)
  | infinite s, finite _ => infinite s
  | finite _, infinite t => infinite t
  | infinite s, infinite t => if s = t then infinite s else nan
  | _, _ => nan

def sub (x y : Extended) : Extended := x.add y.neg

def mul : Extended → Extended → Extended
  | finite x, finite y => ofResult (x.negative != y.negative) (x.mul? y)
  | infinite s, finite y => if y.isZero then nan else infinite (s != y.negative)
  | finite x, infinite t => if x.isZero then nan else infinite (x.negative != t)
  | infinite s, infinite t => infinite (s != t)
  | _, _ => nan

/-- The order of the numbers. No value is less than everything, itself included. -/
def compare : Extended → Extended → Ordering
  | nan, _ => .lt
  | _, nan => .gt
  | finite x, finite y => Ord.compare x.toInt y.toInt
  | infinite s, infinite t => if s = t then .eq else if s then .lt else .gt
  | infinite s, finite _ => if s then .lt else .gt
  | finite _, infinite t => if t then .gt else .lt

end Extended

namespace Filter

inductive Quantity where
  | exact (value : Int)
  | real (value : Extended)
  /-- The text of a number, and the number nearest to it. -/
  | written (text : String) (value : Extended)
  deriving DecidableEq, Repr

namespace Quantity

def isWord (n : Int) : Bool := -(Nat.pow 2 63 : Int) ≤ n && n < Nat.pow 2 63

def ofNumber : Number → Quantity
  | .int n => if isWord n then .exact n else .written (toString n) (.ofInt n)
  | .float x => .written x.text (.finite x)

def ofNumeral (text : String) (numeral : Numeral) : Quantity :=
  let n : Nat := numeral.whole.foldl (fun n d => 10 * n + d) 0
  match numeral.fraction, numeral.exponent with
  | [], none => if isWord n then .exact n else .written text (.nearest numeral)
  | _, _ => .written text (.nearest numeral)

def value : Quantity → Extended
  | .exact n => .ofInt n
  | .real x => x
  | .written _ x => x

/-- Calculated numbers are positional from `0.0001` to below `1e16`. -/
def layout : Double.Layout := ⟨-4, 15, false⟩

/-- Only finite numbers have a text of their own. -/
def text : Quantity → String
  | .exact n => toString n
  | .real (.finite x) => layout.text x
  | .real _ => "null"
  | .written text _ => text

def compare : Quantity → Quantity → Ordering
  | .exact m, .exact n => Ord.compare m n
  | p, q => p.value.compare q.value

def combine (exact : Int → Int → Int) (rounded : Extended → Extended → Extended) :
    Quantity → Quantity → Quantity
  | .exact m, .exact n =>
    if isWord (exact m n) then .exact (exact m n) else .real (rounded (.ofInt m) (.ofInt n))
  | p, q => .real (rounded p.value q.value)

def add : Quantity → Quantity → Quantity := combine (· + ·) Extended.add

def sub : Quantity → Quantity → Quantity := combine (· - ·) Extended.sub

def mul : Quantity → Quantity → Quantity := combine (· * ·) Extended.mul

/-- An integer modulo `2 ^ 64`, so that the least one is its own opposite. -/
def wrap (n : Int) : Int := n.bmod (Nat.pow 2 64)

def neg : Quantity → Quantity
  | .exact n => .exact (wrap (-n))
  | q => .real q.value.neg

def abs : Quantity → Quantity
  | .exact n => .exact (wrap n.natAbs)
  | q => .real q.value.abs

end Quantity

end Filter

end TypeSchema
