import TypeSchema.Json.Shortest

/-!
JSON numbers. A numeral without fraction and exponent that fits 64 bits is an integer, signed below
zero and unsigned above; every other numeral, and `-0`, is a binary64 number. Integers and binary64
numbers are never equal.

A binary64 numeral is read with one rounding for its digits and one for each power of ten applied to
them, so the result may be a neighbour of the number nearest to the numeral.
-/
namespace TypeSchema

inductive Number where
  | int (value : Int)
  | float (value : Double)
  deriving DecidableEq, Repr, Inhabited

structure Numeral where
  negative : Bool
  whole : List Nat
  fraction : List Nat
  exponent : Option Int
  deriving DecidableEq, Repr

namespace Number

def same : Number → Number → Bool
  | .int m, .int n => m == n
  | .float x, .float y => x.same y
  | _, _ => false

def text : Number → String
  | .int n => toString n
  | .float x => x.text

end Number

namespace Numeral

def bound : Nat := Nat.pow 2 64

/-- Digits before the point: the significand they form, and how many digits had no room in it. -/
def readWhole : Nat → List Nat → Nat × Nat
  | n, [] => (n, 0)
  | n, d :: ds =>
    if 10 * n + d < bound then readWhole (10 * n + d) ds else (n, (d :: ds).length)

/-- Digits after the point: the significand they extend, and how many digits found room in it. -/
def readFraction : Nat → List Nat → Nat × Nat
  | n, [] => (n, 0)
  | n, d :: ds =>
    if 10 * n + d < bound then
      let (m, count) := readFraction (10 * n + d) ds
      (m, count + 1)
    else (n, 0)

def shrink : Nat → Double → Double
  | 0, x => x
  | k + 1, x =>
    if x.isZero then x
    else shrink k (((Double.pow10? 308).bind x.div?).getD Double.zero)

def scale? (x : Double) (e : Int) : Option Double :=
  if 0 ≤ e then
    if x.isZero then some x
    else if e ≤ 308 then (Double.pow10? e.toNat).bind x.mul? else none
  else
    let k := (e.natAbs - 1) / 308
    (Double.pow10? (e.natAbs - 308 * k)).bind (shrink k x).div?

/-- The binary64 number that the numeral is read as, unless it is too large. -/
def float? (s : Numeral) : Option Double :=
  let (n, dropped) := readWhole 0 s.whole
  let (m, places) := readFraction n s.fraction
  ((Double.ofNat? m).bind (scale? · (dropped - places + s.exponent.getD 0))).map
    fun x => if s.negative then x.neg else x

/-- The integer that a numeral without fraction and exponent stands for, if it fits. -/
def int? (s : Numeral) : Option Int :=
  let (n, dropped) := readWhole 0 s.whole
  if dropped ≠ 0 then none
  else if s.negative then
    if n = 0 || Nat.pow 2 63 < n then none else some (-n)
  else some n

def number? (s : Numeral) : Option Number :=
  match s.fraction, s.exponent, s.int? with
  | [], none, some n => some (.int n)
  | _, _, _ => s.float?.map .float

end Numeral

end TypeSchema
