import TypeSchema.Json.Double

/-!
The fewest decimal digits that read back as a given finite binary64 number. The reals that round to
a number form an interval; a grid of decimals with one leading digit, two, and so on is tried until
one of the two neighbours of the number on the grid lies in the interval. Of two such neighbours the
nearer is taken, and the even one of two equally near.
-/
namespace TypeSchema.Double

structure Decimal where
  digits : Nat
  exponent : Int
  deriving DecidableEq, Repr

def compareScaled (a : Nat) (e : Int) (b : Nat) : Ordering :=
  if e < 0 then compare (a * 4 * unit) (b * Nat.pow 10 (-e).toNat)
  else compare (a * 4 * unit * Nat.pow 10 e.toNat) b

/-- Does the decimal `a * 10 ^ e` round to the magnitude `units`? The ends of the interval belong to
it when the significand is even. -/
def reads (units a : Nat) (e : Int) : Bool :=
  let step := spacing units
  let below := if units = Nat.pow 2 52 * step && step != 1 then step else 2 * step
  let even := units / step % 2 == 0
  let low := compareScaled a e (4 * units - below)
  let high := compareScaled a e (4 * units + 2 * step)
  (low == .gt || even && low == .eq) && (high == .lt || even && high == .eq)

def quotientPow10 (units : Nat) (e : Int) : Nat :=
  if e < 0 then units * Nat.pow 10 (-e).toNat / unit else units / (unit * Nat.pow 10 e.toNat)

def leadingExponent (units : Nat) : Int :=
  (Nat.toDigits 10 (quotientPow10 units (-400))).length - 401

def onGrid? (units : Nat) (e : Int) : Option Decimal :=
  let low := quotientPow10 units e
  match reads units low e, reads units (low + 1) e with
  | false, false => none
  | true, false => some ⟨low, e⟩
  | false, true => some ⟨low + 1, e⟩
  | true, true =>
    match compareScaled (2 * low + 1) e (8 * units) with
    | .lt => some ⟨low + 1, e⟩
    | .gt => some ⟨low, e⟩
    | .eq => some ⟨low + low % 2, e⟩

/-- Tries `n` grids from exponent `e` downward, then settles for the digits on the next. -/
def firstOnGrid (units : Nat) : Nat → Int → Decimal
  | 0, e => ⟨quotientPow10 units e, e⟩
  | n + 1, e => (onGrid? units e).getD (firstOnGrid units n (e - 1))

/-- Seventeen digits always suffice. -/
def shortest (units : Nat) : Decimal :=
  if units = 0 then ⟨0, 0⟩ else firstOnGrid units 17 (leadingExponent units)

def trimZeros : List Char → List Char
  | '0' :: rest => trimZeros rest
  | digits => digits

def scientific (units : Nat) : List Char × Int :=
  let d := shortest units
  let digits := Nat.toDigits 10 d.digits
  match (trimZeros digits.reverse).reverse with
  | [] => (['0'], 0)
  | trimmed => (trimmed, d.exponent + digits.length - 1)

def positional (digits : List Char) (e : Int) : List Char :=
  if e < 0 then '0' :: '.' :: (List.replicate (-e - 1).toNat '0' ++ digits)
  else
    let whole := e.toNat + 1
    let fraction := digits.drop whole
    digits.take whole ++ List.replicate (whole - digits.length) '0' ++
      '.' :: if fraction.isEmpty then ['0'] else fraction

/-- How a number is laid out: it is positional when the exponent of its first digit is `least` to
`greatest`, and otherwise has an exponent, which carries its sign if negative or `signed`. -/
structure Layout where
  least : Int
  greatest : Int
  signed : Bool
  deriving DecidableEq, Repr

def exponential (signed : Bool) (digits : List Char) (e : Int) : List Char :=
  let point := match digits.drop 1 with
    | [] => []
    | fraction => '.' :: fraction
  let sign := if e < 0 then ['-'] else if signed then ['+'] else []
  digits.take 1 ++ point ++ ('e' :: sign ++ Nat.toDigits 10 e.natAbs)

def Layout.text (layout : Layout) (x : Double) : String :=
  let (digits, e) := scientific x.units
  let magnitude :=
    if layout.least ≤ e && e ≤ layout.greatest then positional digits e
    else exponential layout.signed digits e
  String.ofList (if x.negative then '-' :: magnitude else magnitude)

/-- Numbers in JSON texts are positional from `0.00001` to below `1e+16`. -/
def jsonLayout : Layout := ⟨-5, 15, true⟩

def text (x : Double) : String := jsonLayout.text x

end TypeSchema.Double
