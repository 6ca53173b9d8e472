/-!
# Floating-point numbers

Numbers of the binary64 format, by exact arithmetic on natural numbers: a decimal is
rounded to the nearest number, and ties go to an even mantissa. A number is shown with
the fewest digits that round back to it.
-/

namespace Lintel.Toml

/-- A number of the format. A finite one is `mantissa * 2 ^ exponent`. -/
inductive Binary64 where
  | nan
  | infinite (negative : Bool)
  | finite (negative : Bool) (mantissa : Nat) (exponent : Int)
  deriving DecidableEq, Repr

namespace Binary64

def lowestExponent : Int := -1074

def highestExponent : Int := 971

/-- A fraction times a power of two, rounded down, with what remains and its divisor. -/
def scaled (numerator denominator : Nat) (exponent : Int) : Nat × Nat × Nat :=
  let top := numerator * Nat.pow 2 (-exponent).toNat
  let bottom := denominator * Nat.pow 2 exponent.toNat
  (top / bottom, top % bottom, bottom)

/-- The exponent at which a positive fraction has a mantissa of 53 bits, or the lowest. -/
def exponentOf (numerator denominator : Nat) : Int :=
  let guess : Int := (numerator.log2 : Int) - denominator.log2 - 53
  let fits (e : Int) : Bool := (scaled numerator denominator e).1 < Nat.pow 2 53
  let exact := if fits guess then guess else if fits (guess + 1) then guess + 1 else guess + 2
  max exact lowestExponent

def ofFraction (negative : Bool) (numerator denominator : Nat) : Binary64 :=
  let exponent := exponentOf numerator denominator
  let (quotient, remainder, divisor) := scaled numerator denominator exponent
  let up := divisor < 2 * remainder || (divisor == 2 * remainder && quotient % 2 == 1)
  let rounded := if up then quotient + 1 else quotient
  let (mantissa, exponent) :=
    if rounded == Nat.pow 2 53 then (Nat.pow 2 52, exponent + 1) else (rounded, exponent)
  if highestExponent < exponent then .infinite negative else .finite negative mantissa exponent

def digitCount (n : Nat) : Nat :=
  (Nat.toDigits 10 n).length

/-- The number nearest to `digits * 10 ^ exponent`. What lies far outside the range of the
format is not computed. -/
def ofDecimal (negative : Bool) (digits : Nat) (exponent : Int) : Binary64 :=
  let size := exponent + digitCount digits
  if digits == 0 || size < -330 then .finite negative 0 lowestExponent
  else if 310 < size then .infinite negative
  else ofFraction negative (digits * Nat.pow 10 exponent.toNat) (Nat.pow 10 (-exponent).toNat)

def fraction (mantissa : Nat) (exponent : Int) : Nat × Nat :=
  (mantissa * Nat.pow 2 exponent.toNat, Nat.pow 2 (-exponent).toNat)

/-- The power of ten just above a positive fraction. -/
def magnitude (numerator denominator : Nat) : Int :=
  let guess : Int := (digitCount numerator : Int) - digitCount denominator
  let below (p : Int) : Bool := numerator * Nat.pow 10 (-p).toNat < denominator * Nat.pow 10 p.toNat
  if below guess then guess else guess + 1

/-- The decimal of at most `count` digits that stands best for a number, if one of them
rounds back to it. -/
def decimalOf? (mantissa : Nat) (exponent : Int) (count : Nat) : Option (Nat × Int) :=
  let (numerator, denominator) := fraction mantissa exponent
  let scale := magnitude numerator denominator - count
  let top := numerator * Nat.pow 10 (-scale).toNat
  let bottom := denominator * Nat.pow 10 scale.toNat
  let low := top / bottom
  let returns (digits : Nat) : Bool :=
    ofDecimal false digits scale == .finite false mantissa exponent
  let nearHigh := decide (bottom ≤ 2 * (top % bottom))
  if top % bottom == 0 then some (low, scale)
  else match returns low, returns (low + 1) with
    | true, true => some (if nearHigh then low + 1 else low, scale)
    | true, false => some (low, scale)
    | false, true => some (low + 1, scale)
    | false, false => none

/-- The decimal with the fewest digits for a positive number; seventeen always do. -/
def shortest (mantissa : Nat) (exponent : Int) : Nat × Int :=
  ((List.range 17).findSome? fun n => decimalOf? mantissa exponent (n + 1)).getD (0, 0)

def significant (digits : Nat) : List Char :=
  ((Nat.toDigits 10 digits).reverse.dropWhile (· == '0')).reverse

/-- Digits with the point before their start moved by `point` places to the right. -/
def positional (digits : List Char) (point : Int) : String :=
  let whole := digits.take point.toNat
  let rest := digits.drop point.toNat
  let padded := whole ++ List.replicate (point.toNat - whole.length) '0'
  let before := if padded.isEmpty then ['0'] else padded
  let after := List.replicate (-point).toNat '0' ++ rest
  String.ofList before ++ "." ++ String.ofList (if after.isEmpty then ['0'] else after)

def scientific (digits : List Char) (point : Int) : String :=
  let fraction := if digits.tail.isEmpty then "" else "." ++ String.ofList digits.tail
  String.ofList (digits.take 1) ++ fraction ++ "e" ++ toString (point - 1)

/-- A positive number as text; very large and very small ones have a power of ten. -/
def magnitudeText (mantissa : Nat) (exponent : Int) : String :=
  let (decimal, scale) := shortest mantissa exponent
  let digits := significant decimal
  let point := scale + digitCount decimal
  if point ≤ -4 || 16 < point then scientific digits point else positional digits point

def display : Binary64 → String
  | .nan => "NaN"
  | .infinite negative => if negative then "-inf" else "inf"
  | .finite negative mantissa exponent =>
    (if negative then "-" else "")
      ++ (if mantissa == 0 then "0.0" else magnitudeText mantissa exponent)

end Binary64

end Lintel.Toml
