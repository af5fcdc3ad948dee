/-
  FileAccess/Binary64.lean
  ========================
  **Binary floating point, computed exactly.**

  A number here is an integer significand times a power of two (`Scaled`), so
  sums and products are exact; rounding is a separate step, to the nearest
  multiple of a unit, a tie going to the even multiple.  A `Binary64` is the
  64-bit word of the format.  Its two readings are the ones the library needs:
  the word nearest to a number, and the decimal text of a word with a fixed
  number of places, rounded the same way.
-/

namespace FileAccess

def twoPow (n : Nat) : Nat :=
  Nat.pow 2 n

def tenPow (n : Nat) : Nat :=
  Nat.pow 10 n

/-- Nearest integer to `num / den`, a tie going to the even one. -/
def roundHalfEven (num den : Nat) : Nat :=
  let q := num / den
  let twice := 2 * (num % den)
  if den < twice ∨ (twice = den ∧ q % 2 = 1) then q + 1 else q

/-! ### Scaled integers -/

/-- The number `significand * 2 ^ exponent`. -/
structure Scaled where
  significand : Int
  exponent : Int
deriving DecidableEq, Repr

namespace Scaled

def ofInt (n : Int) : Scaled :=
  ⟨n, 0⟩

def add (x y : Scaled) : Scaled :=
  let e := min x.exponent y.exponent
  ⟨x.significand * twoPow (x.exponent - e).toNat + y.significand * twoPow (y.exponent - e).toNat, e⟩

def mul (x y : Scaled) : Scaled :=
  ⟨x.significand * y.significand, x.exponent + y.exponent⟩

/-- The multiple of `2 ^ unit` nearest to a number, a tie going to the even
    multiple. -/
def roundTo (unit : Int) (x : Scaled) : Scaled :=
  if unit ≤ x.exponent then
    ⟨x.significand * twoPow (x.exponent - unit).toNat, unit⟩
  else
    ⟨x.significand.sign * roundHalfEven x.significand.natAbs (twoPow (unit - x.exponent).toNat),
      unit⟩

def unit53 (x : Scaled) : Int :=
  x.exponent + x.significand.natAbs.log2 - 52

def round53 (x : Scaled) : Scaled :=
  x.roundTo x.unit53

end Scaled

/-! ### Words -/

structure Binary64 where
  word : UInt64
deriving DecidableEq, Repr

namespace Binary64

/-- What a word stands for: no number, an infinity, or a finite number with its
    sign, which a zero has too. -/
inductive Datum where
  | nan
  | infinite (negative : Bool)
  | finite (negative : Bool) (significand : Nat) (exponent : Int)
deriving DecidableEq, Repr

def fraction (x : Binary64) : Nat :=
  x.word.toNat % twoPow 52

def field (x : Binary64) : Nat :=
  x.word.toNat / twoPow 52 % twoPow 11

def isNegative (x : Binary64) : Bool :=
  x.word.toNat / twoPow 63 == 1

def datum (x : Binary64) : Datum :=
  if x.field = 2047 then
    if x.fraction = 0 then .infinite x.isNegative else .nan
  else if x.field = 0 then .finite x.isNegative x.fraction (-1074)
  else .finite x.isNegative (x.fraction + twoPow 52) ((x.field : Int) - 1075)

/-- The word nearest to a number: 53 binary digits, or fewer below the least
    normal number, where the unit stays `2 ^ (-1074)`.  A significand that rounds
    up to `2 ^ 53` carries into the exponent bits by itself, and past the greatest
    finite number into those of infinity. -/
def ofScaled (x : Scaled) : Binary64 :=
  if x.significand = 0 then ⟨0⟩
  else
    let unit := max (-1074) x.unit53
    let magnitude := min ((unit + 1074).toNat * twoPow 52 + (x.roundTo unit).significand.natAbs)
      (2047 * twoPow 52)
    ⟨UInt64.ofNat ((if x.significand < 0 then twoPow 63 else 0) + magnitude)⟩

/-! ### Decimal text with a fixed number of places -/

def paddedDigits (width n : Nat) : String :=
  let digits := Nat.toDigits 10 n
  String.ofList (List.replicate (width - digits.length) '0' ++ digits)

def placesText (places units : Nat) : String :=
  toString (units / tenPow places) ++ "." ++ paddedDigits places (units % tenPow places)

def decimalUnits (places significand : Nat) (exponent : Int) : Nat :=
  if 0 ≤ exponent then significand * tenPow places * twoPow exponent.toNat
  else roundHalfEven (significand * tenPow places) (twoPow (-exponent).toNat)

/-- The text of a word with a fixed number of decimal places.  The sign is that of
    the word, so a negative number that rounds to nothing is still negative. -/
def fixedText (places : Nat) (x : Binary64) : String :=
  match x.datum with
  | .nan => "NaN"
  | .infinite negative => if negative then "-inf" else "inf"
  | .finite negative significand exponent =>
    (if negative then "-" else "") ++ placesText places (decimalUnits places significand exponent)

end Binary64

end FileAccess
