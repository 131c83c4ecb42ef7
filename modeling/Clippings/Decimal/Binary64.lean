/-!
# Binary floating point

Numbers of 53 significant bits and a bounded exponent, with the infinities and one not-a-number.  A
ratio of naturals is rounded to the nearest such number, and of two equally near to the even one.
-/

namespace Clippings

/-- A finite number is `significand * 2 ^ exponent`.  In lowest form the significand lies below
`2 ^ 53`, and from `2 ^ 52` on unless the exponent is the least one. -/
inductive Binary64 where
  | nan
  | infinite (negative : Bool)
  | finite (negative : Bool) (significand : Nat) (exponent : Int)
deriving DecidableEq, Repr

namespace Binary64

def precision : Nat :=
  53

def leastExponent : Int :=
  -1074

def greatestExponent : Int :=
  971

def zero (negative : Bool) : Binary64 :=
  finite negative 0 leastExponent

/-- Equality of values: the zeros are equal, and so are not-a-numbers. -/
def sameValue : Binary64 -> Binary64 -> Bool
  | nan, nan => true
  | infinite a, infinite b => a == b
  | finite a m e, finite b n f => (m == 0 && n == 0) || (a == b && m == n && e == f)
  | _, _ => false

/-- The nearest natural to a ratio, the even one of two. -/
def roundHalfEven (num den : Nat) : Nat :=
  let q := num / den
  let r := num % den
  if 2 * r < den then q
  else if den < 2 * r then q + 1
  else if q % 2 == 0 then q else q + 1

/-- `num / den` in units of `2 ^ e`. -/
def inUnits (num den : Nat) (e : Int) : Nat × Nat :=
  if e < 0 then (num * Nat.pow 2 (-e).toNat, den) else (num, den * Nat.pow 2 e.toNat)

/-- The exponent at which a positive ratio has 53 bits in front of the point, but at least the least
exponent. -/
def unitExponent (num den : Nat) : Int :=
  let guess : Int := max ((num.log2 : Int) - (den.log2 : Int) - precision) leastExponent
  let (n, d) := inUnits num den guess
  if n / d < Nat.pow 2 precision then guess else guess + 1

def ofRatio (negative : Bool) (num den : Nat) : Binary64 :=
  let e := unitExponent num den
  let (n, d) := inUnits num den e
  let m := roundHalfEven n d
  let (m, e) := if m == Nat.pow 2 precision then (Nat.pow 2 (precision - 1), e + 1) else (m, e)
  if greatestExponent < e then infinite negative else finite negative m e

/-- Rounds `digits * 10 ^ exponent`.  Values far outside the range are not worked out. -/
def ofScientific (negative : Bool) (digits : Nat) (exponent : Int) : Binary64 :=
  let magnitude := ((Nat.toDigits 10 digits).length : Int) + exponent
  if digits == 0 then zero negative
  else if 400 < magnitude then infinite negative
  else if magnitude < -400 then zero negative
  else if exponent < 0 then ofRatio negative digits (Nat.pow 10 (-exponent).toNat)
  else ofRatio negative (digits * Nat.pow 10 exponent.toNat) 1

/-- A finite positive number as a ratio. -/
def ratio (significand : Nat) (exponent : Int) : Nat × Nat :=
  if exponent < 0 then (significand, Nat.pow 2 (-exponent).toNat)
  else (significand * Nat.pow 2 exponent.toNat, 1)

end Binary64
end Clippings
