import Clippings.Decimal.Binary64

/-!
# Shortest decimals

The decimal text of a binary number has the fewest digits that read back as the number, and of those
the nearest ones.
-/

namespace Clippings

/-- The number `digits * 10 ^ exponent`. -/
structure Decimal where
  digits : Nat
  exponent : Int
deriving DecidableEq, Repr

namespace Decimal

def toBinary64 (negative : Bool) (d : Decimal) : Binary64 :=
  Binary64.ofScientific negative d.digits d.exponent

/-- The exponent of the first digit of a positive ratio. -/
def leadingExponent (num den : Nat) : Int :=
  if den ≤ num then ((Nat.toDigits 10 (num / den)).length : Int) - 1
  else -((Nat.toDigits 10 ((den + num - 1) / num - 1)).length : Int)

/-- `num / den` in units of `10 ^ e`. -/
def inUnits (num den : Nat) (e : Int) : Nat × Nat :=
  if e < 0 then (num * Nat.pow 10 (-e).toNat, den) else (num, den * Nat.pow 10 e.toNat)

/-- The two neighbours of a ratio on the grid of `10 ^ e`, the nearer one first and the even one
first where neither is. -/
def neighbours (num den : Nat) (e : Int) : List Decimal :=
  let (n, d) := inUnits num den e
  let below : Decimal := ⟨n / d, e⟩
  let above : Decimal := ⟨n / d + 1, e⟩
  let r := n % d
  if 2 * r < d || (2 * r == d && n / d % 2 == 0) then [below, above] else [above, below]

/-- Drops zeros at the end, at most `fuel` of them. -/
def trim (d : Decimal) : Nat -> Decimal
  | 0 => d
  | fuel + 1 =>
    if d.digits % 10 == 0 && d.digits != 0 then trim ⟨d.digits / 10, d.exponent + 1⟩ fuel else d

/-- All digits of a ratio by a power of two. -/
def exact (significand : Nat) (exponent : Int) : Decimal :=
  if exponent < 0 then ⟨significand * Nat.pow 5 (-exponent).toNat, exponent⟩
  else ⟨significand * Nat.pow 2 exponent.toNat, 0⟩

/-- A decimal of so many digits that reads back. -/
def withDigits? (significand : Nat) (exponent : Int) (count : Nat) : Option Decimal :=
  let (num, den) := Binary64.ratio significand exponent
  (neighbours num den (leadingExponent num den - count + 1)).find? fun d =>
    d.toBinary64 false == .finite false significand exponent

/-- The shortest decimal that reads back as a positive number.  Seventeen digits are always enough;
beyond them all digits are given. -/
def shortest (significand : Nat) (exponent : Int) : Decimal :=
  match (List.range 17).findSome? fun n => withDigits? significand exponent (n + 1) with
  | some d => d.trim 17
  | none => exact significand exponent

/-!
## Text
-/

def zeros (n : Nat) : String :=
  String.ofList (List.replicate n '0')

/-- The digits with a point after the first `places` of them, and a zero after the point where
nothing else is. -/
def positional (digits : String) (places : Int) : String :=
  let count := digits.length
  if (count : Int) ≤ places then digits ++ zeros (places.toNat - count) ++ ".0"
  else if 0 < places then
    String.ofList (digits.toList.take places.toNat) ++ "." ++
      String.ofList (digits.toList.drop places.toNat)
  else "0." ++ zeros (-places).toNat ++ digits

/-- One digit in front of the point, and the exponent after an `e`. -/
def scientific (digits : String) (places : Int) : String :=
  let head := String.ofList (digits.toList.take 1)
  let tail := String.ofList (digits.toList.drop 1)
  head ++ (if tail.isEmpty then "" else "." ++ tail) ++ "e" ++ toString (places - 1)

/-- Positional from a hundred-thousandth up to below ten to the sixteenth, scientific outside. -/
def text (d : Decimal) : String :=
  let digits := toString d.digits
  let places := (digits.length : Int) + d.exponent
  if -5 < places && places ≤ 16 then positional digits places else scientific digits places

/-- Positional always. -/
def longText (d : Decimal) : String :=
  let digits := toString d.digits
  positional digits ((digits.length : Int) + d.exponent)

end Decimal

namespace Binary64

def signed (negative : Bool) (s : String) : String :=
  if negative then "-" ++ s else s

/-- A number as it is written in a document. -/
def text : Binary64 -> String
  | nan => ".nan"
  | infinite negative => signed negative ".inf"
  | finite negative significand exponent =>
    signed negative
      (if significand == 0 then "0.0" else (Decimal.shortest significand exponent).text)

/-- A number as messages give it. -/
def message : Binary64 -> String
  | nan => "NaN"
  | infinite negative => signed negative "inf"
  | finite negative significand exponent =>
    signed negative
      (if significand == 0 then "0.0" else (Decimal.shortest significand exponent).longText)

end Binary64
end Clippings
