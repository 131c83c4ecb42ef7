import Clippings.Yaml.Character
import Clippings.Yaml.Value

/-!
# What plain scalars mean

A scalar without quotes and tags is null, a boolean, an integer, a floating point number, or failing
all of these a string.  Integers of more than 64 bits and at most 128 have a meaning of their own:
no value holds them.
-/

namespace Clippings
namespace Yaml

inductive Meaning where
  | null
  | bool (b : Bool)
  | int (i : Int)
  /-- An integer that no value holds. -/
  | wide (i : Int)
  | float (x : Binary64)
  | str
deriving DecidableEq, Repr

namespace Meaning

def isNullWord (s : List Char) : Bool :=
  s ∈ ["null".toList, "Null".toList, "NULL".toList, "~".toList]

def bool? (s : List Char) : Option Bool :=
  if s ∈ ["true".toList, "True".toList, "TRUE".toList] then some true
  else if s ∈ ["false".toList, "False".toList, "FALSE".toList] then some false
  else none

/-!
## Integers
-/

/-- Without one sign in front, if there is one. -/
def unsigned : List Char -> List Char
  | '+' :: rest => rest
  | '-' :: rest => rest
  | s => s

/-- Digits with a leading zero, which make no number. -/
def isZeroPadded (s : List Char) : Bool :=
  match unsigned s with
  | '0' :: d :: rest => (d :: rest).all Char.isDigit
  | _ => false

def digit? (base : Nat) (c : Char) : Option Nat :=
  (Character.hexValue? c).filter (· < base)

/-- The value of one or more digits. -/
def natural? (base : Nat) (s : List Char) : Option Nat :=
  if s.isEmpty then none
  else s.foldl (fun n? c => n?.bind fun n => (digit? base c).map (n * base + ·)) (some 0)

/-- A base sign and digits of that base, or decimal digits. -/
def magnitude? (s : List Char) : Option Nat :=
  match s with
  | '0' :: 'x' :: digits => natural? 16 digits
  | '0' :: 'o' :: digits => natural? 8 digits
  | '0' :: 'b' :: digits => natural? 2 digits
  | digits => if isZeroPadded digits then none else natural? 10 digits

def integer? (s : List Char) : Option Int :=
  match s with
  | '-' :: rest => (magnitude? rest).map fun n => -(n : Int)
  | '+' :: rest => (magnitude? rest).map Int.ofNat
  | s => (magnitude? s).map Int.ofNat

def int? (s : List Char) : Option Meaning :=
  match integer? s with
  | none => none
  | some i =>
    if -Int.pow 2 63 ≤ i && i < Int.pow 2 64 then some (int i)
    else if -Int.pow 2 127 ≤ i && i < Int.pow 2 128 then some (wide i)
    else none

/-!
## Floating point
-/

/-- Digits, a point among them or not, and perhaps an exponent. -/
def decimal? (s : List Char) : Option Decimal :=
  let whole := s.takeWhile Char.isDigit
  let afterWhole := s.dropWhile Char.isDigit
  let (fraction, afterFraction) :=
    match afterWhole with
    | '.' :: rest => (rest.takeWhile Char.isDigit, rest.dropWhile Char.isDigit)
    | rest => ([], rest)
  match natural? 10 (whole ++ fraction) with
  | none => none
  | some digits =>
    match afterFraction with
    | [] => some ⟨digits, -fraction.length⟩
    | e :: rest =>
      if e == 'e' || e == 'E' then
        let sign : Int := if rest.head? == some '-' then -1 else 1
        (natural? 10 (unsigned rest)).map fun n => ⟨digits, sign * n - fraction.length⟩
      else none

/-- A decimal that is not beyond the range. -/
def finite? (negative : Bool) (s : List Char) : Option Binary64 :=
  match decimal? s with
  | none => none
  | some d =>
    match d.toBinary64 negative with
    | .finite n m e => some (.finite n m e)
    | _ => none

def isInfinityWord (s : List Char) : Bool :=
  s ∈ [".inf".toList, ".Inf".toList, ".INF".toList]

def isNanWord (s : List Char) : Bool :=
  s ∈ [".nan".toList, ".NaN".toList, ".NAN".toList]

def float? (s : List Char) : Option Binary64 :=
  if isNanWord s then some .nan
  else
    let negative := s.head? == some '-'
    let rest := unsigned s
    if isInfinityWord rest then some (.infinite negative) else finite? negative rest

/-!
## All together
-/

def ofPlain (s : List Char) : Meaning :=
  if s.isEmpty || isNullWord s then null
  else
    match bool? s with
    | some b => bool b
    | none =>
      match int? s with
      | some m => m
      | none =>
        if isZeroPadded s then str
        else
          match float? s with
          | some x => float x
          | none => str

end Meaning
end Yaml
end Clippings
