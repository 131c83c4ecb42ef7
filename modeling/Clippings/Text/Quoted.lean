import Clippings.Text.Extending
import Clippings.Text.Utf8

/-!
# Quoted text in messages

Texts are quoted between double quotes, and what would be hard to read is escaped: quotes and
backslashes, the common control characters by a letter, other characters without a shape by number.
Octets that belong to no character are given in hexadecimal.
-/

namespace Clippings
namespace Text

namespace Quoted

def lowerHex (n : Nat) : List Char :=
  Nat.toDigits 16 n

def upperHexDigit (n : Nat) : Char :=
  if n < 10 then Char.ofNat ('0'.toNat + n) else Char.ofNat ('A'.toNat + (n - 10))

def escapeChar (c : Char) : List Char :=
  match c with
  | '\x00' => ['\\', '0']
  | '\t' => ['\\', 't']
  | '\r' => ['\\', 'r']
  | '\n' => ['\\', 'n']
  | '\\' => ['\\', '\\']
  | '"' => ['\\', '"']
  | c =>
    if extending.has c || unprintable.has c then
      ['\\', 'u', '{'] ++ lowerHex c.toNat ++ ['}']
    else [c]

def escapeOctet (b : UInt8) : List Char :=
  ['\\', 'x', upperHexDigit (b.toNat / 16), upperHexDigit (b.toNat % 16)]

def escapePiece : Utf8.Piece -> List Char
  | .char c => escapeChar c
  | .broken octets => octets.flatMap escapeOctet

def ofChars (s : List Char) : List Char :=
  '"' :: (s.flatMap escapeChar ++ ['"'])

def ofString (s : String) : String :=
  String.ofList (ofChars s.toList)

def ofOctets (octets : List UInt8) : String :=
  String.ofList ('"' :: ((Utf8.pieces octets).flatMap escapePiece ++ ['"']))

end Quoted
end Text
end Clippings
