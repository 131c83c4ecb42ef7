/-!
# Character classes

The classes of characters that reading and writing decide by.  A text may hold only characters that
are `isAllowed`; line breaks and blanks have the meanings the format gives them, which are not those
of plain text.
-/

namespace Clippings
namespace Yaml
namespace Character

def byteOrderMark : Char := '\ufeff'

def isBreak (c : Char) : Bool :=
  c == '\n' || c == '\r' || c == '\u0085' || c == '\u2028' || c == '\u2029'

def isBlank (c : Char) : Bool :=
  c == ' ' || c == '\t'

def isGap (c : Char) : Bool :=
  isBlank c || isBreak c

/-- Letters of names: anchors, tag handles, directive names. -/
def isWord (c : Char) : Bool :=
  c.isAlphanum || c == '_' || c == '-'

def digitValue (c : Char) : Nat :=
  c.toNat - '0'.toNat

def hexValue? (c : Char) : Option Nat :=
  if c.isDigit then some (c.toNat - '0'.toNat)
  else if 'a' ≤ c && c ≤ 'f' then some (c.toNat - 'a'.toNat + 10)
  else if 'A' ≤ c && c ≤ 'F' then some (c.toNat - 'A'.toNat + 10)
  else none

def hexDigit (n : Nat) : Char :=
  if n < 10 then Char.ofNat ('0'.toNat + n) else Char.ofNat ('A'.toNat + (n - 10))

/-- Characters that a text may hold as they are. -/
def isAllowed (c : Char) : Bool :=
  c == '\t' || c == '\n' || c == '\r' ||
    (0x20 ≤ c.toNat && c.toNat ≤ 0x7e) || c == '\u0085' ||
    (0xa0 ≤ c.toNat && c.toNat ≤ 0xd7ff) ||
    (0xe000 ≤ c.toNat && c.toNat ≤ 0xfffd) || 0x10000 ≤ c.toNat

/-- Characters that are written as they are: the rest are written as escapes. -/
def isPrintable (c : Char) : Bool :=
  c == '\n' || (0x20 ≤ c.toNat && c.toNat ≤ 0x7e) ||
    (0xa0 ≤ c.toNat && c.toNat ≤ 0xd7ff) ||
    (0xe000 ≤ c.toNat && c.toNat ≤ 0xfffd && c != byteOrderMark) || 0x10000 ≤ c.toNat

/-- Characters of a tag's spelling that stand for themselves in the writer. -/
def isTagPlain (c : Char) : Bool :=
  isWord c || c ∈ [';', '/', '?', ':', '@', '&', '=', '+', '$', ',', '.', '~', '*', '\'', '(', ')',
    '[', ']']

/-- Characters of a tag's spelling that the reader takes; the flow indicators among them only where
`flow` says so. -/
def isTagUri (flow : Bool) (c : Char) : Bool :=
  isWord c || c ∈ [';', '/', '?', ':', '@', '&', '=', '+', '$', '.', '%', '!', '~', '*', '\'', '(',
    ')'] || (flow && c ∈ [',', '[', ']'])

/-- The next character, if any, is a blank or a line break. -/
def gapOrEnd : List Char -> Bool
  | [] => true
  | c :: _ => isGap c

/-- The next character, if any, is a line break. -/
def breakOrEnd : List Char -> Bool
  | [] => true
  | c :: _ => isBreak c

theorem isPrintable_isAllowed {c : Char} (h : isPrintable c = true) : isAllowed c = true := by
  simp only [isPrintable, isAllowed, Bool.or_eq_true, Bool.and_eq_true, decide_eq_true_eq] at h ⊢
  grind

end Character
end Yaml
end Clippings
