/-!
# Blank text

The characters that are white space everywhere, and the pieces that a separator cuts a text into.
-/

namespace Clippings
namespace Text

/-- White space as the Unicode standard lists it. -/
def isBlank (c : Char) : Bool :=
  let n := c.toNat
  (9 ≤ n && n ≤ 13) || n == 0x20 || n == 0x85 || n == 0xa0 || n == 0x1680 ||
    (0x2000 ≤ n && n ≤ 0x200a) || n == 0x2028 || n == 0x2029 || n == 0x202f || n == 0x205f ||
    n == 0x3000

/-- The pieces between separators. -/
def splitAt (separator : Char) : List Char -> List (List Char)
  | [] => [[]]
  | c :: rest =>
    if c == separator then [] :: splitAt separator rest
    else
      match splitAt separator rest with
      | [] => [[c]]
      | piece :: more => (c :: piece) :: more

end Text
end Clippings
