import Clippings.Yaml.Cursor

/-!
# Gaps inside a scalar

Between two runs of a flow scalar stand blanks on one line, or line breaks.  Blanks on one line are
kept.  A single line break becomes a space, and of several the first is dropped; blanks next to
breaks vanish.  A separator character counts as a break that is never dropped.
-/

namespace Clippings
namespace Yaml

inductive Gap where
  /-- Nothing stands between the runs. -/
  | none
  /-- Blanks, the last one first. -/
  | blanks (run : List Char)
  /-- A first break, absent where it was escaped, and the later ones, the last one first. -/
  | lines (first : Option Char) (more : List Char)
deriving DecidableEq, Repr

namespace Gap

def isLines : Gap -> Bool
  | lines _ _ => true
  | _ => false

def isNone : Gap -> Bool
  | none => true
  | _ => false

def addBlank (b : Char) : Gap -> Gap
  | none => blanks [b]
  | blanks run => blanks (b :: run)
  | lines first more => lines first more

def addBreak (b : Char) : Gap -> Gap
  | lines first more => lines first (Cursor.breakContent b :: more)
  | _ => lines (some (Cursor.breakContent b)) []

/-- What a gap contributes to the scalar's text. -/
def content : Gap -> List Char
  | none => []
  | blanks run => run.reverse
  | lines (some '\n') [] => [' ']
  | lines (some '\n') more => more.reverse
  | lines (some b) more => b :: more.reverse
  | lines Option.none more => more.reverse

end Gap
end Yaml
end Clippings
