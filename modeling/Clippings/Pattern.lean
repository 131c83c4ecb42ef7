import Clippings.Path

/-!
# File patterns

A pattern is matched against a file name as a whole.  A star stands for any characters, a question
mark for one character, and everything else for itself.

Matching goes through the pattern once, from its end to its start, and keeps a verdict on every rest
of the name: whether the part of the pattern gone through matches it.
-/

namespace Clippings

structure Pattern where
  text : String
deriving DecidableEq, Repr

namespace Pattern

def default : Pattern :=
  ⟨"*.yaml"⟩

/-!
## Verdicts

The first verdict is on the whole name, the last one on the empty rest.
-/

/-- The verdicts of the empty pattern. -/
def atEnd (name : List Char) : List Bool :=
  name.map (fun _ => false) ++ [true]

/-- A verdict holds if it or a later one held. -/
def orLater : List Bool -> List Bool
  | [] => []
  | b :: rest => (b || rest.any id) :: orLater rest

/-- A verdict holds if the first character of the rest passes and the verdict after it held. -/
def afterOne (p : Char -> Bool) (name : List Char) (verdicts : List Bool) : List Bool :=
  List.zipWith (fun c b => p c && b) name verdicts.tail ++ [false]

def verdicts (name : List Char) : List Char -> List Bool
  | [] => atEnd name
  | '*' :: pattern => orLater (verdicts name pattern)
  | '?' :: pattern => afterOne (fun _ => true) name (verdicts name pattern)
  | c :: pattern => afterOne (· == c) name (verdicts name pattern)

def matchesName (p : Pattern) (name : String) : Bool :=
  (verdicts name.toList p.text.toList).head? == some true

/-- Only the last component of a path counts, and it has to be text. -/
def matchesPath (p : Pattern) (path : Path) : Bool :=
  match path.fileName? with
  | none => false
  | some octets =>
    match (Path.mk octets).text? with
    | none => false
    | some name => p.matchesName name

end Pattern
end Clippings
