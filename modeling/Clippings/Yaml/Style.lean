import Clippings.Yaml.Character
import Clippings.Yaml.Token

/-!
# Which style a text can have

A style can be used only if reading gives back the same text.  Plain and single-quoted text has no
escapes, and what stands at the ends of lines does not survive in every style; between double quotes
everything can be written.
-/

namespace Clippings
namespace Yaml
namespace Style

/-- A break or a space, the characters that may get lost at the end of a line. -/
def isLoose (c : Char) : Bool :=
  c == ' ' || Character.isBreak c

def isMultiline (s : List Char) : Bool :=
  s.any Character.isBreak

/-- Some two neighbours are as `p` says. -/
def hasPair (p : Char -> Char -> Bool) : List Char -> Bool
  | a :: b :: rest => p a b || hasPair p (b :: rest)
  | _ => false

def hasBreakSpace (s : List Char) : Bool :=
  hasPair (fun a b => Character.isBreak a && b == ' ') s

def hasSpaceBreak (s : List Char) : Bool :=
  hasPair (fun a b => a == ' ' && Character.isBreak b) s

def hasSpecial (s : List Char) : Bool :=
  s.any fun c => !Character.isPrintable c

/-- The first character would start something other than a plain scalar. -/
def startsOther (c : Char) (rest : List Char) : Bool :=
  c ∈ ['#', ',', '[', ']', '{', '}', '&', '*', '!', '|', '>', '\'', '"', '%', '@', '\x60'] ||
    (c ∈ ['?', ':', '-'] && Character.gapOrEnd rest)

/-- After a first character: a colon in front of a gap, or a comment. -/
def hasIndicator : List Char -> Bool
  | a :: b :: rest =>
    (b == ':' && Character.gapOrEnd rest) || (b == '#' && Character.isGap a) ||
      hasIndicator (b :: rest)
  | _ => false

def startsDocument (s : List Char) : Bool :=
  s.take 3 == ['-', '-', '-'] || s.take 3 == ['.', '.', '.']

def plainAllowed (s : List Char) : Bool :=
  match s with
  | [] => true
  | c :: rest =>
    !(startsDocument s || startsOther c rest || hasIndicator s || hasSpecial s || isMultiline s ||
      isLoose c || s.getLast?.any isLoose)

def singleAllowed (s : List Char) : Bool :=
  !(hasBreakSpace s || hasSpaceBreak s || hasSpecial s)

def blockAllowed (s : List Char) : Bool :=
  !(s.isEmpty || s.getLast? == some ' ' || hasSpaceBreak s || hasSpecial s)

/-- The style in which a text is written that would like to have a style. -/
def choose (simpleKey : Bool) (wanted : ScalarStyle) (s : List Char) : ScalarStyle :=
  let wanted := if simpleKey && isMultiline s then .doubleQuoted else wanted
  match wanted with
  | .plain =>
    if plainAllowed s && !(s.isEmpty && simpleKey) then .plain
    else if singleAllowed s then .singleQuoted
    else .doubleQuoted
  | .singleQuoted => if singleAllowed s then .singleQuoted else .doubleQuoted
  | .literal => if blockAllowed s && !simpleKey then .literal else .doubleQuoted
  | .folded => if blockAllowed s && !simpleKey then .folded else .doubleQuoted
  | .doubleQuoted => .doubleQuoted

end Style
end Yaml
end Clippings
