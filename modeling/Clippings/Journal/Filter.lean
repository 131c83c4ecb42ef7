import Clippings.Journal
import Clippings.Text.Blank

/-!
# Which records are shown

A filter is a list of directives.  A directive sets the level up to which the records of some part
of the program are shown; of several that speak of a record, the most specific one decides.

A directive's text is a level, or a target with or without a level after an equals sign, in brackets
the name of a span and the facts a record has to have.  There are no spans here, so a directive that
asks for one, or for the value of a fact, speaks of no record.
-/

namespace Clippings
namespace Journal

structure Directive where
  /-- How the target of a record begins. -/
  target : Option String
  /-- Facts that a record has to have. -/
  facts : List String
  /-- Records up to this level are shown; none of them without a level. -/
  level : Option Level
deriving DecidableEq, Repr

namespace Directive

def rank (d : Directive) : Nat :=
  d.level.elim 0 Level.rank

/-- The directive speaks of a record. -/
def covers (d : Directive) (r : Record) : Bool :=
  d.target.all (fun t => t.toList.isPrefixOf r.target.toList) &&
    d.facts.all fun f => f == "message" || r.facts.any (·.1 == f)

def targetLength (d : Directive) : Nat :=
  d.target.elim 0 (·.utf8ByteSize + 1)

def sameScope (d e : Directive) : Bool :=
  d.target == e.target && d.facts == e.facts

/-- `d` decides before `e`. -/
def before (d e : Directive) : Bool :=
  if d.targetLength != e.targetLength then e.targetLength < d.targetLength
  else if d.facts.length != e.facts.length then e.facts.length < d.facts.length
  else if d.target != e.target then e.target.getD "" < d.target.getD ""
  else e.facts < d.facts

/-!
## Texts
-/

def lower (s : List Char) : String :=
  String.ofList (s.map Char.toLower)

/-- A level by number or name; `none` within is silence. -/
def level? (s : List Char) : Option (Option Level) :=
  let digits := match s with
    | '+' :: rest => rest
    | s => s
  if !digits.isEmpty && digits.all Char.isDigit then
    match digits.foldl (fun n c => n * 10 + (c.toNat - '0'.toNat)) 0 with
    | 0 => some none
    | n => (Level.all.find? (·.rank == n)).map some
  else if s.isEmpty then some (some .error)
  else if lower s == "off" then some none
  else (Level.all.find? (·.name == lower s)).map some

/-- The level after an equals sign; nothing means everything. -/
def levelOrAll? (s : List Char) : Option (Option Level) :=
  if s.isEmpty then some (some .trace) else level? s

/-- What a text says: a directive, or one that speaks of no record. -/
inductive Parsed where
  | directive (d : Directive)
  | inert
deriving DecidableEq, Repr

/-- What stands in the brackets and after them. -/
structure Scope where
  span : Option (List Char)
  facts : List (List Char)
  rest : List Char

def scope? (s : List Char) : Option Scope :=
  let name := s.takeWhile fun c => c != ']' && c != '\x7b'
  match s.drop name.length with
  | ']' :: rest => some ⟨some name, [], rest⟩
  | '\x7b' :: rest =>
    let fact := rest.takeWhile (· != '\x7d')
    match rest.drop fact.length with
    | '\x7d' :: ']' :: rest =>
      if fact.isEmpty then none
      else some ⟨if name.isEmpty then none else some name, [fact], rest⟩
    | _ => none
  | _ => none

def parseScope? (target : Option String) (s : List Char) : Option Parsed :=
  match scope? s with
  | none => none
  | some scope =>
    let level := match scope.rest with
      | [] => some (some Level.trace)
      | '=' :: rest => levelOrAll? rest
      | _ => none
    level.map fun level =>
      if scope.span.isSome || scope.facts.any (·.contains '=') then .inert
      else .directive ⟨target, scope.facts.map String.ofList, level⟩

def mayStart (c : Char) : Bool :=
  c == '-' || c == ':' || c == '_' || c.isAlphanum || 0x80 ≤ c.toNat

def dropBlanksRight (s : List Char) : List Char :=
  (s.reverse.dropWhile Text.isBlank).reverse

/-- Reads a directive.  Blanks in front of a target are part of it, and then no level can follow. -/
def parse? (s : List Char) : Option Parsed :=
  match s.dropWhile Text.isBlank with
  | [] => none
  | '[' :: rest => parseScope? none (dropBlanksRight rest)
  | first :: _ =>
    if !mayStart first then none
    else
      let name := s.takeWhile fun c => c != '=' && c != '['
      match s.drop name.length with
      | [] =>
        match level? name with
        | some level => some (.directive ⟨none, [], level⟩)
        | none => some (.directive ⟨some (String.ofList name), [], some .trace⟩)
      | '=' :: rest =>
        if s.head?.any Text.isBlank then none
        else (levelOrAll? rest).map fun level => .directive ⟨some (String.ofList name), [], level⟩
      | _ :: rest =>
        if s.head?.any Text.isBlank then none
        else parseScope? (some (String.ofList name)) (dropBlanksRight rest)

end Directive

/-- Directives, the one that decides first in front. -/
structure Filter where
  directives : List Directive
deriving DecidableEq, Repr

namespace Filter

def admits (f : Filter) (r : Record) : Bool :=
  match f.directives.find? (·.covers r) with
  | some d => r.level.rank ≤ d.rank
  | none => false

/-- Puts a directive in its place; one of the same scope gives way to it. -/
def insert (d : Directive) : List Directive -> List Directive
  | [] => [d]
  | e :: rest =>
    if d.sameScope e then d :: rest
    else if d.before e then d :: e :: rest
    else e :: insert d rest

def ofDirectives (ds : List Directive) : Filter :=
  ⟨ds.foldl (fun sorted d => insert d sorted) []⟩

/-- Up to a level, the records of every target with this beginning. -/
def upTo (target : String) (level : Level) : Filter :=
  ofDirectives [⟨some target, [], some level⟩]

/-- Reads directives with commas between them.  No directives at all let errors through. -/
def ofText? (text : String) : Option Filter :=
  let pieces := (Text.splitAt ',' text.toList).filter fun piece => !piece.isEmpty
  match pieces.mapM Directive.parse? with
  | none => none
  | some [] => some (ofDirectives [⟨none, [], some .error⟩])
  | some parsed =>
    some (ofDirectives (parsed.filterMap fun p =>
      match p with
      | .directive d => some d
      | .inert => none))

end Filter
end Journal
end Clippings
