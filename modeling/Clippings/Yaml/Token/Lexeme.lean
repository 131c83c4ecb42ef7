import Clippings.Yaml.Token.Block
import Clippings.Yaml.Token.Directive
import Clippings.Yaml.Token.Quoted

/-!
# Lexemes

What the next characters start is told from at most four of them; the rest of the lexeme is then
read without regard to what came before, apart from whether brackets are open and how far the text
around is indented.
-/

namespace Clippings
namespace Yaml

inductive Starter where
  | directive
  | documentStart
  | documentEnd
  | flowSequenceStart
  | flowSequenceEnd
  | flowMappingStart
  | flowMappingEnd
  | flowEntry
  | blockEntry
  | key
  | value
  | alias
  | anchor
  | tag
  | block (literal : Bool)
  | quoted (style : ScalarStyle)
  | plain
deriving DecidableEq, Repr

namespace Starter

def isIndicator (c : Char) : Bool :=
  c ∈ ['-', '?', ':', ',', '[', ']', '{', '}', '#', '&', '*', '!', '|', '>', '\'', '"', '%', '@',
    '\x60']

/-- A plain scalar may start here. -/
def startsPlain (inFlow : Bool) (c : Char) (rest : List Char) : Bool :=
  !(Character.isGap c || isIndicator c) ||
    (c == '-' && !rest.head?.any Character.isBlank) ||
    (!inFlow && (c == '?' || c == ':') && !Character.gapOrEnd rest)

def ofFirst? (inFlow : Bool) (c : Char) (rest : List Char) : Option Starter :=
  match c with
  | '[' => some flowSequenceStart
  | '{' => some flowMappingStart
  | ']' => some flowSequenceEnd
  | '}' => some flowMappingEnd
  | ',' => some flowEntry
  | '*' => some .alias
  | '&' => some anchor
  | '!' => some tag
  | '\'' => some (quoted .singleQuoted)
  | '"' => some (quoted .doubleQuoted)
  | c =>
    if c == '-' && Character.gapOrEnd rest then some blockEntry
    else if c == '?' && (inFlow || Character.gapOrEnd rest) then some key
    else if c == ':' && (inFlow || Character.gapOrEnd rest) then some value
    else if c == '|' && !inFlow then some (block true)
    else if c == '>' && !inFlow then some (block false)
    else if startsPlain inFlow c rest then some plain
    else none

/-- What starts at a character, given whether it is the first of its line. -/
def of? (inFlow lineStart : Bool) (c : Char) (rest : List Char) : Option Starter :=
  if lineStart && c == '%' then some directive
  else if lineStart && atDocumentIndicator (c :: rest) then
    some (if c == '-' then documentStart else documentEnd)
  else ofFirst? inFlow c rest

end Starter

structure Lexeme where
  kind : TokenKind
  stop : Mark
  next : Cursor
  /-- A plain scalar that was followed by a line break. -/
  endsLine : Bool

namespace Lexeme

def word (kind : TokenKind) (next : Cursor) : Lexeme :=
  ⟨kind, next.mark, next, false⟩

/-- What may follow the name of an anchor or an alias. -/
def endsName (cs : List Char) : Bool :=
  Character.gapOrEnd cs || cs.head?.any (fun c => c ∈ ['?', ':', ',', ']', '}', '%', '@', '\x60'])

def readName (construct : Construct) (start : Mark) (kind : List Char -> TokenKind) (c : Cursor) :
    Except SyntaxFault Lexeme :=
  let (name, next) := c.span Character.isWord
  if name.isEmpty || !endsName next.rest then
    .error ⟨.anchorName, next.mark, some (construct, start)⟩
  else .ok (word (kind name) next)

/-- Reads the lexeme that starts with `c`, at `start`; `next` is past that character and `parent`
is the column of the innermost block around, if there is one. -/
def read (inFlow : Bool) (parent : Option Nat) (starter : Starter) (start : Mark) (c : Char)
    (next : Cursor) : Except SyntaxFault Lexeme :=
  match starter with
  | .directive =>
    (Directive.scan start next).map fun o => ⟨o.kind, o.stop, o.next, false⟩
  | .documentStart => .ok (word .documentStart (next.skip 2))
  | .documentEnd => .ok (word .documentEnd (next.skip 2))
  | .flowSequenceStart => .ok (word .flowSequenceStart next)
  | .flowSequenceEnd => .ok (word .flowSequenceEnd next)
  | .flowMappingStart => .ok (word .flowMappingStart next)
  | .flowMappingEnd => .ok (word .flowMappingEnd next)
  | .flowEntry => .ok (word .flowEntry next)
  | .blockEntry => .ok (word .blockEntry next)
  | .key => .ok (word .key next)
  | .value => .ok (word .value next)
  | .alias => readName .alias start .alias next
  | .anchor => readName .anchor start .anchor next
  | .tag => (TagSpelling.scan inFlow start next).map fun o => word (.tag o.handle o.suffix) o.next
  | .block literal =>
    (BlockScalar.scan literal parent start next).map fun o =>
      word (.scalar (if literal then .literal else .folded) o.text) o.next
  | .quoted style =>
    (QuotedScalar.scan style start next).map fun o => word (.scalar style o.text) o.next
  | .plain =>
    let least := match parent with
      | none => 0
      | some n => n + 1
    (PlainScalar.scan ⟨inFlow, least, start⟩ c next).map fun o =>
      ⟨.scalar .plain o.text, o.stop, o.next, o.endsLine⟩

theorem readName_rest_length_le {construct : Construct} {start : Mark}
    {kind : List Char -> TokenKind} {c : Cursor} {r : Lexeme}
    (h : readName construct start kind c = .ok r) :
    r.next.rest.length ≤ c.rest.length := by
  have := Cursor.span_rest_length_le Character.isWord c
  unfold readName at h
  simp only at h
  split at h
  · cases h
  · cases h
    exact this

theorem map_ok {ε α β : Type} {f : α -> β} {x : Except ε α} {b : β}
    (h : x.map f = .ok b) :
    ∃ a, x = .ok a ∧ f a = b := by
  cases x with
  | error e => cases h
  | ok a => exact ⟨a, rfl, by injection h⟩

theorem read_rest_length_le {inFlow : Bool} {parent : Option Nat} {starter : Starter}
    {start : Mark} {c : Char} {next : Cursor} {r : Lexeme}
    (h : read inFlow parent starter start c next = .ok r) :
    r.next.rest.length ≤ next.rest.length := by
  unfold read at h
  split at h
  case h_1 =>
    obtain ⟨o, ho, rfl⟩ := map_ok h
    exact Directive.scan_rest_length_le ho
  case h_12 | h_13 => exact readName_rest_length_le h
  case h_14 =>
    obtain ⟨o, ho, rfl⟩ := map_ok h
    exact TagSpelling.scan_rest_length_le ho
  case h_15 =>
    obtain ⟨o, ho, rfl⟩ := map_ok h
    exact BlockScalar.scan_rest_length_le ho
  case h_16 =>
    obtain ⟨o, ho, rfl⟩ := map_ok h
    exact QuotedScalar.scan_rest_length_le ho
  case h_17 =>
    obtain ⟨o, ho, rfl⟩ := map_ok h
    exact PlainScalar.scan_rest_length_le ho
  all_goals
    cases h
    simp [word]

end Lexeme
end Yaml
end Clippings
