import Clippings.Yaml.Draft
import Clippings.Yaml.Style

/-!
# Layout

Collections are written in block style, two columns further in for every level; only a sequence that
is the value of a key stands in the key's own column.  Empty collections are written as brackets.
Keys that are long, span lines or are collections get a question mark.
-/

namespace Clippings
namespace Yaml
namespace Layout

def indent (n : Nat) : List Char :=
  List.replicate n ' '

/-!
## Scalars
-/

def singleQuotedBody (n : Nat) (afterBreak : Bool) : List Char -> List Char
  | [] => if afterBreak then indent n else []
  | c :: rest =>
    if Character.isBreak c then
      (if !afterBreak && c == '\n' then ['\n', c] else [c]) ++ singleQuotedBody n true rest
    else
      (if afterBreak then indent n else []) ++ (if c == '\'' then ['\'', '\''] else [c]) ++
        singleQuotedBody n false rest

/-- Characters with an escape of one letter. -/
def escapeLetter? : Char -> Option Char
  | '\x00' => some '0'
  | '\x07' => some 'a'
  | '\x08' => some 'b'
  | '\t' => some 't'
  | '\n' => some 'n'
  | '\x0b' => some 'v'
  | '\x0c' => some 'f'
  | '\r' => some 'r'
  | '\x1b' => some 'e'
  | '"' => some '"'
  | '\\' => some '\\'
  | '\u0085' => some 'N'
  | '\u2028' => some 'L'
  | '\u2029' => some 'P'
  | _ => none

/-- The last `count` hexadecimal digits of a code. -/
def hexDigits : Nat -> Nat -> List Char
  | 0, _ => []
  | count + 1, code => hexDigits count (code / 16) ++ [Character.hexDigit (code % 16)]

def escape (c : Char) : List Char :=
  '\\' ::
    match escapeLetter? c with
    | some letter => [letter]
    | none =>
      if c.toNat ≤ 0xff then 'x' :: hexDigits 2 c.toNat
      else if c.toNat ≤ 0xffff then 'u' :: hexDigits 4 c.toNat
      else 'U' :: hexDigits 8 c.toNat

def needsEscape (c : Char) : Bool :=
  !Character.isPrintable c || Character.isBreak c || c == '"' || c == '\\'

def doubleQuotedBody (s : List Char) : List Char :=
  s.flatMap fun c => if needsEscape c then escape c else [c]

/-- The sign that says what becomes of the breaks at the end of a block. -/
def chompingSign (s : List Char) : List Char :=
  match s.reverse with
  | [] => ['-']
  | c :: rest =>
    if !Character.isBreak c then ['-']
    else if rest.head?.all Character.isBreak then ['+']
    else []

def blockHeader (s : List Char) : List Char :=
  (if s.head?.any Style.isLoose then ['2'] else []) ++ chompingSign s ++ ['\n']

def blockBody (n : Nat) (afterBreak : Bool) : List Char -> List Char
  | [] => []
  | c :: rest =>
    if Character.isBreak c then c :: blockBody n true rest
    else (if afterBreak then indent n else []) ++ c :: blockBody n false rest

/-- A scalar in a style, with its later lines in column `n`. -/
def styled (n : Nat) (style : ScalarStyle) (s : List Char) : List Char :=
  match style with
  | .plain => s
  | .singleQuoted => '\'' :: (singleQuotedBody n false s ++ ['\''])
  | .doubleQuoted => '"' :: (doubleQuotedBody s ++ ['"'])
  | .literal => '|' :: (blockHeader s ++ blockBody n true s)
  | .folded => '>' :: (blockHeader s ++ blockBody n true s)

/-- Ends the line, unless a block already ended it. -/
def lineEnd (style : ScalarStyle) (s : List Char) : List Char :=
  if (style == .literal || style == .folded) && s.getLast?.any Character.isBreak then []
  else ['\n']

/-!
## Tags
-/

def escapeOctet (b : UInt8) : List Char :=
  let c := Char.ofNat b.toNat
  if b < 128 && Character.isTagPlain c then [c]
  else ['%', Character.hexDigit (b.toNat / 16), Character.hexDigit (b.toNat % 16)]

def tagText (octets : Octets) : List Char :=
  match octets.takeWhile (· != 0) with
  | 33 :: b :: rest => '!' :: (b :: rest).flatMap escapeOctet
  | octets => ['!', '<'] ++ octets.flatMap escapeOctet ++ ['>']

/-- A tag and the space after it. -/
def tagSpace (tag : Option Octets) : List Char :=
  match tag with
  | none => []
  | some octets => tagText octets ++ [' ']

/-!
## Keys
-/

def brackets : Shape -> List Char
  | .sequence => ['[', ']']
  | .mapping => ['{', '}']

def tagLength (tag : Option Octets) : Nat :=
  (tag.getD []).takeWhile (· != 0) |>.length

def utf8Length : List Char -> Nat
  | [] => 0
  | c :: s => c.utf8Size + utf8Length s

/-- The key of a line `key: value`. -/
def isSimpleKey : Draft -> Bool
  | .scalar tag _ s => !Style.isMultiline s && tagLength tag + utf8Length s ≤ 128
  | .collection _ tag children => children.isEmpty && tagLength tag ≤ 128

/-- A simple key's text. -/
def keyText (n : Nat) : Draft -> List Char
  | .scalar tag style s => tagSpace tag ++ styled n (Style.choose true style s) s
  | .collection shape tag _ => tagSpace tag ++ brackets shape

/-!
## Nodes
-/

/-- Every entry in column `n`. -/
def column (n : Nat) (entries : List (List Char)) : List Char :=
  entries.flatMap (indent n ++ ·)

/-- As `column`, but the first entry goes on where the line is. -/
def columnFromHere (n : Nat) : List (List Char) -> List Char
  | [] => []
  | entry :: rest => entry ++ column n rest

/-- The column of a collection inside one in column `n`: a sequence that starts a line of its own
inside a mapping is not further in. -/
def innerColumn (n : Nat) (inMapping freshLine : Bool) (shape : Shape) : Nat :=
  if inMapping && freshLine && shape == .sequence then n else n + 2

mutual
/-- What follows an indicator of a collection in column `n`, to the end of its last line.  After a
simple key a collection starts a line of its own, and so it does after its tag. -/
def nodeText (n : Nat) (inMapping afterKey : Bool) : Draft -> List Char
  | .scalar tag style s =>
    let style := Style.choose false style s
    ' ' :: (tagSpace tag ++ styled (n + 2) style s ++ lineEnd style s)
  | .collection shape tag [] => ' ' :: (tagSpace tag ++ brackets shape ++ ['\n'])
  | .collection shape tag (child :: children) =>
    let freshLine := afterKey || tag.isSome
    let m := innerColumn n inMapping freshLine shape
    let entries := match shape with
      | .sequence => itemTexts m (child :: children)
      | .mapping => entryTexts m (child :: children)
    if freshLine then
      (tag.toList.flatMap fun octets => ' ' :: tagText octets) ++ '\n' :: column m entries
    else ' ' :: columnFromHere m entries
def itemTexts (n : Nat) : List Draft -> List (List Char)
  | [] => []
  | d :: rest => ('-' :: nodeText n false false d) :: itemTexts n rest
def entryTexts (n : Nat) : List Draft -> List (List Char)
  | k :: v :: rest =>
    (if isSimpleKey k then keyText (n + 2) k ++ ':' :: nodeText n true true v
    else
      '?' :: (nodeText n true false k ++ (indent n ++ ':' :: nodeText n true false v))) ::
      entryTexts n rest
  | _ => []
end

def documentText : Draft -> List Char
  | .scalar tag style s =>
    let style := Style.choose false style s
    tagSpace tag ++ styled 2 style s ++ lineEnd style s
  | .collection shape tag [] => tagSpace tag ++ brackets shape ++ ['\n']
  | .collection shape tag children =>
    let entries := match shape with
      | .sequence => itemTexts 0 children
      | .mapping => entryTexts 0 children
    (tag.toList.flatMap fun octets => tagText octets ++ ['\n']) ++ column 0 entries

end Layout

def Value.toText (v : Value) : Except WriteFault String :=
  (Draft.ofValue v).map fun d => String.ofList (Layout.documentText d)

end Yaml
end Clippings
