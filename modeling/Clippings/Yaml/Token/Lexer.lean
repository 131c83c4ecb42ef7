import Clippings.Yaml.Token.Lexeme

/-!
# From characters to tokens

A key in front of a colon is not marked as one: only the colon shows that what came before it was a
key.  So the lexer remembers, for the text around and for every open bracket, where such a key may
have started, and puts the missing tokens in there once a colon comes.  Indentation gives further
tokens that no character stands for.

When a fault is met, tokens from the earliest place on that may yet turn out to start a key are held
back.
-/

namespace Clippings
namespace Yaml

/-- Where a key may have started. -/
structure KeyCandidate where
  /-- How many tokens precede it. -/
  number : Nat
  /-- The indentation shows that a key has to start here. -/
  required : Bool
  place : Mark
deriving DecidableEq, Repr

namespace KeyCandidate

/-- Such a key has to end on its line, within 1024 octets. -/
def expired (k : KeyCandidate) (m : Mark) : Bool :=
  k.place.line < m.line || k.place.index + 1024 < m.index

def fault (k : KeyCandidate) (m : Mark) : SyntaxFault :=
  ⟨.simpleKeyColon, m, some (.simpleKey, k.place)⟩

end KeyCandidate

structure Lexer where
  cursor : Cursor
  /-- Columns of the open blocks, innermost first. -/
  indents : List Nat
  /-- The candidate of the innermost bracket, or of the text around all brackets. -/
  key : Option KeyCandidate
  /-- The candidates outside the innermost bracket, one for every open bracket. -/
  outer : List (Option KeyCandidate)
  /-- A key may start here. -/
  keyAllowed : Bool
  /-- Tokens so far, the last one first. -/
  emitted : List Token
  count : Nat

namespace Lexer

def start (text : List Char) : Lexer :=
  ⟨Cursor.ofText text, [], none, [], true, [], 0⟩

def inFlow (l : Lexer) : Bool :=
  !l.outer.isEmpty

def emit (l : Lexer) (t : Token) : Lexer :=
  { l with emitted := t :: l.emitted, count := l.count + 1 }

/-- A token that no character stands for. -/
def emitHere (l : Lexer) (kind : TokenKind) : Lexer :=
  l.emit ⟨kind, l.cursor.mark, l.cursor.mark⟩

/-- Puts a token after the first `number` ones. -/
def insert (l : Lexer) (number : Nat) (t : Token) : Lexer :=
  { l with
    emitted := l.emitted.take (l.count - number) ++ t :: l.emitted.drop (l.count - number)
    count := l.count + 1 }

/-- The tokens in front of every place where a key may have started. -/
def released (l : Lexer) : List Token :=
  let held := (l.key :: l.outer).foldl
    (fun least k => match k with
      | some k => min least k.number
      | none => least) l.count
  (l.emitted.drop (l.count - held)).reverse

/-!
## Gaps between tokens
-/

/-- Skips blanks, comments and line breaks.  A tab counts as a blank only where no key may start.
Outside brackets a key may start after a line break. -/
def skipGap (inFlow keyAllowed inComment : Bool) (m : Mark) : List Char -> Cursor × Bool
  | [] => (⟨m, []⟩, keyAllowed)
  | c :: rest =>
    if c == '\r' && rest.head? == some '\n' then
      skipGap inFlow keyAllowed inComment (m.past c) rest
    else if Character.isBreak c then
      skipGap inFlow (keyAllowed || !inFlow) false (m.newline c.utf8Size) rest
    else if inComment || c == ' ' || (c == '\t' && (inFlow || !keyAllowed)) ||
        (c == Character.byteOrderMark && m.column == 0) then
      skipGap inFlow keyAllowed inComment (m.past c) rest
    else if c == '#' then
      skipGap inFlow keyAllowed true (m.past c) rest
    else
      (⟨m, c :: rest⟩, keyAllowed)

def skipToToken (l : Lexer) : Lexer :=
  let (cursor, keyAllowed) := skipGap l.inFlow l.keyAllowed false l.cursor.mark l.cursor.rest
  { l with cursor := cursor, keyAllowed := keyAllowed }

/-!
## Candidates for keys
-/

def keepFresh (m : Mark) (k : Option KeyCandidate) : Option KeyCandidate :=
  k.filter fun k => !k.expired m

/-- Drops the candidates that are out of reach.  A required one may not be dropped. -/
def expireKeys (l : Lexer) : Except SyntaxFault Lexer :=
  let m := l.cursor.mark
  match (l.outer.reverse ++ [l.key]).findSome? (·.filter fun k => k.required && k.expired m) with
  | some k => .error (k.fault m)
  | none => .ok { l with key := keepFresh m l.key, outer := l.outer.map (keepFresh m) }

/-- Gives up the innermost candidate. -/
def dropKey (l : Lexer) : Except SyntaxFault Lexer :=
  match l.key with
  | some k => if k.required then .error (k.fault l.cursor.mark) else .ok { l with key := none }
  | none => .ok l

/-- Notes that a key may start here. -/
def noteKey (l : Lexer) : Except SyntaxFault Lexer :=
  if l.keyAllowed then
    (dropKey l).map fun l =>
      { l with
        key := some ⟨l.count, !l.inFlow && l.indents.head? == some l.cursor.mark.column,
          l.cursor.mark⟩ }
  else .ok l

def allowKey (l : Lexer) (allowed : Bool) : Lexer :=
  { l with keyAllowed := allowed }

/-!
## Indentation
-/

def deeper (l : Lexer) (column : Nat) : Bool :=
  match l.indents with
  | [] => true
  | n :: _ => n < column

/-- Opens a block at a column that lies further in than the blocks around; its token goes after the
first `number` ones. -/
def openBlock (l : Lexer) (column number : Nat) (kind : TokenKind) (place : Mark) : Lexer :=
  if !l.inFlow && l.deeper column then
    insert { l with indents := column :: l.indents } number ⟨kind, place, place⟩
  else l

def openBlockHere (l : Lexer) (kind : TokenKind) : Lexer :=
  l.openBlock l.cursor.mark.column l.count kind l.cursor.mark

/-- Closes the blocks that lie further in than `column`, or all of them. -/
def closeBlocks (column : Option Nat) : List Nat -> Lexer -> Lexer
  | [], l => { l with indents := [] }
  | n :: indents, l =>
    if column.all (· < n) then closeBlocks column indents (l.emitHere .blockEnd)
    else { l with indents := n :: indents }

def closeTo (l : Lexer) (column : Option Nat) : Lexer :=
  if l.inFlow then l else closeBlocks column l.indents l

/-!
## One token
-/

def fault (l : Lexer) (problem : Problem) : SyntaxFault :=
  ⟨problem, l.cursor.mark, none⟩

def prepareValue (l : Lexer) : Except SyntaxFault Lexer :=
  match l.key with
  | some k =>
    let l := l.insert k.number ⟨.key, k.place, k.place⟩
    let l := l.openBlock k.place.column k.number .blockMappingStart k.place
    .ok { l with key := none, keyAllowed := false }
  | none =>
    if l.inFlow then .ok (l.allowKey false)
    else if !l.keyAllowed then .error (l.fault .valueNotAllowed)
    else .ok ((l.openBlockHere .blockMappingStart).allowKey true)

/-- What has to happen before a lexeme is read: blocks are opened or closed, and candidates for keys
noted or given up. -/
def prepare (l : Lexer) : Starter -> Except SyntaxFault Lexer
  | .directive | .documentStart | .documentEnd =>
    (dropKey (l.closeTo none)).map (·.allowKey false)
  | .flowSequenceStart | .flowMappingStart =>
    (noteKey l).map fun l => { l with key := none, outer := l.key :: l.outer, keyAllowed := true }
  | .flowSequenceEnd | .flowMappingEnd =>
    (dropKey l).map fun l =>
      match l.outer with
      | [] => l.allowKey false
      | k :: outer => { l with key := k, outer := outer, keyAllowed := false }
  | .flowEntry => (dropKey l).map (·.allowKey true)
  | .blockEntry =>
    if !l.inFlow && !l.keyAllowed then .error (l.fault .blockEntryNotAllowed)
    else (dropKey (l.openBlockHere .blockSequenceStart)).map (·.allowKey true)
  | .key =>
    if !l.inFlow && !l.keyAllowed then .error (l.fault .keyNotAllowed)
    else (dropKey (l.openBlockHere .blockMappingStart)).map fun l => l.allowKey !l.inFlow
  | .value => prepareValue l
  | .block _ => (dropKey l).map (·.allowKey true)
  | .alias | .anchor | .tag | .quoted _ | .plain => (noteKey l).map (·.allowKey false)

/-- Takes in a lexeme that started at `place`. -/
def accept (l : Lexer) (place : Mark) (x : Lexeme) : Lexer :=
  { l.emit ⟨x.kind, place, x.stop⟩ with
    cursor := x.next
    keyAllowed := l.keyAllowed || x.endsLine }

def finish (l : Lexer) : Except SyntaxFault (List Token) :=
  let m := l.cursor.mark
  let l := { l with cursor := ⟨if m.column == 0 then m else m.newline 0, []⟩ }
  match dropKey (l.closeTo none) with
  | .error e => .error e
  | .ok l =>
    match expireKeys (l.emitHere .streamEnd) with
    | .error e => .error e
    | .ok l => .ok l.emitted.reverse

inductive Advance where
  | more (l : Lexer)
  | done (tokens : List Token)

def readToken (l : Lexer) (c : Char) (rest : List Char) : Except SyntaxFault Lexer :=
  match Starter.of? l.inFlow (l.cursor.mark.column == 0) c rest with
  | none => .error ⟨.badIndicator, l.cursor.mark, some (.token, l.cursor.mark)⟩
  | some starter =>
    match prepare l starter with
    | .error e => .error e
    | .ok l' =>
      match Lexeme.read l'.inFlow l'.indents.head? starter l.cursor.mark c (l.cursor.skip 1) with
      | .error e => .error e
      | .ok x => expireKeys (l'.accept l.cursor.mark x)

def advance (l : Lexer) : Except SyntaxFault Advance :=
  match expireKeys l.skipToToken with
  | .error e => .error e
  | .ok l =>
    let l := l.closeTo (some l.cursor.mark.column)
    match l.cursor.rest with
    | [] => (finish l).map .done
    | c :: rest => (readToken l c rest).map .more

/-!
## Every token takes characters
-/

theorem skipGap_rest_length_le (inFlow keyAllowed inComment : Bool) (m : Mark) (cs : List Char) :
    (skipGap inFlow keyAllowed inComment m cs).1.rest.length ≤ cs.length := by
  fun_induction skipGap inFlow keyAllowed inComment m cs <;> grind

theorem skipToToken_rest_length_le (l : Lexer) :
    l.skipToToken.cursor.rest.length ≤ l.cursor.rest.length :=
  skipGap_rest_length_le _ _ _ _ _

theorem expireKeys_cursor {l l' : Lexer} (h : expireKeys l = .ok l') :
    l'.cursor = l.cursor := by
  unfold expireKeys at h
  simp only at h
  split at h
  · cases h
  · cases h
    rfl

theorem closeBlocks_cursor (column : Option Nat) (indents : List Nat) (l : Lexer) :
    (closeBlocks column indents l).cursor = l.cursor := by
  induction indents generalizing l with
  | nil => rfl
  | cons n indents ih =>
      simp only [closeBlocks]
      split
      · rw [ih]
        rfl
      · rfl

theorem closeTo_cursor (l : Lexer) (column : Option Nat) :
    (l.closeTo column).cursor = l.cursor := by
  unfold closeTo
  split
  · rfl
  · exact closeBlocks_cursor column l.indents l

theorem readToken_rest_length_lt {l l' : Lexer} {c : Char} {rest : List Char}
    (hl : l.cursor.rest = c :: rest) (h : readToken l c rest = .ok l') :
    l'.cursor.rest.length < l.cursor.rest.length := by
  unfold readToken at h
  split at h
  · cases h
  · split at h
    · cases h
    · split at h
      · cases h
      · next x hx =>
          rw [expireKeys_cursor h]
          exact Nat.lt_of_le_of_lt (Lexeme.read_rest_length_le hx)
            (Cursor.skip_rest_length_lt Nat.one_pos (by simp [hl]))

theorem advance_rest_length_lt {l l' : Lexer} (h : advance l = .ok (.more l')) :
    l'.cursor.rest.length < l.cursor.rest.length := by
  unfold advance at h
  split at h
  · cases h
  · next l₁ h₁ =>
      have hs := skipToToken_rest_length_le l
      rw [← expireKeys_cursor h₁, ← closeTo_cursor l₁ (some l₁.cursor.mark.column)] at hs
      simp only at h
      split at h
      · obtain ⟨_, _, hd⟩ := Lexeme.map_ok h
        cases hd
      · next c rest hc =>
          obtain ⟨l₂, h₂, hd⟩ := Lexeme.map_ok h
          cases hd
          exact Nat.lt_of_lt_of_le (readToken_rest_length_lt hc h₂) hs

/-!
## All tokens
-/

/-- The tokens of the rest of the text, and the fault that ends them if there is one. -/
def run (l : Lexer) : List Token × Option SyntaxFault :=
  match _h : advance l with
  | .error e => (l.released, some e)
  | .ok (.done tokens) => (tokens, none)
  | .ok (.more l') => run l'
termination_by l.cursor.rest.length
decreasing_by exact advance_rest_length_lt _h

theorem run_eq (l : Lexer) :
    l.run =
      match advance l with
      | .error e => (l.released, some e)
      | .ok (.done tokens) => (tokens, none)
      | .ok (.more l') => l'.run := by
  rw [run]
  split <;> rename_i h <;> rw [h]

end Lexer

/-- The tokens of a text, and the fault that ends them if there is one. -/
def Token.ofText (text : List Char) : List Token × Option SyntaxFault :=
  (Lexer.start text).run

end Yaml
end Clippings
