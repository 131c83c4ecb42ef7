import Clippings.Yaml.Token.Plain

/-!
# Quoted scalars

Between single quotes only a doubled quote is special.  Between double quotes a backslash starts an
escape, and before a line break it takes the break away.  Line breaks fold as in plain scalars.
-/

namespace Clippings
namespace Yaml
namespace QuotedScalar

structure Outcome where
  text : List Char
  next : Cursor

/-- A document indicator may not start a line of a quoted scalar. -/
def hitsDocument (gap : Gap) (m : Mark) (cs : List Char) : Bool :=
  !gap.isNone && m.column == 0 && atDocumentIndicator cs

/-!
## Single quotes
-/

def scanSingle (start : Mark) (text : List Char) (gap : Gap) (m : Mark) :
    List Char -> Except SyntaxFault Outcome
  | [] => .error ⟨.endOfText, m, some (.quotedScalar, start)⟩
  | '\'' :: '\'' :: rest =>
    scanSingle start ('\'' :: (gap.content.reverse ++ text)) .none (m.advance 2) rest
  | c :: rest =>
    if c == '\'' then
      .ok ⟨(gap.content.reverse ++ text).reverse, ⟨m.advance 1, rest⟩⟩
    else if Character.isBlank c then
      scanSingle start text (gap.addBlank c) (m.past c) rest
    else if c == '\r' && rest.head? == some '\n' then
      scanSingle start text gap (m.past c) rest
    else if Character.isBreak c then
      scanSingle start text (gap.addBreak c) (m.newline c.utf8Size) rest
    else if hitsDocument gap m (c :: rest) then
      .error ⟨.documentIndicator, m, some (.quotedScalar, start)⟩
    else
      scanSingle start (c :: (gap.content.reverse ++ text)) .none (m.past c) rest

/-!
## Escapes
-/

/-- Escapes of one letter and what they stand for. -/
def simpleEscape? : Char -> Option Char
  | '0' => some '\x00'
  | 'a' => some '\x07'
  | 'b' => some '\x08'
  | 't' => some '\t'
  | '\t' => some '\t'
  | 'n' => some '\n'
  | 'v' => some '\x0b'
  | 'f' => some '\x0c'
  | 'r' => some '\r'
  | 'e' => some '\x1b'
  | ' ' => some ' '
  | '"' => some '"'
  | '/' => some '/'
  | '\\' => some '\\'
  | 'N' => some '\u0085'
  | '_' => some '\u00a0'
  | 'L' => some '\u2028'
  | 'P' => some '\u2029'
  | _ => none

/-- Escapes that give a code in so many hexadecimal digits. -/
def codeLength? : Char -> Option Nat
  | 'x' => some 2
  | 'u' => some 4
  | 'U' => some 8
  | _ => none

/-- The value of exactly `n` hexadecimal digits. -/
def hexCode? (n : Nat) (cs : List Char) : Option Nat :=
  if (cs.take n).length < n then none
  else (cs.take n).foldl
    (fun code? c => code?.bind fun code => (Character.hexValue? c).map (code * 16 + ·)) (some 0)

def codeChar? (code : Nat) : Option Char :=
  if code.isValidChar then some (Char.ofNat code) else none

/-- Reads the escape whose letter comes first in `cs`: the character it stands for and how many
characters spell it, or else the problem and how far on it was met. -/
def readEscape (cs : List Char) : Except (Problem × Nat) (Char × Nat) :=
  match cs with
  | [] => .error (.badEscape, 0)
  | c :: rest =>
    match simpleEscape? c with
    | some d => .ok (d, 1)
    | none =>
      match codeLength? c with
      | none => .error (.badEscape, 0)
      | some n =>
        match hexCode? n rest with
        | none => .error (.hexNumber, 2)
        | some code =>
          match codeChar? code with
          | none => .error (.badEscapeCode, 2)
          | some d => .ok (d, n + 1)

/-!
## Double quotes
-/

def scanDouble (start : Mark) (text : List Char) (gap : Gap) (m : Mark) (cs : List Char) :
    Except SyntaxFault Outcome :=
  match cs with
  | [] => .error ⟨.endOfText, m, some (.quotedScalar, start)⟩
  | c :: rest =>
    if c == '"' then
      .ok ⟨(gap.content.reverse ++ text).reverse, ⟨m.advance 1, rest⟩⟩
    else if Character.isBlank c then
      scanDouble start text (gap.addBlank c) (m.past c) rest
    else if c == '\r' && rest.head? == some '\n' then
      scanDouble start text gap (m.past c) rest
    else if Character.isBreak c then
      scanDouble start text (gap.addBreak c) (m.newline c.utf8Size) rest
    else if hitsDocument gap m cs then
      .error ⟨.documentIndicator, m, some (.quotedScalar, start)⟩
    else if c == '\\' then
      if rest.head?.any Character.isBreak then
        scanDouble start (gap.content.reverse ++ text) (.lines none [])
          (Cursor.skipBreak ⟨m.advance 1, rest⟩).mark (Cursor.skipBreak ⟨m.advance 1, rest⟩).rest
      else
        match readEscape rest with
        | .error (problem, ahead) => .error ⟨problem, m.advance ahead, some (.escape, start)⟩
        | .ok (d, n) =>
          scanDouble start (d :: (gap.content.reverse ++ text)) .none (m.advance (n + 1))
            (rest.drop n)
    else
      scanDouble start (c :: (gap.content.reverse ++ text)) .none (m.past c) rest
termination_by cs.length
decreasing_by
  all_goals
    have : (Cursor.skipBreak ⟨m.advance 1, rest⟩).rest.length ≤ rest.length :=
      Cursor.skipBreak_rest_length_le _
    simp only [List.length_drop, List.length_cons]
    omega

/-- The scalar after an opening quote, which stood at `start`. -/
def scan (style : ScalarStyle) (start : Mark) (next : Cursor) : Except SyntaxFault Outcome :=
  match style with
  | .singleQuoted => scanSingle start [] .none next.mark next.rest
  | _ => scanDouble start [] .none next.mark next.rest

theorem scanSingle_rest_length_le {start m : Mark} {text cs : List Char} {gap : Gap} {o : Outcome}
    (h : scanSingle start text gap m cs = .ok o) :
    o.next.rest.length ≤ cs.length := by
  fun_induction scanSingle start text gap m cs <;> grind

theorem scanDouble_rest_length_le {start m : Mark} {text cs : List Char} {gap : Gap} {o : Outcome}
    (h : scanDouble start text gap m cs = .ok o) :
    o.next.rest.length ≤ cs.length := by
  fun_induction scanDouble start text gap m cs <;> grind [Cursor.skipBreak_rest_length_le]

theorem scan_rest_length_le {style : ScalarStyle} {start : Mark} {next : Cursor} {o : Outcome}
    (h : scan style start next = .ok o) :
    o.next.rest.length ≤ next.rest.length := by
  unfold scan at h
  split at h
  · exact scanSingle_rest_length_le h
  · exact scanDouble_rest_length_le h

end QuotedScalar
end Yaml
end Clippings
