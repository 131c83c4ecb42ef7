import Clippings.Yaml.SyntaxFault
import Clippings.Yaml.Token
import Clippings.Yaml.Token.Gap

/-!
# Plain scalars

A plain scalar runs on until an indicator that may end it, a comment, a document indicator, or a
line that is not indented enough.
-/

namespace Clippings
namespace Yaml

/-- The three characters that start or end a document, with a gap or the end of the text after
them. -/
def atDocumentIndicator : List Char -> Bool
  | '-' :: '-' :: '-' :: rest => Character.gapOrEnd rest
  | '.' :: '.' :: '.' :: rest => Character.gapOrEnd rest
  | _ => false

namespace PlainScalar

/-- Where a plain scalar stands: whether inside brackets, the least column its later lines may start
at, and where it began. -/
structure Setting where
  inFlow : Bool
  least : Nat
  start : Mark

structure Progress where
  /-- Characters read, the last one first. -/
  text : List Char
  gap : Gap
  /-- Just past the last character that belongs to the scalar. -/
  stop : Mark

structure Outcome where
  text : List Char
  stop : Mark
  /-- The scalar was followed by a line break. -/
  endsLine : Bool
  next : Cursor

def endsHere (s : Setting) (c : Char) (rest : List Char) : Bool :=
  (c == ':' && Character.gapOrEnd rest) ||
    (s.inFlow && c ∈ [',', '[', ']', '{', '}'])

/-- A colon right before an indicator, inside brackets. -/
def colonClash (s : Setting) (c : Char) (rest : List Char) : Bool :=
  s.inFlow && c == ':' && rest.head?.any (fun d => d ∈ [',', '?', '[', ']', '{', '}'])

/-- The scalar cannot go on past its last gap. -/
def stopsAfterGap (s : Setting) (p : Progress) (m : Mark) (c : Char) (rest : List Char) : Bool :=
  !p.gap.isNone &&
    ((!s.inFlow && m.column < s.least) ||
      (m.column == 0 && atDocumentIndicator (c :: rest)) || c == '#')

def Progress.finish (p : Progress) (next : Cursor) : Outcome :=
  ⟨p.text.reverse, p.stop, p.gap.isLines, next⟩

def scanFrom (s : Setting) (p : Progress) (m : Mark) : List Char -> Except SyntaxFault Outcome
  | [] => .ok (p.finish ⟨m, []⟩)
  | c :: rest =>
    if Character.isBlank c then
      if p.gap.isLines && m.column < s.least && c == '\t' then
        .error ⟨.tabInPlain, m, some (.plainScalar, s.start)⟩
      else
        scanFrom s { p with gap := p.gap.addBlank c } (m.past c) rest
    else if c == '\r' && rest.head? == some '\n' then
      scanFrom s p (m.past c) rest
    else if Character.isBreak c then
      scanFrom s { p with gap := p.gap.addBreak c } (m.newline c.utf8Size) rest
    else if stopsAfterGap s p m c rest then
      .ok (p.finish ⟨m, c :: rest⟩)
    else if colonClash s c rest then
      .error ⟨.colonInFlow, m, some (.plainScalar, s.start)⟩
    else if endsHere s c rest then
      .ok (p.finish ⟨m, c :: rest⟩)
    else
      scanFrom s ⟨c :: (p.gap.content.reverse ++ p.text), .none, m.past c⟩ (m.past c) rest

/-- The scalar that begins with `first`, which the caller has seen to start one. -/
def scan (s : Setting) (first : Char) (next : Cursor) : Except SyntaxFault Outcome :=
  scanFrom s ⟨[first], .none, next.mark⟩ next.mark next.rest

theorem scanFrom_rest_length_le {s : Setting} {p : Progress} {m : Mark} {cs : List Char}
    {o : Outcome} (h : scanFrom s p m cs = .ok o) :
    o.next.rest.length ≤ cs.length := by
  induction cs generalizing p m with
  | nil =>
      simp only [scanFrom, Progress.finish, Except.ok.injEq] at h
      subst h
      simp
  | cons c rest ih =>
      simp only [scanFrom] at h
      simp only [List.length_cons]
      split at h
      · split at h
        · cases h
        · exact Nat.le_succ_of_le (ih h)
      · split at h
        · exact Nat.le_succ_of_le (ih h)
        · split at h
          · exact Nat.le_succ_of_le (ih h)
          · split at h
            · cases h
              simp [Progress.finish]
            · split at h
              · cases h
              · split at h
                · cases h
                  simp [Progress.finish]
                · exact Nat.le_succ_of_le (ih h)

theorem scan_rest_length_le {s : Setting} {first : Char} {next : Cursor} {o : Outcome}
    (h : scan s first next = .ok o) :
    o.next.rest.length ≤ next.rest.length :=
  scanFrom_rest_length_le h

end PlainScalar
end Yaml
end Clippings
