import Clippings.Yaml.SyntaxFault
import Clippings.Yaml.Token
import Clippings.Yaml.Cursor

/-!
# Block scalars

A block scalar is a header line and the indented lines after it.  A literal one keeps its line
breaks; a folded one joins lines that both start with text.  The header may fix the indentation and
says what becomes of the last breaks.
-/

namespace Clippings
namespace Yaml
namespace BlockScalar

/-- What becomes of the breaks at the end: all are dropped, one is kept, or all are kept. -/
inductive Chomping where
  | strip
  | clip
  | keep
deriving DecidableEq, Repr

structure Header where
  chomping : Chomping
  /-- Columns of indentation beyond the parent's, zero where the lines decide. -/
  increment : Nat
  next : Cursor

structure Outcome where
  text : List Char
  next : Cursor

def fault (start : Mark) (problem : Problem) (place : Mark) : SyntaxFault :=
  ⟨problem, place, some (.blockScalar, start)⟩

/-!
## The header
-/

def chomping? : Option Char -> Option Chomping
  | some '+' => some .keep
  | some '-' => some .strip
  | _ => none

/-- An indentation digit, if one comes next. -/
def readIncrement (start : Mark) (c : Cursor) : Except SyntaxFault (Nat × Cursor) :=
  match c.rest with
  | d :: _ =>
    if d == '0' then .error (fault start .indentationZero c.mark)
    else if d.isDigit then .ok (Character.digitValue d, c.skip 1)
    else .ok (0, c)
  | [] => .ok (0, c)

/-- A chomping sign and an indentation digit, in either order. -/
def readIndicators (start : Mark) (c : Cursor) : Except SyntaxFault Header :=
  match chomping? c.rest.head? with
  | some chomping => (readIncrement start (c.skip 1)).map fun (n, c) => ⟨chomping, n, c⟩
  | none =>
    (readIncrement start c).map fun (n, c) =>
      match chomping? c.rest.head? with
      | some chomping => ⟨chomping, n, c.skip 1⟩
      | none => ⟨.clip, n, c⟩

def readHeader (start : Mark) (c : Cursor) : Except SyntaxFault Header :=
  match readIndicators start c with
  | .error e => .error e
  | .ok h =>
    let c := (h.next.skipWhile Character.isBlank).skipComment
    if Character.breakOrEnd c.rest then .ok { h with next := c.skipBreak }
    else .error (fault start .commentOrBreak c.mark)

/-!
## Indentation and empty lines
-/

structure Margin where
  /-- The column the lines start at. -/
  indent : Nat
  /-- Breaks of empty lines, the last one first. -/
  breaks : List Char
  next : Cursor

/-- Skips indentation and empty lines.  Where `indent` is zero it is yet to be found: the widest of
the skipped lines, but at least `least`. -/
def readMargin (start : Mark) (least indent widest : Nat) (breaks : List Char) (m : Mark) :
    List Char -> Except SyntaxFault Margin
  | [] => .ok ⟨settle (max widest m.column), breaks, ⟨m, []⟩⟩
  | '\r' :: '\n' :: rest =>
    readMargin start least indent (max widest m.column) ('\n' :: breaks) (m.newline 2) rest
  | c :: rest =>
    let adjustable := indent == 0 || m.column < indent
    if c == ' ' && adjustable then
      readMargin start least indent widest breaks (m.past c) rest
    else if c == '\t' && adjustable then
      .error (fault start .tabForIndentation m)
    else if Character.isBreak c then
      readMargin start least indent (max widest m.column) (Cursor.breakContent c :: breaks)
        (m.newline c.utf8Size) rest
    else
      .ok ⟨settle (max widest m.column), breaks, ⟨m, c :: rest⟩⟩
where
  settle (widest : Nat) : Nat :=
    if indent == 0 then max widest least else indent

theorem readMargin_rest_length_le {start m : Mark} {least indent widest : Nat}
    {breaks cs : List Char} {r : Margin}
    (h : readMargin start least indent widest breaks m cs = .ok r) :
    r.next.rest.length ≤ cs.length := by
  fun_induction readMargin start least indent widest breaks m cs <;> grind

/-!
## Lines
-/

structure Progress where
  /-- Characters of the lines read, the last one first. -/
  text : List Char
  /-- The break that ended the last line, if there was one. -/
  lastBreak : Option Char
  /-- Breaks of the empty lines since, the last one first. -/
  emptyLines : List Char
  /-- The last line started with a blank. -/
  blankStart : Bool

/-- What stands between the last line and one that starts with a blank or does not. -/
def Progress.joint (p : Progress) (literal nextBlank : Bool) : List Char :=
  if !literal && p.lastBreak == some '\n' && !p.blankStart && !nextBlank then
    (if p.emptyLines.isEmpty then [' '] else []) ++ p.emptyLines.reverse
  else
    p.lastBreak.toList ++ p.emptyLines.reverse

def Progress.finish (p : Progress) : Chomping -> List Char
  | .strip => p.text.reverse
  | .clip => p.text.reverse ++ p.lastBreak.toList
  | .keep => p.text.reverse ++ p.lastBreak.toList ++ p.emptyLines.reverse

def readLines (start : Mark) (literal : Bool) (chomping : Chomping) (least indent : Nat)
    (p : Progress) (c : Cursor) : Except SyntaxFault Outcome :=
  match _hc : c.rest with
  | [] => .ok ⟨p.finish chomping, c⟩
  | d :: _ =>
    if c.mark.column != indent then .ok ⟨p.finish chomping, c⟩
    else
      let joint := p.joint literal (Character.isBlank d)
      let tail := (c.skip 1).span (fun d => !Character.isBreak d)
      let text := (d :: tail.1).reverse ++ (joint.reverse ++ p.text)
      let ended := tail.2.takeBreak
      match _hm : readMargin start least indent 0 [] ended.2.mark ended.2.rest with
      | .error e => .error e
      | .ok margin =>
        readLines start literal chomping least margin.indent
          ⟨text, ended.1, margin.breaks, Character.isBlank d⟩ margin.next
termination_by c.rest.length
decreasing_by
  have h₁ := readMargin_rest_length_le _hm
  have h₂ := Cursor.takeBreak_rest_length_le tail.2
  have h₃ := Cursor.span_rest_length_le (fun d => !Character.isBreak d) (c.skip 1)
  have h₄ : (c.skip 1).rest.length < c.rest.length :=
    Cursor.skip_rest_length_lt Nat.one_pos (by simp [_hc])
  exact Nat.lt_of_le_of_lt (Nat.le_trans h₁ (Nat.le_trans h₂ h₃)) h₄

/-- The scalar after its indicator, which stood at `start`; `parent` is the indentation around
it. -/
def scan (literal : Bool) (parent : Option Nat) (start : Mark) (c : Cursor) :
    Except SyntaxFault Outcome :=
  match readHeader start c with
  | .error e => .error e
  | .ok header =>
    let indent := if header.increment == 0 then 0 else parent.getD 0 + header.increment
    let least := parent.getD 0 + 1
    match readMargin start least indent 0 [] header.next.mark header.next.rest with
    | .error e => .error e
    | .ok margin =>
      readLines start literal header.chomping least margin.indent
        ⟨[], none, margin.breaks, false⟩ margin.next

/-!
## Reading never goes back
-/

theorem readIncrement_rest_length_le {start : Mark} {c : Cursor} {r : Nat × Cursor}
    (h : readIncrement start c = .ok r) :
    r.2.rest.length ≤ c.rest.length := by
  unfold readIncrement at h
  grind [Cursor.skip_rest_length_le]

theorem readIndicators_rest_length_le {start : Mark} {c : Cursor} {r : Header}
    (h : readIndicators start c = .ok r) :
    r.next.rest.length ≤ c.rest.length := by
  unfold readIndicators at h
  split at h
  · cases hi : readIncrement start (c.skip 1) with
    | error e => simp [hi, Except.map] at h
    | ok r =>
        have := readIncrement_rest_length_le hi
        have := Cursor.skip_rest_length_le c 1
        simp only [hi, Except.map, Except.ok.injEq] at h
        subst h
        simp only
        omega
  · cases hi : readIncrement start c with
    | error e => simp [hi, Except.map] at h
    | ok r =>
        have := readIncrement_rest_length_le hi
        have := Cursor.skip_rest_length_le r.2 1
        simp only [hi, Except.map, Except.ok.injEq] at h
        subst h
        split <;> simp only <;> omega

theorem readHeader_rest_length_le {start : Mark} {c : Cursor} {r : Header}
    (h : readHeader start c = .ok r) :
    r.next.rest.length ≤ c.rest.length := by
  unfold readHeader at h
  split at h
  · cases h
  · next i hi =>
      have h₁ := readIndicators_rest_length_le hi
      have h₂ := Cursor.skipWhile_rest_length_le Character.isBlank i.next
      have h₃ := Cursor.skipComment_rest_length_le (i.next.skipWhile Character.isBlank)
      have h₄ := Cursor.skipBreak_rest_length_le
        (i.next.skipWhile Character.isBlank).skipComment
      simp only at h
      split at h
      · cases h
        simp only
        omega
      · cases h

theorem readLines_rest_length_le {start : Mark} {literal : Bool} {chomping : Chomping}
    {least indent : Nat} {p : Progress} {c : Cursor} {o : Outcome}
    (h : readLines start literal chomping least indent p c = .ok o) :
    o.next.rest.length ≤ c.rest.length := by
  fun_induction readLines start literal chomping least indent p c with
  | case1 | case2 => cases h; exact Nat.le_refl _
  | case3 => cases h
  | case4 indent p c d _ _ _ joint tail text ended margin hm ih =>
      have h₁ := readMargin_rest_length_le hm
      have h₂ := Cursor.takeBreak_rest_length_le tail.2
      have h₃ := Cursor.span_rest_length_le (fun d => !Character.isBreak d) (c.skip 1)
      have h₄ := Cursor.skip_rest_length_le c 1
      exact Nat.le_trans (ih h) (Nat.le_trans h₁ (Nat.le_trans h₂ (Nat.le_trans h₃ h₄)))

theorem scan_rest_length_le {literal : Bool} {parent : Option Nat} {start : Mark} {c : Cursor}
    {o : Outcome} (h : scan literal parent start c = .ok o) :
    o.next.rest.length ≤ c.rest.length := by
  unfold scan at h
  split at h
  · cases h
  · next header hh =>
      simp only at h
      split at h
      · cases h
      · next margin hm =>
          exact Nat.le_trans (readLines_rest_length_le h)
            (Nat.le_trans (readMargin_rest_length_le hm) (readHeader_rest_length_le hh))

end BlockScalar
end Yaml
end Clippings
