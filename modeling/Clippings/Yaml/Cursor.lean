import Clippings.Yaml.Character
import Clippings.Yaml.Mark

/-!
# Reading positions

A cursor is the rest of a text together with the mark of its first character.  Moving a cursor never
makes the rest longer; `rest_length_le` says so for every move, and that is what ends the loops of
the readers built on it.
-/

namespace Clippings
namespace Yaml

structure Cursor where
  mark : Mark
  rest : List Char
deriving DecidableEq, Repr

namespace Cursor

def ofText (text : List Char) : Cursor :=
  ⟨Mark.start, text⟩

/-- Past `n` characters, none of them a line break. -/
def skip (c : Cursor) (n : Nat) : Cursor :=
  ⟨(c.rest.take n).foldl Mark.past c.mark, c.rest.drop n⟩

/-- The longest run of characters in a class, and what follows it. -/
def span (p : Char -> Bool) (c : Cursor) : List Char × Cursor :=
  let run := c.rest.takeWhile p
  (run, c.skip run.length)

def skipWhile (p : Char -> Bool) (c : Cursor) : Cursor :=
  (c.span p).2

/-- Past one line break, if one comes next: a carriage return and a line feed are one break. -/
def skipBreak (c : Cursor) : Cursor :=
  match c.rest with
  | '\r' :: '\n' :: rest => ⟨c.mark.newline 2, rest⟩
  | d :: rest => if Character.isBreak d then ⟨c.mark.newline d.utf8Size, rest⟩ else c
  | [] => c

/-- A break's content: most breaks count as a line feed, the two separators stand for
themselves. -/
def breakContent (c : Char) : Char :=
  if c == '\u2028' || c == '\u2029' then c else '\n'

/-- One line break with its content. -/
def takeBreak (c : Cursor) : Option Char × Cursor :=
  match c.rest with
  | d :: _ => if Character.isBreak d then (some (breakContent d), c.skipBreak) else (none, c)
  | [] => (none, c)

/-- The next character is `d`. -/
def sees (c : Cursor) (d : Char) : Bool :=
  c.rest.head? == some d

/-- Past a comment, if one starts here, up to the end of its line. -/
def skipComment (c : Cursor) : Cursor :=
  if c.sees '#' then c.skipWhile (fun d => !Character.isBreak d) else c

@[simp]
theorem skip_rest (c : Cursor) (n : Nat) :
    (c.skip n).rest = c.rest.drop n := rfl

theorem skip_rest_length_le (c : Cursor) (n : Nat) :
    (c.skip n).rest.length ≤ c.rest.length := by
  simp

theorem skip_rest_length_lt {c : Cursor} {n : Nat} (hn : 0 < n) (hc : c.rest ≠ []) :
    (c.skip n).rest.length < c.rest.length := by
  have := List.length_pos_iff.2 hc
  simp
  omega

theorem span_rest_length_le (p : Char -> Bool) (c : Cursor) :
    (c.span p).2.rest.length ≤ c.rest.length :=
  skip_rest_length_le c _

theorem skipWhile_rest_length_le (p : Char -> Bool) (c : Cursor) :
    (c.skipWhile p).rest.length ≤ c.rest.length :=
  span_rest_length_le p c

theorem skipComment_rest_length_le (c : Cursor) :
    c.skipComment.rest.length ≤ c.rest.length := by
  unfold skipComment
  split
  · exact skipWhile_rest_length_le _ c
  · exact Nat.le_refl _

theorem skipBreak_rest_length_le (c : Cursor) :
    c.skipBreak.rest.length ≤ c.rest.length := by
  unfold skipBreak
  split
  · simp_all
    omega
  · split <;> simp_all
  · exact Nat.le_refl _

theorem takeBreak_rest_length_le (c : Cursor) :
    c.takeBreak.2.rest.length ≤ c.rest.length := by
  unfold takeBreak
  split
  · split
    · exact skipBreak_rest_length_le c
    · exact Nat.le_refl _
  · exact Nat.le_refl _

end Cursor
end Yaml
end Clippings
