/-!
# Places in a text

A mark says how far a reader has come: octets read, lines ended, characters read since the last line
ended.  All three count from zero.
-/

namespace Clippings
namespace Yaml

structure Mark where
  index : Nat
  line : Nat
  column : Nat
deriving DecidableEq, Repr

namespace Mark

def start : Mark :=
  ⟨0, 0, 0⟩

def past (m : Mark) (c : Char) : Mark :=
  ⟨m.index + c.utf8Size, m.line, m.column + 1⟩

/-- Past `n` characters of the same line, of one octet each. -/
def advance (m : Mark) (n : Nat) : Mark :=
  ⟨m.index + n, m.line, m.column + n⟩

/-- Past a line break of `width` octets. -/
def newline (m : Mark) (width : Nat) : Mark :=
  ⟨m.index + width, m.line + 1, 0⟩

/-- The start of the text is the one place that messages do not name. -/
def isOrigin (m : Mark) : Bool :=
  m.line == 0 && m.column == 0

/-- Lines and columns are shown counting from one. -/
def message (m : Mark) : String :=
  "line " ++ toString (m.line + 1) ++ " column " ++ toString (m.column + 1)

@[simp]
theorem past_column (m : Mark) (c : Char) :
    (m.past c).column = m.column + 1 := rfl

@[simp]
theorem advance_line (m : Mark) (n : Nat) :
    (m.advance n).line = m.line := rfl

@[simp]
theorem advance_column (m : Mark) (n : Nat) :
    (m.advance n).column = m.column + n := rfl

@[simp]
theorem newline_column (m : Mark) (width : Nat) :
    (m.newline width).column = 0 := rfl

end Mark
end Yaml
end Clippings
