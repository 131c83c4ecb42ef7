import Clippings.Yaml.Cursor
import Clippings.Yaml.Layout

/-!
# Texts and the styles that suit them

Whatever style a text would like to have, the style it gets suits it.  What a style asks of a text
is passed on from the text to its rest.
-/

namespace Clippings
namespace Yaml

/-!
## Marks
-/

theorem Layout.utf8Length_indent (n : Nat) :
    utf8Length (indent n) = n := by
  induction n with
  | zero => rfl
  | succ n ih =>
      rw [indent] at ih
      rw [indent, List.replicate_succ, utf8Length, ih, Nat.add_comm]
      rfl

namespace Mark

def across (m : Mark) (c : Char) : Mark :=
  if Character.isBreak c then m.newline c.utf8Size else m.past c

def through (m : Mark) (cs : List Char) : Mark :=
  cs.foldl across m

@[simp]
theorem through_nil (m : Mark) :
    m.through [] = m := rfl

theorem through_cons (m : Mark) (c : Char) (cs : List Char) :
    m.through (c :: cs) = (m.across c).through cs := rfl

theorem through_append (m : Mark) (xs ys : List Char) :
    m.through (xs ++ ys) = (m.through xs).through ys :=
  List.foldl_append

theorem across_of_break {m : Mark} {c : Char} (h : Character.isBreak c = true) :
    m.across c = m.newline c.utf8Size := by
  rw [across, if_pos h]

theorem across_of_not_break {m : Mark} {c : Char} (h : Character.isBreak c = false) :
    m.across c = m.past c := by
  rw [across, h]
  rfl

theorem line_le_through (m : Mark) (cs : List Char) :
    m.line ≤ (m.through cs).line := by
  induction cs generalizing m with
  | nil => exact Nat.le_refl _
  | cons c cs ih =>
      refine Nat.le_trans ?_ (ih (m.across c))
      unfold across
      split
      · exact Nat.le_succ _
      · exact Nat.le_refl _

def Precedes (m m' : Mark) : Prop :=
  m.line ≤ m'.line ∧ m.index ≤ m'.index

theorem Precedes.refl (m : Mark) :
    m.Precedes m :=
  ⟨Nat.le_refl _, Nat.le_refl _⟩

theorem Precedes.trans {m m₁ m₂ : Mark} (h : m.Precedes m₁) (h' : m₁.Precedes m₂) :
    m.Precedes m₂ :=
  ⟨Nat.le_trans h.1 h'.1, Nat.le_trans h.2 h'.2⟩

theorem precedes_past (m : Mark) (c : Char) :
    m.Precedes (m.past c) :=
  ⟨Nat.le_refl _, Nat.le_add_right _ _⟩

theorem precedes_through (m : Mark) (cs : List Char) :
    m.Precedes (m.through cs) := by
  constructor
  · exact line_le_through m cs
  · induction cs generalizing m with
    | nil => exact Nat.le_refl _
    | cons c cs ih =>
        refine Nat.le_trans ?_ (ih (m.across c))
        unfold across
        split <;> exact Nat.le_add_right _ _

theorem line_lt_through {m : Mark} {cs : List Char} (h : cs.any Character.isBreak = true) :
    m.line < (m.through cs).line := by
  induction cs generalizing m with
  | nil => cases h
  | cons c cs ih =>
      rw [through_cons]
      cases hc : Character.isBreak c with
      | true =>
          refine Nat.lt_of_lt_of_le ?_ (line_le_through _ cs)
          rw [across_of_break hc]
          exact Nat.lt_succ_self _
      | false =>
          rw [across_of_not_break hc]
          rw [List.any_cons, hc, Bool.false_or] at h
          exact ih (m := m.past c) h

theorem foldl_past {m : Mark} {cs : List Char} (h : cs.any Character.isBreak = false) :
    cs.foldl past m = m.through cs := by
  induction cs generalizing m with
  | nil => rfl
  | cons c cs ih =>
      rw [List.any_cons, Bool.or_eq_false_iff] at h
      rw [List.foldl_cons, ih h.2, through_cons, across_of_not_break h.1]

theorem through_of_no_break {m : Mark} {cs : List Char} (h : cs.any Character.isBreak = false) :
    m.through cs =
      ⟨m.index + Layout.utf8Length cs, m.line, m.column + cs.length⟩ := by
  induction cs generalizing m with
  | nil => rfl
  | cons c cs ih =>
      rw [List.any_cons, Bool.or_eq_false_iff] at h
      rw [through_cons, across_of_not_break h.1, ih h.2]
      simp only [past, Layout.utf8Length, List.length_cons, Mark.mk.injEq, true_and]
      omega

theorem through_indent (m : Mark) (n : Nat) :
    m.through (Layout.indent n) = ⟨m.index + n, m.line, m.column + n⟩ := by
  have hno : (Layout.indent n).any Character.isBreak = false := by
    simp [Layout.indent, Character.isBreak]
  rw [through_of_no_break hno, Layout.utf8Length_indent, Layout.indent, List.length_replicate]

end Mark

/-!
## Printable characters
-/

namespace Character

theorem not_blank_of_printable {c : Char} (h : isPrintable c = true) (hs : c ≠ ' ') :
    isBlank c = false := by
  unfold isBlank
  rw [Bool.or_eq_false_iff, beq_eq_false_iff_ne, beq_eq_false_iff_ne]
  constructor
  · exact hs
  · intro heq
    subst heq
    revert h
    decide

theorem ne_return_of_printable {c : Char} (h : isPrintable c = true) :
    c ≠ '\r' := by
  intro heq
  subst heq
  revert h
  decide

theorem break_of_printable {c : Char} (h : isPrintable c = true) (hb : isBreak c = true) :
    c = '\n' ∨ c = '\u2028' ∨ c = '\u2029' := by
  simp only [isBreak, Bool.or_eq_true, beq_iff_eq] at hb
  rcases hb with (((rfl | rfl) | rfl) | rfl) | rfl
  · exact Or.inl rfl
  · exact absurd rfl (ne_return_of_printable h)
  · revert h
    decide
  · exact Or.inr (Or.inl rfl)
  · exact Or.inr (Or.inr rfl)

theorem breakContent_of_printable {c : Char} (h : isPrintable c = true) (hb : isBreak c = true) :
    Cursor.breakContent c = c := by
  rcases break_of_printable h hb with rfl | rfl | rfl <;> rfl

end Character

def TokenNext (rest : List Char) : Prop :=
  forall c, rest.head? = some c ->
    Character.isGap c = false ∧ c ≠ '#' ∧ c ≠ Character.byteOrderMark

namespace Style

/-!
## Neighbours
-/

theorem hasPair_cons_eq_false {p : Char -> Char -> Bool} {c : Char} {s : List Char}
    (h : hasPair p (c :: s) = false) :
    s.head?.any (p c) = false ∧ hasPair p s = false := by
  cases s with
  | nil => exact ⟨rfl, rfl⟩
  | cons d s =>
      rw [hasPair, Bool.or_eq_false_iff] at h
      exact h

theorem hasSpecial_cons_eq_false {c : Char} {s : List Char} (h : hasSpecial (c :: s) = false) :
    Character.isPrintable c = true ∧ hasSpecial s = false := by
  unfold hasSpecial at h
  rw [List.any_cons, Bool.or_eq_false_iff] at h
  exact ⟨by simpa using h.1, h.2⟩

theorem isPrintable_of_mem {s : List Char} (h : hasSpecial s = false) {c : Char} (hc : c ∈ s) :
    Character.isPrintable c = true := by
  simpa using List.any_eq_false.mp h c hc

/-!
## Suitable styles
-/

/-- What reading a style back asks of a text. -/
inductive Suits : ScalarStyle -> List Char -> Prop where
  | plain {s : List Char} : s ≠ [] -> plainAllowed s = true -> Suits .plain s
  | singleQuoted {s : List Char} : singleAllowed s = true -> '\n' ∉ s -> Suits .singleQuoted s
  | doubleQuoted (s : List Char) : Suits .doubleQuoted s
  | literal {s : List Char} : blockAllowed s = true -> Suits .literal s

inductive Wanted : ScalarStyle -> List Char -> Prop where
  | plain {s : List Char} : s ≠ [] -> '\n' ∉ s -> Wanted .plain s
  | singleQuoted {s : List Char} : '\n' ∉ s -> Wanted .singleQuoted s
  | literal (s : List Char) : Wanted .literal s

theorem suits_choose {style : ScalarStyle} {s : List Char} (simpleKey : Bool)
    (h : Wanted style s) :
    Suits (choose simpleKey style s) s := by
  have hsingle : '\n' ∉ s ->
      Suits (if singleAllowed s then .singleQuoted else .doubleQuoted) s := by
    intro hnl
    by_cases hs : singleAllowed s = true
    · rw [if_pos hs]
      exact .singleQuoted hs hnl
    · rw [if_neg hs]
      exact .doubleQuoted s
  unfold choose
  by_cases hkey : (simpleKey && isMultiline s) = true
  · simp only [hkey, if_true]
    exact .doubleQuoted s
  · rw [Bool.not_eq_true] at hkey
    simp only [hkey, Bool.false_eq_true, if_false]
    cases h with
    | plain hne hnl =>
        by_cases hp : plainAllowed s = true
        · rw [if_pos (by simp [hp, hne])]
          exact .plain hne hp
        · rw [if_neg (by simp [hp])]
          exact hsingle hnl
    | singleQuoted hnl => exact hsingle hnl
    | literal =>
        by_cases hl : (blockAllowed s && !simpleKey) = true
        · rw [if_pos hl]
          rw [Bool.and_eq_true] at hl
          exact .literal hl.1
        · rw [if_neg hl]
          exact .doubleQuoted s

theorem choose_simpleKey_ne_literal (style : ScalarStyle) (s : List Char) :
    choose true style s ≠ .literal := by
  unfold choose
  simp only [Bool.true_and, Bool.not_true, Bool.and_false, Bool.false_eq_true, if_false]
  split <;> repeat' split
  all_goals simp

end Style
end Yaml
end Clippings
