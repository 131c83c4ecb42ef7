import Mathlib
import Clippings.Proofs.Yaml.Steps
import Clippings.Proofs.Yaml.Vacant
import Clippings.Settings

/-!
# Texts without content

Whether a text has content is told from its lines, and lines end at line feeds only.  The format
knows further breaks, and its blanks are fewer: so a comment that some other break ends can hide a
document.
-/

namespace Clippings

namespace Text

theorem splitAt_separator (separator : Char) (rest : List Char) :
    splitAt separator (separator :: rest) = [] :: splitAt separator rest := by
  simp [splitAt]

theorem splitAt_cons {separator c : Char} (h : c ≠ separator) (rest : List Char) :
    exists piece more, splitAt separator rest = piece :: more ∧
      splitAt separator (c :: rest) = (c :: piece) :: more := by
  have hne : splitAt separator rest ≠ [] := by
    cases rest with
    | nil => simp [splitAt]
    | cons d rest =>
        rw [splitAt]
        split
        · simp
        · split <;> simp
  rcases List.exists_cons_of_ne_nil hne with ⟨piece, more, hpieces⟩
  refine ⟨piece, more, hpieces, ?_⟩
  simp [splitAt, h, hpieces]

end Text

/-!
## Layouts that mean the same to all
-/

namespace Line

def IsSpaced (line : List Char) : Prop :=
  forall c, c ∈ line.takeWhile (· != '#') -> Text.isBlank c = true -> c = ' ' ∨ c = '\r'

end Line

/-- Allowed characters, in lines that end with a line feed, perhaps behind a carriage return, and
start with no blanks but spaces. -/
structure HasPlainLayout (text : List Char) : Prop where
  allowed : forall c, c ∈ text -> Yaml.Character.isAllowed c = true
  breaks : forall before c after, text = before ++ c :: after ->
    Yaml.Character.isBreak c = true -> c = '\n' ∨ (c = '\r' ∧ after.head? = some '\n')
  spaced : forall line, line ∈ Text.splitAt '\n' text -> Line.IsSpaced line

namespace Line

/-- A line without content, by the blanks that the format knows. -/
def IsQuiet (line : List Char) : Prop :=
  hasContent line = false ∧ IsSpaced line

theorem isQuiet_nil :
    IsQuiet [] :=
  ⟨rfl, fun _ h => absurd h List.not_mem_nil⟩

theorem IsQuiet.cons {c : Char} {line : List Char} (h : IsQuiet (c :: line))
    (hbreak : Yaml.Character.isBreak c = false) :
    c = '#' ∨ (c = ' ' ∧ IsQuiet line) := by
  rcases h with ⟨hcontent, hspaced⟩
  rw [hasContent, List.dropWhile_cons] at hcontent
  by_cases hblank : Text.isBlank c = true
  · apply Or.inr
    rw [if_pos hblank] at hcontent
    have hne : c ≠ '#' := by
      rintro rfl
      cases hblank
    have htake : (c :: line).takeWhile (· != '#') = c :: line.takeWhile (· != '#') := by
      simp [hne]
    rw [IsSpaced, htake] at hspaced
    constructor
    · rcases hspaced c List.mem_cons_self hblank with rfl | rfl
      · rfl
      · cases hbreak
    · constructor
      · exact hcontent
      · intro d hd
        exact hspaced d (List.mem_cons_of_mem _ hd)
  · rw [if_neg hblank] at hcontent
    exact Or.inl (by simpa using hcontent)

end Line

def IsQuietFrom (inComment : Bool) (lines : List (List Char)) : Prop :=
  (inComment = false -> forall line, line ∈ lines.head? -> Line.IsQuiet line) ∧
    forall line, line ∈ lines.tail -> Line.IsQuiet line

theorem IsQuietFrom.after_break {inComment : Bool} {c : Char} {rest : List Char}
    (h : IsQuietFrom inComment (Text.splitAt '\n' (c :: rest)))
    (hc : c = '\n' ∨ (c = '\r' ∧ rest.head? = some '\n')) :
    IsQuietFrom false (Text.splitAt '\n' rest) := by
  rcases hc with rfl | ⟨rfl, hnext⟩
  · rw [Text.splitAt_separator] at h
    constructor
    · intro _ line hline
      exact h.2 line (List.mem_of_mem_head? hline)
    · intro line hline
      exact h.2 line (List.mem_of_mem_tail hline)
  · -- The carriage return is all of its line that is left, so an empty line starts behind it.
    cases rest with
    | nil => cases hnext
    | cons d rest =>
        cases hnext
        rcases Text.splitAt_cons (show '\r' ≠ '\n' by decide) ('\n' :: rest) with
          ⟨piece, more, hpieces, hsplit⟩
        rw [Text.splitAt_separator] at hpieces
        cases hpieces
        rw [Text.splitAt_separator]
        rw [hsplit] at h
        constructor
        · intro _ line hline
          cases hline
          exact Line.isQuiet_nil
        · exact h.2

theorem isVacantFrom_of_quiet {text : List Char}
    (hbreaks : forall before c after, text = before ++ c :: after ->
      Yaml.Character.isBreak c = true -> c = '\n' ∨ (c = '\r' ∧ after.head? = some '\n'))
    (inComment : Bool) (column : Nat) (h : IsQuietFrom inComment (Text.splitAt '\n' text)) :
    Yaml.isVacantFrom inComment column text = true := by
  induction text generalizing inComment column with
  | nil => cases inComment <;> simp [Yaml.isVacantFrom, Yaml.isVacantLine, Yaml.isVacantRest]
  | cons c rest ih =>
      have hrest : forall before d after, rest = before ++ d :: after ->
          Yaml.Character.isBreak d = true -> d = '\n' ∨ (d = '\r' ∧ after.head? = some '\n') := by
        intro before d after hd
        exact hbreaks (c :: before) d after (by rw [hd]; rfl)
      cases hbreak : Yaml.Character.isBreak c with
      | true =>
          rw [Yaml.isVacantFrom_break hbreak]
          exact ih hrest false 0 (h.after_break (hbreaks [] c rest rfl hbreak))
      | false =>
          have hne : c ≠ '\n' := by
            rintro rfl
            cases hbreak
          rcases Text.splitAt_cons hne rest with ⟨piece, more, hpieces, hsplit⟩
          rw [hsplit] at h
          rw [hpieces] at ih
          cases inComment with
          | true =>
              rw [Yaml.isVacantFrom_comment hbreak column column]
              exact ih hrest true column ⟨by simp, h.2⟩
          | false =>
              rcases (h.1 rfl _ rfl).cons hbreak with rfl | ⟨rfl, hpiece⟩
              · rw [Yaml.isVacantFrom_hash column column]
                exact ih hrest true column ⟨by simp, h.2⟩
              · rw [Yaml.isVacantFrom_space column column]
                apply ih hrest false (column + 1)
                constructor
                · intro _ line hline
                  cases hline
                  exact hpiece
                · exact h.2

theorem isVacant_of_plainLayout {text : String} (h : hasContent text = false)
    (hlayout : HasPlainLayout text.toList) :
    Yaml.isVacant text.toList = true := by
  have hquiet : forall line, line ∈ Text.splitAt '\n' text.toList -> Line.IsQuiet line := by
    intro line hline
    rw [hasContent, List.any_eq_false] at h
    exact ⟨by simpa using h line hline, hlayout.spaced line hline⟩
  rw [Yaml.isVacant, Bool.and_eq_true, ← Yaml.isVacantFrom_start]
  constructor
  · exact List.all_eq_true.mpr hlayout.allowed
  · apply isVacantFrom_of_quiet hlayout.breaks false 0
    constructor
    · intro _ line hline
      exact hquiet line (List.mem_of_mem_head? hline)
    · intro line hline
      exact hquiet line (List.mem_of_mem_tail hline)

/-!
## What the shortcut passes over
-/

/-- A text without content gives no entries and makes no choices, unread.  The reader would find no
document in it exactly where every line of the format is vacant, as all are in a plain layout. -/
theorem Document.parse_of_no_content {text : String} (h : hasContent text = false) (path : Path) :
    parse text path = .ok ⟨path, []⟩ ∧
      Choices.ofText text path = .ok Choices.empty ∧
      (Yaml.FindsNothing text.toList <-> Yaml.isVacant text.toList = true) ∧
      (Yaml.isVacant text.toList = true -> Yaml.Value.ofText text = .ok .null) ∧
      (HasPlainLayout text.toList -> Yaml.isVacant text.toList = true) := by
  constructor
  · rw [parse, h]
    rfl
  constructor
  · rw [Choices.ofText, h]
    rfl
  constructor
  · exact Yaml.findsNothing_iff_isVacant _
  constructor
  · exact Yaml.Value.ofText_of_vacant
  · exact isVacant_of_plainLayout h

theorem Document.parse_of_no_content_comments :
    hasContent "# c\r\n \n" = false ∧
      parse "# c\r\n \n" (Path.ofString "p.yaml") = .ok ⟨Path.ofString "p.yaml", []⟩ ∧
      Yaml.FindsNothing "# c\r\n \n".toList := by
  have hcontent : hasContent "# c\r\n \n" = false := by
    cbv
  rcases parse_of_no_content hcontent (Path.ofString "p.yaml") with ⟨hparse, -, hnothing, -⟩
  exact ⟨hcontent, hparse, hnothing.mpr (by cbv)⟩

/-- A carriage return ends the comment for the format alone. -/
theorem Document.parse_hides_entry :
    hasContent "# c\rpipelines: 1\n" = false ∧
      parse "# c\rpipelines: 1\n" (Path.ofString "p.yaml") =
        .ok ⟨Path.ofString "p.yaml", []⟩ ∧
      Yaml.Value.ofText "# c\rpipelines: 1\n" =
        .ok (.map [(.str "pipelines", .int 1)]) := by
  refine ⟨by cbv, by cbv, ?_⟩
  apply Yaml.Value.ofText_of_ofTextWithin 20
  · cbv
  · rfl

end Clippings
