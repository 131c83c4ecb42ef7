import Clippings.Proofs.Content
import Clippings.Proofs.Program.Settings
import Clippings.Proofs.Yaml.Roots

/-!
# Texts without a document

Where the reader comes to the end of a text and has found nothing, a definition file has no entries
and a settings file makes no choices.  Most of these texts have no content, but not all of them: a
byte order mark in front of a comment is passed over by the reader alone.
-/

namespace Clippings

open Host (outcome)
open Yaml (FindsNothing)

/-!
## The end of a stream
-/

theorem Policy.ofRoot_ne_noDocument (t : Yaml.Tree) {node : Yaml.Node}
    (h : forall number, node ≠ .alias number) :
    Policy.ofRoot t node ≠ .error .noDocument := by
  cases node with
  | «alias» number => exact absurd rfl (h number)
  | scalar place tag style text =>
      rw [ofRoot]
      split
      · split
        · simp
        · split <;> simp
      · split <;> simp
  | collection shape place tag children complete =>
      rw [ofRoot]
      split
      · split <;> simp
      · simp

theorem Policy.ofText_eq_noDocument {text : String} :
    Policy.ofText text = .error .noDocument <-> FindsNothing text.toList := by
  unfold Policy.ofText FindsNothing
  cases ht : Yaml.Tree.ofText text.toList with
  | error f =>
      unfold Yaml.Tree.ofText at ht
      split at ht
      · cases ht
        simp
      · cases ht
  | ok t =>
      simp only [Except.ok.injEq, exists_eq_left', Yaml.Tree.Yields, not_or, not_not]
      cases hroot : t.root with
      | none => simp [Yaml.Tree.breakFault_eq_noDocument]
      | some node =>
          have hread := Policy.ofRoot_ne_noDocument t fun number heq =>
            Yaml.Tree.root_ne_alias ht number (hroot.trans (congrArg some heq))
          simp only [reduceCtorEq, false_and, iff_false]
          cases hpolicy : ofRoot t node with
          | error f =>
              rw [hpolicy] at hread
              exact hread
          | ok p => exact t.finish_ne_noDocument p

/-!
## Definitions and settings
-/

theorem Choices.ofText_of_vacant {text : String} (h : Yaml.isVacant text.toList = true)
    (path : Path) :
    Choices.ofText text path = .ok Choices.empty := by
  rw [Choices.ofText, Yaml.Value.ofText_of_vacant h]
  simp only [Yaml.Value.isNull, Yaml.Value.untag, if_true]
  split <;> rfl

/-- The reader finds no document exactly where what has to have one fails at the end of the stream,
and exactly where every line, by all breaks of the format, holds no more than spaces and a comment.
Whether such a text has content or not, a definition file with it has no entries, and a settings
file with it leaves all defaults. -/
theorem Document.parse_of_no_document (text : String) :
    (FindsNothing text.toList <-> Policy.ofText text = .error .noDocument) ∧
      (FindsNothing text.toList <-> Yaml.isVacant text.toList = true) ∧
      (FindsNothing text.toList ->
        (forall path, parse text path = .ok ⟨path, []⟩) ∧
        forall (w : Session) (path : Path),
          w.files.read path = .ok (Text.Utf8.encode text.toList) ->
            outcome (Program.loadSettings path) w = (.ok Settings.default, w)) := by
  have hvacant := Yaml.findsNothing_iff_isVacant text.toList
  refine ⟨Policy.ofText_eq_noDocument.symm, hvacant, ?_⟩
  intro hnothing
  constructor
  · intro path
    rw [parse, Yaml.Value.ofText_of_vacant (hvacant.mp hnothing)]
    simp only
    split <;> rfl
  · intro w path hread
    rw [Program.outcome_loadSettings hread, Program.ofOctets_encode,
      Choices.ofText_of_vacant (hvacant.mp hnothing)]
    rfl

/-- A mark, comments, and three kinds of breaks. -/
theorem Document.parse_of_no_document_marked :
    hasContent "\ufeff # c\r  # d\u2028\n" = true ∧
      Policy.ofText "\ufeff # c\r  # d\u2028\n" = .error .noDocument ∧
      parse "\ufeff # c\r  # d\u2028\n" (Path.ofString "p.yaml") =
        .ok ⟨Path.ofString "p.yaml", []⟩ := by
  rcases parse_of_no_document "\ufeff # c\r  # d\u2028\n" with ⟨hend, hvacant, hparse⟩
  have hnothing := hvacant.mpr (by cbv)
  exact ⟨by cbv, hend.mp hnothing, (hparse hnothing).1 _⟩

/-- A bare end of a document is no document, and the reader does not get past it. -/
theorem Document.parse_bareEnd :
    parse "..." (Path.ofString "p.yaml") =
      .error (.unreadable (Path.ofString "p.yaml")
        (.form ⟨.nodeContent, Yaml.Mark.start, some (.blockNode, Yaml.Mark.start)⟩)) := by
  cbv

end Clippings
