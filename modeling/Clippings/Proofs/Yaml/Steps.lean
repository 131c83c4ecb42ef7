import Clippings.Yaml.Value.Reader

/-!
# Reading in so many steps

A lexer runs until its text is used up, and how many steps that takes cannot be seen in advance.
Where the steps are counted, the tokens of a text are computed one after the other, and with them
its tree.
-/

namespace Clippings
namespace Yaml

namespace Lexer

/-- What `run` gives, if it gives it within so many steps. -/
def runWithin : Nat -> Lexer -> Option (List Token × Option SyntaxFault)
  | 0, _ => none
  | n + 1, l =>
    match advance l with
    | .error e => some (l.released, some e)
    | .ok (.done tokens) => some (tokens, none)
    | .ok (.more l') => runWithin n l'

theorem run_of_runWithin {n : Nat} {l : Lexer} {result : List Token × Option SyntaxFault}
    (h : l.runWithin n = some result) :
    l.run = result := by
  induction n generalizing l with
  | zero => cases h
  | succ n ih =>
      rw [runWithin] at h
      rw [run_eq]
      cases hadvance : advance l with
      | error e =>
          rw [hadvance] at h
          exact Option.some.inj h
      | ok next =>
          rw [hadvance] at h
          cases next with
          | done tokens => exact Option.some.inj h
          | more l' => exact ih h

end Lexer

def Tree.ofTextWithin (n : Nat) (text : List Char) : Option Tree :=
  match forbiddenOffset? 0 text with
  | some _ => none
  | none =>
    ((Lexer.start text).runWithin n).map fun (tokens, tokenFault) =>
      let (events, fault) := Event.ofTokens tokens tokenFault
      Tree.ofEvents events fault

theorem Tree.ofText_of_ofTextWithin (n : Nat) {text : List Char} {t : Tree}
    (h : Tree.ofTextWithin n text = some t) :
    Tree.ofText text = .ok t := by
  unfold Tree.ofTextWithin at h
  unfold Tree.ofText
  cases hforbidden : forbiddenOffset? 0 text with
  | some offset =>
      rw [hforbidden] at h
      cases h
  | none =>
      rw [hforbidden] at h
      rcases Option.map_eq_some_iff.mp h with ⟨result, hrun, htree⟩
      rw [← htree, ← Lexer.run_of_runWithin hrun]
      rfl

theorem Value.ofText_of_ofTextWithin (n : Nat) {text : String} {t : Tree}
    {result : Except Fault Value} (htree : Tree.ofTextWithin n text.toList = some t)
    (hvalue : t.value = result) :
    Value.ofText text = result := by
  rw [Value.ofText, Tree.ofText_of_ofTextWithin n htree]
  exact hvalue

end Yaml
end Clippings
