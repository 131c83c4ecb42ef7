import Clippings.Proofs.Yaml.Lexing.Node
import Clippings.Yaml.Value.Reader

/-!
# Only printable characters are written

So a text that was written holds no character that reading refuses.
-/

namespace Clippings
namespace Yaml
namespace Layout

def Clean (cs : List Char) : Prop :=
  forall c, c ∈ cs -> Character.isPrintable c = true

theorem clean_nil :
    Clean [] := by
  intro c hc
  cases hc

theorem clean_cons {c : Char} {cs : List Char} (hc : Character.isPrintable c = true)
    (h : Clean cs) :
    Clean (c :: cs) := by
  intro d hd
  rcases List.mem_cons.mp hd with rfl | hd
  · exact hc
  · exact h d hd

theorem clean_append {cs ds : List Char} (h : Clean cs) (h' : Clean ds) :
    Clean (cs ++ ds) := by
  intro c hc
  rcases List.mem_append.mp hc with hc | hc
  · exact h c hc
  · exact h' c hc

theorem clean_indent (n : Nat) :
    Clean (indent n) := by
  intro c hc
  rw [(List.mem_replicate.mp hc).2]
  decide

theorem clean_of_no_special {s : List Char} (h : Style.hasSpecial s = false) :
    Clean s := by
  intro c hc
  exact Style.isPrintable_of_mem h hc

/-!
## Scalars
-/

theorem clean_singleQuotedBody {s : List Char} (h : Clean s) (n : Nat) (afterBreak : Bool) :
    Clean (singleQuotedBody n afterBreak s) := by
  have hindent : forall b : Bool, Clean (if b then indent n else []) := by
    intro b
    cases b with
    | true => exact clean_indent n
    | false => exact clean_nil
  induction s generalizing afterBreak with
  | nil => exact hindent afterBreak
  | cons c s ih =>
      have hc := h c List.mem_cons_self
      have hs := fun b => ih (fun d hd => h d (List.mem_cons_of_mem c hd)) b
      have hone := clean_cons hc clean_nil
      rw [singleQuotedBody]
      split
      · refine clean_append ?_ (hs true)
        split
        · exact clean_cons (by decide) hone
        · exact hone
      · refine clean_append (clean_append (hindent afterBreak) ?_) (hs false)
        split
        · exact clean_cons (by decide) (clean_cons (by decide) clean_nil)
        · exact hone

theorem clean_doubleQuotedBody (s : List Char) :
    Clean (doubleQuotedBody s) := by
  intro c hc
  rcases List.mem_flatMap.mp hc with ⟨d, -, hd⟩
  split at hd
  · rw [QuotedScalar.escape_eq] at hd
    rcases List.mem_cons.mp hd with rfl | hd
    · decide
    · have hvisible := QuotedScalar.mem_escapeTail hd
      have hrange : (0x20 ≤ c.toNat && c.toNat ≤ 0x7e) = true := by
        simp only [Bool.and_eq_true, decide_eq_true_eq]
        omega
      simp [Character.isPrintable, hrange]
  · rename_i hescape
    rw [List.mem_singleton] at hd
    subst hd
    simp only [needsEscape, Bool.or_eq_true, Bool.not_eq_true', not_or,
      Bool.not_eq_false] at hescape
    exact hescape.1.1.1

theorem clean_blockHeader (s : List Char) :
    Clean (blockHeader s) := by
  unfold blockHeader chompingSign
  refine clean_append (clean_append ?_ ?_) (clean_cons (by decide) clean_nil)
  · split
    · exact clean_cons (by decide) clean_nil
    · exact clean_nil
  · split
    · exact clean_cons (by decide) clean_nil
    · split
      · exact clean_cons (by decide) clean_nil
      · split
        · exact clean_cons (by decide) clean_nil
        · exact clean_nil

theorem clean_blockBody {s : List Char} (h : Clean s) (n : Nat) (afterBreak : Bool) :
    Clean (blockBody n afterBreak s) := by
  induction s generalizing afterBreak with
  | nil => exact clean_nil
  | cons c s ih =>
      have hc := h c List.mem_cons_self
      have hs := fun b => ih (fun d hd => h d (List.mem_cons_of_mem c hd)) b
      rw [blockBody]
      split
      · exact clean_cons hc (hs true)
      · refine clean_append ?_ (clean_cons hc (hs false))
        split
        · exact clean_indent n
        · exact clean_nil

theorem clean_styled {style : ScalarStyle} {s : List Char} (h : Style.Suits style s) (n : Nat) :
    Clean (styled n style s) := by
  cases h with
  | plain hne hallowed =>
      cases s with
      | nil => exact clean_nil
      | cons c s =>
          simp only [Style.plainAllowed, Bool.not_eq_true', Bool.or_eq_false_iff] at hallowed
          rcases hallowed with ⟨⟨⟨⟨-, hspecial⟩, -⟩, -⟩, -⟩
          exact clean_of_no_special hspecial
  | singleQuoted hallowed hfeed =>
      simp only [Style.singleAllowed, Bool.not_eq_true', Bool.or_eq_false_iff] at hallowed
      exact clean_cons (by decide) (clean_append
        (clean_singleQuotedBody (clean_of_no_special hallowed.2) n false)
        (clean_cons (by decide) clean_nil))
  | doubleQuoted =>
      exact clean_cons (by decide) (clean_append (clean_doubleQuotedBody s)
        (clean_cons (by decide) clean_nil))
  | literal hallowed =>
      simp only [Style.blockAllowed, Bool.not_eq_true', Bool.or_eq_false_iff] at hallowed
      exact clean_cons (by decide) (clean_append (clean_blockHeader s)
        (clean_blockBody (clean_of_no_special hallowed.2) n true))

theorem clean_lineEnd (style : ScalarStyle) (s : List Char) :
    Clean (lineEnd style s) := by
  unfold lineEnd
  split
  · exact clean_nil
  · exact clean_cons (by decide) clean_nil

theorem clean_tagText {octets : Octets} (h : TagSpelling.Legible octets) :
    Clean (tagText octets) := by
  intro c hc
  have hvisible := TagSpelling.mem_tagText h hc
  have hrange : (0x20 ≤ c.toNat && c.toNat ≤ 0x7e) = true := by
    simp only [Bool.and_eq_true, decide_eq_true_eq]
    omega
  simp [Character.isPrintable, hrange]

theorem clean_tagSpace {tag : Option Octets} (h : TagSpelling.IsLegible tag) :
    Clean (tagSpace tag) := by
  cases tag with
  | none => exact clean_nil
  | some octets =>
      exact clean_append (clean_tagText (h octets rfl)) (clean_cons (by decide) clean_nil)

theorem clean_tagLine {tag : Option Octets} (h : TagSpelling.IsLegible tag) :
    Clean (tagLine tag) := by
  cases tag with
  | none => exact clean_nil
  | some octets =>
      rw [tagLine, Option.toList_some, List.flatMap_singleton]
      exact clean_cons (by decide) (clean_tagText (h octets rfl))

theorem clean_brackets (shape : Shape) :
    Clean (brackets shape) := by
  cases shape with
  | sequence => exact clean_cons (by decide) (clean_cons (by decide) clean_nil)
  | mapping => exact clean_cons (by decide) (clean_cons (by decide) clean_nil)

/-!
## Nodes
-/

theorem clean_keyText {k : Draft} (h : k.Sound) (n : Nat) :
    Clean (keyText n k) := by
  cases h with
  | scalar htag hwanted =>
      exact clean_append (clean_tagSpace htag) (clean_styled (Style.suits_choose true hwanted) n)
  | sequence htag hitems => exact clean_append (clean_tagSpace htag) (clean_brackets .sequence)
  | mapping htag hchildren hpaired =>
      exact clean_append (clean_tagSpace htag) (clean_brackets .mapping)

def AllClean (texts : List (List Char)) : Prop :=
  forall text, text ∈ texts -> Clean text

theorem clean_column {texts : List (List Char)} (h : AllClean texts) (n : Nat) :
    Clean (column n texts) := by
  intro c hc
  rcases List.mem_flatMap.mp hc with ⟨text, htext, hc⟩
  exact clean_append (clean_indent n) (h text htext) c hc

theorem clean_columnFromHere {texts : List (List Char)} (h : AllClean texts) (n : Nat) :
    Clean (columnFromHere n texts) := by
  cases texts with
  | nil => exact clean_nil
  | cons text texts =>
      exact clean_append (h text List.mem_cons_self)
        (clean_column (fun t ht => h t (List.mem_cons_of_mem text ht)) n)

def CleanDraft (d : Draft) : Prop :=
  forall n inMapping afterKey, Clean (nodeText n inMapping afterKey d)

theorem clean_itemTexts {items : List Draft} (h : forall d, d ∈ items -> CleanDraft d) (n : Nat) :
    AllClean (itemTexts n items) := by
  induction items with
  | nil =>
      intro text htext
      cases htext
  | cons d items ih =>
      intro text htext
      rcases List.mem_cons.mp htext with rfl | htext
      · exact clean_cons (by decide) (h d List.mem_cons_self n false false)
      · exact ih (fun e he => h e (List.mem_cons_of_mem d he)) text htext

theorem clean_entryTexts {children : List Draft} (hpaired : Draft.Paired children)
    (hchildren : forall d, d ∈ children -> d.Sound) (h : forall d, d ∈ children -> CleanDraft d)
    (n : Nat) :
    AllClean (entryTexts n children) := by
  induction hpaired with
  | nil =>
      intro text htext
      rw [entryTexts] at htext
      · cases htext
      · simp
  | entry k v hpaired ih =>
      have hv := h v (List.mem_cons_of_mem k List.mem_cons_self)
      intro text htext
      rw [entryTexts] at htext
      rcases List.mem_cons.mp htext with rfl | htext
      · split
        · exact clean_append (clean_keyText (hchildren k List.mem_cons_self) (n + 2))
            (clean_cons (by decide) (hv n true true))
        · exact clean_cons (by decide) (clean_append (h k List.mem_cons_self n true false)
            (clean_append (clean_indent n) (clean_cons (by decide) (hv n true false))))
      · exact ih (fun d hd => hchildren d (List.mem_cons_of_mem k (List.mem_cons_of_mem v hd)))
          (fun d hd => h d (List.mem_cons_of_mem k (List.mem_cons_of_mem v hd))) text htext

theorem clean_collection {tag : Option Octets} (htag : TagSpelling.IsLegible tag) {shape : Shape}
    {children : List Draft} (h : forall n, AllClean (childTexts shape n children)) :
    CleanDraft (.collection shape tag children) := by
  intro n inMapping afterKey
  cases children with
  | nil =>
      rw [nodeText_empty]
      exact clean_cons (by decide) (clean_append
        (clean_append (clean_tagSpace htag) (clean_brackets shape))
        (clean_cons (by decide) clean_nil))
  | cons child children =>
      cases hfresh : afterKey || tag.isSome with
      | true =>
          rw [nodeText_fresh hfresh]
          exact clean_append (clean_tagLine htag)
            (clean_cons (by decide) (clean_column (h _) _))
      | false =>
          rw [Bool.or_eq_false_iff, Option.isSome_eq_false_iff, Option.isNone_iff_eq_none]
            at hfresh
          rw [hfresh.1, hfresh.2, nodeText_here]
          exact clean_cons (by decide) (clean_columnFromHere (h _) _)

theorem clean_nodeText {d : Draft} (h : d.Sound) :
    CleanDraft d := by
  induction h with
  | scalar htag hwanted =>
      intro n inMapping afterKey
      rw [nodeText_scalar]
      exact clean_cons (by decide) (clean_append
        (clean_append (clean_tagSpace htag) (clean_styled (Style.suits_choose false hwanted) _))
        (clean_lineEnd _ _))
  | sequence htag hitems ih =>
      apply clean_collection htag
      intro n
      exact clean_itemTexts ih n
  | mapping htag hchildren hpaired ih =>
      apply clean_collection htag
      intro n
      exact clean_entryTexts hpaired hchildren ih n

end Layout

theorem forbiddenOffset?_of_clean {cs : List Char} (h : Layout.Clean cs) (offset : Nat) :
    forbiddenOffset? offset cs = none := by
  induction cs generalizing offset with
  | nil => rfl
  | cons c cs ih =>
      rw [forbiddenOffset?, if_pos (Character.isPrintable_isAllowed (h c List.mem_cons_self))]
      exact ih (fun d hd => h d (List.mem_cons_of_mem c hd)) _

end Yaml
end Clippings
