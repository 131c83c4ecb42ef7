import Clippings.Proofs.Yaml.Lexing.Key

/-!
# Nodes between spots

The text of a draft gives the tokens of the draft, wherever the draft stands.  The induction is on
the draft; a collection is a column of entries, and a column is read entry by entry.
-/

namespace Clippings
namespace Yaml

/-!
## The tokens of a draft
-/

namespace Shape

def blockStart : Shape -> TokenKind
  | .sequence => .blockSequenceStart
  | .mapping => .blockMappingStart

end Shape

namespace Draft

inductive Paired : List Draft -> Prop where
  | nil : Paired []
  | entry (k v : Draft) {rest : List Draft} : Paired rest -> Paired (k :: v :: rest)

/-- A draft whose tags are read back, and whose texts ask for styles that they may ask for. -/
inductive Sound : Draft -> Prop where
  | scalar {tag : Option Octets} {style : ScalarStyle} {text : List Char} :
      TagSpelling.IsLegible tag -> Style.Wanted style text -> Sound (.scalar tag style text)
  | sequence {tag : Option Octets} {items : List Draft} :
      TagSpelling.IsLegible tag -> (forall d, d ∈ items -> Sound d) ->
      Sound (.collection .sequence tag items)
  | mapping {tag : Option Octets} {children : List Draft} :
      TagSpelling.IsLegible tag -> (forall d, d ∈ children -> Sound d) -> Paired children ->
      Sound (.collection .mapping tag children)

def keyKinds : Draft -> List TokenKind
  | .scalar tag style text =>
    TagSpelling.tokenKinds tag ++ [.scalar (Style.choose true style text) text]
  | .collection shape tag _ => TagSpelling.tokenKinds tag ++ shape.brackets

/-- A sequence inside a mapping that starts a line of its own is not further in, and so has no
tokens for its start and its end. -/
def isIndentless (inMapping afterKey : Bool) (tag : Option Octets) (shape : Shape) : Bool :=
  inMapping && (afterKey || tag.isSome) && shape == .sequence

mutual
def nodeKinds (inMapping afterKey : Bool) : Draft -> List TokenKind
  | .scalar tag style text =>
    TagSpelling.tokenKinds tag ++ [.scalar (Style.choose false style text) text]
  | .collection shape tag [] => TagSpelling.tokenKinds tag ++ shape.brackets
  | .collection shape tag (child :: children) =>
    let kinds := match shape with
      | .sequence => itemKinds (child :: children)
      | .mapping => entryKinds (child :: children)
    TagSpelling.tokenKinds tag ++
      if isIndentless inMapping afterKey tag shape then kinds
      else shape.blockStart :: (kinds ++ [.blockEnd])
def itemKinds : List Draft -> List TokenKind
  | [] => []
  | d :: rest => (.blockEntry :: nodeKinds false false d) ++ itemKinds rest
def entryKinds : List Draft -> List TokenKind
  | k :: v :: rest =>
    (if Layout.isSimpleKey k then .key :: (keyKinds k ++ .value :: nodeKinds true true v)
    else .key :: (nodeKinds true false k ++ .value :: nodeKinds true false v)) ++ entryKinds rest
  | _ => []
end

def childKinds : Shape -> List Draft -> List TokenKind
  | .sequence => itemKinds
  | .mapping => entryKinds

end Draft

namespace Layout

def childTexts : Shape -> Nat -> List Draft -> List (List Char)
  | .sequence => itemTexts
  | .mapping => entryTexts

def tagLine (tag : Option Octets) : List Char :=
  tag.toList.flatMap fun octets => ' ' :: tagText octets

theorem nodeText_fresh {n : Nat} {inMapping afterKey : Bool} {shape : Shape} {tag : Option Octets}
    (h : (afterKey || tag.isSome) = true) (child : Draft) (children : List Draft) :
    nodeText n inMapping afterKey (.collection shape tag (child :: children)) =
      tagLine tag ++ '\n' :: column (innerColumn n inMapping true shape)
        (childTexts shape (innerColumn n inMapping true shape) (child :: children)) := by
  cases shape with
  | sequence => rw [nodeText, h]; rfl
  | mapping => rw [nodeText, h]; rfl

theorem innerColumn_false (n : Nat) (inMapping : Bool) (shape : Shape) :
    innerColumn n inMapping false shape = n + 2 := by
  simp [innerColumn]

theorem nodeText_here (n : Nat) (inMapping : Bool) (shape : Shape) (child : Draft)
    (children : List Draft) :
    nodeText n inMapping false (.collection shape none (child :: children)) =
      ' ' :: columnFromHere (n + 2) (childTexts shape (n + 2) (child :: children)) := by
  cases shape with
  | sequence => rw [nodeText, Option.isSome_none, Bool.or_false, innerColumn_false]; rfl
  | mapping => rw [nodeText, Option.isSome_none, Bool.or_false, innerColumn_false]; rfl

theorem nodeText_scalar (n : Nat) (inMapping afterKey : Bool) (tag : Option Octets)
    (style : ScalarStyle) (text : List Char) :
    nodeText n inMapping afterKey (.scalar tag style text) =
      ' ' :: (tagSpace tag ++ styled (n + 2) (Style.choose false style text) text ++
        lineEnd (Style.choose false style text) text) := by
  rw [nodeText]

theorem nodeText_empty (n : Nat) (inMapping afterKey : Bool) (shape : Shape)
    (tag : Option Octets) :
    nodeText n inMapping afterKey (.collection shape tag []) =
      ' ' :: (tagSpace tag ++ brackets shape ++ ['\n']) := by
  rw [nodeText]

theorem column_eq (n : Nat) {entries : List (List Char)} (h : entries ≠ []) :
    column n entries = indent n ++ columnFromHere n entries := by
  cases entries with
  | nil => exact absurd rfl h
  | cons entry entries => simp [column, columnFromHere]

theorem gapOrEnd_nodeText (n : Nat) (inMapping afterKey : Bool) (d : Draft) (rest : List Char) :
    Character.gapOrEnd (nodeText n inMapping afterKey d ++ rest) = true := by
  cases d with
  | scalar tag style text => rw [nodeText_scalar]; rfl
  | collection shape tag children =>
      cases children with
      | nil => rw [nodeText_empty]; rfl
      | cons child children =>
          cases hfresh : afterKey || tag.isSome with
          | true =>
              rw [nodeText_fresh hfresh]
              cases tag with
              | none => rfl
              | some octets => rfl
          | false =>
              rw [Bool.or_eq_false_iff, Option.isSome_eq_false_iff, Option.isNone_iff_eq_none]
                at hfresh
              rw [hfresh.1, hfresh.2, nodeText_here]
              rfl

end Layout

namespace Spot

/-- Wherever the draft stands, its text is read as its tokens.  The column of the collection around
is `n`; the text after the draft goes on further out. -/
structure Lexed (d : Draft) : Prop where
  afterKey : forall {n c k : Nat} (indents : List Nat) {rest : List Char}, n < c -> k ≤ n ->
    TokenNext rest ->
    Gives ⟨c, Layout.nodeText n true true d ++ (Layout.indent k ++ rest), n :: indents, false⟩
      ⟨k, rest, n :: indents, true⟩ (d.nodeKinds true true)
  afterIndicator : forall (inMapping : Bool) {n k : Nat} (indents : List Nat) {rest : List Char},
    k ≤ n -> TokenNext rest ->
    Gives ⟨n + 1, Layout.nodeText n inMapping false d ++ (Layout.indent k ++ rest), n :: indents,
        true⟩
      ⟨k, rest, n :: indents, true⟩ (d.nodeKinds inMapping false)

/-- The text of an entry in column `m` gives these tokens; the first entry opens the collection. -/
structure Entry (m : Nat) (start : TokenKind) (text : List Char) (kinds : List TokenKind) :
    Prop where
  tokenNext : forall rest, TokenNext (text ++ rest)
  gives : forall {k : Nat} {indents : List Nat} {rest : List Char},
    indents.head?.all (· ≤ m) = true -> k ≤ m -> TokenNext rest ->
    Gives ⟨m, text ++ (Layout.indent k ++ rest), indents, true⟩ ⟨k, rest, opened m indents, true⟩
      (opening start m indents ++ kinds)

inductive Column (m : Nat) (start : TokenKind) : List (List Char) -> List TokenKind -> Prop where
  | last {text : List Char} {kinds : List TokenKind} :
      Entry m start text kinds -> Column m start [text] kinds
  | more {text : List Char} {kinds : List TokenKind} {texts : List (List Char)}
      {kinds' : List TokenKind} :
      Entry m start text kinds -> Column m start texts kinds' ->
      Column m start (text :: texts) (kinds ++ kinds')

theorem opened_eq {m : Nat} {indents : List Nat} (h : indents.head?.all (· ≤ m) = true) :
    exists outer, opened m indents = m :: outer := by
  cases indents with
  | nil => exact ⟨[], rfl⟩
  | cons n indents =>
      have hn : n ≤ m := by simpa using h
      rcases Nat.lt_or_eq_of_le hn with hlt | rfl
      · exact ⟨n :: indents, opened_of_lt hlt indents⟩
      · exact ⟨indents, opened_self n indents⟩

theorem Column.ne_nil {m : Nat} {start : TokenKind} {texts : List (List Char)}
    {kinds : List TokenKind} (h : Column m start texts kinds) :
    texts ≠ [] := by
  cases h <;> simp

theorem Column.tokenNext {m : Nat} {start : TokenKind} {texts : List (List Char)}
    {kinds : List TokenKind} (h : Column m start texts kinds) (rest : List Char) :
    TokenNext (Layout.columnFromHere m texts ++ rest) := by
  cases h with
  | last hentry =>
      rw [Layout.columnFromHere, List.append_assoc]
      exact hentry.tokenNext _
  | more hentry hmore =>
      rw [Layout.columnFromHere, List.append_assoc]
      exact hentry.tokenNext _

/-- A column is read entry by entry. -/
theorem gives_column {m : Nat} {start : TokenKind} {texts : List (List Char)}
    {kinds : List TokenKind} (h : Column m start texts kinds) {k : Nat} {indents : List Nat}
    {rest : List Char} (hle : indents.head?.all (· ≤ m) = true) (hk : k ≤ m)
    (hrest : TokenNext rest) :
    Gives ⟨m, Layout.columnFromHere m texts ++ (Layout.indent k ++ rest), indents, true⟩
      ⟨k, rest, opened m indents, true⟩ (opening start m indents ++ kinds) := by
  induction h generalizing indents with
  | last hentry =>
      have hone := hentry.gives hle hk hrest
      simpa [Layout.columnFromHere, Layout.column] using hone
  | more hentry hmore ih =>
      rename_i text kinds texts kinds'
      have hfirst := hentry.gives hle (Nat.le_refl m) (hmore.tokenNext (Layout.indent k ++ rest))
      rcases opened_eq hle with ⟨outer, houter⟩
      rw [houter] at hfirst ⊢
      have hle' : (m :: outer).head?.all (· ≤ m) = true := by simp
      have hothers := ih hle'
      rw [opened_self, opening_self, List.nil_append] at hothers
      rw [Layout.columnFromHere, Layout.column_eq m hmore.ne_nil, ← List.append_assoc]
      simpa only [List.append_assoc] using hfirst.trans hothers

/-!
## Entries
-/

theorem entry_item {m : Nat} {d : Draft} (h : Lexed d) :
    Entry m .blockSequenceStart ('-' :: Layout.nodeText m false false d)
      (.blockEntry :: d.nodeKinds false false) := by
  constructor
  · intro rest
    exact tokenNext_of_indicator (Or.inl rfl) _
  · intro k indents rest hle hk hrest
    have hentry := gives_blockEntry hle
      (Layout.gapOrEnd_nodeText m false false d (Layout.indent k ++ rest))
    rcases opened_eq hle with ⟨outer, houter⟩
    rw [houter] at hentry ⊢
    simpa using hentry.trans (h.afterIndicator false outer hk hrest)

theorem entry_complexKey {m : Nat} {k v : Draft} (h : Lexed k) (h' : Lexed v) :
    Entry m .blockMappingStart
      ('?' :: (Layout.nodeText m true false k ++
        (Layout.indent m ++ ':' :: Layout.nodeText m true false v)))
      (.key :: (k.nodeKinds true false ++ .value :: v.nodeKinds true false)) := by
  constructor
  · intro rest
    exact tokenNext_of_indicator (Or.inr (Or.inl rfl)) _
  · intro n indents rest hle hn hrest
    have hgap := Layout.gapOrEnd_nodeText m true false v (Layout.indent n ++ rest)
    have hkey := gives_key hle (Layout.gapOrEnd_nodeText m true false k
      (Layout.indent m ++ ':' :: (Layout.nodeText m true false v ++ (Layout.indent n ++ rest))))
    rcases opened_eq hle with ⟨outer, houter⟩
    rw [houter] at hkey ⊢
    have hle' : (m :: outer).head?.all (· ≤ m) = true := by simp
    have hcolon := gives_value hle' hgap
    rw [opened_self, opening_self, List.nil_append] at hcolon
    have hfirst := hkey.trans (h.afterIndicator true outer (Nat.le_refl m)
      (tokenNext_of_indicator (Or.inr (Or.inr rfl)) _))
    have hsecond := hcolon.trans (h'.afterIndicator true outer hn hrest)
    simpa using hfirst.trans hsecond

theorem gives_keyText {m n : Nat} {k : Draft} (hk : k.Sound) (hsimple : Layout.isSimpleKey k = true)
    (hn : 0 < n) {indents : List Nat} {rest : List Char}
    (hle : indents.head?.all (· ≤ m) = true) (hrest : Character.gapOrEnd rest = true) :
    exists column, m < column ∧
      Gives ⟨m, Layout.keyText n k ++ ':' :: rest, indents, true⟩
        ⟨column, rest, opened m indents, false⟩
        (opening .blockMappingStart m indents ++ (.key :: k.keyKinds ++ [.value])) := by
  cases hk with
  | scalar htag hwanted =>
      simp only [Layout.isSimpleKey, Bool.and_eq_true, Bool.not_eq_true',
        decide_eq_true_eq] at hsimple
      rw [Layout.keyText, List.append_assoc]
      exact gives_scalarKey hle htag hrest (Style.suits_choose true hwanted)
        (Style.choose_simpleKey_ne_literal _ _) hsimple.1 hsimple.2 hn
  | sequence htag hitems =>
      simp only [Layout.isSimpleKey, Bool.and_eq_true, decide_eq_true_eq] at hsimple
      rw [Layout.keyText, List.append_assoc]
      exact gives_bracketsKey hle htag hrest .sequence hsimple.2
  | mapping htag hchildren hpaired =>
      simp only [Layout.isSimpleKey, Bool.and_eq_true, decide_eq_true_eq] at hsimple
      rw [Layout.keyText, List.append_assoc]
      exact gives_bracketsKey hle htag hrest .mapping hsimple.2

theorem tokenNext_tagSpace {tag : Option Octets} (htag : TagSpelling.IsLegible tag)
    {rest : List Char} (hrest : TokenNext rest) :
    TokenNext (Layout.tagSpace tag ++ rest) := by
  cases tag with
  | none => exact hrest
  | some octets =>
      rcases TagSpelling.scan_tagText (htag octets rfl) with ⟨spelling, htext, -⟩
      rw [Layout.tagSpace, htext]
      exact Lexer.tokenNext_of_visible (by decide) (by decide) _

theorem tokenNext_keyText {k : Draft} (hk : k.Sound) (n : Nat) (rest : List Char) :
    TokenNext (Layout.keyText n k ++ rest) := by
  cases hk with
  | scalar htag hwanted =>
      rw [Layout.keyText, List.append_assoc]
      exact tokenNext_tagSpace htag (tokenNext_styled (Style.suits_choose true hwanted) n rest)
  | sequence htag hitems =>
      rw [Layout.keyText, List.append_assoc]
      exact tokenNext_tagSpace htag (tokenNext_brackets .sequence rest)
  | mapping htag hchildren hpaired =>
      rw [Layout.keyText, List.append_assoc]
      exact tokenNext_tagSpace htag (tokenNext_brackets .mapping rest)

theorem entry_simpleKey {m : Nat} {k v : Draft} (hk : k.Sound)
    (hsimple : Layout.isSimpleKey k = true) (h : Lexed v) :
    Entry m .blockMappingStart (Layout.keyText (m + 2) k ++ ':' :: Layout.nodeText m true true v)
      (.key :: (k.keyKinds ++ .value :: v.nodeKinds true true)) := by
  constructor
  · intro rest
    rw [List.append_assoc]
    exact tokenNext_keyText hk (m + 2) _
  · intro n indents rest hle hn hrest
    rcases gives_keyText hk hsimple (Nat.succ_pos (m + 1)) hle
      (Layout.gapOrEnd_nodeText m true true v (Layout.indent n ++ rest)) with
      ⟨column, hcolumn, hkey⟩
    rcases opened_eq hle with ⟨outer, houter⟩
    rw [houter] at hkey ⊢
    simpa using hkey.trans (h.afterKey outer hcolumn hn hrest)

/-!
## Columns
-/

theorem column_items {m : Nat} {items : List Draft} (hne : items ≠ [])
    (h : forall d, d ∈ items -> Lexed d) :
    Column m .blockSequenceStart (Layout.itemTexts m items) (Draft.itemKinds items) := by
  induction items with
  | nil => exact absurd rfl hne
  | cons d items ih =>
      have hd := entry_item (m := m) (h d List.mem_cons_self)
      rw [Layout.itemTexts, Draft.itemKinds]
      cases items with
      | nil =>
          rw [Draft.itemKinds, List.append_nil]
          exact .last hd
      | cons e items =>
          exact .more hd (ih (List.cons_ne_nil e items)
            (fun d' hd' => h d' (List.mem_cons_of_mem d hd')))

theorem column_entries {m : Nat} {children : List Draft} (hpaired : Draft.Paired children)
    (hne : children ≠ []) (hchildren : forall d, d ∈ children -> d.Sound)
    (h : forall d, d ∈ children -> Lexed d) :
    Column m .blockMappingStart (Layout.entryTexts m children) (Draft.entryKinds children) := by
  induction hpaired with
  | nil => exact absurd rfl hne
  | entry k v hpaired ih =>
      rename_i rest
      have hk := hchildren k List.mem_cons_self
      have hentry : Entry m .blockMappingStart
          (if Layout.isSimpleKey k then
              Layout.keyText (m + 2) k ++ ':' :: Layout.nodeText m true true v
            else '?' :: (Layout.nodeText m true false k ++
              (Layout.indent m ++ ':' :: Layout.nodeText m true false v)))
          (if Layout.isSimpleKey k then .key :: (k.keyKinds ++ .value :: v.nodeKinds true true)
            else .key :: (k.nodeKinds true false ++ .value :: v.nodeKinds true false)) := by
        have hv' := h v (List.mem_cons_of_mem k List.mem_cons_self)
        cases hsimple : Layout.isSimpleKey k with
        | true => exact entry_simpleKey hk hsimple hv'
        | false => exact entry_complexKey (h k List.mem_cons_self) hv'
      rw [Layout.entryTexts, Draft.entryKinds]
      cases hpaired with
      | nil =>
          rw [Layout.entryTexts, Draft.entryKinds, List.append_nil]
          · exact .last hentry
          all_goals simp
      | entry k' v' hpaired' =>
          exact .more hentry (ih (List.cons_ne_nil _ _)
            (fun d hd => hchildren d (List.mem_cons_of_mem k (List.mem_cons_of_mem v hd)))
            (fun d hd => h d (List.mem_cons_of_mem k (List.mem_cons_of_mem v hd))))

/-- A column further in is a block of its own. -/
theorem gives_block {n k : Nat} {start : TokenKind} {texts : List (List Char)}
    {kinds : List TokenKind} (h : Column (n + 2) start texts kinds) (indents : List Nat)
    {rest : List Char} (hk : k ≤ n) (hrest : TokenNext rest) :
    Gives ⟨n + 2, Layout.columnFromHere (n + 2) texts ++ (Layout.indent k ++ rest), n :: indents,
        true⟩
      ⟨k, rest, n :: indents, true⟩ (start :: (kinds ++ [.blockEnd])) := by
  have hlt : n < n + 2 := Nat.lt_add_of_pos_right (by decide)
  have hle : (n :: indents).head?.all (· ≤ n + 2) = true := by simp
  have hcolumn := gives_column h hle (Nat.le_trans hk (Nat.le_of_lt hlt)) hrest
  rw [opened_of_lt hlt, opening_of_lt _ hlt] at hcolumn
  simpa using hcolumn.trans (gives_blockEnd (n :: indents) true (Nat.lt_of_le_of_lt hk hlt) hrest)

/-!
## Nodes
-/

theorem lexed_of_line {d : Draft} {text : Nat -> List Char} {kinds : List TokenKind}
    (htext : forall n inMapping afterKey, Layout.nodeText n inMapping afterKey d = ' ' :: text n)
    (hkinds : forall inMapping afterKey, d.nodeKinds inMapping afterKey = kinds)
    (h : forall {n c k : Nat} {indents : List Nat} {rest : List Char} {keyAllowed : Bool}, n < c ->
      k ≤ n -> TokenNext rest ->
      Gives ⟨c, text n ++ (Layout.indent k ++ rest), n :: indents, keyAllowed⟩
        ⟨k, rest, n :: indents, true⟩ kinds) :
    Lexed d := by
  constructor
  · intro n c k indents rest hc hk hrest
    rw [htext, hkinds]
    exact (gives_space c _ _ false).trans (h (Nat.lt_succ_of_lt hc) hk hrest)
  · intro inMapping n k indents rest hk hrest
    rw [htext, hkinds]
    exact (gives_space (n + 1) _ _ true).trans (h (Nat.lt_succ_of_lt (Nat.lt_succ_self n)) hk hrest)

theorem lexed_empty {tag : Option Octets} (htag : TagSpelling.IsLegible tag) (shape : Shape) :
    Lexed (.collection shape tag []) := by
  apply lexed_of_line
    (fun n inMapping afterKey => Layout.nodeText_empty n inMapping afterKey shape tag)
  · intro inMapping afterKey
    rw [Draft.nodeKinds]
  · intro n c k indents rest keyAllowed hc hk hrest
    rw [List.append_assoc, List.append_assoc]
    exact gives_brackets hc htag hrest shape

theorem nodeKinds_collection (inMapping afterKey : Bool) (shape : Shape) (tag : Option Octets)
    (child : Draft) (children : List Draft) :
    Draft.nodeKinds inMapping afterKey (.collection shape tag (child :: children)) =
      TagSpelling.tokenKinds tag ++
        if Draft.isIndentless inMapping afterKey tag shape then
          Draft.childKinds shape (child :: children)
        else shape.blockStart :: (Draft.childKinds shape (child :: children) ++ [.blockEnd]) := by
  cases shape with
  | sequence => rw [Draft.nodeKinds]; rfl
  | mapping => rw [Draft.nodeKinds]; rfl

theorem gives_tagLine {n c : Nat} (hc : n < c) {tag : Option Octets}
    (htag : TagSpelling.IsLegible tag) (m : Nat) (indents : List Nat) (keyAllowed : Bool)
    {rest : List Char} (hrest : TokenNext rest) :
    Gives ⟨c, Layout.tagLine tag ++ '\n' :: (Layout.indent m ++ rest), n :: indents, keyAllowed⟩
      ⟨m, rest, n :: indents, true⟩ (TagSpelling.tokenKinds tag) := by
  cases tag with
  | none => exact gives_line c m rest (n :: indents) keyAllowed
  | some octets =>
      have htext : Layout.tagLine (some octets) ++ '\n' :: (Layout.indent m ++ rest) =
          ' ' :: (Layout.tagText octets ++ '\n' :: (Layout.indent m ++ rest)) := by
        simp [Layout.tagLine]
      have hne : (n :: indents).head? ≠ some (c + 1) := by
        simpa using Nat.ne_of_lt (Nat.lt_succ_of_lt hc)
      rw [htext]
      refine (gives_space c _ _ keyAllowed).trans (gives_of_line hne hrest ?_)
      intro l hl
      have hready := Lexer.ready_refl hl
      have hle := hready.head_le hl (by simpa using Nat.le_of_lt (Nat.lt_succ_of_lt hc))
      rcases Lexer.noted_tag hready hle (htag octets rfl) hl.rest rfl (fun k hk =>
        Lexer.reachable_of_optional (Lexer.required_of_noted hl hne hk) _) with ⟨l₁, h, hcursor⟩
      refine ⟨l₁, h, by rw [hcursor], ?_⟩
      rw [hcursor]
      exact l.cursor.mark.line_le_through _

theorem gives_fresh {n c k : Nat} (hc : n < c) {inMapping afterKey : Bool} {tag : Option Octets}
    (htag : TagSpelling.IsLegible tag) (hfresh : (afterKey || tag.isSome) = true) {shape : Shape}
    {child : Draft} {children : List Draft}
    (h : forall m, Column m shape.blockStart (Layout.childTexts shape m (child :: children))
      (Draft.childKinds shape (child :: children)))
    (indents : List Nat) {rest : List Char} (hk : k ≤ n) (hrest : TokenNext rest)
    (keyAllowed : Bool) :
    Gives ⟨c, Layout.nodeText n inMapping afterKey (.collection shape tag (child :: children)) ++
        (Layout.indent k ++ rest), n :: indents, keyAllowed⟩
      ⟨k, rest, n :: indents, true⟩
      (Draft.nodeKinds inMapping afterKey (.collection shape tag (child :: children))) := by
  rw [Layout.nodeText_fresh hfresh, nodeKinds_collection, Draft.isIndentless, hfresh,
    Bool.and_true, List.append_assoc, List.cons_append, Layout.column_eq _ (h _).ne_nil,
    List.append_assoc]
  apply (gives_tagLine hc htag _ indents keyAllowed ((h _).tokenNext _)).trans
  cases hless : inMapping && shape == .sequence with
  | true =>
      have hle : (n :: indents).head?.all (· ≤ n) = true := by simp
      have hcolumn := gives_column (h n) hle hk hrest
      rw [opened_self, opening_self] at hcolumn
      rw [Layout.innerColumn, Bool.and_true, hless]
      exact hcolumn
  | false =>
      rw [Layout.innerColumn, Bool.and_true, hless]
      exact gives_block (h (n + 2)) indents hk hrest

theorem lexed_column {tag : Option Octets} (htag : TagSpelling.IsLegible tag) {shape : Shape}
    {child : Draft} {children : List Draft}
    (h : forall m, Column m shape.blockStart (Layout.childTexts shape m (child :: children))
      (Draft.childKinds shape (child :: children))) :
    Lexed (.collection shape tag (child :: children)) := by
  constructor
  · intro n c k indents rest hc hk hrest
    exact gives_fresh hc htag rfl h indents hk hrest false
  · intro inMapping n k indents rest hk hrest
    cases tag with
    | some octets => exact gives_fresh (Nat.lt_succ_self n) htag rfl h indents hk hrest true
    | none =>
        rw [Layout.nodeText_here, nodeKinds_collection, Draft.isIndentless, Option.isSome_none,
          Bool.or_false, Bool.and_false, Bool.false_and, if_neg Bool.false_ne_true]
        exact (gives_space (n + 1) _ _ true).trans (gives_block (h (n + 2)) indents hk hrest)

theorem lexed_of_sound {d : Draft} (h : d.Sound) :
    Lexed d := by
  induction h with
  | scalar htag hwanted =>
      rename_i tag style text
      apply lexed_of_line
        (fun n inMapping afterKey => Layout.nodeText_scalar n inMapping afterKey tag style text)
      · intro inMapping afterKey
        rw [Draft.nodeKinds]
      · intro n c k indents rest keyAllowed hc hk hrest
        rw [List.append_assoc, List.append_assoc]
        exact gives_scalar hc htag hrest hk (Style.suits_choose false hwanted)
  | sequence htag hitems ih =>
      rename_i tag items
      cases items with
      | nil => exact lexed_empty htag .sequence
      | cons item items =>
          apply lexed_column htag
          intro m
          exact column_items (List.cons_ne_nil item items) ih
  | mapping htag hchildren hpaired ih =>
      rename_i tag children
      cases children with
      | nil => exact lexed_empty htag .mapping
      | cons child children =>
          apply lexed_column htag
          intro m
          exact column_entries hpaired (List.cons_ne_nil child children) hchildren ih

end Spot

/-!
## Documents
-/

namespace Lexer

theorem run_end {l : Lexer} (hl : l.At ⟨0, [], [0], true⟩) :
    exists tokens, l.run = (l.emitted.reverse ++ tokens, none) ∧
      tokens.map (·.kind) = [.blockEnd, .streamEnd] := by
  rcases l with ⟨⟨mark, rest⟩, indents, key, outer, keyAllowed, emitted, count⟩
  rcases hl with ⟨hcolumn, rfl, rfl, rfl, rfl, rfl⟩
  refine ⟨[⟨.blockEnd, mark, mark⟩, ⟨.streamEnd, mark, mark⟩], ?_, rfl⟩
  apply run_of_done
  have hcolumn' : mark.column = 0 := hcolumn
  simp [advance, skipToToken, skipGap, expireKeys, keepFresh, closeTo, closeBlocks, inFlow, finish,
    dropKey, emitHere, emit, hcolumn', Except.map]

end Lexer

open Spot (Column) in
/-- The tokens of a text that is a column of its own. -/
theorem Token.ofText_column {start : TokenKind} {texts : List (List Char)} {kinds : List TokenKind}
    (h : Column 0 start texts kinds) :
    exists tokens, Token.ofText (Layout.columnFromHere 0 texts) = (tokens, none) ∧
      tokens.map (·.kind) = start :: (kinds ++ [.blockEnd, .streamEnd]) := by
  have hend : TokenNext [] := by
    intro c hc
    cases hc
  have hgives : Spot.Gives ⟨0, Layout.columnFromHere 0 texts, [], true⟩ ⟨0, [], [0], true⟩
      (start :: kinds) := by
    have hle : ([] : List Nat).head?.all (· ≤ 0) = true := rfl
    simpa [Layout.indent, Spot.opened, Spot.opening, Spot.opens] using
      Spot.gives_column h hle (Nat.le_refl 0) hend
  rcases hgives (Lexer.start (Layout.columnFromHere 0 texts)) ⟨rfl, rfl, rfl, rfl, rfl, rfl⟩ with
    ⟨l, hl, hleads⟩
  rcases Lexer.run_end hl with ⟨tokens, hrun, hkinds⟩
  rcases hleads.emitted with ⟨before, hbefore, hkinds'⟩
  exists before ++ tokens
  constructor
  · rw [Token.ofText, hleads.run (by rw [hrun]), hrun, hbefore, List.reverse_append,
      List.reverse_reverse]
    rfl
  · rw [List.map_append, hkinds, hkinds']
    simp

end Yaml
end Clippings
