import Clippings.Proofs.Yaml.Scalar.Style
import Clippings.Yaml.Token.Lexer

/-!
# From one spot to the next

Where no key is pending, what the lexer makes of the rest of a text depends on the column, the open
blocks and whether a key may start, and on nothing it has read before.  So reading is a chain of
steps between such spots, each with the tokens it gives.
-/

namespace Clippings
namespace Yaml

structure Spot where
  column : Nat
  rest : List Char
  indents : List Nat
  keyAllowed : Bool

namespace Lexer

structure At (l : Lexer) (s : Spot) : Prop where
  column : l.cursor.mark.column = s.column
  rest : l.cursor.rest = s.rest
  indents : l.indents = s.indents
  keyAllowed : l.keyAllowed = s.keyAllowed
  key : l.key = none
  outer : l.outer = []

/-- What the first lexer goes on to read is what the second one reads, after some tokens. -/
structure Leads (l l' : Lexer) (kinds : List TokenKind) : Prop where
  run : l'.run.2 = none -> l.run = l'.run
  emitted : exists tokens : List Token,
    l'.emitted = tokens.reverse ++ l.emitted ∧ tokens.map (·.kind) = kinds

theorem Leads.trans {l l₁ l₂ : Lexer} {kinds kinds' : List TokenKind} (h : Leads l l₁ kinds)
    (h' : Leads l₁ l₂ kinds') :
    Leads l l₂ (kinds ++ kinds') := by
  constructor
  · intro hrun
    have hrun' := h'.run hrun
    rw [h.run (by rw [hrun', hrun]), hrun']
  · rcases h.emitted with ⟨tokens, htokens, hkinds⟩
    rcases h'.emitted with ⟨tokens', htokens', hkinds'⟩
    exists tokens ++ tokens'
    constructor
    · rw [htokens', htokens, List.reverse_append, List.append_assoc]
    · rw [List.map_append, hkinds, hkinds']

theorem run_of_more {l l' : Lexer} (h : advance l = .ok (.more l')) :
    l.run = l'.run := by
  rw [run_eq, h]

theorem run_of_done {l : Lexer} {tokens : List Token} (h : advance l = .ok (.done tokens)) :
    l.run = (tokens, none) := by
  rw [run_eq, h]

theorem run_of_error {l : Lexer} {f : SyntaxFault} (h : advance l = .error f) :
    l.run = (l.released, some f) := by
  rw [run_eq, h]

/-- Only a fault shows what a lexer has held back. -/
theorem run_congr {l l' : Lexer} (h : advance l = advance l') (hrun : l'.run.2 = none) :
    l.run = l'.run := by
  cases hadvance : advance l' with
  | error f =>
      rw [run_of_error hadvance] at hrun
      cases hrun
  | ok next =>
      rw [run_eq, run_eq l', h, hadvance]
      cases next <;> rfl

theorem leads_of_more {l l' : Lexer} (tokens : List Token) {kinds : List TokenKind}
    (h : advance l = .ok (.more l')) (hemitted : l'.emitted = tokens.reverse ++ l.emitted)
    (hkinds : tokens.map (·.kind) = kinds) :
    Leads l l' kinds :=
  ⟨fun _ => run_of_more h, tokens, hemitted, hkinds⟩

theorem leads_of_congr {l l' : Lexer} (tokens : List Token) {kinds : List TokenKind}
    (h : advance l = advance l') (hemitted : l'.emitted = tokens.reverse ++ l.emitted)
    (hkinds : tokens.map (·.kind) = kinds) :
    Leads l l' kinds :=
  ⟨run_congr h, tokens, hemitted, hkinds⟩

end Lexer

namespace Spot

open Lexer (At Leads)

/-- Reading on from a spot gives these tokens and comes to the other spot. -/
def Gives (s s' : Spot) (kinds : List TokenKind) : Prop :=
  forall l : Lexer, l.At s -> exists l' : Lexer, l'.At s' ∧ Leads l l' kinds

theorem Gives.trans {s s₁ s₂ : Spot} {kinds kinds' : List TokenKind} (h : Gives s s₁ kinds)
    (h' : Gives s₁ s₂ kinds') :
    Gives s s₂ (kinds ++ kinds') := by
  intro l hl
  rcases h l hl with ⟨l₁, hl₁, hleads⟩
  rcases h' l₁ hl₁ with ⟨l₂, hl₂, hleads'⟩
  exact ⟨l₂, hl₂, hleads.trans hleads'⟩

end Spot

namespace Lexer

/-!
## Gaps
-/

theorem skipGap_tokenNext {rest : List Char} (h : TokenNext rest) (inFlow keyAllowed : Bool)
    (m : Mark) :
    skipGap inFlow keyAllowed false m rest = (⟨m, rest⟩, keyAllowed) := by
  cases rest with
  | nil => rfl
  | cons c rest =>
      rcases h c rfl with ⟨hgap, hhash, hmark⟩
      rw [Character.isGap, Bool.or_eq_false_iff, Character.isBlank, Bool.or_eq_false_iff] at hgap
      have hreturn : (c == '\r') = false := by
        rw [beq_eq_false_iff_ne]
        intro heq
        subst heq
        cases hgap.2
      rw [skipGap]
      simp [hreturn, hgap.1.1, hgap.1.2, hgap.2, hhash, hmark]

theorem skipGap_space (inFlow keyAllowed : Bool) (m : Mark) (rest : List Char) :
    skipGap inFlow keyAllowed false m (' ' :: rest) =
      skipGap inFlow keyAllowed false (m.across ' ') rest := by
  rw [skipGap]
  rfl

theorem skipGap_indent (inFlow keyAllowed : Bool) (m : Mark) (n : Nat) (rest : List Char) :
    skipGap inFlow keyAllowed false m (Layout.indent n ++ rest) =
      skipGap inFlow keyAllowed false (m.through (Layout.indent n)) rest := by
  induction n generalizing m with
  | zero => rfl
  | succ n ih =>
      have hcons : Layout.indent (n + 1) = ' ' :: Layout.indent n := rfl
      rw [hcons, List.cons_append, skipGap_space, ih]
      rfl

theorem skipGap_line (keyAllowed : Bool) (m : Mark) (n : Nat) (rest : List Char) :
    skipGap false keyAllowed false m ('\n' :: (Layout.indent n ++ rest)) =
      skipGap false true false (m.through ('\n' :: Layout.indent n)) rest := by
  have hbreak : skipGap false keyAllowed false m ('\n' :: (Layout.indent n ++ rest)) =
      skipGap false true false (m.across '\n') (Layout.indent n ++ rest) := by
    rw [skipGap, Bool.not_false, Bool.or_true]
    rfl
  rw [hbreak, skipGap_indent]
  rfl

theorem column_through_line (m : Mark) (n : Nat) :
    (m.through ('\n' :: Layout.indent n)).column = n := by
  rw [Mark.through_cons, Mark.through_indent, Mark.across_of_break rfl, Mark.newline_column,
    Nat.zero_add]

/-!
## Where no key is pending
-/

theorem expireKeys_of_none {l : Lexer} (hkey : l.key = none) (houter : l.outer = []) :
    expireKeys l = .ok l := by
  rcases l with ⟨cursor, indents, key, outer, keyAllowed, emitted, count⟩
  cases hkey
  cases houter
  rfl

theorem advance_skip {l l' : Lexer} (hskip : l.skipToToken = l'.skipToToken) :
    advance l = advance l' := by
  unfold advance
  rw [hskip]

theorem skipToToken_of_tokenNext {l : Lexer} (h : TokenNext l.cursor.rest) :
    l.skipToToken = l := by
  unfold skipToToken
  rw [skipGap_tokenNext h]

theorem advance_at {l : Lexer} {s : Spot} (hl : l.At s) (hrest : TokenNext s.rest) :
    advance l =
      match s.rest with
      | [] => (finish (l.closeTo (some s.column))).map .done
      | c :: rest => (readToken (l.closeTo (some s.column)) c rest).map .more := by
  unfold advance
  rw [skipToToken_of_tokenNext (by rw [hl.rest]; exact hrest), expireKeys_of_none hl.key hl.outer]
  cases hs : s.rest with
  | nil => simp only [closeTo_cursor, hl.rest, hl.column, hs]
  | cons c rest => simp only [closeTo_cursor, hl.rest, hl.column, hs]

theorem closeTo_of_le {l : Lexer} {column : Nat} (h : l.indents.head?.all (· ≤ column) = true) :
    l.closeTo (some column) = l := by
  rcases l with ⟨cursor, indents, key, outer, keyAllowed, emitted, count⟩
  unfold closeTo
  split
  · rfl
  · cases indents with
    | nil => rfl
    | cons n indents =>
        have hle : n ≤ column := by simpa using h
        simp [closeBlocks, Nat.not_lt.mpr hle]

end Lexer

namespace Spot

/-!
## Steps without characters
-/

theorem gives_skip {s s' : Spot} (hindents : s'.indents = s.indents)
    (hskip : forall m : Mark, m.column = s.column -> exists m', m'.column = s'.column ∧
      Lexer.skipGap false s.keyAllowed false m s.rest =
        Lexer.skipGap false s'.keyAllowed false m' s'.rest) :
    Gives s s' [] := by
  intro l hl
  rcases hskip l.cursor.mark hl.column with ⟨m', hcolumn, hgap⟩
  have hflow : l.inFlow = false := by
    rw [Lexer.inFlow, hl.outer]
    rfl
  have hat : Lexer.At { l with cursor := ⟨m', s'.rest⟩, keyAllowed := s'.keyAllowed } s' :=
    ⟨hcolumn, rfl, hl.indents.trans hindents.symm, rfl, hl.key, hl.outer⟩
  refine ⟨_, hat, ?_⟩
  refine Lexer.leads_of_congr [] ?_ rfl rfl
  apply Lexer.advance_skip
  have hflow' : Lexer.inFlow { l with cursor := ⟨m', s'.rest⟩, keyAllowed := s'.keyAllowed } =
      false := hflow
  unfold Lexer.skipToToken
  rw [hflow, hflow', hl.rest, hl.keyAllowed, hgap]

theorem gives_space (column : Nat) (rest : List Char) (indents : List Nat) (keyAllowed : Bool) :
    Gives ⟨column, ' ' :: rest, indents, keyAllowed⟩ ⟨column + 1, rest, indents, keyAllowed⟩
      [] := by
  apply gives_skip (by rfl)
  intro m hm
  refine ⟨m.across ' ', ?_, Lexer.skipGap_space false keyAllowed m rest⟩
  change m.column + 1 = column + 1
  rw [hm]

theorem gives_line (column n : Nat) (rest : List Char) (indents : List Nat) (keyAllowed : Bool) :
    Gives ⟨column, '\n' :: (Layout.indent n ++ rest), indents, keyAllowed⟩ ⟨n, rest, indents, true⟩
      [] := by
  apply gives_skip (by rfl)
  intro m _
  exists m.through ('\n' :: Layout.indent n)
  constructor
  · exact Lexer.column_through_line m n
  · exact Lexer.skipGap_line keyAllowed m n rest

theorem gives_blockEnd {column n : Nat} {rest : List Char} (indents : List Nat) (keyAllowed : Bool)
    (hn : column < n) (hrest : TokenNext rest) :
    Gives ⟨column, rest, n :: indents, keyAllowed⟩ ⟨column, rest, indents, keyAllowed⟩
      [.blockEnd] := by
  intro l hl
  have hflow : l.inFlow = false := by
    rw [Lexer.inFlow, hl.outer]
    rfl
  have hat : Lexer.At { l.emitHere .blockEnd with indents := indents }
      ⟨column, rest, indents, keyAllowed⟩ :=
    ⟨hl.column, hl.rest, rfl, hl.keyAllowed, hl.key, hl.outer⟩
  refine ⟨_, hat, Lexer.leads_of_congr [⟨.blockEnd, l.cursor.mark, l.cursor.mark⟩] ?_ rfl
    rfl⟩
  have hstale : forall (indents : List Nat) (l l' : Lexer), { l with indents := [] } =
      { l' with indents := [] } ->
      Lexer.closeBlocks (some column) indents l = Lexer.closeBlocks (some column) indents l' := by
    intro indents
    induction indents with
    | nil => intro l l' h; exact h
    | cons n indents ih =>
        intro l l' h
        rcases l with ⟨cursor, _, key, outer, keyAllowed, emitted, count⟩
        rcases l' with ⟨cursor', _, key', outer', keyAllowed', emitted', count'⟩
        cases h
        simp only [Lexer.closeBlocks]
        split
        · exact ih _ _ rfl
        · rfl
  have hclose : l.closeTo (some column) =
      Lexer.closeTo { l.emitHere .blockEnd with indents := indents } (some column) := by
    have hflow' : Lexer.inFlow { l.emitHere .blockEnd with indents := indents } = false := hflow
    unfold Lexer.closeTo
    rw [hflow, hflow', hl.indents]
    simp only [Bool.false_eq_true, if_false, Lexer.closeBlocks, Option.all_some, decide_eq_true hn,
      if_true]
    exact hstale indents _ _ rfl
  rw [Lexer.advance_at hl hrest, Lexer.advance_at hat hrest, hclose]

end Spot
end Yaml
end Clippings
