import Clippings.Proofs.Yaml.Lexing.Spot

/-!
# Indicators of blocks

A dash, a question mark and the colon of a key that has one are read alike: each may open a block at
its column, and leaves a key possible.
-/

namespace Clippings
namespace Yaml
namespace Spot

def opens (column : Nat) (indents : List Nat) : Bool :=
  indents.head?.all (· < column)

def opened (column : Nat) (indents : List Nat) : List Nat :=
  if opens column indents then column :: indents else indents

def opening (kind : TokenKind) (column : Nat) (indents : List Nat) : List TokenKind :=
  if opens column indents then [kind] else []

theorem opened_self (column : Nat) (indents : List Nat) :
    opened column (column :: indents) = column :: indents := by
  simp [opened, opens]

theorem opening_self (kind : TokenKind) (column : Nat) (indents : List Nat) :
    opening kind column (column :: indents) = [] := by
  simp [opening, opens]

theorem opened_of_lt {column n : Nat} (h : n < column) (indents : List Nat) :
    opened column (n :: indents) = column :: n :: indents := by
  simp [opened, opens, h]

theorem opening_of_lt (kind : TokenKind) {column n : Nat} (h : n < column) (indents : List Nat) :
    opening kind column (n :: indents) = [kind] := by
  simp [opening, opens, h]

end Spot

namespace Lexer

theorem deeper_eq (l : Lexer) (column : Nat) :
    l.deeper column = Spot.opens column l.indents := by
  unfold deeper Spot.opens
  cases l.indents <;> rfl

theorem openBlock_eq {l : Lexer} (houter : l.outer = []) (column number : Nat) (kind : TokenKind)
    (place : Mark) :
    l.openBlock column number kind place =
      if Spot.opens column l.indents then
        insert { l with indents := column :: l.indents } number ⟨kind, place, place⟩
      else l := by
  unfold openBlock
  rw [deeper_eq, inFlow, houter]
  rfl

/-- What opening a block at the next token does. -/
theorem openBlockHere_eq {l : Lexer} (houter : l.outer = []) (kind : TokenKind) :
    exists (tokens : List Token) (count : Nat),
      l.openBlockHere kind =
        { l with
          indents := Spot.opened l.cursor.mark.column l.indents
          emitted := tokens.reverse ++ l.emitted
          count := count } ∧
      tokens.map (·.kind) = Spot.opening kind l.cursor.mark.column l.indents := by
  unfold openBlockHere
  rw [openBlock_eq houter, Spot.opened, Spot.opening]
  split
  · refine ⟨[⟨kind, l.cursor.mark, l.cursor.mark⟩], l.count + 1, ?_, rfl⟩
    simp [insert]
  · exact ⟨[], l.count, rfl, rfl⟩

structure Prepared (l l' : Lexer) (indents : List Nat) (keyAllowed : Bool)
    (kinds : List TokenKind) : Prop where
  indents : l'.indents = indents
  keyAllowed : l'.keyAllowed = keyAllowed
  key : l'.key = none
  outer : l'.outer = []
  emitted : exists tokens : List Token,
    l'.emitted = tokens.reverse ++ l.emitted ∧ tokens.map (·.kind) = kinds

theorem Prepared.accept {l l' : Lexer} {indents : List Nat} {keyAllowed : Bool}
    {kinds : List TokenKind} (h : Prepared l l' indents keyAllowed kinds) (place : Mark)
    (kind : TokenKind) (next : Cursor) :
    At (l'.accept place (Lexeme.word kind next))
      ⟨next.mark.column, next.rest, indents, keyAllowed⟩ ∧
      exists tokens : List Token,
        (l'.accept place (Lexeme.word kind next)).emitted = tokens.reverse ++ l.emitted ∧
          tokens.map (·.kind) = kinds ++ [kind] := by
  rcases h.emitted with ⟨tokens, htokens, hkinds⟩
  refine ⟨⟨rfl, rfl, h.indents, ?_, h.key, h.outer⟩, tokens ++ [⟨kind, place, next.mark⟩], ?_, ?_⟩
  · change (l'.keyAllowed || false) = keyAllowed
    rw [Bool.or_false, h.keyAllowed]
  · change _ :: l'.emitted = _
    rw [htokens]
    simp [Lexeme.word]
  · rw [List.map_append, hkinds]
    rfl

theorem prepared_openBlockHere {l : Lexer} {s : Spot} (hl : l.At s) (kind : TokenKind)
    (keyAllowed : Bool) :
    Prepared l ((l.openBlockHere kind).allowKey keyAllowed) (Spot.opened s.column s.indents)
      keyAllowed (Spot.opening kind s.column s.indents) := by
  rcases openBlockHere_eq hl.outer kind with ⟨tokens, count, heq, hkinds⟩
  rw [hl.column, hl.indents] at heq hkinds
  rw [heq]
  exact ⟨rfl, rfl, hl.key, hl.outer, tokens, rfl, hkinds⟩

theorem dropKey_of_none {l : Lexer} (hkey : l.key = none) :
    dropKey l = .ok l := by
  unfold dropKey
  rw [hkey]

theorem key_openBlockHere {l : Lexer} {s : Spot} (hl : l.At s) (kind : TokenKind) :
    (l.openBlockHere kind).key = none := by
  rcases openBlockHere_eq hl.outer kind with ⟨tokens, count, heq, -⟩
  rw [heq]
  exact hl.key

theorem inFlow_of_outer {l : Lexer} (houter : l.outer = []) :
    l.inFlow = false := by
  rw [inFlow, houter]
  rfl

theorem prepare_blockEntry {l : Lexer} {s : Spot} (hl : l.At s) (hallowed : s.keyAllowed = true) :
    prepare l .blockEntry = .ok ((l.openBlockHere .blockSequenceStart).allowKey true) := by
  simp only [prepare, hl.keyAllowed, hallowed, Bool.not_true, Bool.and_false, Bool.false_eq_true,
    if_false]
  rw [dropKey_of_none (key_openBlockHere hl _)]
  rfl

theorem prepare_key {l : Lexer} {s : Spot} (hl : l.At s) (hallowed : s.keyAllowed = true) :
    prepare l .key = .ok ((l.openBlockHere .blockMappingStart).allowKey true) := by
  have hflow : (l.openBlockHere .blockMappingStart).inFlow = false := by
    rcases openBlockHere_eq hl.outer .blockMappingStart with ⟨tokens, count, heq, -⟩
    rw [heq]
    exact inFlow_of_outer hl.outer
  simp only [prepare, hl.keyAllowed, hallowed, Bool.not_true, Bool.and_false, Bool.false_eq_true,
    if_false]
  rw [dropKey_of_none (key_openBlockHere hl _)]
  simp only [Except.map, hflow]
  rfl

theorem prepare_value {l : Lexer} {s : Spot} (hl : l.At s) (hallowed : s.keyAllowed = true) :
    prepare l .value = .ok ((l.openBlockHere .blockMappingStart).allowKey true) := by
  simp [prepare, prepareValue, hl.key, inFlow_of_outer hl.outer, hl.keyAllowed, hallowed]

end Lexer

namespace Spot

open Lexer (At Leads Prepared)

/-!
## Steps over one character
-/

theorem gives_indicator {column : Nat} {c : Char} {rest : List Char} {indents indents' : List Nat}
    (starter : Starter) {kind : TokenKind} {kinds : List TokenKind} {keyAllowed keyAllowed' : Bool}
    (hle : indents.head?.all (· ≤ column) = true) (htoken : TokenNext (c :: rest))
    (hstarter : forall lineStart, Starter.of? false lineStart c rest = some starter)
    (hread : forall parent start next,
      Lexeme.read false parent starter start c next = .ok (Lexeme.word kind next))
    (hprepare : forall l : Lexer, l.At ⟨column, c :: rest, indents, keyAllowed⟩ ->
      exists l', Lexer.prepare l starter = .ok l' ∧ Prepared l l' indents' keyAllowed' kinds) :
    Gives ⟨column, c :: rest, indents, keyAllowed⟩ ⟨column + 1, rest, indents', keyAllowed'⟩
      (kinds ++ [kind]) := by
  intro l hl
  rcases hprepare l hl with ⟨l', hl', hprepared⟩
  rcases hprepared.accept l.cursor.mark kind (l.cursor.skip 1) with ⟨hat, tokens, htokens, hkinds⟩
  have hclose : l.closeTo (some column) = l := by
    apply Lexer.closeTo_of_le
    rw [hl.indents]
    exact hle
  have hcolumn : (l.cursor.skip 1).mark.column = column + 1 := by
    rw [Cursor.skip, hl.rest]
    exact congrArg (· + 1) hl.column
  have hrest : (l.cursor.skip 1).rest = rest := by
    rw [Cursor.skip_rest, hl.rest]
    rfl
  have hadvance : Lexer.advance l = .ok (.more
      (l'.accept l.cursor.mark (Lexeme.word kind (l.cursor.skip 1)))) := by
    rw [Lexer.advance_at hl htoken]
    simp only [hclose, Lexer.readToken, Lexer.inFlow_of_outer hl.outer, hstarter, hl',
      Lexer.inFlow_of_outer hprepared.outer, hread, Lexer.expireKeys_of_none hat.key hat.outer]
    rfl
  rw [hcolumn, hrest] at hat
  exact ⟨_, hat, Lexer.leads_of_more tokens hadvance htokens hkinds⟩

theorem of?_indicator {c : Char} {rest : List Char} (hrest : Character.gapOrEnd rest = true)
    (hc : c = '-' ∨ c = '?' ∨ c = ':') (lineStart : Bool) :
    Starter.of? false lineStart c rest = Starter.ofFirst? false c rest := by
  have hdocument : atDocumentIndicator (c :: rest) = false := by
    cases rest with
    | nil => rcases hc with rfl | rfl | rfl <;> rfl
    | cons d rest =>
        unfold atDocumentIndicator
        split
        · rename_i heq
          injection heq with _ heq
          injection heq with hd _
          subst hd
          cases hrest
        · rename_i heq
          injection heq with hc' _
          rcases hc with rfl | rfl | rfl <;> cases hc'
        · rfl
  have hdirective : (c == '%') = false := by
    rcases hc with rfl | rfl | rfl <;> rfl
  rw [Starter.of?, hdocument, hdirective]
  simp

theorem tokenNext_of_indicator {c : Char} (hc : c = '-' ∨ c = '?' ∨ c = ':') (rest : List Char) :
    TokenNext (c :: rest) := by
  intro d hd
  cases hd
  rcases hc with rfl | rfl | rfl <;> decide

section Indicators

variable {column : Nat} {rest : List Char} {indents : List Nat}
variable (hle : indents.head?.all (· ≤ column) = true)
variable (hrest : Character.gapOrEnd rest = true)
include hle hrest

theorem gives_blockEntry :
    Gives ⟨column, '-' :: rest, indents, true⟩ ⟨column + 1, rest, opened column indents, true⟩
      (opening .blockSequenceStart column indents ++ [.blockEntry]) := by
  have hc : '-' = '-' ∨ '-' = '?' ∨ '-' = ':' := Or.inl rfl
  refine gives_indicator .blockEntry hle (tokenNext_of_indicator hc rest) ?_
    (fun _ _ _ => rfl) ?_
  · intro lineStart
    rw [of?_indicator hrest hc]
    simp [Starter.ofFirst?, hrest]
  · intro l hl
    exact ⟨_, Lexer.prepare_blockEntry hl rfl, Lexer.prepared_openBlockHere hl _ true⟩

theorem gives_key :
    Gives ⟨column, '?' :: rest, indents, true⟩ ⟨column + 1, rest, opened column indents, true⟩
      (opening .blockMappingStart column indents ++ [.key]) := by
  have hc : '?' = '-' ∨ '?' = '?' ∨ '?' = ':' := Or.inr (Or.inl rfl)
  refine gives_indicator .key hle (tokenNext_of_indicator hc rest) ?_
    (fun _ _ _ => rfl) ?_
  · intro lineStart
    rw [of?_indicator hrest hc]
    simp [Starter.ofFirst?, hrest]
  · intro l hl
    exact ⟨_, Lexer.prepare_key hl rfl, Lexer.prepared_openBlockHere hl _ true⟩

theorem gives_value :
    Gives ⟨column, ':' :: rest, indents, true⟩ ⟨column + 1, rest, opened column indents, true⟩
      (opening .blockMappingStart column indents ++ [.value]) := by
  have hc : ':' = '-' ∨ ':' = '?' ∨ ':' = ':' := Or.inr (Or.inr rfl)
  refine gives_indicator .value hle (tokenNext_of_indicator hc rest) ?_
    (fun _ _ _ => rfl) ?_
  · intro lineStart
    rw [of?_indicator hrest hc]
    simp [Starter.ofFirst?, hrest]
  · intro l hl
    exact ⟨_, Lexer.prepare_value hl rfl, Lexer.prepared_openBlockHere hl _ true⟩

end Indicators
end Spot
end Yaml
end Clippings
