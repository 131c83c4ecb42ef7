import Clippings.Proofs.Yaml.Lexing.Indicator

/-!
# Keys that their colon shows

A node on one line may turn out to be a key.  Where the line ends after it, it was none; where a
colon follows not too far off, it was, and the tokens missing in front of it are put in.
-/

namespace Clippings
namespace Yaml
namespace Lexer

/-!
## Candidates
-/

theorem expireKeys_eq {l : Lexer}
    (h : forall k, some k ∈ l.key :: l.outer -> (k.required && k.expired l.cursor.mark) = false) :
    expireKeys l =
      .ok { l with
        key := keepFresh l.cursor.mark l.key
        outer := l.outer.map (keepFresh l.cursor.mark) } := by
  have hnone : (l.outer.reverse ++ [l.key]).findSome?
      (·.filter fun k => k.required && k.expired l.cursor.mark) = none := by
    rw [List.findSome?_eq_none_iff]
    intro key hkey
    cases key with
    | none => rfl
    | some k =>
        have hk := h k (by simpa [or_comm] using hkey)
        simp [Option.filter, hk]
  unfold expireKeys
  simp only [hnone]

theorem expireKeys_of_fresh {l : Lexer}
    (hkeep : forall k, k ∈ l.key :: l.outer -> keepFresh l.cursor.mark k = k)
    (h : forall k, some k ∈ l.key :: l.outer -> (k.required && k.expired l.cursor.mark) = false) :
    expireKeys l = .ok l := by
  rw [expireKeys_eq h, hkeep _ List.mem_cons_self,
    List.map_congr_left (fun k hk => hkeep k (List.mem_cons_of_mem _ hk)), List.map_id']

def noted (l : Lexer) : Option KeyCandidate :=
  if l.keyAllowed then
    some ⟨l.count, l.indents.head? == some l.cursor.mark.column, l.cursor.mark⟩
  else none

theorem noteKey_eq {l : Lexer} (hkey : l.key = none) (houter : l.outer = []) :
    noteKey l = .ok { l with key := noted l } := by
  unfold noteKey noted
  cases hallowed : l.keyAllowed with
  | false =>
      simp only [Bool.false_eq_true, if_false]
      rw [← hkey, ← hallowed]
  | true =>
      simp only [if_true, dropKey_of_none hkey, Except.map, inFlow_of_outer houter, Bool.not_false,
        Bool.true_and]
      rw [← hallowed]

/-- A lexeme has been read, and the candidates for keys have been looked through again. -/
structure Accepts (l l' : Lexer) (x : Lexeme) (l₁ : Lexer) : Prop where
  advance : l.advance = .ok (.more l₁)
  cursor : l₁.cursor = x.next
  indents : l₁.indents = l'.indents
  key : l₁.key = keepFresh x.next.mark l'.key
  outer : l₁.outer = l'.outer.map (keepFresh x.next.mark)
  keyAllowed : l₁.keyAllowed = (l'.keyAllowed || x.endsLine)
  emitted : l₁.emitted = ⟨x.kind, l.cursor.mark, x.stop⟩ :: l'.emitted
  count : l₁.count = l'.count + 1

theorem Accepts.run {l l' l₁ : Lexer} {x : Lexeme} (h : Accepts l l' x l₁) :
    l.run = l₁.run :=
  run_of_more h.advance

theorem accepts_of_advance {l l' : Lexer} {x : Lexeme}
    (h : advance l = (expireKeys (l'.accept l.cursor.mark x)).map .more)
    (hreach : forall k, some k ∈ l'.key :: l'.outer ->
      (k.required && k.expired x.next.mark) = false) :
    exists l₁, Accepts l l' x l₁ := by
  rw [expireKeys_eq (by exact hreach)] at h
  exact ⟨_, h, rfl, rfl, rfl, rfl, rfl, rfl, rfl⟩

theorem accepts_lexeme {l l' : Lexer} (houter : l.outer = []) (hwaits : expireKeys l = .ok l)
    (hle : l.indents.head?.all (· ≤ l.cursor.mark.column) = true) {c : Char} {rest : List Char}
    (hrest : l.cursor.rest = c :: rest) (htoken : TokenNext l.cursor.rest) {starter : Starter}
    (hstarter : forall lineStart, Starter.of? false lineStart c rest = some starter)
    (hprepare : prepare l starter = .ok l') {x : Lexeme}
    (hread : Lexeme.read l'.inFlow l'.indents.head? starter l.cursor.mark c (l.cursor.skip 1) =
      .ok x)
    (hreach : forall k, some k ∈ l'.key :: l'.outer ->
      (k.required && k.expired x.next.mark) = false) :
    exists l₁, Accepts l l' x l₁ := by
  refine accepts_of_advance ?_ hreach
  unfold advance
  rw [skipToToken_of_tokenNext htoken, hwaits]
  simp only [closeTo_of_le hle, hrest, readToken, inFlow_of_outer houter, hstarter, hprepare, hread]

theorem required_of_noted {l : Lexer} {s : Spot} (hl : l.At s)
    (h : s.indents.head? ≠ some s.column) {k : KeyCandidate} (hk : l.noted = some k) :
    k.required = false := by
  unfold noted at hk
  split at hk
  · cases hk
    rw [hl.indents, hl.column]
    exact beq_eq_false_iff_ne.mpr h
  · cases hk

theorem place_of_noted {l : Lexer} {k : KeyCandidate} (hk : l.noted = some k) :
    k.place = l.cursor.mark := by
  unfold noted at hk
  split at hk
  · cases hk
    rfl
  · cases hk

theorem keepFresh_later {m : Mark} {key : Option KeyCandidate}
    (h : forall k, key = some k -> k.place.line < m.line) :
    keepFresh m key = none := by
  cases key with
  | none => rfl
  | some k => simp [keepFresh, Option.filter, KeyCandidate.expired, h k rfl]

theorem noted_of_keepFresh {m : Mark} {key : Option KeyCandidate} {k : KeyCandidate}
    (h : keepFresh m key = some k) :
    key = some k :=
  (Option.filter_eq_some_iff.mp h).1

theorem expired_mono {m m' : Mark} (h : m.Precedes m') {k : KeyCandidate}
    (hk : k.expired m = true) :
    k.expired m' = true := by
  simp only [KeyCandidate.expired, Bool.or_eq_true, decide_eq_true_eq] at hk ⊢
  rcases hk with hk | hk
  · exact Or.inl (Nat.lt_of_lt_of_le hk h.1)
  · exact Or.inr (Nat.lt_of_lt_of_le hk h.2)

theorem reachable_of_optional {k : KeyCandidate} (h : k.required = false) (m : Mark) :
    (k.required && k.expired m) = false := by
  rw [h, Bool.false_and]

theorem reachable_mono {m m' : Mark} (h : m.Precedes m') {k : KeyCandidate}
    (hk : (k.required && k.expired m') = false) :
    (k.required && k.expired m) = false := by
  rw [Bool.and_eq_false_iff] at hk ⊢
  refine hk.imp_right (fun hk => ?_)
  cases hm : k.expired m with
  | false => rfl
  | true =>
      rw [expired_mono h hm] at hk
      cases hk

theorem keepFresh_keepFresh {m m' : Mark} (h : m.Precedes m') (key : Option KeyCandidate) :
    keepFresh m' (keepFresh m key) = keepFresh m' key := by
  cases key with
  | none => rfl
  | some k =>
      cases hm : k.expired m with
      | false => simp [keepFresh, Option.filter, hm]
      | true => simp [keepFresh, Option.filter, hm, expired_mono h hm]

/-- A node has been read that may turn out to be a key. -/
structure Noted (l l₁ : Lexer) (kinds : List TokenKind) (endsLine : Bool) : Prop where
  run : l₁.run.2 = none -> l.run = l₁.run
  indents : l₁.indents = l.indents
  key : l₁.key = keepFresh l₁.cursor.mark l.noted
  outer : l₁.outer = []
  keyAllowed : l₁.keyAllowed = endsLine
  emitted : exists tokens : List Token,
    l₁.emitted = tokens.reverse ++ l.emitted ∧ l₁.count = l.count + tokens.length ∧
      tokens.map (·.kind) = kinds

theorem Noted.leads {l l₁ : Lexer} {kinds : List TokenKind} {endsLine : Bool}
    (h : Noted l l₁ kinds endsLine) :
    Leads l l₁ kinds := by
  rcases h.emitted with ⟨tokens, htokens, -, hkinds⟩
  exact ⟨h.run, tokens, htokens, hkinds⟩

/-!
## Properties
-/

/-- The content of a node comes next, and what has been read of the node are these tokens. -/
structure Ready (l l₀ : Lexer) (kinds : List TokenKind) : Prop where
  run : l₀.run.2 = none -> l.run = l₀.run
  indents : l₀.indents = l.indents
  outer : l₀.outer = []
  waits : expireKeys l₀ = .ok l₀
  key : forall k, l₀.key = some k -> l.noted = some k
  note : noteKey l₀ = .ok { l₀ with key := keepFresh l₀.cursor.mark l.noted }
  column : l.cursor.mark.column ≤ l₀.cursor.mark.column
  precedes : l.cursor.mark.Precedes l₀.cursor.mark
  emitted : exists tokens : List Token,
    l₀.emitted = tokens.reverse ++ l.emitted ∧ l₀.count = l.count + tokens.length ∧
      tokens.map (·.kind) = kinds

def nextLine (l : Lexer) (n : Nat) (rest : List Char) : Lexer :=
  { l with
    cursor := ⟨l.cursor.mark.through ('\n' :: Layout.indent n), rest⟩
    keyAllowed := true
    key := none }

/-- A candidate stays within reach on its line, for 1024 octets. -/
theorem expired_noted {l : Lexer} {m : Mark} (hline : m.line = l.cursor.mark.line)
    (hindex : m.index ≤ l.cursor.mark.index + 1024) {k : KeyCandidate} (hk : l.noted = some k) :
    k.expired m = false := by
  unfold KeyCandidate.expired
  rw [place_of_noted hk, hline]
  simp [Nat.not_lt.mpr hindex]

theorem keepFresh_noted {l : Lexer} {m : Mark} (hline : m.line = l.cursor.mark.line)
    (hindex : m.index ≤ l.cursor.mark.index + 1024) :
    keepFresh m l.noted = l.noted := by
  cases hk : l.noted with
  | none => rfl
  | some k => simp [keepFresh, Option.filter, expired_noted hline hindex hk]

theorem expireKeys_noted {l l₁ : Lexer} (hline : l₁.cursor.mark.line = l.cursor.mark.line)
    (hindex : l₁.cursor.mark.index ≤ l.cursor.mark.index + 1024)
    (hkeys : forall k, k ∈ l₁.key :: l₁.outer -> k = none ∨ k = l.noted) :
    expireKeys l₁ = .ok l₁ := by
  refine expireKeys_of_fresh ?_ ?_
  · intro k hk
    rcases hkeys k hk with rfl | rfl
    · rfl
    · exact keepFresh_noted hline hindex
  · intro k hk
    rcases hkeys _ hk with h | h
    · cases h
    · rw [expired_noted hline hindex h.symm, Bool.and_false]

theorem ready_refl {l : Lexer} {s : Spot} (hl : l.At s) :
    Ready l l [] := by
  constructor
  · intro _
    rfl
  · rfl
  · exact hl.outer
  · exact expireKeys_of_none hl.key hl.outer
  · intro k hk
    rw [hl.key] at hk
    cases hk
  · rw [noteKey_eq hl.key hl.outer, keepFresh_noted rfl (Nat.le_add_right _ _)]
  · exact Nat.le_refl _
  · exact Mark.Precedes.refl _
  · exact ⟨[], rfl, rfl, rfl⟩

theorem Noted.ready {l l₁ : Lexer} {kinds : List TokenKind} (h : Noted l l₁ kinds false)
    {tail : List Char} (hrest : l₁.cursor.rest = ' ' :: tail) (htail : TokenNext tail)
    (hcolumn : l.cursor.mark.column ≤ l₁.cursor.mark.column)
    (hprecedes : l.cursor.mark.Precedes l₁.cursor.mark)
    (hfresh : forall k, l.noted = some k ->
      (k.required && k.expired (l₁.cursor.mark.past ' ')) = false) :
    exists l₀, Ready l l₀ kinds ∧ l₀.cursor = ⟨l₁.cursor.mark.past ' ', tail⟩ := by
  generalize hm : l₁.cursor.mark.past ' ' = m at hfresh
  have hm' : l₁.cursor.mark.Precedes m := by
    rw [← hm]
    exact Mark.precedes_past _ _
  generalize hl₀ : { l₁ with
    cursor := ⟨m, tail⟩
    key := keepFresh m l.noted : Lexer } = l₀
  have hcursor : l₀.cursor = ⟨m, tail⟩ := by rw [← hl₀]
  have houter : l₀.outer = [] := by rw [← hl₀]; exact h.outer
  have hkey : l₀.key = keepFresh m l.noted := by rw [← hl₀]
  have hallowed : l₀.keyAllowed = false := by rw [← hl₀]; exact h.keyAllowed
  have hskip : l₁.skipToToken = { l₁ with cursor := ⟨m, tail⟩ } := by
    unfold skipToToken
    rw [hrest, skipGap_space, skipGap_tokenNext htail, ← hm]
    rfl
  have hwaits : expireKeys l₀ = .ok l₀ := by
    apply expireKeys_of_fresh
    · intro k hk
      rw [houter, List.mem_singleton, hkey] at hk
      rw [hk, hcursor, keepFresh_keepFresh (Mark.Precedes.refl m)]
    · intro k hk
      rw [houter, List.mem_singleton, hkey] at hk
      rw [hcursor]
      exact hfresh k (noted_of_keepFresh hk.symm)
  have hexpire : expireKeys { l₁ with cursor := ⟨m, tail⟩ } = .ok l₀ := by
    rw [expireKeys_eq (by
      intro k hk
      change some k ∈ l₁.key :: l₁.outer at hk
      rw [h.outer, List.mem_singleton, h.key] at hk
      exact hfresh k (noted_of_keepFresh hk.symm)), ← hl₀]
    simp only [h.key, h.outer, List.map_nil, keepFresh_keepFresh hm']
  have hadvance : advance l₁ = advance l₀ := by
    unfold advance
    rw [hskip, hexpire, skipToToken_of_tokenNext (by rw [hcursor]; exact htail), hwaits]
  refine ⟨l₀, ⟨?_, ?_, houter, hwaits, ?_, ?_, ?_, ?_, ?_⟩, hcursor⟩
  · intro hrun
    have hsame := run_congr hadvance hrun
    rw [h.run (by rw [hsame, hrun]), hsame]
  · rw [← hl₀]
    exact h.indents
  · intro k hk
    rw [hkey] at hk
    exact noted_of_keepFresh hk
  · have hself : keepFresh l₀.cursor.mark l.noted = l₀.key := by rw [hkey, hcursor]
    unfold noteKey
    rw [hself, if_neg (by rw [hallowed]; decide)]
  · rw [hcursor, ← hm, Mark.past_column]
    exact Nat.le_succ_of_le hcolumn
  · rw [hcursor]
    exact hprecedes.trans hm'
  · rw [← hl₀]
    exact h.emitted

/-!
## The colon
-/

theorem insert_eq {l : Lexer} {number : Nat} {tokens emitted : List Token}
    (hemitted : l.emitted = tokens.reverse ++ emitted) (hcount : l.count = number + tokens.length)
    (t : Token) :
    l.insert number t =
      { l with emitted := (t :: tokens).reverse ++ emitted, count := l.count + 1 } := by
  have hlength : l.count - number = tokens.reverse.length := by
    rw [hcount, List.length_reverse, Nat.add_sub_cancel_left]
  unfold insert
  rw [hlength, hemitted, List.take_left, List.drop_left]
  simp

/-- The colon after a key puts in front of the key what was missing there. -/
theorem prepareValue_of_noted {l l₁ : Lexer} {kinds : List TokenKind} {required : Bool}
    (h : Noted l l₁ kinds false) (hkey : l₁.key = some ⟨l.count, required, l.cursor.mark⟩) :
    exists l₂, prepareValue l₁ = .ok l₂ ∧
      Prepared l l₂ (Spot.opened l.cursor.mark.column l.indents) false
        (Spot.opening .blockMappingStart l.cursor.mark.column l.indents ++ (.key :: kinds)) := by
  rcases h.emitted with ⟨tokens, htokens, hcount, hkinds⟩
  have hinsert := insert_eq htokens hcount ⟨.key, l.cursor.mark, l.cursor.mark⟩
  unfold prepareValue
  simp only [hkey]
  refine ⟨_, rfl, ?_⟩
  generalize l₁.insert l.count ⟨.key, l.cursor.mark, l.cursor.mark⟩ = l₂ at hinsert
  have houter : l₂.outer = [] := by
    rw [hinsert]
    exact h.outer
  have hcount₂ : l₂.count =
      l.count + (⟨.key, l.cursor.mark, l.cursor.mark⟩ :: tokens : List Token).length := by
    rw [hinsert, List.length_cons, hcount]
    rfl
  have hemitted : l₂.emitted =
      (⟨.key, l.cursor.mark, l.cursor.mark⟩ :: tokens).reverse ++ l.emitted := by
    rw [hinsert]
  have hindents : l₂.indents = l.indents := by
    rw [hinsert]
    exact h.indents
  rw [openBlock_eq houter, hindents, Spot.opened, Spot.opening]
  cases Spot.opens l.cursor.mark.column l.indents with
  | true =>
      rw [if_pos rfl, if_pos rfl, if_pos rfl, insert_eq
        (l := { l₂ with indents := l.cursor.mark.column :: l.indents }) hemitted hcount₂]
      exact ⟨rfl, rfl, rfl, houter, _, rfl, congrArg (_ :: _ :: ·) hkinds⟩
  | false =>
      exact ⟨hindents, rfl, rfl, houter, _, hemitted, congrArg (_ :: ·) hkinds⟩

end Lexer

namespace Spot

open Lexer (At Leads Noted)

/-!
## After a node
-/

theorem gives_of_line {s : Spot} {kinds : List TokenKind} {n : Nat} {rest : List Char}
    (hrequired : s.indents.head? ≠ some s.column) (hrest : TokenNext rest)
    (hnoted : forall l : Lexer, l.At s -> exists l₁, Noted l l₁ kinds false ∧
      l₁.cursor.rest = '\n' :: (Layout.indent n ++ rest) ∧
      l.cursor.mark.line ≤ l₁.cursor.mark.line) :
    Gives s ⟨n, rest, s.indents, true⟩ kinds := by
  intro l hl
  rcases hnoted l hl with ⟨l₁, h, hrest₁, hline⟩
  have hat : At (l₁.nextLine n rest) ⟨n, rest, s.indents, true⟩ :=
    ⟨Lexer.column_through_line _ n, rfl, h.indents.trans hl.indents, rfl, rfl, h.outer⟩
  have hskip : l₁.skipToToken = { l₁ with
      cursor := ⟨l₁.cursor.mark.through ('\n' :: Layout.indent n), rest⟩
      keyAllowed := true } := by
    unfold Lexer.skipToToken
    rw [hrest₁, Lexer.inFlow_of_outer h.outer, Lexer.skipGap_line, Lexer.skipGap_tokenNext hrest]
  have hlater : l₁.cursor.mark.line < (l₁.cursor.mark.through ('\n' :: Layout.indent n)).line :=
    Mark.line_lt_through rfl
  have hcandidate : forall k, l₁.key = some k -> l.noted = some k := by
    intro k hk
    rw [h.key] at hk
    exact (Option.filter_eq_some_iff.mp hk).1
  have hadvance : Lexer.advance l₁ = Lexer.advance (l₁.nextLine n rest) := by
    have hdrop : Lexer.keepFresh (l₁.cursor.mark.through ('\n' :: Layout.indent n)) l₁.key =
        none := by
      apply Lexer.keepFresh_later
      intro k hk
      rw [Lexer.place_of_noted (hcandidate k hk)]
      exact Nat.lt_of_le_of_lt hline hlater
    unfold Lexer.advance
    rw [Lexer.skipToToken_of_tokenNext (l := l₁.nextLine n rest) hrest,
      Lexer.expireKeys_of_none hat.key hat.outer, hskip, Lexer.expireKeys_eq (by
        intro k hk
        change some k ∈ l₁.key :: l₁.outer at hk
        rw [h.outer, List.mem_singleton] at hk
        rw [Lexer.required_of_noted hl hrequired (hcandidate k hk.symm), Bool.false_and])]
    simp only [Lexer.nextLine, hdrop, h.outer, List.map_nil]
  have hcongr : Lexer.Leads l₁ (l₁.nextLine n rest) [] := Lexer.leads_of_congr [] hadvance rfl rfl
  have hleads := h.leads.trans hcongr
  rw [List.append_nil] at hleads
  exact ⟨_, hat, hleads⟩

/-- Where a colon follows, the node was a key. -/
theorem gives_simpleKey {s : Spot} (hallowed : s.keyAllowed = true)
    (hle : s.indents.head?.all (· ≤ s.column) = true) {kinds : List TokenKind} {column : Nat}
    {rest : List Char} (hcolumn : s.column ≤ column) (hrest : Character.gapOrEnd rest = true)
    (hnoted : forall l : Lexer, l.At s -> exists l₁, Noted l l₁ kinds false ∧
      l₁.cursor.rest = ':' :: rest ∧ l₁.cursor.mark.line = l.cursor.mark.line ∧
      l₁.cursor.mark.index ≤ l.cursor.mark.index + 1024 ∧ l₁.cursor.mark.column = column) :
    Gives s ⟨column + 1, rest, opened s.column s.indents, false⟩
      (opening .blockMappingStart s.column s.indents ++ (.key :: kinds ++ [.value])) := by
  intro l hl
  rcases hnoted l hl with ⟨l₁, h, hrest₁, hline, hindex, hcolumn₁⟩
  have hcolon : TokenNext l₁.cursor.rest := by
    rw [hrest₁]
    exact tokenNext_of_indicator (Or.inr (Or.inr rfl)) rest
  have hkey : l₁.key = l.noted := by
    rw [h.key]
    exact Lexer.keepFresh_noted hline hindex
  have hexpire : Lexer.expireKeys l₁ = .ok l₁ := by
    apply Lexer.expireKeys_noted hline hindex
    rw [h.outer, hkey]
    simp
  have hclose : l₁.closeTo (some column) = l₁ := by
    apply Lexer.closeTo_of_le
    rw [h.indents, hl.indents]
    cases hhead : s.indents.head? with
    | none => rfl
    | some n =>
        rw [hhead] at hle
        simp only [Option.all_some, decide_eq_true_eq] at hle ⊢
        exact Nat.le_trans hle hcolumn
  have hstarter : forall lineStart, Starter.of? false lineStart ':' rest = some .value := by
    intro lineStart
    rw [of?_indicator hrest (Or.inr (Or.inr rfl))]
    simp [Starter.ofFirst?, hrest]
  rw [Lexer.noted, hl.keyAllowed, hallowed, if_pos rfl] at hkey
  rcases Lexer.prepareValue_of_noted h hkey with ⟨l₂, hprepare, hprepared⟩
  rcases hprepared.accept l₁.cursor.mark .value (l₁.cursor.skip 1) with
    ⟨hat, tokens, htokens, hkinds⟩
  have hadvance : Lexer.advance l₁ = .ok (.more
      (l₂.accept l₁.cursor.mark (Lexeme.word .value (l₁.cursor.skip 1)))) := by
    unfold Lexer.advance
    rw [Lexer.skipToToken_of_tokenNext hcolon, hexpire]
    simp only [hcolumn₁, hclose, hrest₁, Lexer.readToken, Lexer.inFlow_of_outer h.outer, hstarter,
      Lexer.prepare, hprepare, Lexeme.read, Lexer.expireKeys_of_none hat.key hat.outer]
    rfl
  have hnext : (l₁.cursor.skip 1).mark.column = column + 1 ∧ (l₁.cursor.skip 1).rest = rest := by
    rw [Cursor.skip, hrest₁, ← hcolumn₁]
    exact ⟨rfl, rfl⟩
  rw [hnext.1, hnext.2, hl.column, hl.indents] at hat
  rw [hl.column, hl.indents] at hkinds
  refine ⟨_, hat, ?_, tokens, htokens, ?_⟩
  · intro hrun
    have hnext := Lexer.run_of_more hadvance
    rw [h.run (by rw [hnext, hrun]), hnext]
  · rw [hkinds, List.append_assoc]

end Spot
end Yaml
end Clippings
