import Clippings.Proofs.Yaml.Lexing.Candidate
import Clippings.Proofs.Yaml.Scalar.Literal
import Clippings.Proofs.Yaml.Scalar.Plain
import Clippings.Proofs.Yaml.Scalar.Tag

/-!
# Scalars between spots
-/

namespace Clippings
namespace Yaml

/-!
## What starts a scalar
-/

inductive StartsScalar : Starter -> Prop where
  | tag : StartsScalar .tag
  | plain : StartsScalar .plain
  | quoted (style : ScalarStyle) : StartsScalar (.quoted style)

namespace Starter

theorem atDocumentIndicator_plain {c t : Char} {cs tail : List Char}
    (h : Style.startsDocument (c :: cs) = false) (ht : t ≠ '-' ∧ t ≠ '.') :
    atDocumentIndicator (c :: (cs ++ t :: tail)) = false := by
  unfold atDocumentIndicator
  split
  · rename_i heq
    match cs with
    | [] =>
        cases heq
        exact absurd rfl ht.1
    | [_] =>
        cases heq
        exact absurd rfl ht.1
    | _ :: _ :: _ =>
        cases heq
        simp [Style.startsDocument] at h
  · rename_i heq
    match cs with
    | [] =>
        cases heq
        exact absurd rfl ht.2
    | [_] =>
        cases heq
        exact absurd rfl ht.2
    | _ :: _ :: _ =>
        cases heq
        simp [Style.startsDocument] at h
  · rfl

theorem of?_other {c : Char} (hc : c ≠ '-' ∧ c ≠ '.' ∧ c ≠ '%') (inFlow lineStart : Bool)
    (rest : List Char) :
    of? inFlow lineStart c rest = ofFirst? inFlow c rest := by
  have hdocument : atDocumentIndicator (c :: rest) = false := by
    unfold atDocumentIndicator
    split
    · rename_i heq
      cases heq
      exact absurd rfl hc.1
    · rename_i heq
      cases heq
      exact absurd rfl hc.2.1
    · rfl
  rw [of?, hdocument, beq_eq_false_iff_ne.mpr hc.2.2]
  simp

theorem ofFirst?_plain {c : Char} {cs rest : List Char} (hother : Style.startsOther c cs = false)
    (hgap : Character.isGap c = false)
    (hrest : Character.gapOrEnd cs = false -> Character.gapOrEnd rest = false) :
    ofFirst? false c rest = some .plain := by
  rw [Style.startsOther, Bool.or_eq_false_iff] at hother
  rcases hother with ⟨hfirst, hsecond⟩
  simp only [List.mem_cons, List.not_mem_nil, or_false, decide_eq_false_iff_not, not_or] at hfirst
  rcases hfirst with ⟨hhash, hcomma, hopen, hclose, hbrace, hbrace', hamp, hstar, hbang,
    hbar, hfold, hquote, hquote', hpercent, hat, htick⟩
  have hgapEnd : c = '?' ∨ c = ':' ∨ c = '-' -> Character.gapOrEnd rest = false := by
    intro hc
    apply hrest
    rw [Bool.and_eq_false_iff] at hsecond
    rcases hsecond with h | h
    · simp only [List.mem_cons, List.not_mem_nil, or_false, decide_eq_false_iff_not] at h
      exact absurd hc h
    · exact h
  have hdash : (c == '-' && Character.gapOrEnd rest) = false := by
    rw [Bool.and_eq_false_iff]
    by_cases h : c = '-'
    · exact Or.inr (hgapEnd (Or.inr (Or.inr h)))
    · exact Or.inl (beq_eq_false_iff_ne.mpr h)
  have hquestion : (c == '?' && (false || Character.gapOrEnd rest)) = false := by
    rw [Bool.and_eq_false_iff, Bool.false_or]
    by_cases h : c = '?'
    · exact Or.inr (hgapEnd (Or.inl h))
    · exact Or.inl (beq_eq_false_iff_ne.mpr h)
  have hcolon : (c == ':' && (false || Character.gapOrEnd rest)) = false := by
    rw [Bool.and_eq_false_iff, Bool.false_or]
    by_cases h : c = ':'
    · exact Or.inr (hgapEnd (Or.inr (Or.inl h)))
    · exact Or.inl (beq_eq_false_iff_ne.mpr h)
  have hplain : startsPlain false c rest = true := by
    unfold startsPlain
    by_cases hc : c = '?' ∨ c = ':' ∨ c = '-'
    · have hend := hgapEnd hc
      rcases hc with rfl | rfl | rfl
      · simp [hend]
      · simp [hend]
      · cases rest with
        | nil => cases hend
        | cons d rest =>
            rw [Character.gapOrEnd, Character.isGap, Bool.or_eq_false_iff] at hend
            simp [hend.1]
    · rw [not_or, not_or] at hc
      have hindicator : isIndicator c = false := by
        simp [isIndicator, hhash, hcomma, hopen, hclose, hbrace, hbrace', hamp, hstar, hbang, hbar,
          hfold, hquote, hquote', hpercent, hat, htick, hc.1, hc.2.1, hc.2.2]
      simp [hgap, hindicator]
  unfold ofFirst?
  split
  all_goals first
    | contradiction
    | rw [hdash, hquestion, hcolon, hplain]
      simp [hbar, hfold]

theorem isGap_of_plainAllowed {c : Char} {cs : List Char}
    (h : Style.plainAllowed (c :: cs) = true) :
    Character.isGap c = false ∧ c ≠ '#' ∧ c ≠ Character.byteOrderMark := by
  simp only [Style.plainAllowed, Bool.not_eq_true', Bool.or_eq_false_iff] at h
  rcases h with ⟨⟨⟨⟨⟨⟨-, hother⟩, -⟩, hspecial⟩, -⟩, hloose⟩, -⟩
  have hprint := (Style.hasSpecial_cons_eq_false hspecial).1
  rw [Style.isLoose, Bool.or_eq_false_iff, beq_eq_false_iff_ne] at hloose
  refine ⟨?_, ?_, ?_⟩
  · rw [Character.isGap, Character.not_blank_of_printable hprint hloose.1, hloose.2]
    rfl
  · intro heq
    subst heq
    simp [Style.startsOther] at hother
  · intro heq
    subst heq
    revert hprint
    decide

theorem of?_plain {c t : Char} {cs tail : List Char} (h : Style.plainAllowed (c :: cs) = true)
    (ht : t ≠ '-' ∧ t ≠ '.') (lineStart : Bool) :
    of? false lineStart c (cs ++ t :: tail) = some .plain := by
  have hgap := (isGap_of_plainAllowed h).1
  simp only [Style.plainAllowed, Bool.not_eq_true', Bool.or_eq_false_iff] at h
  rcases h with ⟨⟨⟨⟨⟨⟨hdocument, hother⟩, -⟩, -⟩, -⟩, -⟩, -⟩
  have hpercent : (c == '%') = false := by
    rw [beq_eq_false_iff_ne]
    intro heq
    subst heq
    simp [Style.startsOther] at hother
  rw [of?, hpercent, atDocumentIndicator_plain hdocument ht,
    ofFirst?_plain hother hgap (fun hend => PlainScalar.gapOrEnd_append hend _)]
  simp

end Starter

def Shape.brackets : Shape -> List TokenKind
  | .sequence => [.flowSequenceStart, .flowSequenceEnd]
  | .mapping => [.flowMappingStart, .flowMappingEnd]

namespace Lexer

/-!
## On one line
-/

theorem Ready.head_le {l l₀ : Lexer} {s : Spot} {kinds : List TokenKind} (h : Ready l l₀ kinds)
    (hl : l.At s) (hle : s.indents.head?.all (· ≤ s.column) = true) :
    l₀.indents.head?.all (· ≤ l₀.cursor.mark.column) = true := by
  rw [h.indents, hl.indents]
  cases hhead : s.indents.head? with
  | none => rfl
  | some n =>
      rw [hhead] at hle
      simp only [Option.all_some, decide_eq_true_eq] at hle ⊢
      exact Nat.le_trans hle (by rw [← hl.column]; exact h.column)

theorem Ready.emits {l l₀ l' l₁ : Lexer} {kinds : List TokenKind} (h : Ready l l₀ kinds)
    {x : Lexeme} (h₁ : Accepts l₀ l' x l₁) (hemitted : l'.emitted = l₀.emitted)
    (hcount : l'.count = l₀.count) :
    exists tokens : List Token, l₁.emitted = tokens.reverse ++ l.emitted ∧
      l₁.count = l.count + tokens.length ∧ tokens.map (·.kind) = kinds ++ [x.kind] := by
  rcases h.emitted with ⟨tokens, htokens, hlength, hkinds⟩
  refine ⟨tokens ++ [⟨x.kind, l₀.cursor.mark, x.stop⟩], ?_, ?_, ?_⟩
  · rw [h₁.emitted, hemitted, htokens]
    simp
  · rw [h₁.count, hcount, hlength, List.length_append]
    rfl
  · rw [List.map_append, hkinds]
    rfl

theorem tokenNext_of_visible {c : Char} (hc : 0x20 < c.toNat ∧ c.toNat < 0x7f) (hhash : c ≠ '#')
    (rest : List Char) :
    TokenNext (c :: rest) := by
  intro d hd
  cases hd
  refine ⟨?_, hhash, ?_⟩
  · have hblank : Character.isBlank c = false := by
      rw [Character.isBlank, Bool.or_eq_false_iff, beq_eq_false_iff_ne, beq_eq_false_iff_ne]
      constructor
      · intro heq
        subst heq
        exact absurd hc.1 (by decide)
      · intro heq
        subst heq
        exact absurd hc.1 (by decide)
    rw [Character.isGap, hblank, Character.not_break_of_visible hc]
    rfl
  · intro heq
    subst heq
    exact absurd hc.2 (by decide)

section Ready

variable {l l₀ : Lexer} {kinds : List TokenKind} (hl : Ready l l₀ kinds)
variable (hle : l₀.indents.head?.all (· ≤ l₀.cursor.mark.column) = true)
include hl hle

theorem noted_scalar {c : Char} {rest : List Char} (hrest : l₀.cursor.rest = c :: rest)
    (htoken : TokenNext l₀.cursor.rest) {starter : Starter} (hscalar : StartsScalar starter)
    (hstarter : forall lineStart, Starter.of? false lineStart c rest = some starter) {x : Lexeme}
    (hread : Lexeme.read false l₀.indents.head? starter l₀.cursor.mark c (l₀.cursor.skip 1) =
      .ok x)
    (hlater : l₀.cursor.mark.Precedes x.next.mark)
    (hfresh : forall k, l.noted = some k -> (k.required && k.expired x.next.mark) = false) :
    exists l₁, Noted l l₁ (kinds ++ [x.kind]) x.endsLine ∧ l₁.cursor = x.next := by
  generalize hkey : keepFresh l₀.cursor.mark l.noted = key
  have hprepare : prepare l₀ starter = .ok { l₀ with key := key, keyAllowed := false } := by
    cases hscalar with
    | tag => simp only [prepare, hl.note, hkey, Except.map, allowKey]
    | plain => simp only [prepare, hl.note, hkey, Except.map, allowKey]
    | quoted style => simp only [prepare, hl.note, hkey, Except.map, allowKey]
  have hflow : inFlow { l₀ with key := key, keyAllowed := false } = false :=
    inFlow_of_outer hl.outer
  rcases accepts_lexeme hl.outer hl.waits hle hrest htoken hstarter hprepare (x := x)
    (by
      rw [hflow]
      exact hread)
    (by
      intro k hk
      change some k ∈ key :: l₀.outer at hk
      rw [hl.outer, List.mem_singleton, ← hkey] at hk
      exact hfresh k (noted_of_keepFresh hk.symm)) with ⟨l₁, h⟩
  refine ⟨l₁, ⟨?_, ?_, ?_, ?_, ?_, hl.emits h rfl rfl⟩, h.cursor⟩
  · intro hrun
    rw [hl.run (by rw [h.run, hrun]), h.run]
  · rw [h.indents, hl.indents]
  · rw [h.key, h.cursor, ← keepFresh_keepFresh hlater l.noted, hkey]
  · rw [h.outer, hl.outer]
    rfl
  · rw [h.keyAllowed, Bool.false_or]

omit hle in
theorem dropKey_of_ready (hrequired : forall k, l.noted = some k -> k.required = false) :
    dropKey l₀ = .ok { l₀ with key := none } := by
  unfold dropKey
  cases hkey : l₀.key with
  | none =>
      simp only
      rw [← hkey]
  | some k => simp only [hrequired k (hl.key k hkey), Bool.false_eq_true, if_false]

theorem noted_quoted {style : ScalarStyle} {text tail : List Char}
    (hquoted : style = .singleQuoted ∨ style = .doubleQuoted) (hsuits : Style.Suits style text)
    {n : Nat} (hn : 0 < n) (hrest : l₀.cursor.rest = Layout.styled n style text ++ tail)
    (htail : tail.head? ≠ some '\'')
    (hfresh : forall k, l.noted = some k ->
      (k.required && k.expired (l₀.cursor.mark.through (Layout.styled n style text))) = false) :
    exists l₁, Noted l l₁ (kinds ++ [.scalar style text]) false ∧
      l₁.cursor = ⟨l₀.cursor.mark.through (Layout.styled n style text), tail⟩ := by
  have hlater := l₀.cursor.mark.precedes_through (Layout.styled n style text)
  rcases hquoted with rfl | rfl
  · cases hsuits with
    | singleQuoted hallowed hfeed =>
        rw [Layout.styled, List.cons_append, List.append_assoc] at hrest
        have hskip : l₀.cursor.skip 1 = ⟨l₀.cursor.mark.past '\'',
            Layout.singleQuotedBody n false text ++ '\'' :: tail⟩ := by
          rw [Cursor.skip, hrest]
          rfl
        have hread := QuotedScalar.scan_singleQuoted hn l₀.cursor.mark (l₀.cursor.mark.past '\'')
          hallowed hfeed htail
        refine noted_scalar hl hle hrest ?_ (.quoted .singleQuoted)
          (fun lineStart => Starter.of?_other (by decide) false lineStart _)
          (x := Lexeme.word (.scalar .singleQuoted text)
            ⟨l₀.cursor.mark.through (Layout.styled n .singleQuoted text), tail⟩) ?_ hlater hfresh
        · rw [hrest]
          exact tokenNext_of_visible (by decide) (by decide) _
        · rw [Lexeme.read, hskip, hread]
          rfl
  · rw [Layout.styled, List.cons_append, List.append_assoc] at hrest
    have hskip : l₀.cursor.skip 1 = ⟨l₀.cursor.mark.past '"',
        Layout.doubleQuotedBody text ++ '"' :: tail⟩ := by
      rw [Cursor.skip, hrest]
      rfl
    have hread := QuotedScalar.scan_doubleQuoted l₀.cursor.mark (l₀.cursor.mark.past '"') text tail
    refine noted_scalar hl hle hrest ?_ (.quoted .doubleQuoted)
      (fun lineStart => Starter.of?_other (by decide) false lineStart _)
      (x := Lexeme.word (.scalar .doubleQuoted text)
        ⟨l₀.cursor.mark.through (Layout.styled n .doubleQuoted text), tail⟩) ?_ hlater hfresh
    · rw [hrest]
      exact tokenNext_of_visible (by decide) (by decide) _
    · rw [Lexeme.read, hskip, hread]
      rfl

theorem noted_tag {octets : Octets} (hlegible : TagSpelling.Legible octets) {tail : List Char}
    (hrest : l₀.cursor.rest = Layout.tagText octets ++ tail)
    (htail : Character.gapOrEnd tail = true)
    (hfresh : forall k, l.noted = some k ->
      (k.required && k.expired (l₀.cursor.mark.through (Layout.tagText octets))) = false) :
    exists l₁, Noted l l₁ (kinds ++ [TagSpelling.tokenKind octets]) false ∧
      l₁.cursor = ⟨l₀.cursor.mark.through (Layout.tagText octets), tail⟩ := by
  have hlater := l₀.cursor.mark.precedes_through (Layout.tagText octets)
  rcases TagSpelling.scan_tagText hlegible with ⟨spelling, htext, hvisible, -, hscan⟩
  rcases hscan false l₀.cursor.mark (l₀.cursor.mark.past '!') htail with ⟨o, ho, hkind, hnext⟩
  have hthrough : l₀.cursor.mark.through (Layout.tagText octets) =
      (l₀.cursor.mark.past '!').advance spelling.length := by
    rw [htext, Mark.through_cons, Mark.across_of_not_break rfl, Mark.through_visible hvisible]
  rw [htext, List.cons_append] at hrest
  have hskip : l₀.cursor.skip 1 = ⟨l₀.cursor.mark.past '!', spelling ++ tail⟩ := by
    rw [Cursor.skip, hrest]
    rfl
  rw [hthrough] at hlater hfresh ⊢
  rw [← hkind]
  refine noted_scalar hl hle hrest ?_ .tag
    (fun lineStart => Starter.of?_other (by decide) false lineStart _)
    (x := Lexeme.word (.tag o.handle o.suffix)
      ⟨(l₀.cursor.mark.past '!').advance spelling.length, tail⟩) ?_ hlater hfresh
  · rw [hrest]
    exact tokenNext_of_visible (by decide) (by decide) _
  · rw [Lexeme.read, hskip, ho, ← hnext]
    rfl

end Ready

/-- Inside brackets only the candidate in front of them has to wait. -/
theorem waits_inside {l : Lexer} {k : Option KeyCandidate} (hkey : l.key = none)
    (houter : l.outer = [k]) (hfresh : keepFresh l.cursor.mark k = k)
    (hreach : forall k', k = some k' -> (k'.required && k'.expired l.cursor.mark) = false) :
    expireKeys l = .ok l := by
  apply expireKeys_of_fresh
  · intro k' hk
    rw [hkey, houter, List.mem_cons, List.mem_singleton] at hk
    rcases hk with rfl | rfl
    · rfl
    · exact hfresh
  · intro k' hk
    rw [hkey, houter, List.mem_cons, List.mem_singleton] at hk
    exact hreach k' (hk.resolve_left (by simp)).symm

theorem accepts_closer {l : Lexer} {m : Mark} {d : Char} {tail : List Char}
    (hcursor : l.cursor = ⟨m, d :: tail⟩) {k : Option KeyCandidate} (houter : l.outer = [k])
    (hwaits : expireKeys l = .ok l) (hd : 0x20 < d.toNat ∧ d.toNat < 0x7f ∧ d ≠ '#')
    {closer : Starter} {kind : TokenKind}
    (hcloser : forall lineStart, Starter.of? true lineStart d tail = some closer)
    (hprepare : prepare l closer = .ok { l with key := k, outer := [], keyAllowed := false })
    (hread : forall parent start next,
      Lexeme.read false parent closer start d next = .ok (Lexeme.word kind next))
    (hreach : forall k', k = some k' -> (k'.required && k'.expired (m.past d)) = false) :
    exists l₁, Accepts l { l with key := k, outer := [], keyAllowed := false }
      (Lexeme.word kind ⟨m.past d, tail⟩) l₁ := by
  have htoken : TokenNext l.cursor.rest := by
    rw [hcursor]
    exact tokenNext_of_visible ⟨hd.1, hd.2.1⟩ hd.2.2 _
  have hskip : l.cursor.skip 1 = ⟨m.past d, tail⟩ := by
    rw [Cursor.skip, hcursor]
    rfl
  have hflow : l.inFlow = true := by
    rw [inFlow, houter]
    rfl
  have hclose : l.closeTo (some l.cursor.mark.column) = l := by
    rw [closeTo, hflow]
    rfl
  have hleft : inFlow { l with key := k, outer := [], keyAllowed := false } = false := rfl
  have hrest : l.cursor.rest = d :: tail := by rw [hcursor]
  refine accepts_of_advance ?_ (fun k' hk => hreach k' (List.mem_singleton.mp hk).symm)
  unfold advance
  rw [skipToToken_of_tokenNext htoken, hwaits]
  simp only [hclose, hrest, readToken, hflow, hcloser, hprepare, hskip, hleft, hread]

section Brackets

variable {l l₀ : Lexer} {kinds : List TokenKind} (hl : Ready l l₀ kinds)
variable (hle : l₀.indents.head?.all (· ≤ l₀.cursor.mark.column) = true)
include hl hle

omit hle in
theorem noted_of_pair {kind kind' : TokenKind} {m₁ m₂ : Mark} {inner tail : List Char}
    {l₁ l₂ : Lexer} (hlater : m₁.Precedes m₂)
    (h₁ : Accepts l₀ { l₀ with
      key := none
      outer := [keepFresh l₀.cursor.mark l.noted]
      keyAllowed := true } (Lexeme.word kind ⟨m₁, inner⟩) l₁)
    (h₂ : Accepts l₁ { l₁ with key := keepFresh m₁ l.noted, outer := [], keyAllowed := false }
      (Lexeme.word kind' ⟨m₂, tail⟩) l₂) :
    Noted l l₂ (kinds ++ [kind, kind']) false := by
  rcases hl.emitted with ⟨tokens, htokens, hcount, hkinds⟩
  refine ⟨?_, ?_, ?_, h₂.outer, h₂.keyAllowed,
    tokens ++ [⟨kind, l₀.cursor.mark, m₁⟩, ⟨kind', m₁, m₂⟩], ?_, ?_, ?_⟩
  · intro hrun
    rw [hl.run (by rw [h₁.run, h₂.run, hrun]), h₁.run, h₂.run]
  · rw [h₂.indents, ← hl.indents]
    exact h₁.indents
  · rw [h₂.key, h₂.cursor]
    change keepFresh m₂ (keepFresh m₁ l.noted) = keepFresh m₂ l.noted
    rw [keepFresh_keepFresh hlater]
  · rw [h₂.emitted]
    change _ :: l₁.emitted = _
    rw [h₁.emitted, h₁.cursor]
    change _ :: _ :: l₀.emitted = _
    rw [htokens]
    simp [Lexeme.word]
  · rw [h₂.count]
    change l₁.count + 1 = _
    rw [h₁.count]
    change l₀.count + 1 + 1 = _
    rw [hcount, List.length_append]
    rfl
  · rw [List.map_append, hkinds]
    rfl

theorem noted_pair {c d : Char} {tail : List Char} {opener closer : Starter}
    {kind kind' : TokenKind} (hrest : l₀.cursor.rest = c :: d :: tail)
    (hc : 0x20 < c.toNat ∧ c.toNat < 0x7f ∧ c ≠ '#')
    (hd : 0x20 < d.toNat ∧ d.toNat < 0x7f ∧ d ≠ '#')
    (hopener : forall lineStart, Starter.of? false lineStart c (d :: tail) = some opener)
    (hcloser : forall lineStart, Starter.of? true lineStart d tail = some closer)
    (hprepare : prepare l₀ opener = .ok { l₀ with
      key := none
      outer := [keepFresh l₀.cursor.mark l.noted]
      keyAllowed := true })
    (hprepare' : forall (l₁ : Lexer) (k : Option KeyCandidate), l₁.key = none -> l₁.outer = [k] ->
      prepare l₁ closer = .ok { l₁ with key := k, outer := [], keyAllowed := false })
    (hread : forall parent start next,
      Lexeme.read true parent opener start c next = .ok (Lexeme.word kind next))
    (hread' : forall parent start next,
      Lexeme.read false parent closer start d next = .ok (Lexeme.word kind' next))
    (hfresh : forall k, l.noted = some k ->
      (k.required && k.expired (l₀.cursor.mark.through [c, d])) = false) :
    exists l₁, Noted l l₁ (kinds ++ [kind, kind']) false ∧
      l₁.cursor = ⟨l₀.cursor.mark.through [c, d], tail⟩ := by
  have hvisible : 0x20 < c.toNat ∧ c.toNat < 0x7f := ⟨hc.1, hc.2.1⟩
  have hvisible' : 0x20 < d.toNat ∧ d.toNat < 0x7f := ⟨hd.1, hd.2.1⟩
  have htoken : TokenNext l₀.cursor.rest := by
    rw [hrest]
    exact tokenNext_of_visible hvisible hc.2.2 _
  generalize hm₁ : l₀.cursor.mark.past c = m₁
  generalize hm₂ : m₁.past d = m₂
  have hthrough : l₀.cursor.mark.through [c, d] = m₂ := by
    rw [Mark.through_cons, Mark.through_cons, Mark.through_nil,
      Mark.across_of_not_break (Character.not_break_of_visible hvisible),
      Mark.across_of_not_break (Character.not_break_of_visible hvisible'), hm₁, hm₂]
  have hlater : l₀.cursor.mark.Precedes m₁ := by
    rw [← hm₁]
    exact Mark.precedes_past _ _
  have hlater' : m₁.Precedes m₂ := by
    rw [← hm₂]
    exact Mark.precedes_past _ _
  have hskip : l₀.cursor.skip 1 = ⟨m₁, d :: tail⟩ := by
    rw [Cursor.skip, hrest, ← hm₁]
    rfl
  rw [hthrough] at hfresh ⊢
  generalize hkey : keepFresh m₁ l.noted = key
  have hreach : forall k, key = some k -> (k.required && k.expired m₂) = false := by
    intro k hk
    rw [← hkey] at hk
    exact hfresh k (noted_of_keepFresh hk)
  rcases accepts_lexeme hl.outer hl.waits hle hrest htoken hopener hprepare
    (x := Lexeme.word kind ⟨m₁, d :: tail⟩)
    (by
      rw [hskip]
      exact hread _ _ _)
    (by
      intro k hk
      rw [List.mem_cons, List.mem_singleton] at hk
      exact reachable_mono hlater'
        (hfresh k (noted_of_keepFresh (hk.resolve_left (by simp)).symm))) with ⟨l₁, h₁⟩
  have hkey₁ : l₁.key = none := h₁.key
  have houter₁ : l₁.outer = [key] := by
    rw [h₁.outer, List.map_singleton]
    exact congrArg ([·]) ((keepFresh_keepFresh hlater _).trans hkey)
  have hmark₁ : l₁.cursor.mark = m₁ := by rw [h₁.cursor]; rfl
  have hwaits : expireKeys l₁ = .ok l₁ := by
    refine waits_inside hkey₁ houter₁ ?_ ?_
    · rw [hmark₁, ← hkey, keepFresh_keepFresh (Mark.Precedes.refl m₁)]
    · intro k hk
      rw [hmark₁]
      exact reachable_mono hlater' (hreach k hk)
  rcases accepts_closer h₁.cursor houter₁ hwaits hd hcloser (hprepare' l₁ key hkey₁ houter₁) hread'
    (by
      rw [hm₂]
      exact hreach) with ⟨l₂, h₂⟩
  rw [hm₂, ← hkey] at h₂
  exact ⟨l₂, noted_of_pair hl hlater' h₁ h₂, h₂.cursor⟩

omit hle in
theorem prepare_flowStart {starter : Starter}
    (h : starter = .flowSequenceStart ∨ starter = .flowMappingStart) :
    prepare l₀ starter = .ok { l₀ with
      key := none
      outer := [keepFresh l₀.cursor.mark l.noted]
      keyAllowed := true } := by
  rcases h with rfl | rfl
  · rw [prepare, hl.note]
    simp only [Except.map, hl.outer]
  · rw [prepare, hl.note]
    simp only [Except.map, hl.outer]

end Brackets

theorem prepare_flowEnd {l : Lexer} {k : Option KeyCandidate} (hkey : l.key = none)
    (houter : l.outer = [k]) {starter : Starter}
    (h : starter = .flowSequenceEnd ∨ starter = .flowMappingEnd) :
    prepare l starter = .ok { l with key := k, outer := [], keyAllowed := false } := by
  rcases h with rfl | rfl
  · rw [prepare, dropKey_of_none hkey]
    simp only [Except.map, houter]
  · rw [prepare, dropKey_of_none hkey]
    simp only [Except.map, houter]

theorem noted_brackets {l l₀ : Lexer} {kinds : List TokenKind} (hl : Ready l l₀ kinds)
    (hle : l₀.indents.head?.all (· ≤ l₀.cursor.mark.column) = true) {shape : Shape}
    {tail : List Char} (hrest : l₀.cursor.rest = Layout.brackets shape ++ tail)
    (hfresh : forall k, l.noted = some k ->
      (k.required && k.expired (l₀.cursor.mark.through (Layout.brackets shape))) = false) :
    exists l₁, Noted l l₁ (kinds ++ shape.brackets) false ∧
      l₁.cursor = ⟨l₀.cursor.mark.through (Layout.brackets shape), tail⟩ := by
  cases shape with
  | sequence =>
      exact noted_pair hl hle hrest (by decide) (by decide)
        (fun lineStart => Starter.of?_other (by decide) false lineStart _)
        (fun lineStart => Starter.of?_other (by decide) true lineStart _)
        (prepare_flowStart hl (Or.inl rfl))
        (fun _ _ hkey houter => prepare_flowEnd hkey houter (Or.inl rfl))
        (fun _ _ _ => rfl) (fun _ _ _ => rfl) hfresh
  | mapping =>
      exact noted_pair hl hle hrest (by decide) (by decide)
        (fun lineStart => Starter.of?_other (by decide) false lineStart _)
        (fun lineStart => Starter.of?_other (by decide) true lineStart _)
        (prepare_flowStart hl (Or.inr rfl))
        (fun _ _ hkey houter => prepare_flowEnd hkey houter (Or.inr rfl))
        (fun _ _ _ => rfl) (fun _ _ _ => rfl) hfresh

/-!
## Tags in front
-/

theorem ready_tag {l : Lexer} {s : Spot} (hl : l.At s)
    (hle : s.indents.head?.all (· ≤ s.column) = true) {tag : Option Octets}
    (htag : TagSpelling.IsLegible tag) {tail : List Char}
    (hrest : s.rest = Layout.tagSpace tag ++ tail) (htail : TokenNext tail)
    (hfresh : forall k, l.noted = some k ->
      (k.required && k.expired (l.cursor.mark.through (Layout.tagSpace tag))) = false) :
    exists l₀, Ready l l₀ (TagSpelling.tokenKinds tag) ∧
      l₀.cursor = ⟨l.cursor.mark.through (Layout.tagSpace tag), tail⟩ := by
  cases tag with
  | none =>
      refine ⟨l, ready_refl hl, ?_⟩
      have hcursor : l.cursor.rest = tail := by
        rw [hl.rest, hrest]
        rfl
      rw [← hcursor]
      rfl
  | some octets =>
      have hself := ready_refl hl
      have hthrough : l.cursor.mark.through (Layout.tagSpace (some octets)) =
          (l.cursor.mark.through (Layout.tagText octets)).past ' ' := by
        rw [Layout.tagSpace, Mark.through_append]
        rfl
      rw [hthrough] at hfresh ⊢
      have htext : l.cursor.rest = Layout.tagText octets ++ ' ' :: tail := by
        rw [hl.rest, hrest, Layout.tagSpace, List.append_assoc]
        rfl
      rcases noted_tag hself (hself.head_le hl hle) (htag octets rfl) htext rfl (by
        intro k hk
        exact reachable_mono (Mark.precedes_past _ ' ') (hfresh k hk)) with ⟨l₁, h, hcursor⟩
      rcases h.ready (by rw [hcursor]) htail (by
          rw [hcursor]
          rw [TagSpelling.through_tagText (htag octets rfl), Mark.advance_column]
          exact Nat.le_add_right _ _)
        (by
          rw [hcursor]
          exact l.cursor.mark.precedes_through _)
        (by
          rw [hcursor]
          exact hfresh) with ⟨l₀, hready, hcursor₀⟩
      refine ⟨l₀, hready, ?_⟩
      rw [hcursor₀, hcursor]

end Lexer

namespace Spot

open Lexer (At Leads Noted)

theorem tokenNext_styled {style : ScalarStyle} {text : List Char} (h : Style.Suits style text)
    (n : Nat) (rest : List Char) :
    TokenNext (Layout.styled n style text ++ rest) := by
  cases h with
  | plain hne hallowed =>
      cases text with
      | nil => exact absurd rfl hne
      | cons c text =>
          intro d hd
          cases hd
          exact Starter.isGap_of_plainAllowed hallowed
  | singleQuoted hallowed hfeed => exact Lexer.tokenNext_of_visible (by decide) (by decide) _
  | doubleQuoted => exact Lexer.tokenNext_of_visible (by decide) (by decide) _
  | literal hallowed => exact Lexer.tokenNext_of_visible (by decide) (by decide) _

theorem tokenNext_brackets (shape : Shape) (rest : List Char) :
    TokenNext (Layout.brackets shape ++ rest) := by
  cases shape with
  | sequence => exact Lexer.tokenNext_of_visible (by decide) (by decide) _
  | mapping => exact Lexer.tokenNext_of_visible (by decide) (by decide) _

/-!
## Values
-/

section Values

variable {n k c : Nat} {text rest : List Char} {indents : List Nat} {keyAllowed : Bool}
variable {tag : Option Octets} (hc : n < c) (htag : TagSpelling.IsLegible tag)
include hc htag

theorem ready_value {content : List Char} (hcontent : TokenNext content) {l : Lexer}
    (hl : l.At ⟨c, Layout.tagSpace tag ++ content, n :: indents, keyAllowed⟩) :
    exists l₀, l.Ready l₀ (TagSpelling.tokenKinds tag) ∧
      l₀.cursor = ⟨l.cursor.mark.through (Layout.tagSpace tag), content⟩ ∧
      l₀.indents.head?.all (· ≤ l₀.cursor.mark.column) = true ∧
      (forall key, l.noted = some key -> key.required = false) := by
  have hle : (n :: indents).head?.all (· ≤ c) = true := by simpa using Nat.le_of_lt hc
  have hrequired : forall key, l.noted = some key -> key.required = false :=
    fun key hkey => Lexer.required_of_noted hl (by simpa using Nat.ne_of_lt hc) hkey
  rcases Lexer.ready_tag hl hle htag rfl hcontent
    (fun key hkey => Lexer.reachable_of_optional (hrequired key hkey) _) with
    ⟨l₀, hready, hcursor⟩
  exact ⟨l₀, hready, hcursor, hready.head_le hl hle, hrequired⟩

variable (hrest : TokenNext rest)
include hrest

theorem gives_quoted {style : ScalarStyle} (hquoted : style = .singleQuoted ∨ style = .doubleQuoted)
    (h : Style.Suits style text) :
    Gives ⟨c, Layout.tagSpace tag ++ (Layout.styled (n + 2) style text ++
        '\n' :: (Layout.indent k ++ rest)), n :: indents, keyAllowed⟩
      ⟨k, rest, n :: indents, true⟩ (TagSpelling.tokenKinds tag ++ [.scalar style text]) := by
  apply gives_of_line (by simpa using Nat.ne_of_lt hc) hrest
  intro l hl
  rcases ready_value hc htag (tokenNext_styled h (n + 2) _) hl with
    ⟨l₀, hready, hcursor, hle, hrequired⟩
  rcases Lexer.noted_quoted hready hle hquoted h (Nat.succ_pos (n + 1)) (by rw [hcursor]) (by simp)
    (fun key hkey => Lexer.reachable_of_optional (hrequired key hkey) _) with ⟨l₁, hnoted, hcursor₁⟩
  refine ⟨l₁, hnoted, by rw [hcursor₁], ?_⟩
  rw [hcursor₁]
  exact Nat.le_trans hready.precedes.1 (l₀.cursor.mark.line_le_through _)

theorem gives_brackets (shape : Shape) :
    Gives ⟨c, Layout.tagSpace tag ++ (Layout.brackets shape ++
        '\n' :: (Layout.indent k ++ rest)), n :: indents, keyAllowed⟩
      ⟨k, rest, n :: indents, true⟩ (TagSpelling.tokenKinds tag ++ shape.brackets) := by
  apply gives_of_line (by simpa using Nat.ne_of_lt hc) hrest
  intro l hl
  rcases ready_value hc htag (tokenNext_brackets shape _) hl with
    ⟨l₀, hready, hcursor, hle, hrequired⟩
  rcases Lexer.noted_brackets hready hle (by rw [hcursor])
    (fun key hkey => Lexer.reachable_of_optional (hrequired key hkey) _) with
    ⟨l₁, hnoted, hcursor₁⟩
  refine ⟨l₁, hnoted, by rw [hcursor₁], ?_⟩
  rw [hcursor₁]
  exact Nat.le_trans hready.precedes.1 (l₀.cursor.mark.line_le_through _)

variable (hk : k ≤ n)
include hk

theorem gives_plain (h : Style.Suits .plain text) :
    Gives ⟨c, Layout.tagSpace tag ++ (text ++ '\n' :: (Layout.indent k ++ rest)), n :: indents,
        keyAllowed⟩
      ⟨k, rest, n :: indents, true⟩ (TagSpelling.tokenKinds tag ++ [.scalar .plain text]) := by
  have htoken := tokenNext_styled h (n + 2) ('\n' :: (Layout.indent k ++ rest))
  cases h with
  | plain hne hallowed =>
      cases text with
      | nil => exact absurd rfl hne
      | cons d text =>
          intro l hl
          rcases ready_value hc htag htoken hl with ⟨l₀, hready, hcursor, hle, hrequired⟩
          generalize hm : l.cursor.mark.through (Layout.tagSpace tag) = m at hcursor
          have hskip : l₀.cursor.skip 1 =
              ⟨m.past d, text ++ '\n' :: (Layout.indent k ++ rest)⟩ := by
            rw [hcursor]
            rfl
          have hleast : n + 1 ≤ m.column + 1 := by
            have hcolumn := hready.column
            rw [hl.column, hcursor] at hcolumn
            exact Nat.succ_le_succ (Nat.le_trans (Nat.le_of_lt hc) hcolumn)
          have hread := PlainScalar.scan_plain_value hallowed (s := ⟨false, n + 1, m⟩)
            rfl hleast (Nat.lt_succ_of_le hk) hrest
          have hnext : m.Precedes ((m.past d).through text) :=
            (Mark.precedes_past m d).trans (Mark.precedes_through _ text)
          have hlater : m.Precedes (((m.past d).through text).through ('\n' :: Layout.indent k)) :=
            hnext.trans (Mark.precedes_through _ _)
          rcases Lexer.noted_scalar hready hle (by rw [hcursor]; rfl)
            (by rw [hcursor]; exact htoken) .plain (fun lineStart => Starter.of?_plain hallowed (by decide) lineStart)
            (x := ⟨.scalar .plain (d :: text), (m.past d).through text,
              ⟨((m.past d).through text).through ('\n' :: Layout.indent k), rest⟩, true⟩)
            (by
              rw [hskip, hcursor, hready.indents, hl.indents]
              simp only [Lexeme.read, List.head?_cons, hread]
              rfl)
            (by
              rw [hcursor]
              exact hlater)
            (fun key hkey => Lexer.reachable_of_optional (hrequired key hkey) _) with
            ⟨l₁, h, hcursor₁⟩
          have hline : l.cursor.mark.line < l₁.cursor.mark.line := by
            rw [hcursor₁]
            refine Nat.lt_of_le_of_lt ?_ (Mark.line_lt_through rfl)
            apply Nat.le_trans hready.precedes.1
            rw [hcursor]
            exact hnext.1
          have hkey : l₁.key = none := by
            rw [h.key]
            apply Lexer.keepFresh_later
            intro key hkey
            rw [Lexer.place_of_noted hkey]
            exact hline
          refine ⟨l₁, ⟨?_, ?_, h.indents.trans hl.indents, h.keyAllowed, hkey, h.outer⟩, h.leads⟩
          · rw [hcursor₁]
            exact Lexer.column_through_line _ k
          · rw [hcursor₁]

theorem gives_literal (h : Style.Suits .literal text) :
    Gives ⟨c, Layout.tagSpace tag ++ (Layout.styled (n + 2) .literal text ++
        (Layout.lineEnd .literal text ++ (Layout.indent k ++ rest))), n :: indents, keyAllowed⟩
      ⟨k, rest, n :: indents, true⟩ (TagSpelling.tokenKinds tag ++ [.scalar .literal text]) := by
  have htoken := tokenNext_styled h (n + 2) (Layout.lineEnd .literal text ++
    (Layout.indent k ++ rest))
  cases h with
  | literal hallowed =>
      simp only [Style.blockAllowed, Bool.not_eq_true', Bool.or_eq_false_iff] at hallowed
      rcases hallowed with ⟨⟨⟨hempty, -⟩, -⟩, hspecial⟩
      have hne : text ≠ [] := by
        intro heq
        subst heq
        cases hempty
      intro l hl
      rcases ready_value hc htag htoken hl with ⟨l₀, hready, hcursor, hle, hrequired⟩
      generalize hm : l.cursor.mark.through (Layout.tagSpace tag) = m at hcursor
      have hskip : l₀.cursor.skip 1 = ⟨m.past '|', Layout.blockHeader text ++
          (Layout.blockBody (n + 2) true text ++ (BlockScalar.blockEnd text k ++ rest))⟩ := by
        rw [Cursor.skip, hcursor, BlockScalar.blockEnd]
        simp [Layout.styled]
      have hread := BlockScalar.scan_literal m (m.past '|') hne hspecial
        (Nat.lt_add_right 1 (Nat.lt_succ_of_le hk)) hrest
      have hprepare : Lexer.prepare l₀ (.block true) =
          .ok { l₀ with key := none, keyAllowed := true } := by
        rw [Lexer.prepare, Lexer.dropKey_of_ready hready hrequired]
        rfl
      have hbar : l₀.cursor.rest = '|' :: (Layout.blockHeader text ++
          Layout.blockBody (n + 2) true text ++
            (Layout.lineEnd .literal text ++ (Layout.indent k ++ rest))) := by
        rw [hcursor]
        rfl
      rcases Lexer.accepts_lexeme hready.outer hready.waits hle hbar
        (by rw [hcursor]; exact htoken)
        (fun lineStart => Starter.of?_other (by decide) false lineStart _) hprepare
        (x := Lexeme.word (.scalar .literal text) ⟨(m.past '|').through
          (Layout.blockHeader text ++ (Layout.blockBody (n + 2) true text ++
            BlockScalar.blockEnd text k)), rest⟩)
        (by
          rw [hskip, show Lexer.indents { l₀ with key := none, keyAllowed := true } =
            n :: indents from hready.indents.trans hl.indents, hcursor]
          simp only [Lexeme.read, List.head?_cons, hread]
          rfl)
        (by
          intro key hkey
          rw [List.mem_cons, hready.outer] at hkey
          simp at hkey) with ⟨l₁, h⟩
      rcases hready.emits h rfl rfl with ⟨tokens, htokens, -, hkinds⟩
      refine ⟨l₁, ⟨?_, ?_, ?_, h.keyAllowed, h.key, ?_⟩, ?_, tokens, htokens, hkinds⟩
      · rw [h.cursor]
        exact BlockScalar.column_through_literal _ _ k hne
      · rw [h.cursor]
        rfl
      · rw [h.indents]
        exact hready.indents.trans hl.indents
      · rw [h.outer]
        change l₀.outer.map _ = []
        rw [hready.outer, List.map_nil]
      · intro hrun
        rw [hready.run (by rw [h.run, hrun]), h.run]

theorem gives_scalar {style : ScalarStyle} (h : Style.Suits style text) :
    Gives ⟨c, Layout.tagSpace tag ++ (Layout.styled (n + 2) style text ++
        (Layout.lineEnd style text ++ (Layout.indent k ++ rest))), n :: indents, keyAllowed⟩
      ⟨k, rest, n :: indents, true⟩ (TagSpelling.tokenKinds tag ++ [.scalar style text]) := by
  cases style with
  | plain => exact gives_plain hc htag hrest hk h
  | singleQuoted => exact gives_quoted hc htag hrest (Or.inl rfl) h
  | doubleQuoted => exact gives_quoted hc htag hrest (Or.inr rfl) h
  | literal => exact gives_literal hc htag hrest hk h
  | folded => cases h

end Values
end Spot
end Yaml
end Clippings
