import Clippings.Proofs.Yaml.Lexing.Scalar

/-!
# Simple keys

A text of at most 128 octets stays within reach of the colon after it, even if each of its
characters is escaped.
-/

namespace Clippings
namespace Yaml
namespace Layout

/-!
## Lengths
-/

theorem utf8Length_append (s t : List Char) :
    utf8Length (s ++ t) = utf8Length s + utf8Length t := by
  induction s with
  | nil => rw [List.nil_append, utf8Length, Nat.zero_add]
  | cons c s ih => rw [List.cons_append, utf8Length, utf8Length, ih, Nat.add_assoc]

theorem utf8Length_flatMap_le {f : Char -> List Char} {width : Nat}
    (h : forall c, utf8Length (f c) ≤ width * c.utf8Size) (s : List Char) :
    utf8Length (s.flatMap f) ≤ width * utf8Length s := by
  induction s with
  | nil => exact Nat.zero_le _
  | cons c s ih =>
      rw [List.flatMap_cons, utf8Length_append, utf8Length, Nat.mul_add]
      exact Nat.add_le_add (h c) ih

theorem utf8Length_visible {cs : List Char}
    (h : forall c, c ∈ cs -> 0x20 < c.toNat ∧ c.toNat < 0x7f) :
    utf8Length cs = cs.length := by
  induction cs with
  | nil => rfl
  | cons c cs ih =>
      rw [utf8Length, Character.utf8Size_of_visible (h c List.mem_cons_self),
        ih (fun d hd => h d (List.mem_cons_of_mem c hd)), List.length_cons, Nat.add_comm]

theorem toNat_of_utf8Size (c : Char) :
    (c.utf8Size = 1 -> c.toNat ≤ 0x7f) ∧ (c.utf8Size = 2 -> c.toNat ≤ 0x7ff) := by
  constructor
  · intro h
    exact UInt32.le_iff_toNat_le.mp (Char.utf8Size_eq_one_iff.mp h)
  · intro h
    exact UInt32.le_iff_toNat_le.mp (Char.utf8Size_eq_two_iff.mp h).2

theorem length_escape_le (c : Char) :
    (escape c).length ≤ 4 * c.utf8Size := by
  have hpos := c.utf8Size_pos
  have hsize := toNat_of_utf8Size c
  unfold escape
  split
  · simp only [List.length_cons, List.length_nil]
    omega
  · split
    · simp only [List.length_cons, QuotedScalar.length_hexDigits]
      omega
    · split
      · simp only [List.length_cons, QuotedScalar.length_hexDigits]
        omega
      · simp only [List.length_cons, QuotedScalar.length_hexDigits]
        omega

theorem utf8Length_escape (c : Char) :
    utf8Length (escape c) = (escape c).length := by
  rw [QuotedScalar.escape_eq, utf8Length,
    utf8Length_visible (fun d hd => QuotedScalar.mem_escapeTail hd), List.length_cons, Nat.add_comm]
  rfl

theorem utf8Length_doubleQuotedBody_le (s : List Char) :
    utf8Length (doubleQuotedBody s) ≤ 4 * utf8Length s := by
  refine utf8Length_flatMap_le ?_ s
  intro c
  split
  · rw [utf8Length_escape]
    exact length_escape_le c
  · rw [utf8Length, utf8Length]
    omega

theorem singleQuotedBody_line {s : List Char} (h : s.any Character.isBreak = false) (n : Nat) :
    singleQuotedBody n false s = s.flatMap fun c => if c == '\'' then ['\'', '\''] else [c] := by
  induction s with
  | nil => rfl
  | cons c s ih =>
      rw [List.any_cons, Bool.or_eq_false_iff] at h
      rw [singleQuotedBody, h.1, ih h.2]
      rfl

theorem utf8Length_singleQuotedBody_le {s : List Char} (h : s.any Character.isBreak = false)
    (n : Nat) :
    utf8Length (singleQuotedBody n false s) ≤ 4 * utf8Length s := by
  rw [singleQuotedBody_line h]
  refine utf8Length_flatMap_le ?_ s
  intro c
  have hpos := c.utf8Size_pos
  split
  · exact Nat.le_trans (by decide) (Nat.mul_le_mul_left 4 hpos)
  · rw [utf8Length, utf8Length]
    omega

/-!
## One line
-/

theorem any_isBreak_doubleQuotedBody (s : List Char) :
    (doubleQuotedBody s).any Character.isBreak = false := by
  rw [List.any_eq_false]
  intro c hc
  rcases List.mem_flatMap.mp hc with ⟨d, -, hd⟩
  split at hd
  · rw [QuotedScalar.escape_eq] at hd
    rcases List.mem_cons.mp hd with rfl | hd
    · decide
    · simp [Character.not_break_of_visible (QuotedScalar.mem_escapeTail hd)]
  · rename_i hescape
    rw [List.mem_singleton] at hd
    subst hd
    simp only [needsEscape, Bool.or_eq_true, not_or] at hescape
    exact hescape.1.1.2

theorem any_isBreak_singleQuotedBody {s : List Char} (h : s.any Character.isBreak = false)
    (n : Nat) :
    (singleQuotedBody n false s).any Character.isBreak = false := by
  rw [singleQuotedBody_line h, List.any_eq_false]
  intro c hc
  rcases List.mem_flatMap.mp hc with ⟨d, hd, hc⟩
  split at hc
  · have : c = '\'' := by simpa using hc
    subst this
    decide
  · rw [List.mem_singleton] at hc
    subst hc
    exact List.any_eq_false.mp h c hd

theorem styled_key {style : ScalarStyle} {s : List Char} (n : Nat) (hsuits : Style.Suits style s)
    (hstyle : style ≠ .literal) (hline : Style.isMultiline s = false) :
    (styled n style s).any Character.isBreak = false ∧
      utf8Length (styled n style s) ≤ 4 * utf8Length s + 2 := by
  have hquotes : forall (q : Char) (body : List Char), Character.isBreak q = false ->
      q.utf8Size = 1 -> body.any Character.isBreak = false ->
      utf8Length body ≤ 4 * utf8Length s ->
      (q :: (body ++ [q])).any Character.isBreak = false ∧
        utf8Length (q :: (body ++ [q])) ≤ 4 * utf8Length s + 2 := by
    intro q body hq hsize hbody hlength
    constructor
    · simp [hq, hbody]
    · rw [utf8Length, utf8Length_append, utf8Length, hsize, show utf8Length [] = 0 from rfl]
      omega
  cases hsuits with
  | plain hne hallowed =>
      constructor
      · exact hline
      · rw [styled]
        omega
  | singleQuoted hallowed hfeed =>
      exact hquotes '\'' _ rfl rfl (any_isBreak_singleQuotedBody hline n)
        (utf8Length_singleQuotedBody_le hline n)
  | doubleQuoted =>
      exact hquotes '"' _ rfl rfl (any_isBreak_doubleQuotedBody s)
        (utf8Length_doubleQuotedBody_le s)
  | literal hallowed => exact absurd rfl hstyle

/-!
## Tags
-/

theorem any_isBreak_tagSpace {tag : Option Octets} (h : TagSpelling.IsLegible tag) :
    (tagSpace tag).any Character.isBreak = false := by
  cases tag with
  | none => rfl
  | some octets =>
      rw [tagSpace, List.any_append, Bool.or_eq_false_iff]
      refine ⟨?_, rfl⟩
      rw [List.any_eq_false]
      intro c hc
      simp [Character.not_break_of_visible (TagSpelling.mem_tagText (h octets rfl) hc)]

theorem tagLength_of_legible {octets : Octets} (h : TagSpelling.Legible octets) :
    tagLength (some octets) = octets.length := by
  rcases h with ⟨name, rfl, hname⟩
  rw [tagLength, Option.getD_some, TagSpelling.takeWhile_of_null_not_mem]
  rw [List.mem_cons, not_or]
  exact ⟨by decide, TagSpelling.null_not_mem_name (fun c hc => (hname c hc).2)⟩

theorem utf8Length_tagSpace_le {tag : Option Octets} (h : TagSpelling.IsLegible tag) :
    utf8Length (tagSpace tag) ≤ 3 * tagLength tag + 4 := by
  cases tag with
  | none => exact Nat.zero_le _
  | some octets =>
      have hlegible := h octets rfl
      rw [tagSpace, utf8Length_append,
        utf8Length_visible (fun c hc => TagSpelling.mem_tagText hlegible hc),
        tagLength_of_legible hlegible]
      exact Nat.add_le_add_right (TagSpelling.length_tagText_le hlegible) 1

end Layout

namespace Lexer

/-!
## In front of a colon
-/

section Ready

variable {l l₀ : Lexer} {kinds : List TokenKind} (hl : Ready l l₀ kinds)
variable (hle : l₀.indents.head?.all (· ≤ l₀.cursor.mark.column) = true)
include hl hle

theorem noted_plain {text tail : List Char} (h : Style.Suits .plain text)
    (hrest : l₀.cursor.rest = text ++ ':' :: tail) (htail : Character.gapOrEnd tail = true)
    (hfresh : forall k, l.noted = some k ->
      (k.required && k.expired (l₀.cursor.mark.through text)) = false) :
    exists l₁, Noted l l₁ (kinds ++ [.scalar .plain text]) false ∧
      l₁.cursor = ⟨l₀.cursor.mark.through text, ':' :: tail⟩ := by
  cases h with
  | plain hne hallowed =>
      cases text with
      | nil => exact absurd rfl hne
      | cons d text =>
          have hgap := Starter.isGap_of_plainAllowed hallowed
          have hlater := l₀.cursor.mark.precedes_through (d :: text)
          have hthrough : l₀.cursor.mark.through (d :: text) =
              (l₀.cursor.mark.past d).through text := by
            have hbreak := hgap.1
            rw [Character.isGap, Bool.or_eq_false_iff] at hbreak
            rw [Mark.through_cons, Mark.across_of_not_break hbreak.2]
          have hskip : l₀.cursor.skip 1 = ⟨l₀.cursor.mark.past d, text ++ ':' :: tail⟩ := by
            rw [Cursor.skip, hrest]
            rfl
          rw [hthrough] at hlater hfresh ⊢
          refine noted_scalar hl hle hrest ?_ .plain
            (fun lineStart => Starter.of?_plain hallowed (by decide) lineStart)
            (x := ⟨.scalar .plain (d :: text), (l₀.cursor.mark.past d).through text,
              ⟨(l₀.cursor.mark.past d).through text, ':' :: tail⟩, false⟩) ?_ hlater hfresh
          · rw [hrest]
            intro e he
            cases he
            exact hgap
          · have hread := fun least hleast => PlainScalar.scan_plain_key hallowed
              (s := ⟨false, least, l₀.cursor.mark⟩) (m := l₀.cursor.mark) rfl hleast htail
            rw [hskip]
            cases hindents : l₀.indents.head? with
            | none =>
                simp only [Lexeme.read, hread 0 (Nat.zero_le _)]
                rfl
            | some n =>
                rw [hindents] at hle
                have hleast : n + 1 ≤ l₀.cursor.mark.column + 1 := by simpa using hle
                simp only [Lexeme.read, hread (n + 1) hleast]
                rfl

theorem noted_key {style : ScalarStyle} {text tail : List Char} (h : Style.Suits style text)
    (hstyle : style ≠ .literal) {n : Nat} (hn : 0 < n)
    (hrest : l₀.cursor.rest = Layout.styled n style text ++ ':' :: tail)
    (htail : Character.gapOrEnd tail = true)
    (hfresh : forall k, l.noted = some k ->
      (k.required && k.expired (l₀.cursor.mark.through (Layout.styled n style text))) = false) :
    exists l₁, Noted l l₁ (kinds ++ [.scalar style text]) false ∧
      l₁.cursor = ⟨l₀.cursor.mark.through (Layout.styled n style text), ':' :: tail⟩ := by
  have hcolon : (':' :: tail).head? ≠ some '\'' := by simp
  cases style with
  | plain => exact noted_plain hl hle h hrest htail hfresh
  | singleQuoted => exact noted_quoted hl hle (Or.inl rfl) h hn hrest hcolon hfresh
  | doubleQuoted => exact noted_quoted hl hle (Or.inr rfl) h hn hrest hcolon hfresh
  | literal => exact absurd rfl hstyle
  | folded => cases h

end Ready
end Lexer

namespace Spot

open Lexer (At Ready Noted)

section Keys

variable {c : Nat} {indents : List Nat} {rest : List Char} {tag : Option Octets}
variable (hle : indents.head?.all (· ≤ c) = true) (htag : TagSpelling.IsLegible tag)
include hle htag

/-- A key on one line, short enough to be within reach of the colon. -/
theorem gives_lineKey {content : List Char} {kinds : List TokenKind}
    (hrest : Character.gapOrEnd rest = true) (hcontent : TokenNext (content ++ ':' :: rest))
    (hbreak : content.any Character.isBreak = false)
    (hshort : Layout.utf8Length (Layout.tagSpace tag) + Layout.utf8Length content ≤ 1024)
    (hnoted : forall l l₀ : Lexer, Ready l l₀ (TagSpelling.tokenKinds tag) ->
      l₀.indents.head?.all (· ≤ l₀.cursor.mark.column) = true ->
      l₀.cursor.rest = content ++ ':' :: rest ->
      (forall k, l.noted = some k ->
        (k.required && k.expired (l₀.cursor.mark.through content)) = false) ->
      exists l₁, Noted l l₁ (TagSpelling.tokenKinds tag ++ kinds) false ∧
        l₁.cursor = ⟨l₀.cursor.mark.through content, ':' :: rest⟩) :
    exists column, c < column ∧
      Gives ⟨c, Layout.tagSpace tag ++ (content ++ ':' :: rest), indents, true⟩
        ⟨column, rest, opened c indents, false⟩
        (opening .blockMappingStart c indents ++
          (.key :: (TagSpelling.tokenKinds tag ++ kinds) ++ [.value])) := by
  have hthrough := fun m : Mark => Mark.through_of_no_break (m := m) hbreak
  have hthrough' := fun m : Mark =>
    Mark.through_of_no_break (m := m) (Layout.any_isBreak_tagSpace htag)
  refine ⟨_, Nat.lt_succ_of_le (Nat.le_add_right c
    ((Layout.tagSpace tag).length + content.length)), ?_⟩
  apply gives_simpleKey rfl hle (Nat.le_add_right c _) hrest
  intro l hl
  have hline : ((l.cursor.mark.through (Layout.tagSpace tag)).through content).line =
      l.cursor.mark.line := by
    rw [hthrough, hthrough']
  have hindex : ((l.cursor.mark.through (Layout.tagSpace tag)).through content).index ≤
      l.cursor.mark.index + 1024 := by
    rw [hthrough, hthrough']
    simp only
    omega
  have hfresh : forall k, l.noted = some k -> (k.required &&
      k.expired ((l.cursor.mark.through (Layout.tagSpace tag)).through content)) = false := by
    intro k hk
    rw [Lexer.expired_noted hline hindex hk, Bool.and_false]
  rcases Lexer.ready_tag hl hle htag rfl hcontent (fun k hk =>
    Lexer.reachable_mono (Mark.precedes_through _ content) (hfresh k hk)) with
    ⟨l₀, hready, hcursor⟩
  rcases hnoted l l₀ hready (hready.head_le hl hle) (by rw [hcursor]) (by
    rw [hcursor]
    exact hfresh) with ⟨l₁, h, hcursor₁⟩
  rw [hcursor] at hcursor₁
  refine ⟨l₁, h, ?_, ?_, ?_, ?_⟩
  · rw [hcursor₁]
  · rw [hcursor₁]
    exact hline
  · rw [hcursor₁]
    exact hindex
  · rw [hcursor₁, hthrough, hthrough', ← Nat.add_assoc]
    exact congrArg (· + _ + _) hl.column

theorem gives_scalarKey {style : ScalarStyle} {text : List Char}
    (hrest : Character.gapOrEnd rest = true) (h : Style.Suits style text)
    (hstyle : style ≠ .literal) (hline : Style.isMultiline text = false)
    (hshort : Layout.tagLength tag + Layout.utf8Length text ≤ 128) {n : Nat} (hn : 0 < n) :
    exists column, c < column ∧
      Gives ⟨c, Layout.tagSpace tag ++ (Layout.styled n style text ++ ':' :: rest), indents, true⟩
        ⟨column, rest, opened c indents, false⟩
        (opening .blockMappingStart c indents ++
          (.key :: (TagSpelling.tokenKinds tag ++ [.scalar style text]) ++ [.value])) := by
  rcases Layout.styled_key n h hstyle hline with ⟨hbreak, hlength⟩
  have hspace := Layout.utf8Length_tagSpace_le htag
  exact gives_lineKey hle htag hrest (tokenNext_styled h n _) hbreak (by omega)
    (fun _ _ hready hle₀ hcursor hfresh =>
      Lexer.noted_key hready hle₀ h hstyle hn hcursor hrest hfresh)

theorem gives_bracketsKey (hrest : Character.gapOrEnd rest = true) (shape : Shape)
    (hshort : Layout.tagLength tag ≤ 128) :
    exists column, c < column ∧
      Gives ⟨c, Layout.tagSpace tag ++ (Layout.brackets shape ++ ':' :: rest), indents, true⟩
        ⟨column, rest, opened c indents, false⟩
        (opening .blockMappingStart c indents ++
          (.key :: (TagSpelling.tokenKinds tag ++ shape.brackets) ++ [.value])) := by
  have hbreak : (Layout.brackets shape).any Character.isBreak = false := by
    cases shape <;> rfl
  have hlength : Layout.utf8Length (Layout.brackets shape) = 2 := by
    cases shape <;> rfl
  have hspace := Layout.utf8Length_tagSpace_le htag
  exact gives_lineKey hle htag hrest (tokenNext_brackets shape _) hbreak (by omega)
    (fun _ _ hready hle₀ hcursor hfresh => Lexer.noted_brackets hready hle₀ hcursor hfresh)

end Keys
end Spot
end Yaml
end Clippings
