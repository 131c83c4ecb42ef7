import Clippings.Yaml.Token.Lexer

/-!
# What the tokens of a text are like

What holds of every lexeme, and of the tokens that indentation gives, holds of all tokens of a text
but the one at its end.
-/

namespace Clippings
namespace Yaml
namespace Lexer

/-- True of the tokens that no character stands for, and of every lexeme. -/
structure Throughout (P : TokenKind -> Prop) : Prop where
  blockSequenceStart : P .blockSequenceStart
  blockMappingStart : P .blockMappingStart
  blockEnd : P .blockEnd
  key : P .key
  read : forall {inFlow parent starter start c next x},
    Lexeme.read inFlow parent starter start c next = .ok x -> P x.kind

def Holds (P : TokenKind -> Prop) (l : Lexer) : Prop :=
  forall t, t ∈ l.emitted -> P t.kind

section Steps

variable {P : TokenKind -> Prop} {l l' : Lexer}

/-!
## Steps that only look on
-/

theorem dropKey_emitted (h : dropKey l = .ok l') :
    l'.emitted = l.emitted := by
  unfold dropKey at h
  split at h
  · split at h
    · cases h
    · cases h
      rfl
  · cases h
    rfl

theorem noteKey_emitted (h : noteKey l = .ok l') :
    l'.emitted = l.emitted := by
  unfold noteKey at h
  split at h
  · rcases Lexeme.map_ok h with ⟨l₁, h₁, h₂⟩
    have hemitted := dropKey_emitted h₁
    rw [← h₂]
    exact hemitted
  · cases h
    rfl

theorem expireKeys_emitted (h : expireKeys l = .ok l') :
    l'.emitted = l.emitted := by
  unfold expireKeys at h
  simp only at h
  split at h
  · cases h
  · cases h
    rfl

theorem Holds.congr (hl : l.Holds P) (h : l'.emitted = l.emitted) :
    l'.Holds P := by
  unfold Holds
  rw [h]
  exact hl

/-!
## Steps that give tokens
-/

theorem Holds.emitHere (hl : l.Holds P) {kind : TokenKind} (hkind : P kind) :
    (l.emitHere kind).Holds P := by
  intro t ht
  rcases List.mem_cons.mp ht with rfl | ht
  · exact hkind
  · exact hl t ht

theorem Holds.insert (hl : l.Holds P) (number : Nat) {t : Token} (ht : P t.kind) :
    (l.insert number t).Holds P := by
  intro u hu
  rcases List.mem_append.mp hu with hu | hu
  · exact hl u (List.mem_of_mem_take hu)
  · rcases List.mem_cons.mp hu with rfl | hu
    · exact ht
    · exact hl u (List.mem_of_mem_drop hu)

theorem Holds.openBlock (hl : l.Holds P) (column number : Nat) {kind : TokenKind}
    (hkind : P kind) (place : Mark) :
    (l.openBlock column number kind place).Holds P := by
  unfold Lexer.openBlock
  split
  · exact Holds.insert (l := { l with indents := column :: l.indents }) hl number hkind
  · exact hl

theorem Holds.closeBlocks (hP : Throughout P) (column : Option Nat) (indents : List Nat)
    (hl : l.Holds P) :
    (Lexer.closeBlocks column indents l).Holds P := by
  induction indents generalizing l with
  | nil => exact hl
  | cons n indents ih =>
      rw [Lexer.closeBlocks]
      split
      · exact ih (hl.emitHere hP.blockEnd)
      · exact hl

theorem Holds.closeTo (hP : Throughout P) (column : Option Nat) (hl : l.Holds P) :
    (l.closeTo column).Holds P := by
  unfold Lexer.closeTo
  split
  · exact hl
  · exact Holds.closeBlocks hP column l.indents hl

theorem Holds.prepareValue (hP : Throughout P) (hl : l.Holds P) (h : prepareValue l = .ok l') :
    l'.Holds P := by
  unfold Lexer.prepareValue at h
  split at h
  · cases h
    exact Holds.openBlock (hl.insert _ hP.key) _ _ hP.blockMappingStart _
  · split at h
    · cases h
      exact hl
    · split at h
      · cases h
      · cases h
        exact hl.openBlock _ _ hP.blockMappingStart _

theorem Holds.prepare (hP : Throughout P) {starter : Starter} (hl : l.Holds P)
    (h : prepare l starter = .ok l') :
    l'.Holds P := by
  have hmap : forall {l₁ : Lexer} {step : Except SyntaxFault Lexer} {f : Lexer -> Lexer},
      step.map f = .ok l' -> l₁.Holds P ->
      (forall l₂, step = .ok l₂ -> l₂.emitted = l₁.emitted) ->
      (forall l₂, (f l₂).emitted = l₂.emitted) -> l'.Holds P := by
    intro l₁ step f h h₁ hstep hf
    rcases Lexeme.map_ok h with ⟨l₂, h₂, hl'⟩
    rw [← hl']
    exact h₁.congr ((hf l₂).trans (hstep l₂ h₂))
  cases starter with
  | directive | documentStart | documentEnd =>
      exact hmap h (hl.closeTo hP none) (fun _ => dropKey_emitted) (fun _ => rfl)
  | flowSequenceStart | flowMappingStart =>
      exact hmap h hl (fun _ => noteKey_emitted) (fun _ => rfl)
  | flowSequenceEnd | flowMappingEnd =>
      refine hmap h hl (fun _ => dropKey_emitted) (fun l₂ => ?_)
      split <;> rfl
  | flowEntry | block => exact hmap h hl (fun _ => dropKey_emitted) (fun _ => rfl)
  | blockEntry =>
      simp only [Lexer.prepare] at h
      split at h
      · cases h
      · exact hmap h (hl.openBlock _ _ hP.blockSequenceStart _) (fun _ => dropKey_emitted)
          (fun _ => rfl)
  | key =>
      simp only [Lexer.prepare] at h
      split at h
      · cases h
      · exact hmap h (hl.openBlock _ _ hP.blockMappingStart _) (fun _ => dropKey_emitted)
          (fun _ => rfl)
  | value => exact hl.prepareValue hP h
  | «alias» | anchor | tag | quoted | plain =>
      exact hmap h hl (fun _ => noteKey_emitted) (fun _ => rfl)

theorem Holds.readToken (hP : Throughout P) {c : Char} {rest : List Char} (hl : l.Holds P)
    (h : readToken l c rest = .ok l') :
    l'.Holds P ∧ l'.emitted ≠ [] := by
  unfold Lexer.readToken at h
  split at h
  · cases h
  split at h
  · cases h
  rename_i l₁ hprepare
  split at h
  · cases h
  rename_i x hread
  have haccept : (l₁.accept l.cursor.mark x).Holds P := by
    intro t ht
    rcases List.mem_cons.mp ht with rfl | ht
    · exact hP.read hread
    · exact hl.prepare hP hprepare t ht
  constructor
  · exact haccept.congr (expireKeys_emitted h)
  · rw [expireKeys_emitted h]
    exact List.cons_ne_nil _ _

end Steps

/-!
## Runs
-/

section Runs

variable {P : TokenKind -> Prop} {l l' : Lexer}

structure Finished (P : TokenKind -> Prop) (tokens : List Token) (before : List Token)
    (last : Token) : Prop where
  split : tokens = before ++ [last]
  streamEnd : last.kind = .streamEnd
  holds : forall t, t ∈ before -> P t.kind

theorem closeBlocks_emitted (column : Option Nat) (indents : List Nat) (l : Lexer) :
    exists closers, (closeBlocks column indents l).emitted = closers ++ l.emitted := by
  induction indents generalizing l with
  | nil => exact ⟨[], rfl⟩
  | cons n indents ih =>
      rw [closeBlocks]
      split
      · rcases ih (l.emitHere .blockEnd) with ⟨closers, h⟩
        refine ⟨closers ++ [⟨.blockEnd, l.cursor.mark, l.cursor.mark⟩], ?_⟩
        rw [h, List.append_assoc]
        rfl
      · exact ⟨[], rfl⟩

theorem closeTo_emitted_ne_nil (column : Option Nat) (h : l.emitted ≠ []) :
    (l.closeTo column).emitted ≠ [] := by
  unfold closeTo
  split
  · exact h
  · rcases closeBlocks_emitted column l.indents l with ⟨closers, hclosers⟩
    rw [hclosers]
    exact fun hnil => h (List.append_eq_nil_iff.mp hnil).2

theorem Holds.finish (hP : Throughout P) {tokens : List Token} (hl : l.Holds P)
    (h : finish l = .ok tokens) :
    exists before last, Finished P tokens before last ∧ (l.emitted ≠ [] -> before ≠ []) := by
  unfold Lexer.finish at h
  simp only at h
  split at h
  · cases h
  rename_i l₁ hdrop
  split at h
  · cases h
  rename_i l₂ hexpire
  cases h
  have hemitted := dropKey_emitted hdrop
  rw [expireKeys_emitted hexpire]
  refine ⟨l₁.emitted.reverse, ⟨.streamEnd, l₁.cursor.mark, l₁.cursor.mark⟩,
    ⟨List.reverse_cons, rfl, ?_⟩, ?_⟩
  · intro t ht
    have hclosed := Holds.closeTo hP none
      (l := { l with cursor := ⟨if l.cursor.mark.column == 0 then l.cursor.mark
        else l.cursor.mark.newline 0, []⟩ }) hl
    exact hclosed.congr hemitted t (List.mem_reverse.mp ht)
  · intro hne hnil
    rw [List.reverse_eq_nil_iff, hemitted] at hnil
    exact closeTo_emitted_ne_nil (l := { l with cursor := ⟨if l.cursor.mark.column == 0
      then l.cursor.mark else l.cursor.mark.newline 0, []⟩ }) none hne hnil

theorem Holds.advance_more (hP : Throughout P) (hl : l.Holds P) (h : advance l = .ok (.more l')) :
    l'.Holds P ∧ l'.emitted ≠ [] := by
  unfold advance at h
  split at h
  · cases h
  rename_i l₁ hexpire
  have hemitted : l₁.emitted = l.emitted := (expireKeys_emitted hexpire).trans rfl
  have h₁ : l₁.Holds P := hl.congr hemitted
  simp only at h
  split at h
  · rcases Lexeme.map_ok h with ⟨_, _, hd⟩
    cases hd
  · rcases Lexeme.map_ok h with ⟨l₂, hread, hd⟩
    cases hd
    exact (h₁.closeTo hP _).readToken hP hread

theorem Holds.advance_done (hP : Throughout P) {tokens : List Token} (hl : l.Holds P)
    (h : advance l = .ok (.done tokens)) :
    exists before last, Finished P tokens before last ∧ (l.emitted ≠ [] -> before ≠ []) := by
  unfold advance at h
  split at h
  · cases h
  rename_i l₁ hexpire
  have hemitted : l₁.emitted = l.emitted := (expireKeys_emitted hexpire).trans rfl
  have h₁ : l₁.Holds P := hl.congr hemitted
  simp only at h
  split at h
  · rcases Lexeme.map_ok h with ⟨_, hfinish, hd⟩
    cases hd
    rcases (h₁.closeTo hP _).finish hP hfinish with ⟨before, last, hfinished, hne⟩
    refine ⟨before, last, hfinished, fun hl => hne (closeTo_emitted_ne_nil _ ?_)⟩
    rw [hemitted]
    exact hl
  · rcases Lexeme.map_ok h with ⟨_, _, hd⟩
    cases hd

/-- What holds so far goes on to hold, up to the token that ends the text if no fault does. -/
theorem holds_run (hP : Throughout P) (l : Lexer) (hl : l.Holds P) :
    match l.run with
    | (tokens, some _) => forall t, t ∈ tokens -> P t.kind
    | (tokens, none) => exists before last, Finished P tokens before last ∧
        (l.emitted ≠ [] -> before ≠ []) := by
  fun_induction Lexer.run l with
  | case1 l e h =>
      intro t ht
      exact hl t (List.mem_of_mem_drop (List.mem_reverse.mp ht))
  | case2 l tokens h => exact hl.advance_done hP h
  | case3 l l' h ih =>
      rcases hl.advance_more hP h with ⟨hl', hne⟩
      have hrest := ih hl'
      split
      · rename_i hrun
        rwa [hrun] at hrest
      · rename_i hrun
        rw [hrun] at hrest
        rcases hrest with ⟨before, last, hfinished, hbefore⟩
        exact ⟨before, last, hfinished, fun _ => hbefore hne⟩

end Runs
/-!
## Kinds of lexemes
-/

def Spelled : TokenKind -> Prop
  | .streamEnd => False
  | .tag _ suffix => 0 ∉ suffix
  | .tagDirective _ octets => 0 ∉ octets
  | _ => True

theorem null_not_mem_cutNull (octets : Octets) :
    0 ∉ TagSpelling.cutNull octets := by
  intro h
  have hall := List.all_takeWhile (p := (· != 0)) (l := octets)
  simpa using List.all_eq_true.mp hall 0 h

theorem null_not_mem_tag {inFlow : Bool} {start : Mark} {c : Cursor} {o : TagSpelling.Outcome}
    (h : TagSpelling.scan inFlow start c = .ok o) :
    0 ∉ o.suffix := by
  unfold TagSpelling.scan at h
  split at h
  · cases h
  rename_i o' hform
  have ho : o' = o := by
    split at h
    · exact Except.ok.inj h
    · cases h
  subst ho
  simp only [TagSpelling.scanForm, TagSpelling.scanWhole, TagSpelling.scanNamed,
    TagSpelling.scanLocal] at hform
  split at hform
  · split at hform
    · cases hform
    · split at hform
      · cases hform
        exact null_not_mem_cutNull _
      · cases hform
  · split at hform
    · split at hform
      · cases hform
      · cases hform
        exact null_not_mem_cutNull _
    · split at hform
      · cases hform
      · cases hform
        split
        · simp [TagSpelling.ofChars]
        · exact null_not_mem_cutNull _

theorem spelled_directive {start : Mark} {c : Cursor} {o : Directive.Outcome}
    (h : Directive.scan start c = .ok o) :
    Spelled o.kind := by
  have hversion : forall {c r}, Directive.readVersion start c = .ok r -> Spelled r.1 := by
    intro c r h
    simp only [Directive.readVersion, bind, Except.bind, throw, throwThe, MonadExceptOf.throw,
      pure, Except.pure] at h
    repeat' split at h
    all_goals
      cases h
    trivial
  have htag : forall {c r}, Directive.readTag start c = .ok r -> Spelled r.1 := by
    intro c r h
    simp only [Directive.readTag, bind, Except.bind, throw, throwThe, MonadExceptOf.throw,
      pure, Except.pure] at h
    repeat' split at h
    all_goals
      cases h
    exact null_not_mem_cutNull _
  unfold Directive.scan at h
  split at h
  · cases h
  rename_i hbody
  simp only at h
  split at h
  · cases h
    unfold Directive.readBody at hbody
    simp only at hbody
    split at hbody
    · cases hbody
    split at hbody
    · cases hbody
    split at hbody
    · exact hversion hbody
    split at hbody
    · exact htag hbody
    · cases hbody
  · cases h

theorem spelled_name {construct : Construct} {start : Mark} {kind : List Char -> TokenKind}
    {c : Cursor} {x : Lexeme} (h : Lexeme.readName construct start kind c = .ok x)
    (hkind : forall name, Spelled (kind name)) :
    Spelled x.kind := by
  unfold Lexeme.readName at h
  simp only at h
  split at h
  · cases h
  · cases h
    exact hkind _

theorem throughout_spelled : Throughout Spelled where
  blockSequenceStart := trivial
  blockMappingStart := trivial
  blockEnd := trivial
  key := trivial
  read := by
    intro inFlow parent starter start c next x h
    cases starter with
    | directive =>
        rcases Lexeme.map_ok h with ⟨o, ho, rfl⟩
        exact spelled_directive ho
    | «alias» | anchor => exact spelled_name h (fun _ => trivial)
    | tag =>
        rcases Lexeme.map_ok h with ⟨o, ho, rfl⟩
        exact null_not_mem_tag ho
    | block | quoted | plain =>
        rcases Lexeme.map_ok h with ⟨o, ho, rfl⟩
        trivial
    | documentStart | documentEnd | flowSequenceStart | flowSequenceEnd | flowMappingStart
    | flowMappingEnd | flowEntry | blockEntry | key | value =>
        cases h
        trivial

theorem spelled_of_start (text : List Char) :
    (start text).Holds Spelled :=
  fun _ h => absurd h List.not_mem_nil

end Lexer
end Yaml
end Clippings
