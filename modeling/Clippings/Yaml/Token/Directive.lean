import Clippings.Yaml.Token.Tag

/-!
# Directives

A line that starts with a percent sign gives the version of the format or the meaning of a tag
handle for the document that follows.
-/

namespace Clippings
namespace Yaml
namespace Directive

structure Outcome where
  kind : TokenKind
  /-- Just past the directive's last word. -/
  stop : Mark
  next : Cursor

def fault (construct : Construct) (start : Mark) (problem : Problem) (place : Mark) :
    SyntaxFault :=
  ⟨problem, place, some (construct, start)⟩

def readNumber (start : Mark) (c : Cursor) : Except SyntaxFault (Nat × Cursor) :=
  let (digits, next) := c.span Char.isDigit
  if digits.isEmpty then .error (fault .versionDirective start .versionNumber c.mark)
  else if 9 < digits.length then
    .error (fault .versionDirective start .versionLength (c.mark.advance 9))
  else .ok (digits.foldl (fun n d => n * 10 + Character.digitValue d) 0, next)

def readVersion (start : Mark) (c : Cursor) : Except SyntaxFault (TokenKind × Cursor) := do
  let (major, c) ← readNumber start (c.skipWhile Character.isBlank)
  if !c.sees '.' then throw (fault .versionDirective start .versionSeparator c.mark)
  let (minor, c) ← readNumber start (c.skip 1)
  return (.versionDirective major minor, c)

def readHandle (start : Mark) (c : Cursor) : Except SyntaxFault (List Char × Cursor) :=
  if !c.sees '!' then .error (fault .tagDirectiveHandle start .tagBang c.mark)
  else
    let (name, next) := (c.skip 1).span Character.isWord
    if next.sees '!' then .ok ('!' :: (name ++ ['!']), next.skip 1)
    else if name.isEmpty then .ok (['!'], next)
    else .error (fault .tagDirectiveHandleEnd start .tagBang next.mark)

def readTag (start : Mark) (c : Cursor) : Except SyntaxFault (TokenKind × Cursor) := do
  let (handle, c) ← readHandle start (c.skipWhile Character.isBlank)
  if !c.rest.head?.any Character.isBlank then
    throw (fault .tagDirective start .whitespace c.mark)
  let (octets, c) ←
    TagSpelling.readUri1 true (.tagDirectiveUri, start) (c.skipWhile Character.isBlank)
  if !Character.gapOrEnd c.rest then
    throw (fault .tagDirective start .whitespaceOrBreak c.mark)
  return (.tagDirective handle (TagSpelling.cutNull octets), c)

def readBody (start : Mark) (c : Cursor) : Except SyntaxFault (TokenKind × Cursor) :=
  let (name, next) := c.span Character.isWord
  if name.isEmpty then .error (fault .directive start .directiveName c.mark)
  else if !Character.gapOrEnd next.rest then
    .error (fault .directive start .directiveCharacter next.mark)
  else if name == ['Y', 'A', 'M', 'L'] then readVersion start next
  else if name == ['T', 'A', 'G'] then readTag start next
  else .error (fault .directive start .directiveUnknown next.mark)

/-- The directive after its percent sign, which stood at `start`, with the rest of its line. -/
def scan (start : Mark) (c : Cursor) : Except SyntaxFault Outcome :=
  match readBody start c with
  | .error e => .error e
  | .ok (kind, body) =>
    let next := (body.skipWhile Character.isBlank).skipComment
    if Character.breakOrEnd next.rest then .ok ⟨kind, body.mark, next.skipBreak⟩
    else .error (fault .directive start .commentOrBreak next.mark)

/-!
## Reading never goes back
-/

theorem readNumber_rest_length_le {start : Mark} {c : Cursor} {r : Nat × Cursor}
    (h : readNumber start c = .ok r) :
    r.2.rest.length ≤ c.rest.length := by
  unfold readNumber at h
  have := Cursor.span_rest_length_le Char.isDigit c
  grind

theorem readVersion_rest_length_le {start : Mark} {c : Cursor} {r : TokenKind × Cursor}
    (h : readVersion start c = .ok r) :
    r.2.rest.length ≤ c.rest.length := by
  have h₀ := Cursor.skipWhile_rest_length_le Character.isBlank c
  simp only [readVersion, bind, Except.bind, throw, throwThe, MonadExceptOf.throw, pure,
    Except.pure] at h
  cases h₁ : readNumber start (c.skipWhile Character.isBlank) with
  | error e => simp [h₁] at h
  | ok r₁ =>
      have := readNumber_rest_length_le h₁
      simp only [h₁] at h
      split at h
      · cases h
      · cases h₂ : readNumber start (r₁.2.skip 1) with
        | error e => simp [h₂] at h
        | ok r₂ =>
            have := readNumber_rest_length_le h₂
            have := Cursor.skip_rest_length_le r₁.2 1
            simp only [h₂, Except.ok.injEq] at h
            subst h
            simp only
            omega

theorem readHandle_rest_length_le {start : Mark} {c : Cursor} {r : List Char × Cursor}
    (h : readHandle start c = .ok r) :
    r.2.rest.length ≤ c.rest.length := by
  unfold readHandle at h
  have := Cursor.skip_rest_length_le c 1
  have := Cursor.span_rest_length_le Character.isWord (c.skip 1)
  have := Cursor.skip_rest_length_le ((c.skip 1).span Character.isWord).2 1
  grind

theorem readTag_rest_length_le {start : Mark} {c : Cursor} {r : TokenKind × Cursor}
    (h : readTag start c = .ok r) :
    r.2.rest.length ≤ c.rest.length := by
  have h₀ := Cursor.skipWhile_rest_length_le Character.isBlank c
  simp only [readTag, bind, Except.bind, throw, throwThe, MonadExceptOf.throw, pure,
    Except.pure] at h
  cases h₁ : readHandle start (c.skipWhile Character.isBlank) with
  | error e => simp [h₁] at h
  | ok r₁ =>
      have := readHandle_rest_length_le h₁
      simp only [h₁] at h
      split at h
      · cases h
      · cases h₂ : TagSpelling.readUri1 true (.tagDirectiveUri, start)
          (r₁.2.skipWhile Character.isBlank) with
        | error e => simp [h₂] at h
        | ok r₂ =>
            have := TagSpelling.readUri1_rest_length_le h₂
            have := Cursor.skipWhile_rest_length_le Character.isBlank r₁.2
            simp only [h₂] at h
            split at h
            · cases h
            · cases h
              simp only
              omega

theorem readBody_rest_length_le {start : Mark} {c : Cursor} {r : TokenKind × Cursor}
    (h : readBody start c = .ok r) :
    r.2.rest.length ≤ c.rest.length := by
  unfold readBody at h
  have := Cursor.span_rest_length_le Character.isWord c
  simp only at h
  split at h
  · cases h
  · split at h
    · cases h
    · split at h
      · exact Nat.le_trans (readVersion_rest_length_le h) this
      · split at h
        · exact Nat.le_trans (readTag_rest_length_le h) this
        · cases h

theorem scan_rest_length_le {start : Mark} {c : Cursor} {o : Outcome}
    (h : scan start c = .ok o) :
    o.next.rest.length ≤ c.rest.length := by
  unfold scan at h
  split at h
  · cases h
  · next kind body hb =>
      have h₁ := readBody_rest_length_le hb
      have h₂ := Cursor.skipWhile_rest_length_le Character.isBlank body
      have h₃ := Cursor.skipComment_rest_length_le (body.skipWhile Character.isBlank)
      have h₄ := Cursor.skipBreak_rest_length_le (body.skipWhile Character.isBlank).skipComment
      simp only at h
      split at h
      · cases h
        simp only at h₁ ⊢
        omega
      · cases h

end Directive
end Yaml
end Clippings
