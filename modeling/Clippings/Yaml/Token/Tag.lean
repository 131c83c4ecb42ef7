import Clippings.Yaml.SyntaxFault
import Clippings.Yaml.Token
import Clippings.Yaml.Cursor

/-!
# Tags

A tag is written `!suffix`, `!handle!suffix` or, whole, `!<...>`.  Octets that may not stand in it
are written as a percent sign and two hexadecimal digits, and such escapes have to come in groups
shaped like the encoding of one character.
-/

namespace Clippings
namespace Yaml
namespace TagSpelling

/-!
## Escaped octets
-/

/-- The octet of the escape that starts the text. -/
def escapedOctet? : List Char -> Option Nat
  | '%' :: a :: b :: _ =>
    match Character.hexValue? a, Character.hexValue? b with
    | some a, some b => some (a * 16 + b)
    | _, _ => none
  | _ => none

/-- How many octets a group has that starts with this one. -/
def groupLength? (octet : Nat) : Option Nat :=
  if octet < 0x80 then some 1
  else if 0xc0 ≤ octet && octet < 0xe0 then some 2
  else if 0xe0 ≤ octet && octet < 0xf0 then some 3
  else if 0xf0 ≤ octet && octet < 0xf8 then some 4
  else none

/-- Reads `n` more octets of a group, which start `ahead` characters into the escape. -/
def readTrailing (cs : List Char) (ahead : Nat) : Nat -> Except (Problem × Nat) Octets
  | 0 => .ok []
  | n + 1 =>
    match escapedOctet? (cs.drop ahead) with
    | none => .error (.escapedOctet, ahead)
    | some octet =>
      if 0x80 ≤ octet && octet < 0xc0 then
        (readTrailing cs (ahead + 3) n).map (octet.toUInt8 :: ·)
      else .error (.badTrailingOctet, ahead)

/-- Reads one group of escapes, or says which problem stands how far on. -/
def readGroup (cs : List Char) : Except (Problem × Nat) Octets :=
  match escapedOctet? cs with
  | none => .error (.escapedOctet, 0)
  | some octet =>
    match groupLength? octet with
    | none => .error (.badLeadingOctet, 0)
    | some n => (readTrailing cs 3 (n - 1)).map (octet.toUInt8 :: ·)

/-!
## The characters of a tag
-/

/-- Reads on while characters may stand in a tag.  `octets` holds what was read, the last one
first. -/
def readUri (flow : Bool) (began : Construct × Mark) (octets : Octets) (m : Mark)
    (cs : List Char) : Except SyntaxFault (Octets × Cursor) :=
  match cs with
  | [] => .ok (octets.reverse, ⟨m, []⟩)
  | c :: rest =>
    if !Character.isTagUri flow c then .ok (octets.reverse, ⟨m, cs⟩)
    else if c == '%' then
      match readGroup cs with
      | .error (problem, ahead) => .error ⟨problem, m.advance ahead, some began⟩
      | .ok group =>
        readUri flow began (group.reverse ++ octets) (m.advance (3 * group.length))
          (rest.drop (3 * group.length - 1))
    else readUri flow began (c.toNat.toUInt8 :: octets) (m.advance 1) rest
termination_by cs.length
decreasing_by
  all_goals simp only [List.length_drop, List.length_cons]
  all_goals omega

/-- As `readUri`, but at least one character has to come. -/
def readUri1 (flow : Bool) (began : Construct × Mark) (c : Cursor) :
    Except SyntaxFault (Octets × Cursor) :=
  if c.rest.head?.any (Character.isTagUri flow) then readUri flow began [] c.mark c.rest
  else .error ⟨.tagUri, c.mark, some began⟩

/-- The null octet ends a spelling. -/
def cutNull (octets : Octets) : Octets :=
  octets.takeWhile (· != 0)

def ofChars (cs : List Char) : Octets :=
  cs.map fun c => c.toNat.toUInt8

structure Outcome where
  /-- Empty for a whole tag. -/
  handle : List Char
  suffix : Octets
  next : Cursor

def scanWhole (start : Mark) (c : Cursor) : Except SyntaxFault Outcome :=
  match readUri1 true (.tagUri, start) c with
  | .error e => .error e
  | .ok (octets, c) =>
    if c.sees '>' then .ok ⟨[], cutNull octets, c.skip 1⟩
    else .error ⟨.tagClose, c.mark, some (.tag, start)⟩

def scanNamed (start : Mark) (name : List Char) (c : Cursor) : Except SyntaxFault Outcome :=
  match readUri1 false (.tagUri, start) (c.skip 1) with
  | .error e => .error e
  | .ok (octets, c) => .ok ⟨'!' :: (name ++ ['!']), cutNull octets, c⟩

def scanLocal (start : Mark) (name : List Char) (c : Cursor) : Except SyntaxFault Outcome :=
  match readUri false (.tagUri, start) (ofChars name).reverse c.mark c.rest with
  | .error e => .error e
  | .ok (octets, c) =>
    .ok (if (cutNull octets).isEmpty then ⟨[], ofChars ['!'], c⟩
      else ⟨['!'], cutNull octets, c⟩)

def scanForm (start : Mark) (c : Cursor) : Except SyntaxFault Outcome :=
  if c.sees '<' then scanWhole start (c.skip 1)
  else
    let (name, next) := c.span Character.isWord
    if next.sees '!' then scanNamed start name next else scanLocal start name next

/-- The tag after an exclamation mark, which stood at `start`. -/
def scan (inFlow : Bool) (start : Mark) (c : Cursor) : Except SyntaxFault Outcome :=
  match scanForm start c with
  | .error e => .error e
  | .ok o =>
    if (inFlow && o.next.sees ',') || Character.gapOrEnd o.next.rest then .ok o
    else .error ⟨.whitespaceOrBreak, o.next.mark, some (.tag, start)⟩

/-!
## Reading never goes back
-/

theorem readUri_rest_length_le {flow : Bool} {began : Construct × Mark} {octets : Octets}
    {m : Mark} {cs : List Char} {r : Octets × Cursor}
    (h : readUri flow began octets m cs = .ok r) :
    r.2.rest.length ≤ cs.length := by
  fun_induction readUri flow began octets m cs <;> grind

theorem readUri1_rest_length_le {flow : Bool} {began : Construct × Mark} {c : Cursor}
    {r : Octets × Cursor} (h : readUri1 flow began c = .ok r) :
    r.2.rest.length ≤ c.rest.length := by
  unfold readUri1 at h
  split at h
  · exact readUri_rest_length_le h
  · cases h

theorem scanForm_rest_length_le {start : Mark} {c : Cursor} {o : Outcome}
    (h : scanForm start c = .ok o) :
    o.next.rest.length ≤ c.rest.length := by
  unfold scanForm at h
  split at h
  · unfold scanWhole at h
    split at h
    · cases h
    · next octets d hd =>
        have h₁ := readUri1_rest_length_le hd
        have h₂ := Cursor.skip_rest_length_le c 1
        have h₃ := Cursor.skip_rest_length_le d 1
        split at h
        · cases h
          simp only at h₁ ⊢
          omega
        · cases h
  · have h₁ := Cursor.span_rest_length_le Character.isWord c
    simp only at h
    split at h
    · unfold scanNamed at h
      split at h
      · cases h
      · next octets d hd =>
          have h₂ := readUri1_rest_length_le hd
          have h₃ := Cursor.skip_rest_length_le (c.span Character.isWord).2 1
          cases h
          simp only at h₂ ⊢
          omega
    · unfold scanLocal at h
      split at h
      · cases h
      · next octets d hd =>
          have h₂ := readUri_rest_length_le hd
          cases h
          simp only at h₂ ⊢
          split <;> exact Nat.le_trans h₂ h₁

theorem scan_rest_length_le {inFlow : Bool} {start : Mark} {c : Cursor} {o : Outcome}
    (h : scan inFlow start c = .ok o) :
    o.next.rest.length ≤ c.rest.length := by
  unfold scan at h
  split at h
  · cases h
  · next o' ho =>
      split at h
      · cases h
        exact scanForm_rest_length_le ho
      · cases h

end TagSpelling
end Yaml
end Clippings
