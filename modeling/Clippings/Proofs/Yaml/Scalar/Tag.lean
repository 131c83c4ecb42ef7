import Clippings.Proofs.Text.Utf8
import Clippings.Proofs.Yaml.Scalar.Quoted
import Clippings.Yaml.Token.Tag

/-!
# Tags

The spelling of a local tag is read back octet for octet.  The writer leaves some characters as they
are that the reader takes only inside brackets; a tag with one of them is not legible.
-/

namespace Clippings
namespace Yaml
namespace TagSpelling

/-!
## Escapes
-/

def percent (b : UInt8) : List Char :=
  ['%', Character.hexDigit (b.toNat / 16), Character.hexDigit (b.toNat % 16)]

theorem escapedOctet?_percent (b : UInt8) (rest : List Char) :
    escapedOctet? (percent b ++ rest) = some b.toNat := by
  have hb := b.toNat_lt
  simp only [percent, List.cons_append, List.nil_append, escapedOctet?,
    QuotedScalar.hexValue?_hexDigit (show b.toNat / 16 < 16 by omega),
    QuotedScalar.hexValue?_hexDigit (show b.toNat % 16 < 16 by omega), Option.some.injEq]
  omega

theorem readTrailing_percent {trail : Octets}
    (h : forall b, b ∈ trail -> 0x80 ≤ b.toNat ∧ b.toNat < 0xc0) (cs rest : List Char) (ahead : Nat)
    (hcs : cs.drop ahead = trail.flatMap percent ++ rest) :
    readTrailing cs ahead trail.length = .ok trail := by
  induction trail generalizing ahead with
  | nil => rfl
  | cons b trail ih =>
      have hb := h b List.mem_cons_self
      rw [List.flatMap_cons, List.append_assoc] at hcs
      have hnext : cs.drop (ahead + 3) = trail.flatMap percent ++ rest := by
        rw [← List.drop_drop, hcs]
        rfl
      rw [List.length_cons, readTrailing, hcs, escapedOctet?_percent]
      simp only [hb.1, hb.2, decide_true, Bool.and_self, if_true,
        ih (fun d hd => h d (List.mem_cons_of_mem b hd)) _ hnext]
      simp [Except.map]

structure IsGroup (lead : UInt8) (trail : Octets) : Prop where
  length : groupLength? lead.toNat = some (trail.length + 1)
  trailing : forall b, b ∈ trail -> 0x80 ≤ b.toNat ∧ b.toNat < 0xc0

theorem readGroup_percent {lead : UInt8} {trail : Octets} (h : IsGroup lead trail)
    (rest : List Char) :
    readGroup (percent lead ++ (trail.flatMap percent ++ rest)) = .ok (lead :: trail) := by
  have htrail := readTrailing_percent h.trailing
    (percent lead ++ (trail.flatMap percent ++ rest)) rest 3 rfl
  rw [readGroup, escapedOctet?_percent]
  simp only [h.length, Nat.add_sub_cancel, htrail]
  simp [Except.map]

theorem length_flatMap_percent (octets : Octets) :
    (octets.flatMap percent).length = 3 * octets.length := by
  induction octets with
  | nil => rfl
  | cons b octets ih =>
      rw [List.flatMap_cons, List.length_append, ih, List.length_cons]
      simp only [percent, List.length_cons, List.length_nil]
      omega

theorem readUri_escape {cs : List Char} {group : Octets} (h : readGroup ('%' :: cs) = .ok group)
    (flow : Bool) (began : Construct × Mark) (octets : Octets) (m : Mark) :
    readUri flow began octets m ('%' :: cs) =
      readUri flow began (group.reverse ++ octets) (m.advance (3 * group.length))
        (cs.drop (3 * group.length - 1)) := by
  rw [readUri]
  simp only [h, show Character.isTagUri flow '%' = true by cases flow <;> decide]
  rfl

theorem readUri_group {lead : UInt8} {trail : Octets} (h : IsGroup lead trail) (flow : Bool)
    (began : Construct × Mark) (octets : Octets) (m : Mark) (rest : List Char) :
    readUri flow began octets m ((lead :: trail).flatMap percent ++ rest) =
      readUri flow began ((lead :: trail).reverse ++ octets)
        (m.advance ((lead :: trail).flatMap percent).length) rest := by
  have hgroup := readGroup_percent h rest
  have hlength := length_flatMap_percent (lead :: trail)
  rw [← List.append_assoc, ← List.flatMap_cons] at hgroup
  generalize hbody : (lead :: trail).flatMap percent = body at hgroup hlength
  cases body with
  | nil => cases hlength
  | cons c body =>
      obtain rfl : '%' = c := by
        injection hbody
      have hrest : (body ++ rest).drop (3 * (lead :: trail).length - 1) = rest := by
        rw [← hlength, List.length_cons, Nat.add_sub_cancel, List.drop_left]
      rw [List.cons_append] at hgroup ⊢
      rw [readUri_escape hgroup, hrest, hlength]

theorem readUri_plain {flow : Bool} {c : Char} (h : Character.isTagUri flow c = true)
    (hc : c ≠ '%') (began : Construct × Mark) (octets : Octets) (m : Mark) (rest : List Char) :
    readUri flow began octets m (c :: rest) =
      readUri flow began (c.toNat.toUInt8 :: octets) (m.advance 1) rest := by
  rw [readUri]
  simp [h, hc]

/-!
## Characters
-/

theorem encode_ascii {c : Char} (h : c.toNat < 0x80) :
    String.utf8EncodeChar c = [c.toNat.toUInt8] := by
  have hle : c.val.toNat ≤ 127 := Nat.le_of_lt_succ h
  unfold String.utf8EncodeChar
  simp only [hle, if_true]
  rfl

theorem isTrailing (n : Nat) :
    0x80 ≤ (UInt8.ofNat (n % 64 + 128)).toNat ∧ (UInt8.ofNat (n % 64 + 128)).toNat < 0xc0 := by
  rw [Text.Utf8.toNat_octet (by omega)]
  omega

theorem encode_group (c : Char) :
    exists lead trail, String.utf8EncodeChar c = lead :: trail ∧ IsGroup lead trail ∧
      (0x80 ≤ c.toNat -> 0x80 ≤ lead.toNat) := by
  have hvalid : c.toNat < 0x110000 := by
    rcases c.valid with h | h
    · exact Nat.lt_trans h (by decide)
    · exact h.2
  have hc : c.val.toNat = c.toNat := rfl
  unfold String.utf8EncodeChar
  simp only [hc]
  split
  · refine ⟨_, _, rfl, ⟨?_, by simp⟩, by omega⟩
    rw [Text.Utf8.toNat_octet (by omega), groupLength?, if_pos (by omega)]
    rfl
  · split
    · have hlead : (UInt8.ofNat (c.toNat / 64 % 32 + 192)).toNat = c.toNat / 64 % 32 + 192 :=
        Text.Utf8.toNat_octet (by omega)
      refine ⟨_, _, rfl, ⟨?_, ?_⟩, by omega⟩
      · rw [hlead, groupLength?, if_neg (by omega), if_pos (by simp; omega)]
        rfl
      · simpa using isTrailing c.toNat
    · split
      · have hlead : (UInt8.ofNat (c.toNat / 4096 % 16 + 224)).toNat =
            c.toNat / 4096 % 16 + 224 := Text.Utf8.toNat_octet (by omega)
        refine ⟨_, _, rfl, ⟨?_, ?_⟩, by omega⟩
        · rw [hlead, groupLength?, if_neg (by omega), if_neg (by simp),
            if_pos (by simp; omega)]
          rfl
        · simpa using ⟨isTrailing (c.toNat / 64), isTrailing c.toNat⟩
      · have hlead : (UInt8.ofNat (c.toNat / 262144 % 8 + 240)).toNat =
            c.toNat / 262144 % 8 + 240 := Text.Utf8.toNat_octet (by omega)
        refine ⟨_, _, rfl, ⟨?_, ?_⟩, by omega⟩
        · rw [hlead, groupLength?, if_neg (by omega), if_neg (by simp),
            if_neg (by simp), if_pos (by simp; omega)]
          rfl
        · simpa using ⟨isTrailing (c.toNat / 4096), isTrailing (c.toNat / 64), isTrailing c.toNat⟩

/-- Left as it is by the writer, but taken by the reader inside brackets only. -/
def isBracketed (c : Char) : Bool :=
  c ∈ [',', '[', ']']

def charText (c : Char) : List Char :=
  (String.utf8EncodeChar c).flatMap Layout.escapeOctet

theorem escapeOctet_eq_percent {b : UInt8}
    (h : 0x80 ≤ b.toNat ∨ Character.isTagPlain (Char.ofNat b.toNat) = false) :
    Layout.escapeOctet b = percent b := by
  have hplain : (b < 128 && Character.isTagPlain (Char.ofNat b.toNat)) = false := by
    rcases h with h | h
    · have hb : ¬ b < 128 := by
        rw [UInt8.lt_iff_toNat_lt]
        exact Nat.not_lt.mpr h
      rw [decide_eq_false hb, Bool.false_and]
    · rw [h, Bool.and_false]
  simp only [Layout.escapeOctet, hplain]
  rfl

theorem isTagUri_of_plain {c : Char} (h : Character.isTagPlain c = true)
    (hc : isBracketed c = false) (flow : Bool) :
    Character.isTagUri flow c = true ∧ c ≠ '%' := by
  constructor
  · simp only [isBracketed, decide_eq_false_iff_not] at hc
    simp only [Character.isTagPlain, Character.isTagUri, Bool.or_eq_true, decide_eq_true_eq,
      List.mem_cons] at *
    grind
  · rintro rfl
    revert h
    decide

theorem charText_cases (c : Char) :
    (c.toNat < 0x80 ∧ Character.isTagPlain c = true ∧ charText c = [c]) ∨
      charText c = (String.utf8EncodeChar c).flatMap percent := by
  by_cases hascii : c.toNat < 0x80
  · have hb : (c.toNat.toUInt8).toNat = c.toNat :=
      Text.Utf8.toNat_octet (Nat.lt_trans hascii (by decide))
    cases hplain : Character.isTagPlain c with
    | true =>
        refine Or.inl ⟨hascii, rfl, ?_⟩
        have hlt : c.toNat.toUInt8 < 128 := by
          rw [UInt8.lt_iff_toNat_lt, hb]
          exact hascii
        rw [charText, encode_ascii hascii]
        simp [Layout.escapeOctet, hb, hlt, hplain]
    | false =>
        apply Or.inr
        rw [charText, encode_ascii hascii]
        have hescape := escapeOctet_eq_percent (b := c.toNat.toUInt8)
          (Or.inr (by rw [hb]; simpa using hplain))
        simp [hescape]
  · apply Or.inr
    rcases encode_group c with ⟨lead, trail, hencode, hgroup, hlead⟩
    have hall : forall b, b ∈ lead :: trail -> Layout.escapeOctet b = percent b := by
      intro b hb
      apply escapeOctet_eq_percent
      rcases List.mem_cons.mp hb with rfl | hb
      · exact Or.inl (hlead (Nat.le_of_not_lt hascii))
      · exact Or.inl (hgroup.trailing b hb).1
    rw [charText, hencode, List.flatMap_def, List.flatMap_def, List.map_congr_left hall]

theorem readUri_char {c : Char} (hc : isBracketed c = false) (flow : Bool)
    (began : Construct × Mark) (octets : Octets) (m : Mark) (rest : List Char) :
    readUri flow began octets m (charText c ++ rest) =
      readUri flow began ((String.utf8EncodeChar c).reverse ++ octets)
        (m.advance (charText c).length) rest := by
  rcases charText_cases c with ⟨hascii, hplain, htext⟩ | htext
  · rcases isTagUri_of_plain hplain hc flow with ⟨huri, hpercent⟩
    rw [htext, encode_ascii hascii]
    exact readUri_plain huri hpercent began octets m rest
  · rcases encode_group c with ⟨lead, trail, hencode, hgroup, -⟩
    rw [htext, hencode]
    exact readUri_group hgroup flow began octets m rest

/-- All octets of a name come in, in order. -/
theorem readUri_name {name : List Char} (h : forall c, c ∈ name -> isBracketed c = false)
    (flow : Bool) (began : Construct × Mark) (octets : Octets) (m : Mark) (rest : List Char) :
    readUri flow began octets m (name.flatMap charText ++ rest) =
      readUri flow began ((name.flatMap String.utf8EncodeChar).reverse ++ octets)
        (m.advance (name.flatMap charText).length) rest := by
  induction name generalizing octets m with
  | nil => rfl
  | cons c name ih =>
      rw [List.flatMap_cons, List.append_assoc, readUri_char (h c List.mem_cons_self),
        ih (fun d hd => h d (List.mem_cons_of_mem c hd))]
      simp [Mark.advance, Nat.add_assoc]

/-!
## Whole tags
-/

/-- A local tag whose spelling is read back. -/
def Legible (octets : Octets) : Prop :=
  exists name : List Char, octets = 33 :: name.flatMap String.utf8EncodeChar ∧
    forall c, c ∈ name -> isBracketed c = false ∧ c ≠ '\x00'

theorem null_not_mem_encode {c : Char} (h : c ≠ '\x00') :
    0 ∉ String.utf8EncodeChar c := by
  have hpos : 0 < c.toNat := by
    apply Nat.pos_of_ne_zero
    intro hzero
    exact h (Char.toNat_inj.mp hzero)
  by_cases hascii : c.toNat < 0x80
  · rw [encode_ascii hascii, List.mem_singleton]
    intro hzero
    have hc : (c.toNat.toUInt8).toNat = c.toNat :=
      Text.Utf8.toNat_octet (Nat.lt_trans hascii (by decide))
    rw [← hzero] at hc
    exact Nat.ne_of_gt hpos hc.symm
  · rcases encode_group c with ⟨lead, trail, hencode, hgroup, hlead⟩
    rw [hencode]
    intro hzero
    rcases List.mem_cons.mp hzero with rfl | hzero
    · exact absurd (hlead (Nat.le_of_not_lt hascii)) (by decide)
    · exact absurd (hgroup.trailing 0 hzero).1 (by decide)

theorem null_not_mem_name {name : List Char} (h : forall c, c ∈ name -> c ≠ '\x00') :
    0 ∉ name.flatMap String.utf8EncodeChar := by
  intro hzero
  rcases List.mem_flatMap.mp hzero with ⟨c, hc, hzero⟩
  exact null_not_mem_encode (h c hc) hzero

theorem takeWhile_of_null_not_mem {octets : Octets} (h : 0 ∉ octets) :
    octets.takeWhile (· != 0) = octets := by
  induction octets with
  | nil => rfl
  | cons b octets ih =>
      rw [List.mem_cons, not_or] at h
      rw [List.takeWhile_cons, if_pos (bne_iff_ne.mpr (Ne.symm h.1)), ih h.2]

theorem cutNull_eq {octets : Octets} (h : 0 ∉ octets) :
    cutNull octets = octets :=
  takeWhile_of_null_not_mem h

theorem mem_charText {c d : Char} (h : d ∈ charText c) :
    (0x20 < d.toNat ∧ d.toNat < 0x7f) ∧ d ≠ '<' ∧ d ≠ '!' ∧ d ≠ '>' := by
  have hhex : forall d : Fin 16, (0x20 < (Character.hexDigit d).toNat ∧
      (Character.hexDigit d).toNat < 0x7f) ∧ Character.hexDigit d ≠ '<' ∧
      Character.hexDigit d ≠ '!' ∧ Character.hexDigit d ≠ '>' := by
    decide
  rcases charText_cases c with ⟨hascii, hplain, htext⟩ | htext
  · rw [htext, List.mem_singleton] at h
    subst h
    have hall : forall n : Fin 128, Character.isTagPlain (Char.ofNat n) = true ->
        (0x20 < (Char.ofNat n).toNat ∧ (Char.ofNat n).toNat < 0x7f) ∧ Char.ofNat n ≠ '<' ∧
          Char.ofNat n ≠ '!' ∧ Char.ofNat n ≠ '>' := by
      decide
    have hd := hall ⟨d.toNat, hascii⟩
    simp only [Char.ofNat_toNat] at hd
    exact hd hplain
  · rw [htext] at h
    rcases List.mem_flatMap.mp h with ⟨b, -, hb⟩
    have hlt := b.toNat_lt
    simp only [percent, List.mem_cons, List.not_mem_nil, or_false] at hb
    rcases hb with rfl | rfl | rfl
    · decide
    · exact hhex ⟨b.toNat / 16, by omega⟩
    · exact hhex ⟨b.toNat % 16, by omega⟩

def tokenKind : Octets -> TokenKind
  | 33 :: b :: rest => .tag ['!'] (b :: rest)
  | octets => .tag [] octets

def tokenKinds (tag : Option Octets) : List TokenKind :=
  tag.toList.map tokenKind

def IsLegible (tag : Option Octets) : Prop :=
  forall octets, tag = some octets -> Legible octets

theorem isLegible_none :
    IsLegible none := by
  intro octets h
  cases h

theorem visible_of_isWord {c : Char} (h : Character.isWord c = true) :
    0x20 < c.toNat ∧ c.toNat < 0x7f := by
  delta Character.isWord Char.isAlphanum Char.isAlpha Char.isUpper Char.isLower Char.isDigit at h
  simp only [Bool.or_eq_true, Bool.and_eq_true, decide_eq_true_eq, beq_iff_eq,
    UInt32.le_iff_toNat_le, ge_iff_le] at h
  have hc : c.val.toNat = c.toNat := rfl
  rcases h with (((⟨h, h'⟩ | ⟨h, h'⟩) | ⟨h, h'⟩) | rfl) | rfl
  · exact ⟨Nat.lt_of_lt_of_le (by decide) h, Nat.lt_of_le_of_lt h' (by decide)⟩
  · exact ⟨Nat.lt_of_lt_of_le (by decide) h, Nat.lt_of_le_of_lt h' (by decide)⟩
  · exact ⟨Nat.lt_of_lt_of_le (by decide) h, Nat.lt_of_le_of_lt h' (by decide)⟩
  · decide
  · decide

theorem skip_words (cs : List Char) (h : forall c, c ∈ cs -> Character.isWord c = true) (m : Mark)
    (rest : List Char) :
    Cursor.skip ⟨m, cs ++ rest⟩ cs.length = ⟨m.advance cs.length, rest⟩ := by
  have hvisible := fun c hc => visible_of_isWord (h c hc)
  have hno : cs.any Character.isBreak = false := by
    rw [List.any_eq_false]
    intro c hc
    rw [Character.not_break_of_visible (hvisible c hc)]
    decide
  rw [Cursor.skip, List.take_left, List.drop_left, Mark.foldl_past hno,
    Mark.through_visible hvisible]

theorem readUri_words {cs : List Char} (h : forall c, c ∈ cs -> Character.isWord c = true)
    (flow : Bool) (began : Construct × Mark) (octets : Octets) (m : Mark) (rest : List Char) :
    readUri flow began octets m (cs ++ rest) =
      readUri flow began ((ofChars cs).reverse ++ octets) (m.advance cs.length) rest := by
  induction cs generalizing octets m with
  | nil => rfl
  | cons c cs ih =>
      have hc := h c List.mem_cons_self
      have huri : Character.isTagUri flow c = true := by
        simp only [Character.isTagUri, hc, Bool.true_or]
      have hpercent : c ≠ '%' := by
        rintro rfl
        revert hc
        decide
      rw [List.cons_append, readUri_plain huri hpercent,
        ih (fun d hd => h d (List.mem_cons_of_mem c hd))]
      simp only [ofChars, List.map_cons, List.reverse_cons, List.append_assoc, List.cons_append,
        List.nil_append, Mark.advance, List.length_cons, Nat.add_assoc, Nat.add_comm 1]

theorem not_of_isGap {c : Char} (h : Character.isGap c = true) :
    Character.isWord c = false ∧ (forall flow, Character.isTagUri flow c = false) ∧ c ≠ '!' := by
  simp only [Character.isGap, Character.isBlank, Character.isBreak, Bool.or_eq_true,
    beq_iff_eq] at h
  rcases h with (rfl | rfl) | ((((rfl | rfl) | rfl) | rfl) | rfl) <;> decide

theorem readUri_end (flow : Bool) (began : Construct × Mark) (octets : Octets) (m : Mark)
    {tail : List Char} (h : Character.gapOrEnd tail = true) :
    readUri flow began octets m tail = .ok (octets.reverse, ⟨m, tail⟩) := by
  cases tail with
  | nil => rw [readUri]
  | cons c tail =>
      rw [readUri, (not_of_isGap h).2.1 flow]
      rfl

theorem flatMap_charText (name : List Char) :
    (name.flatMap String.utf8EncodeChar).flatMap Layout.escapeOctet = name.flatMap charText :=
  List.flatMap_assoc

theorem exists_encode {name : List Char} (hne : name ≠ []) :
    exists b rest, name.flatMap String.utf8EncodeChar = b :: rest := by
  cases name with
  | nil => exact absurd rfl hne
  | cons c name =>
      rcases encode_group c with ⟨lead, trail, hencode, -⟩
      exact ⟨lead, _, by rw [List.flatMap_cons, hencode]; rfl⟩

theorem tagText_name {name : List Char} (hne : name ≠ []) (h : forall c, c ∈ name -> c ≠ '\x00') :
    Layout.tagText (33 :: name.flatMap String.utf8EncodeChar) = '!' :: name.flatMap charText := by
  have hnull := null_not_mem_name h
  rcases exists_encode hne with ⟨b, rest, hencode⟩
  rw [← flatMap_charText, hencode]
  rw [hencode] at hnull
  have hall : (33 :: b :: rest).takeWhile (· != 0) = 33 :: b :: rest := by
    apply takeWhile_of_null_not_mem
    rw [List.mem_cons, not_or]
    exact ⟨by decide, hnull⟩
  rw [Layout.tagText, hall]
  rfl

theorem head?_dropWhile_ne {body tail : List Char} (h : '!' ∉ body)
    (htail : Character.gapOrEnd tail = true) :
    ((body ++ tail).dropWhile Character.isWord).head? ≠ some '!' := by
  induction body with
  | nil =>
      cases tail with
      | nil => simp
      | cons c tail =>
          rcases not_of_isGap htail with ⟨hword, -, hc⟩
          simp [hword, hc]
  | cons c body ih =>
      rw [List.mem_cons, not_or] at h
      rw [List.cons_append, List.dropWhile_cons]
      split
      · exact ih h.2
      · simpa using Ne.symm h.1

theorem scanLocal_name {name : List Char} (h : forall c, c ∈ name -> isBracketed c = false)
    (start m : Mark) (words : List Char) {rest tail : List Char}
    (hwords : forall c, c ∈ words -> Character.isWord c = true)
    (hrest : words ++ rest = name.flatMap charText ++ tail)
    (htail : Character.gapOrEnd tail = true) :
    readUri false (.tagUri, start) (ofChars words).reverse (m.advance words.length) rest =
      .ok (name.flatMap String.utf8EncodeChar,
        ⟨m.advance (name.flatMap charText).length, tail⟩) := by
  have hread := readUri_words hwords false (.tagUri, start) [] m rest
  rw [List.append_nil] at hread
  rw [← hread, hrest, readUri_name h, readUri_end _ _ _ _ htail, List.append_nil,
    List.reverse_reverse]

theorem exists_charText (c : Char) :
    exists d rest, charText c = d :: rest := by
  rcases charText_cases c with ⟨-, -, htext⟩ | htext
  · exact ⟨c, [], htext⟩
  · rcases encode_group c with ⟨lead, trail, hencode, -⟩
    rw [htext, hencode]
    exact ⟨_, _, rfl⟩

theorem scan_name {name : List Char} (hne : name ≠ [])
    (h : forall c, c ∈ name -> isBracketed c = false ∧ c ≠ '\x00') (inFlow : Bool) (start m : Mark)
    {tail : List Char} (htail : Character.gapOrEnd tail = true) :
    scan inFlow start ⟨m, name.flatMap charText ++ tail⟩ =
      .ok ⟨['!'], name.flatMap String.utf8EncodeChar,
        ⟨m.advance (name.flatMap charText).length, tail⟩⟩ := by
  have hnull := null_not_mem_name (fun c hc => (h c hc).2)
  rcases exists_encode hne with ⟨b, more, hencode⟩
  have hchars : forall d, d ∈ name.flatMap charText -> d ≠ '<' ∧ d ≠ '!' := by
    intro d hd
    rcases List.mem_flatMap.mp hd with ⟨c, -, hd⟩
    exact ⟨(mem_charText hd).2.1, (mem_charText hd).2.2.1⟩
  have hfirst : (name.flatMap charText ++ tail).head? ≠ some '<' := by
    cases name with
    | nil => exact absurd rfl hne
    | cons c name =>
        rcases exists_charText c with ⟨d, rest, htext⟩
        have hd := (hchars d (by simp [htext])).1
        simpa [htext] using hd
  have hlocal := scanLocal_name (fun c hc => (h c hc).1) start m
    ((name.flatMap charText ++ tail).takeWhile Character.isWord)
    (fun c hc => List.all_eq_true.mp List.all_takeWhile c hc) List.takeWhile_append_dropWhile htail
  generalize hbody : name.flatMap charText = body at *
  have hsees : Cursor.sees ⟨m, body ++ tail⟩ '<' = false := by
    rw [Cursor.sees, beq_eq_false_iff_ne]
    exact hfirst
  have hbang : (((body ++ tail).dropWhile Character.isWord).head? == some '!') = false := by
    rw [beq_eq_false_iff_ne]
    exact head?_dropWhile_ne (fun hmem => (hchars _ hmem).2 rfl) htail
  have hspan : Cursor.span Character.isWord ⟨m, body ++ tail⟩ =
      ((body ++ tail).takeWhile Character.isWord,
        ⟨m.advance ((body ++ tail).takeWhile Character.isWord).length,
          (body ++ tail).dropWhile Character.isWord⟩) := by
    have hskip := skip_words ((body ++ tail).takeWhile Character.isWord)
      (fun c hc => List.all_eq_true.mp List.all_takeWhile c hc) m
      ((body ++ tail).dropWhile Character.isWord)
    rw [List.takeWhile_append_dropWhile] at hskip
    simp only [Cursor.span, hskip]
  have hform : scanForm start ⟨m, body ++ tail⟩ =
      .ok ⟨['!'], name.flatMap String.utf8EncodeChar, ⟨m.advance body.length, tail⟩⟩ := by
    rw [scanForm, hsees]
    simp only [hspan, Cursor.sees, hbang, scanLocal, hlocal, cutNull_eq hnull]
    rw [hencode]
    rfl
  rw [scan, hform]
  simp [htail]

theorem scan_bang (inFlow : Bool) (start m : Mark) {tail : List Char}
    (htail : Character.gapOrEnd tail = true) :
    scan inFlow start ⟨m, '<' :: '%' :: '2' :: '1' :: '>' :: tail⟩ =
      .ok ⟨[], [33], ⟨m.advance 5, tail⟩⟩ := by
  have hgroup : readGroup ('%' :: '2' :: '1' :: '>' :: tail) = .ok [33] := rfl
  have hend : readUri true (.tagUri, start) [33] (((m.past '<').advance 3)) ('>' :: tail) =
      .ok ([33], ⟨(m.past '<').advance 3, '>' :: tail⟩) := by
    rw [readUri]
    rfl
  have hread : readUri1 true (.tagUri, start) ⟨m.past '<', '%' :: '2' :: '1' :: '>' :: tail⟩ =
      .ok ([33], ⟨(m.past '<').advance 3, '>' :: tail⟩) := by
    rw [← hend]
    exact readUri_escape hgroup true (.tagUri, start) [] (m.past '<')
  have hform : scanForm start ⟨m, '<' :: '%' :: '2' :: '1' :: '>' :: tail⟩ =
      .ok ⟨[], [33], ⟨m.advance 5, tail⟩⟩ := by
    change scanWhole start ⟨m.past '<', '%' :: '2' :: '1' :: '>' :: tail⟩ = _
    rw [scanWhole, hread]
    rfl
  rw [scan, hform]
  simp [htail]

theorem length_flatMap_escapeOctet_le (octets : Octets) :
    (octets.flatMap Layout.escapeOctet).length ≤ 3 * octets.length := by
  induction octets with
  | nil => exact Nat.le_refl 0
  | cons b octets ih =>
      have hb : (Layout.escapeOctet b).length ≤ 3 := by
        unfold Layout.escapeOctet
        simp only
        split <;> simp
      rw [List.flatMap_cons, List.length_append, List.length_cons]
      omega

/-- The spelling of a legible tag is visible, and is read as its token. -/
theorem scan_tagText {octets : Octets} (h : Legible octets) :
    exists spelling, Layout.tagText octets = '!' :: spelling ∧
      (forall c, c ∈ spelling -> 0x20 < c.toNat ∧ c.toNat < 0x7f) ∧
      spelling.length ≤ 3 * octets.length + 2 ∧
      forall (inFlow : Bool) (start m : Mark) {tail : List Char},
        Character.gapOrEnd tail = true ->
        exists o, scan inFlow start ⟨m, spelling ++ tail⟩ = .ok o ∧
          TokenKind.tag o.handle o.suffix = tokenKind octets ∧
          o.next = ⟨m.advance spelling.length, tail⟩ := by
  rcases h with ⟨name, rfl, hname⟩
  by_cases hne : name = []
  · subst hne
    refine ⟨['<', '%', '2', '1', '>'], rfl, ?_, by decide, ?_⟩
    · intro c hc
      simp only [List.mem_cons, List.not_mem_nil, or_false] at hc
      rcases hc with rfl | rfl | rfl | rfl | rfl <;> decide
    · intro inFlow start m tail htail
      exact ⟨_, scan_bang inFlow start m htail, rfl, rfl⟩
  · refine ⟨name.flatMap charText, tagText_name hne (fun c hc => (hname c hc).2), ?_, ?_, ?_⟩
    · intro d hd
      rcases List.mem_flatMap.mp hd with ⟨c, -, hd⟩
      exact (mem_charText hd).1
    · have hlength := length_flatMap_escapeOctet_le (name.flatMap String.utf8EncodeChar)
      rw [flatMap_charText] at hlength
      rw [List.length_cons]
      omega
    · intro inFlow start m tail htail
      rcases exists_encode hne with ⟨b, rest, hencode⟩
      refine ⟨_, scan_name hne hname inFlow start m htail, ?_, rfl⟩
      rw [hencode]
      rfl

theorem mem_tagText {octets : Octets} (h : Legible octets) {c : Char}
    (hc : c ∈ Layout.tagText octets) :
    0x20 < c.toNat ∧ c.toNat < 0x7f := by
  rcases scan_tagText h with ⟨spelling, htext, hvisible, -⟩
  rw [htext] at hc
  rcases List.mem_cons.mp hc with rfl | hc
  · decide
  · exact hvisible c hc

theorem length_tagText_le {octets : Octets} (h : Legible octets) :
    (Layout.tagText octets).length ≤ 3 * octets.length + 3 := by
  rcases scan_tagText h with ⟨spelling, htext, -, hlength, -⟩
  rw [htext, List.length_cons]
  omega

theorem through_tagText {octets : Octets} (h : Legible octets) (m : Mark) :
    m.through (Layout.tagText octets) = m.advance (Layout.tagText octets).length :=
  Mark.through_visible (fun _ hc => mem_tagText h hc)

end TagSpelling
end Yaml
end Clippings
