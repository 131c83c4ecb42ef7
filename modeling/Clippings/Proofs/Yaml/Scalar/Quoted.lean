import Clippings.Proofs.Yaml.Scalar.Style
import Clippings.Yaml.Token.Quoted

/-!
# Quoted text read back

What stands between quotes reads back as the text it was made from.  Only separator characters break
the lines of single-quoted text here, and the indentation after them vanishes.
-/

namespace Clippings
namespace Yaml

/-!
## Gaps
-/

namespace Gap

inductive Kept : Gap -> Prop where
  | none : Kept .none
  | blanks (run : List Char) : Kept (.blanks run)
  | lines {b : Char} (more : List Char) : b ≠ '\n' -> Kept (.lines (some b) more)

theorem content_lines {b : Char} (h : b ≠ '\n') (more : List Char) :
    content (.lines (some b) more) = b :: more.reverse := by
  unfold content
  split <;> simp_all

theorem content_addBlank {g : Gap} {c : Char} (h : g.isLines = false) :
    (g.addBlank c).content = g.content ++ [c] := by
  cases g with
  | none => rfl
  | blanks run => simp [addBlank, content]
  | lines first more => cases h

theorem content_addBreak {g : Gap} {c : Char} (hg : g.isNone = true ∨ g.isLines = true)
    (hk : g.Kept) (hc : Cursor.breakContent c = c) (hne : c ≠ '\n') :
    (g.addBreak c).content = g.content ++ [c] := by
  cases hk with
  | none =>
      rw [addBreak, hc, content_lines hne]
      · rfl
      · simp
  | blanks run => simp [isNone, isLines] at hg
  | lines more hb => rw [addBreak, hc, content_lines hb, content_lines hb]; simp

theorem kept_addBlank {g : Gap} (c : Char) (h : g.Kept) :
    (g.addBlank c).Kept := by
  cases h with
  | none => exact .blanks _
  | blanks run => exact .blanks _
  | lines more hb => exact .lines more hb

theorem kept_addBreak {g : Gap} {c : Char} (h : g.Kept) (hc : Cursor.breakContent c = c)
    (hne : c ≠ '\n') :
    (g.addBreak c).Kept ∧ (g.addBreak c).isLines = true := by
  cases h with
  | none =>
      rw [addBreak, hc]
      · exact ⟨.lines [] hne, rfl⟩
      · simp
  | blanks run =>
      rw [addBreak, hc]
      · exact ⟨.lines [] hne, rfl⟩
      · simp
  | lines more hb => exact ⟨.lines _ hb, rfl⟩

end Gap

namespace QuotedScalar

theorem hitsDocument_of_column {g : Gap} {m : Mark} (h : g.isNone = true ∨ 0 < m.column)
    (cs : List Char) :
    hitsDocument g m cs = false := by
  unfold hitsDocument
  rcases h with h | h
  · rw [h]
    rfl
  · have hne : (m.column == 0) = false := by
      rw [beq_eq_false_iff_ne]
      omega
    rw [hne, Bool.and_false, Bool.false_and]

/-!
## Single quotes
-/

theorem scanSingle_indent {g : Gap} (hg : g.isLines = true) (start : Mark) (text : List Char)
    (m : Mark) (n : Nat) (rest : List Char) :
    scanSingle start text g m (Layout.indent n ++ rest) =
      scanSingle start text g (m.through (Layout.indent n)) rest := by
  induction n generalizing m with
  | zero => rfl
  | succ n ih =>
      have hsame : g.addBlank ' ' = g := by
        cases g with
        | lines first more => rfl
        | none => cases hg
        | blanks run => cases hg
      have hcons : Layout.indent (n + 1) = ' ' :: Layout.indent n := rfl
      rw [hcons, List.cons_append, scanSingle]
      · simp only [show Character.isBlank ' ' = true from rfl, hsame]
        exact ih (m.past ' ')
      · simp

theorem scanSingle_other {start m : Mark} {text rest : List Char} {g : Gap} {c : Char}
    (hquote : c ≠ '\'') (hblank : Character.isBlank c = false)
    (hbreak : Character.isBreak c = false) (hcolumn : g.isNone = true ∨ 0 < m.column) :
    scanSingle start text g m (c :: rest) =
      scanSingle start (c :: (g.content.reverse ++ text)) .none (m.past c) rest := by
  have hreturn : c ≠ '\r' := by
    intro heq
    subst heq
    cases hbreak
  rw [scanSingle]
  · simp [hquote, hblank, hbreak, hreturn, hitsDocument_of_column hcolumn]
  · intro _ h
    exact absurd h hquote

theorem scanSingle_break {start m : Mark} {text rest : List Char} {g : Gap} {c : Char}
    (hprint : Character.isPrintable c = true) (hbreak : Character.isBreak c = true) :
    scanSingle start text g m (c :: rest) =
      scanSingle start text (g.addBreak c) (m.across c) rest := by
  have hreturn := Character.ne_return_of_printable hprint
  have hquote : c ≠ '\'' := by
    intro heq
    subst heq
    cases hbreak
  have hblank : Character.isBlank c = false := by
    apply Character.not_blank_of_printable hprint
    intro heq
    subst heq
    cases hbreak
  rw [scanSingle]
  · simp [hquote, hblank, hbreak, hreturn, Mark.across_of_break]
  · intro _ h
    exact absurd h hquote

def singlePiece (n : Nat) (afterBreak : Bool) (c : Char) : List Char :=
  if Character.isBreak c then if !afterBreak && c == '\n' then ['\n', c] else [c]
  else (if afterBreak then Layout.indent n else []) ++ (if c == '\'' then ['\'', '\''] else [c])

theorem singleQuotedBody_cons (n : Nat) (afterBreak : Bool) (c : Char) (s : List Char) :
    Layout.singleQuotedBody n afterBreak (c :: s) =
      singlePiece n afterBreak c ++ Layout.singleQuotedBody n (Character.isBreak c) s := by
  rw [Layout.singleQuotedBody, singlePiece]
  cases Character.isBreak c <;> simp

structure Before (g : Gap) (m : Mark) (s : List Char) : Prop where
  kept : g.Kept
  lines : g.isLines = true -> s.head? ≠ some ' '
  blanks : g.isNone = false -> g.isLines = false -> s.head?.any Character.isBreak = false
  column : g.isNone = true ∨ g.isLines = true ∨ 0 < m.column

theorem Before.none (m : Mark) (s : List Char) :
    Before .none m s :=
  ⟨.none, by simp [Gap.isLines], by simp [Gap.isNone], Or.inl rfl⟩

theorem Before.scanSingle_indent {g : Gap} {m : Mark} {s : List Char} (h : Before g m s) {n : Nat}
    (hn : 0 < n) (start : Mark) (text : List Char) :
    exists m', m' = m.through (if g.isLines then Layout.indent n else []) ∧
      (forall rest, scanSingle start text g m
        ((if g.isLines then Layout.indent n else []) ++ rest) = scanSingle start text g m' rest) ∧
      (g.isNone = true ∨ 0 < m'.column) := by
  refine ⟨_, rfl, ?_⟩
  cases hl : g.isLines with
  | true =>
      constructor
      · exact QuotedScalar.scanSingle_indent hl start text m n
      · apply Or.inr
        rw [if_pos rfl, Mark.through_indent]
        exact Nat.lt_of_lt_of_le hn (Nat.le_add_left _ _)
  | false =>
      constructor
      · intro rest
        exact rfl
      · rcases h.column with hc | hc | hc
        · exact Or.inl hc
        · rw [hl] at hc
          cases hc
        · exact Or.inr hc

/-- Reading goes past what is written for a character, and keeps the character. -/
def Keeps (start : Mark) (text : List Char) (g : Gap) (m : Mark) (written : List Char) (c : Char)
    (s : List Char) : Prop :=
  exists text' g',
    (forall rest, scanSingle start text g m (written ++ rest) =
      scanSingle start text' g' (m.through written) rest) ∧
    text'.reverse ++ g'.content = text.reverse ++ (g.content ++ [c]) ∧
    g'.isLines = Character.isBreak c ∧ Before g' (m.through written) s

theorem keeps_break (n : Nat) (start : Mark) (text : List Char) {g : Gap} {m : Mark} {c : Char}
    {s : List Char} (hg : Before g m (c :: s)) (hprint : Character.isPrintable c = true)
    (hfeed : c ≠ '\n') (hbreak : Character.isBreak c = true) (hnext : s.head? ≠ some ' ') :
    Keeps start text g m (singlePiece n g.isLines c) c s := by
  have hcontent := Character.breakContent_of_printable hprint hbreak
  have hnone : g.isNone = true ∨ g.isLines = true := by
    cases hnone : g.isNone with
    | true => exact Or.inl rfl
    | false =>
        cases hl : g.isLines with
        | true => exact Or.inr rfl
        | false => exact absurd (hg.blanks hnone hl) (by simp [hbreak])
  rcases Gap.kept_addBreak hg.kept hcontent hfeed with ⟨hk, hl⟩
  have hpiece : singlePiece n g.isLines c = [c] := by
    simp [singlePiece, hbreak, hfeed]
  rw [hpiece]
  refine ⟨text, g.addBreak c, fun rest => scanSingle_break hprint hbreak, ?_, ?_, hk, ?_, ?_,
    Or.inr (Or.inl hl)⟩
  · rw [Gap.content_addBreak hnone hg.kept hcontent hfeed]
  · rw [hl, hbreak]
  · intro _
    exact hnext
  · intro _ h
    rw [hl] at h
    cases h

theorem keeps_space (n : Nat) (start : Mark) (text : List Char) {g : Gap} {m : Mark} {s : List Char}
    (hg : Before g m (' ' :: s)) (hnext : s.head?.any Character.isBreak = false) :
    Keeps start text g m (singlePiece n g.isLines ' ') ' ' s := by
  have hl : g.isLines = false := by
    cases hl : g.isLines with
    | false => rfl
    | true => exact absurd rfl (hg.lines hl)
  rw [hl]
  refine ⟨text, g.addBlank ' ', ?_, ?_, ?_, Gap.kept_addBlank ' ' hg.kept, ?_, fun _ _ => hnext,
    Or.inr (Or.inr (Nat.succ_pos _))⟩
  · intro rest
    change scanSingle start text g m (' ' :: rest) = _
    rw [scanSingle]
    · rfl
    · intro _ h
      cases h
  · rw [Gap.content_addBlank hl]
  · cases g with
    | none => rfl
    | blanks run => rfl
    | lines first more => cases hl
  · intro hl'
    cases g with
    | none => cases hl'
    | blanks run => cases hl'
    | lines first more => cases hl

theorem keeps_other {n : Nat} (hn : 0 < n) (start : Mark) (text : List Char) {g : Gap} {m : Mark}
    {c : Char} {s : List Char} (hg : Before g m (c :: s)) (hbreak : Character.isBreak c = false)
    (hblank : Character.isBlank c = false) :
    Keeps start text g m (singlePiece n g.isLines c) c s := by
  rcases hg.scanSingle_indent hn start text with ⟨m', hm', hstep, hcolumn⟩
  have hgone : text.reverse ++ (g.content ++ [c]) =
      (c :: (g.content.reverse ++ text)).reverse ++ Gap.content .none := by
    simp [Gap.content]
  unfold Keeps singlePiece
  simp only [hbreak, Bool.false_eq_true, if_false, Mark.through_append, ← hm', List.append_assoc,
    hstep]
  refine ⟨_, .none, ?_, hgone.symm, rfl, Before.none _ s⟩
  intro rest
  by_cases hquote : c = '\''
  · subst hquote
    rw [BEq.rfl, if_pos rfl, List.cons_append, List.cons_append, List.nil_append, scanSingle]
    rfl
  · rw [if_neg (by simpa using hquote), List.cons_append, List.nil_append,
      scanSingle_other hquote hblank hbreak hcolumn, Mark.through_cons, Mark.through_nil,
      Mark.across_of_not_break hbreak]

theorem scanSingle_piece {n : Nat} (hn : 0 < n) (start : Mark) (text : List Char) {g : Gap}
    {m : Mark} {c : Char} {s : List Char} (hg : Before g m (c :: s))
    (hprint : Character.isPrintable c = true) (hfeed : c ≠ '\n')
    (hbefore : Style.hasBreakSpace (c :: s) = false)
    (hafter : Style.hasSpaceBreak (c :: s) = false) :
    Keeps start text g m (singlePiece n g.isLines c) c s := by
  cases hbreak : Character.isBreak c with
  | true =>
      apply keeps_break n start text hg hprint hfeed hbreak
      intro h
      have hpair := (Style.hasPair_cons_eq_false hbefore).1
      rw [h] at hpair
      simp [hbreak] at hpair
  | false =>
      by_cases hspace : c = ' '
      · subst hspace
        have hpair := (Style.hasPair_cons_eq_false hafter).1
        exact keeps_space n start text hg (by simpa using hpair)
      · exact keeps_other hn start text hg hbreak (Character.not_blank_of_printable hprint hspace)

theorem scanSingle_body {n : Nat} (hn : 0 < n) (start : Mark) {s tail : List Char}
    (htail : tail.head? ≠ some '\'') (hspecial : Style.hasSpecial s = false)
    (hbefore : Style.hasBreakSpace s = false) (hafter : Style.hasSpaceBreak s = false)
    (hfeed : '\n' ∉ s) (text : List Char) {g : Gap} {m : Mark} (hg : Before g m s) :
    scanSingle start text g m (Layout.singleQuotedBody n g.isLines s ++ '\'' :: tail) =
      .ok ⟨text.reverse ++ g.content ++ s,
        ⟨m.through (Layout.singleQuotedBody n g.isLines s ++ ['\'']), tail⟩⟩ := by
  induction s generalizing text g m with
  | nil =>
      rcases hg.scanSingle_indent hn start text with ⟨m', hm', hstep, -⟩
      rw [Layout.singleQuotedBody, hstep, Mark.through_append, ← hm', scanSingle]
      · simp
        rfl
      · intro rest _ h
        rw [h] at htail
        exact htail rfl
  | cons c s ih =>
      rcases Style.hasSpecial_cons_eq_false hspecial with ⟨hprint, hspecial⟩
      rw [List.mem_cons, not_or] at hfeed
      rcases scanSingle_piece hn start text hg hprint (Ne.symm hfeed.1) hbefore hafter with
        ⟨text', g', hstep, hcontent, hlines, hg'⟩
      have hrest := ih hspecial (Style.hasPair_cons_eq_false hbefore).2
        (Style.hasPair_cons_eq_false hafter).2 hfeed.2 text' hg'
      rw [hlines, hcontent] at hrest
      rw [singleQuotedBody_cons, List.append_assoc, hstep, hrest,
        List.append_assoc (singlePiece n _ c), Mark.through_append m]
      simp

/-- A text between single quotes reads back as itself. -/
theorem scan_singleQuoted {n : Nat} (hn : 0 < n) (start : Mark) (m : Mark) {s tail : List Char}
    (hs : Style.singleAllowed s = true) (hfeed : '\n' ∉ s) (htail : tail.head? ≠ some '\'') :
    scan .singleQuoted start ⟨m, Layout.singleQuotedBody n false s ++ '\'' :: tail⟩ =
      .ok ⟨s, ⟨m.through (Layout.singleQuotedBody n false s ++ ['\'']), tail⟩⟩ := by
  simp only [Style.singleAllowed, Bool.not_eq_true', Bool.or_eq_false_iff] at hs
  rcases hs with ⟨⟨hbefore, hafter⟩, hspecial⟩
  have := scanSingle_body hn start htail hspecial hbefore hafter hfeed [] (Before.none m s)
  rw [scan]
  simpa [Gap.content, Gap.isLines] using this

/-!
## Escapes
-/

theorem hexValue?_hexDigit {d : Nat} (h : d < 16) :
    Character.hexValue? (Character.hexDigit d) = some d := by
  have hall : forall d : Fin 16, Character.hexValue? (Character.hexDigit d) = some d.val := by
    decide
  exact hall ⟨d, h⟩

theorem length_hexDigits (n code : Nat) :
    (Layout.hexDigits n code).length = n := by
  induction n generalizing code with
  | zero => rfl
  | succ n ih => simp [Layout.hexDigits, ih]

theorem foldl_hexDigits (n code acc : Nat) :
    (Layout.hexDigits n code).foldl
      (fun code? c => code?.bind fun code => (Character.hexValue? c).map (code * 16 + ·))
        (some acc) =
        some (acc * Nat.pow 16 n + code % Nat.pow 16 n) := by
  induction n generalizing code acc with
  | zero => simp [Layout.hexDigits, Nat.mod_one]
  | succ n ih =>
      have hlast := hexValue?_hexDigit (Nat.mod_lt code (Nat.succ_pos 15))
      have hpow : Nat.pow 16 (n + 1) = Nat.pow 16 n * 16 := rfl
      have hmod : code % Nat.pow 16 (n + 1) = code % 16 + 16 * (code / 16 % Nat.pow 16 n) := by
        rw [hpow, Nat.mul_comm, Nat.mod_mul]
      simp only [Layout.hexDigits, List.foldl_append, ih, List.foldl_cons, List.foldl_nil,
        Option.bind_some, hlast, Option.map_some, Option.some.injEq]
      rw [hmod, hpow, Nat.add_mul, Nat.mul_assoc]
      omega

theorem hexCode?_hexDigits {n code : Nat} (h : code < Nat.pow 16 n) (rest : List Char) :
    hexCode? n (Layout.hexDigits n code ++ rest) = some code := by
  have htake : (Layout.hexDigits n code ++ rest).take n = Layout.hexDigits n code := by
    rw [List.take_append_of_le_length (Nat.le_of_eq (length_hexDigits n code).symm)]
    exact List.take_of_length_le (Nat.le_of_eq (length_hexDigits n code))
  unfold hexCode?
  rw [htake, length_hexDigits, if_neg (Nat.lt_irrefl n), foldl_hexDigits,
    Nat.zero_mul, Nat.zero_add, Nat.mod_eq_of_lt h]

theorem codeChar?_toNat (c : Char) :
    codeChar? c.toNat = some c := by
  have hvalid : c.toNat.isValidChar := c.valid
  rw [codeChar?, if_pos hvalid, Char.ofNat_toNat]

theorem simpleEscape?_of_escapeLetter? {c letter : Char}
    (h : Layout.escapeLetter? c = some letter) :
    simpleEscape? letter = some c := by
  unfold Layout.escapeLetter? at h
  split at h <;> cases h <;> rfl

def escapeTail (c : Char) : List Char :=
  (Layout.escape c).tail

theorem escape_eq (c : Char) :
    Layout.escape c = '\\' :: escapeTail c := rfl

theorem readEscape_escapeTail (c : Char) (rest : List Char) :
    readEscape (escapeTail c ++ rest) = .ok (c, (escapeTail c).length) := by
  have hcode : forall (sign : Char) (n : Nat), simpleEscape? sign = none ->
      codeLength? sign = some n -> c.toNat < Nat.pow 16 n ->
      readEscape (sign :: Layout.hexDigits n c.toNat ++ rest) =
        .ok (c, (sign :: Layout.hexDigits n c.toNat).length) := by
    intro sign n hsimple hlength hlt
    rw [List.cons_append, readEscape]
    simp only [hsimple, hlength, hexCode?_hexDigits hlt, codeChar?_toNat]
    rw [List.length_cons, length_hexDigits]
  have hbound : c.toNat < Nat.pow 16 8 := by
    have := c.val.toNat_lt
    exact Nat.lt_of_lt_of_le this (by decide)
  unfold escapeTail Layout.escape
  rw [List.tail_cons]
  cases hletter : Layout.escapeLetter? c with
  | some letter =>
      rw [List.cons_append, readEscape]
      simp only [simpleEscape?_of_escapeLetter? hletter]
      rfl
  | none =>
      simp only
      split
      · next h => exact hcode 'x' 2 rfl rfl (Nat.lt_of_le_of_lt h (by decide))
      · split
        · next h => exact hcode 'u' 4 rfl rfl (Nat.lt_of_le_of_lt h (by decide))
        · exact hcode 'U' 8 rfl rfl hbound

theorem mem_hexDigits {n code : Nat} {d : Char} (h : d ∈ Layout.hexDigits n code) :
    0x20 < d.toNat ∧ d.toNat < 0x7f := by
  have hall : forall d : Fin 16,
      0x20 < (Character.hexDigit d).toNat ∧ (Character.hexDigit d).toNat < 0x7f := by
    decide
  induction n generalizing code with
  | zero => cases h
  | succ n ih =>
      rw [Layout.hexDigits, List.mem_append, List.mem_singleton] at h
      rcases h with h | rfl
      · exact ih h
      · exact hall ⟨code % 16, Nat.mod_lt code (Nat.succ_pos 15)⟩

theorem mem_escapeTail {c d : Char} (h : d ∈ escapeTail c) :
    0x20 < d.toNat ∧ d.toNat < 0x7f := by
  unfold escapeTail Layout.escape at h
  rw [List.tail_cons] at h
  split at h
  · rename_i letter hletter
    rw [List.mem_singleton] at h
    subst h
    unfold Layout.escapeLetter? at hletter
    split at hletter <;> cases hletter <;> decide
  · split at h
    · rcases List.mem_cons.mp h with rfl | h
      · decide
      · exact mem_hexDigits h
    · split at h
      · rcases List.mem_cons.mp h with rfl | h
        · decide
        · exact mem_hexDigits h
      · rcases List.mem_cons.mp h with rfl | h
        · decide
        · exact mem_hexDigits h

theorem escapeTail_ne_nil (c : Char) :
    escapeTail c ≠ [] := by
  unfold escapeTail Layout.escape
  rw [List.tail_cons]
  split
  · simp
  · split
    · simp
    · split <;> simp

end QuotedScalar

namespace Character

theorem not_break_of_visible {c : Char} (h : 0x20 < c.toNat ∧ c.toNat < 0x7f) :
    isBreak c = false := by
  simp only [isBreak, Bool.or_eq_false_iff, beq_eq_false_iff_ne, ne_eq]
  refine ⟨⟨⟨⟨?_, ?_⟩, ?_⟩, ?_⟩, ?_⟩ <;>
    · intro heq
      subst heq
      revert h
      decide

theorem utf8Size_of_visible {c : Char} (h : 0x20 < c.toNat ∧ c.toNat < 0x7f) :
    c.utf8Size = 1 := by
  unfold Char.utf8Size
  rw [if_pos]
  have hle : c.val.toNat ≤ 0x7f := Nat.le_of_lt h.2
  exact UInt32.le_iff_toNat_le.mpr hle

end Character

theorem Mark.through_visible {m : Mark} {cs : List Char}
    (h : forall c, c ∈ cs -> 0x20 < c.toNat ∧ c.toNat < 0x7f) :
    m.through cs = m.advance cs.length := by
  induction cs generalizing m with
  | nil => rfl
  | cons c cs ih =>
      have hc := h c List.mem_cons_self
      rw [through_cons, across_of_not_break (Character.not_break_of_visible hc),
        ih (fun d hd => h d (List.mem_cons_of_mem c hd))]
      simp only [advance, past, Character.utf8Size_of_visible hc, List.length_cons, Mark.mk.injEq,
        true_and]
      omega

namespace QuotedScalar

/-!
## Double quotes
-/

def doublePiece (c : Char) : List Char :=
  if Layout.needsEscape c then Layout.escape c else [c]

theorem scanDouble_escape {start m : Mark} {text : List Char} {g : Gap} (c : Char)
    (hcolumn : g.isNone = true ∨ 0 < m.column) (rest : List Char) :
    scanDouble start text g m (Layout.escape c ++ rest) =
      scanDouble start (c :: (g.content.reverse ++ text)) .none (m.through (Layout.escape c))
        rest := by
  have hvisible : forall d, d ∈ Layout.escape c -> 0x20 < d.toNat ∧ d.toNat < 0x7f := by
    intro d hd
    rw [escape_eq] at hd
    rcases List.mem_cons.mp hd with rfl | hd
    · decide
    · exact mem_escapeTail hd
  have hhead : (escapeTail c ++ rest).head?.any Character.isBreak = false := by
    cases htail : escapeTail c with
    | nil => exact absurd htail (escapeTail_ne_nil c)
    | cons d ds =>
        have hd : d ∈ escapeTail c := by
          rw [htail]
          exact List.mem_cons_self
        simpa using Character.not_break_of_visible (mem_escapeTail hd)
  rw [Mark.through_visible hvisible, escape_eq, List.cons_append, scanDouble]
  simp only [show ('\\' == '"') = false from rfl, show Character.isBlank '\\' = false from rfl,
    show ('\\' == '\r') = false from rfl, show Character.isBreak '\\' = false from rfl,
    hitsDocument_of_column hcolumn, BEq.rfl, Bool.false_eq_true, if_false, if_true, Bool.false_and,
    hhead, readEscape_escapeTail, List.drop_left, List.length_cons]

theorem scanDouble_other {start m : Mark} {text rest : List Char} {g : Gap} {c : Char}
    (hescape : Layout.needsEscape c = false) (hspace : c ≠ ' ')
    (hcolumn : g.isNone = true ∨ 0 < m.column) :
    scanDouble start text g m (c :: rest) =
      scanDouble start (c :: (g.content.reverse ++ text)) .none (m.past c) rest := by
  simp only [Layout.needsEscape, Bool.or_eq_false_iff, Bool.not_eq_false',
    beq_eq_false_iff_ne] at hescape
  rcases hescape with ⟨⟨⟨hprint, hbreak⟩, hquote⟩, hslash⟩
  have hblank := Character.not_blank_of_printable hprint hspace
  have hreturn := Character.ne_return_of_printable hprint
  rw [scanDouble]
  simp [hquote, hblank, hreturn, hbreak, hitsDocument_of_column hcolumn, hslash]

theorem scanDouble_body (start : Mark) (s tail : List Char) (text : List Char) {g : Gap} {m : Mark}
    (hlines : g.isLines = false) (hcolumn : g.isNone = true ∨ 0 < m.column) :
    scanDouble start text g m (Layout.doubleQuotedBody s ++ '"' :: tail) =
      .ok ⟨text.reverse ++ g.content ++ s,
        ⟨m.through (Layout.doubleQuotedBody s ++ ['"']), tail⟩⟩ := by
  induction s generalizing text g m with
  | nil =>
      rw [Layout.doubleQuotedBody, List.flatMap_nil, List.nil_append, scanDouble]
      simp
      rfl
  | cons c s ih =>
      have hcons : Layout.doubleQuotedBody (c :: s) =
          doublePiece c ++ Layout.doubleQuotedBody s := rfl
      rw [hcons, List.append_assoc (doublePiece c), List.append_assoc (doublePiece c) _ ['"'],
        Mark.through_append m]
      unfold doublePiece
      cases hescape : Layout.needsEscape c with
      | true =>
          rw [if_pos rfl, scanDouble_escape c hcolumn, ih _ rfl (Or.inl rfl)]
          simp [Gap.content]
      | false =>
          rw [if_neg Bool.false_ne_true]
          have hbreak : Character.isBreak c = false := by
            simp only [Layout.needsEscape, Bool.or_eq_false_iff] at hescape
            exact hescape.1.1.2
          rw [List.cons_append, List.nil_append, Mark.through_cons, Mark.through_nil,
            Mark.across_of_not_break hbreak]
          by_cases hspace : c = ' '
          · have hg : (g.addBlank c).isLines = false := by
              cases g with
              | none => rfl
              | blanks run => rfl
              | lines first more => cases hlines
            have hstep : scanDouble start text g m
                (c :: (Layout.doubleQuotedBody s ++ '"' :: tail)) =
                scanDouble start text (g.addBlank c) (m.past c)
                  (Layout.doubleQuotedBody s ++ '"' :: tail) := by
              rw [scanDouble, hspace]
              rfl
            rw [hstep, ih _ hg (Or.inr (Nat.succ_pos _)), Gap.content_addBlank hlines]
            simp
          · rw [scanDouble_other hescape hspace hcolumn, ih _ rfl (Or.inl rfl)]
            simp [Gap.content]

/-- A text between double quotes reads back as itself. -/
theorem scan_doubleQuoted (start m : Mark) (s tail : List Char) :
    scan .doubleQuoted start ⟨m, Layout.doubleQuotedBody s ++ '"' :: tail⟩ =
      .ok ⟨s, ⟨m.through (Layout.doubleQuotedBody s ++ ['"']), tail⟩⟩ := by
  have := scanDouble_body start s tail [] (g := .none) (m := m) rfl (Or.inl rfl)
  simpa [scan, Gap.content] using this

end QuotedScalar
end Yaml
end Clippings
