import Clippings.Proofs.Yaml.Scalar.Quoted

/-!
# Plain text read back

Plain text is read up to its last character, since no indicator in it ends it.  What ends it is the
colon after a key, or a line that starts further out.
-/

namespace Clippings
namespace Yaml
namespace PlainScalar

theorem hasIndicator_cons_eq_false {a b : Char} {s : List Char}
    (h : Style.hasIndicator (a :: b :: s) = false) :
    (b = ':' -> Character.gapOrEnd s = false) ∧ (b = '#' -> Character.isGap a = false) ∧
      Style.hasIndicator (b :: s) = false := by
  rw [Style.hasIndicator, Bool.or_eq_false_iff, Bool.or_eq_false_iff, Bool.and_eq_false_iff,
    Bool.and_eq_false_iff] at h
  refine ⟨?_, ?_, h.2⟩
  · intro heq
    subst heq
    simpa using h.1.1
  · intro heq
    subst heq
    simpa using h.1.2

theorem gapOrEnd_append {s : List Char} (h : Character.gapOrEnd s = false) (tail : List Char) :
    Character.gapOrEnd (s ++ tail) = false := by
  cases s with
  | nil => cases h
  | cons c s => exact h

/-- In the middle of plain text, the character before being `prev`. -/
structure Inside (s : Setting) (p : Progress) (m : Mark) (prev : Char) (cs : List Char) : Prop where
  inBlock : s.inFlow = false
  indicator : Style.hasIndicator (prev :: cs) = false
  special : Style.hasSpecial cs = false
  oneLine : Style.isMultiline cs = false
  last : (prev :: cs).getLast? ≠ some ' '
  gap : p.gap.isLines = false
  blank : p.gap.isNone = false -> prev = ' '
  /-- Only a blank separates the last character from here. -/
  stop : p.gap.isNone = true -> p.stop = m
  column : 0 < m.column
  least : s.least ≤ m.column

namespace Inside

variable {s : Setting} {p : Progress} {m : Mark} {prev c : Char} {cs : List Char}

theorem oneLine_cons (h : Inside s p m prev (c :: cs)) :
    Character.isBreak c = false ∧ Style.isMultiline cs = false := by
  have hline := h.oneLine
  rwa [Style.isMultiline, List.any_cons, Bool.or_eq_false_iff] at hline

theorem past_eq (h : Inside s p m prev (c :: cs)) :
    m.past c = m.across c :=
  (Mark.across_of_not_break h.oneLine_cons.1).symm

theorem last_cons (h : Inside s p m prev (c :: cs)) :
    (c :: cs).getLast? ≠ some ' ' := by
  have := h.last
  rwa [List.getLast?_cons_cons] at this

theorem space (h : Inside s p m prev (' ' :: cs)) :
    Inside s { p with gap := p.gap.addBlank ' ' } (m.past ' ') ' ' cs := by
  have hgap : (p.gap.addBlank ' ').isLines = false ∧ (p.gap.addBlank ' ').isNone = false := by
    have := h.gap
    cases hg : p.gap with
    | none => exact ⟨rfl, rfl⟩
    | blanks run => exact ⟨rfl, rfl⟩
    | lines first more =>
        rw [hg] at this
        cases this
  constructor
  · exact h.inBlock
  · exact (hasIndicator_cons_eq_false h.indicator).2.2
  · exact (Style.hasSpecial_cons_eq_false h.special).2
  · exact h.oneLine_cons.2
  · exact h.last_cons
  · exact hgap.1
  · intro _
    rfl
  · intro hnone
    simp [hgap.2] at hnone
  · exact Nat.succ_pos _
  · exact Nat.le_succ_of_le h.least

theorem scanFrom_space (h : Inside s p m prev (' ' :: cs)) (rest : List Char) :
    scanFrom s p m (' ' :: rest) =
      scanFrom s { p with gap := p.gap.addBlank ' ' } (m.past ' ') rest := by
  have htab : (p.gap.isLines && decide (m.column < s.least) && ' ' == '\t') = false := by
    rw [h.gap]
    rfl
  rw [scanFrom, if_pos (by rfl), htab, if_neg Bool.false_ne_true]

theorem visible (h : Inside s p m prev (c :: cs)) :
    Inside s ⟨c :: (p.gap.content.reverse ++ p.text), .none, m.past c⟩ (m.past c) c cs :=
  ⟨h.inBlock, (hasIndicator_cons_eq_false h.indicator).2.2,
    (Style.hasSpecial_cons_eq_false h.special).2, h.oneLine_cons.2, h.last_cons, rfl,
    fun hnone => absurd hnone (by simp [Gap.isNone]), fun _ => rfl, Nat.succ_pos _,
    Nat.le_succ_of_le h.least⟩

theorem stopsAfterGap_eq (h : Inside s p m prev (c :: cs)) (rest : List Char) :
    stopsAfterGap s p m c rest = false := by
  unfold stopsAfterGap
  cases hg : p.gap.isNone with
  | true => rfl
  | false =>
      have hne : c ≠ '#' := by
        intro heq
        subst heq
        have := (hasIndicator_cons_eq_false h.indicator).2.1 rfl
        rw [h.blank hg] at this
        cases this
      have hzero : (m.column == 0) = false := by
        rw [beq_eq_false_iff_ne]
        exact Nat.ne_of_gt h.column
      have hleast := Nat.not_lt.mpr h.least
      simp [hne, hzero, hleast]

theorem endsHere_eq (h : Inside s p m prev (c :: cs)) (tail : List Char) :
    endsHere s c (cs ++ tail) = false := by
  unfold endsHere
  rw [h.inBlock, Bool.false_and, Bool.or_false, Bool.and_eq_false_iff]
  by_cases hc : c = ':'
  · exact Or.inr (gapOrEnd_append ((hasIndicator_cons_eq_false h.indicator).1 hc) tail)
  · exact Or.inl (by simpa using hc)

theorem scanFrom_visible (h : Inside s p m prev (c :: cs)) (hspace : c ≠ ' ') (tail : List Char) :
    scanFrom s p m (c :: (cs ++ tail)) =
      scanFrom s ⟨c :: (p.gap.content.reverse ++ p.text), .none, m.past c⟩ (m.past c)
        (cs ++ tail) := by
  have hprint := (Style.hasSpecial_cons_eq_false h.special).1
  have hreturn := Character.ne_return_of_printable hprint
  have hclash : colonClash s c (cs ++ tail) = false := by
    rw [colonClash, h.inBlock]
    rfl
  rw [scanFrom, Character.not_blank_of_printable hprint hspace, if_neg Bool.false_ne_true,
    if_neg (by simp [hreturn]), h.oneLine_cons.1, if_neg Bool.false_ne_true, h.stopsAfterGap_eq,
    if_neg Bool.false_ne_true, hclash, if_neg Bool.false_ne_true, h.endsHere_eq,
    if_neg Bool.false_ne_true]

end Inside

theorem scanFrom_text {s : Setting} {p : Progress} {m : Mark} {prev : Char} {cs : List Char}
    (h : Inside s p m prev cs) (tail : List Char) :
    scanFrom s p m (cs ++ tail) =
      scanFrom s ⟨cs.reverse ++ (p.gap.content.reverse ++ p.text), .none, m.through cs⟩
        (m.through cs) tail := by
  induction cs generalizing p m prev with
  | nil =>
      have hnone : p.gap.isNone = true := by
        cases hg : p.gap.isNone with
        | true => rfl
        | false => exact absurd (by rw [h.blank hg]; rfl) h.last
      rcases p with ⟨text, gap, stop⟩
      cases gap with
      | none =>
          have hstop : stop = m := h.stop rfl
          rw [hstop]
          rfl
      | blanks run => cases hnone
      | lines first more => cases hnone
  | cons c cs ih =>
      rw [List.cons_append, Mark.through_cons, ← h.past_eq]
      by_cases hspace : c = ' '
      · subst hspace
        rw [h.scanFrom_space, ih h.space, Gap.content_addBlank h.gap]
        simp
      · rw [h.scanFrom_visible hspace, ih h.visible]
        simp [Gap.content]

/-!
## Where plain text ends
-/

theorem scanFrom_colon {s : Setting} (hs : s.inFlow = false) {p : Progress} (hp : p.gap = .none)
    (m : Mark) {tail : List Char} (htail : Character.gapOrEnd tail = true) :
    scanFrom s p m (':' :: tail) = .ok (p.finish ⟨m, ':' :: tail⟩) := by
  have hstops : stopsAfterGap s p m ':' tail = false := by
    rw [stopsAfterGap, hp]
    rfl
  have hclash : colonClash s ':' tail = false := by
    rw [colonClash, hs]
    rfl
  have hends : endsHere s ':' tail = true := by
    rw [endsHere, htail]
    rfl
  rw [scanFrom, hstops, hclash, hends]
  rfl

theorem scanFrom_indent (s : Setting) {p : Progress} (hp : p.gap.isLines = true) (m : Mark)
    (n : Nat) (rest : List Char) :
    scanFrom s p m (Layout.indent n ++ rest) = scanFrom s p (m.through (Layout.indent n)) rest := by
  induction n generalizing m with
  | zero => rfl
  | succ n ih =>
      have hsame : { p with gap := p.gap.addBlank ' ' } = p := by
        rcases p with ⟨text, gap, stop⟩
        cases gap with
        | lines first more => rfl
        | none => cases hp
        | blanks run => cases hp
      have hcons : Layout.indent (n + 1) = ' ' :: Layout.indent n := rfl
      have htab : (p.gap.isLines && decide (m.column < s.least) && ' ' == '\t') = false := by
        rw [show (' ' == '\t') = false from rfl, Bool.and_false]
      rw [hcons, List.cons_append, scanFrom, if_pos (show Character.isBlank ' ' = true from rfl),
        htab, if_neg Bool.false_ne_true, hsame, ih (m.past ' ')]
      rfl

theorem scanFrom_outer {s : Setting} {p : Progress} (hp : p.gap.isLines = true) {m : Mark}
    {rest : List Char} (hs : s.inFlow = false) (hcolumn : m.column < s.least)
    (hrest : TokenNext rest) :
    scanFrom s p m rest = .ok (p.finish ⟨m, rest⟩) := by
  cases rest with
  | nil => rfl
  | cons c rest =>
      have hgap := (hrest c rfl).1
      rw [Character.isGap, Bool.or_eq_false_iff] at hgap
      have hreturn : c ≠ '\r' := by
        intro heq
        subst heq
        cases hgap.2
      have hnone : p.gap.isNone = false := by
        cases hg : p.gap with
        | none =>
            rw [hg] at hp
            cases hp
        | blanks run => rfl
        | lines first more => rfl
      have hstops : stopsAfterGap s p m c rest = true := by
        rw [stopsAfterGap, hnone, hs]
        simp [hcolumn]
      rw [scanFrom, hgap.1, if_neg Bool.false_ne_true, if_neg (by simp [hreturn]), hgap.2,
        if_neg Bool.false_ne_true, hstops, if_pos rfl]

theorem scanFrom_lineEnd {s : Setting} {p : Progress} (hp : p.gap = .none) (m : Mark) {n : Nat}
    {rest : List Char} (hs : s.inFlow = false) (hn : n < s.least) (hrest : TokenNext rest) :
    scanFrom s p m ('\n' :: (Layout.indent n ++ rest)) =
      .ok ⟨p.text.reverse, p.stop, true, ⟨m.through ('\n' :: Layout.indent n), rest⟩⟩ := by
  have hbreak : scanFrom s p m ('\n' :: (Layout.indent n ++ rest)) =
      scanFrom s { p with gap := .lines (some '\n') [] } (m.across '\n')
        (Layout.indent n ++ rest) := by
    rw [scanFrom, hp]
    rfl
  have hcolumn : ((m.across '\n').through (Layout.indent n)).column < s.least := by
    rw [Mark.through_indent, Mark.across_of_break rfl, Mark.newline_column, Nat.zero_add]
    exact hn
  rw [hbreak, scanFrom_indent s rfl, scanFrom_outer rfl hs hcolumn hrest]
  rfl

/-!
## Whole scalars
-/

theorem inside_start {c : Char} {cs : List Char} (h : Style.plainAllowed (c :: cs) = true)
    {s : Setting} {m : Mark} (hs : s.inFlow = false) (hleast : s.least ≤ m.column + 1) :
    Inside s ⟨[c], .none, m.past c⟩ (m.past c) c cs := by
  simp only [Style.plainAllowed, Bool.not_eq_true', Bool.or_eq_false_iff] at h
  rcases h with ⟨⟨⟨⟨⟨⟨-, -⟩, hindicator⟩, hspecial⟩, hline⟩, -⟩, hlast⟩
  rw [Style.isMultiline, List.any_cons, Bool.or_eq_false_iff] at hline
  constructor
  · exact hs
  · exact hindicator
  · exact (Style.hasSpecial_cons_eq_false hspecial).2
  · exact hline.2
  · intro h
    rw [h] at hlast
    cases hlast
  · rfl
  · simp [Gap.isNone]
  · intro _
    rfl
  · exact Nat.succ_pos _
  · exact hleast

/-- A plain key is read up to its colon. -/
theorem scan_plain_key {c : Char} {cs tail : List Char} (h : Style.plainAllowed (c :: cs) = true)
    {s : Setting} {m : Mark} (hs : s.inFlow = false) (hleast : s.least ≤ m.column + 1)
    (htail : Character.gapOrEnd tail = true) :
    scan s c ⟨m.past c, cs ++ ':' :: tail⟩ =
      .ok ⟨c :: cs, (m.past c).through cs, false, ⟨(m.past c).through cs, ':' :: tail⟩⟩ := by
  rw [scan, scanFrom_text (inside_start h hs hleast), scanFrom_colon hs rfl _ htail]
  simp [Progress.finish, Gap.content, Gap.isLines]

/-- A plain value is read up to a line further out. -/
theorem scan_plain_value {c : Char} {cs rest : List Char} {n : Nat}
    (h : Style.plainAllowed (c :: cs) = true) {s : Setting} {m : Mark} (hs : s.inFlow = false)
    (hleast : s.least ≤ m.column + 1) (hn : n < s.least) (hrest : TokenNext rest) :
    scan s c ⟨m.past c, cs ++ '\n' :: (Layout.indent n ++ rest)⟩ =
      .ok ⟨c :: cs, (m.past c).through cs, true,
        ⟨((m.past c).through cs).through ('\n' :: Layout.indent n), rest⟩⟩ := by
  rw [scan, scanFrom_text (inside_start h hs hleast), scanFrom_lineEnd rfl _ hs hn hrest]
  simp [Gap.content]

end PlainScalar
end Yaml
end Clippings
