import Clippings.Proofs.Yaml.Scalar.Style
import Clippings.Yaml.Token.Block

/-!
# Literal blocks read back

A block is read line by line.  The header says how far the lines are indented where the first one
would not show it, and what to do with the breaks at the end.
-/

namespace Clippings
namespace Yaml
namespace BlockScalar

/-!
## The header
-/

def chompingOf (s : List Char) : Chomping :=
  match s.reverse with
  | [] => .strip
  | c :: rest =>
    if !Character.isBreak c then .strip
    else if rest.head?.all Character.isBreak then .keep
    else .clip

theorem readHeader_blockHeader (start m : Mark) (s rest : List Char) :
    readHeader start ⟨m, Layout.blockHeader s ++ rest⟩ =
      .ok ⟨chompingOf s, if s.head?.any Style.isLoose then 2 else 0,
        ⟨m.through (Layout.blockHeader s), rest⟩⟩ := by
  have hsign : (Layout.chompingSign s = ['-'] ∧ chompingOf s = .strip) ∨
      (Layout.chompingSign s = ['+'] ∧ chompingOf s = .keep) ∨
      (Layout.chompingSign s = [] ∧ chompingOf s = .clip) := by
    unfold Layout.chompingSign chompingOf
    cases s.reverse with
    | nil => exact Or.inl ⟨rfl, rfl⟩
    | cons c rest =>
        simp only
        cases Character.isBreak c with
        | false => exact Or.inl ⟨rfl, rfl⟩
        | true =>
            cases rest.head?.all Character.isBreak with
            | true => exact Or.inr (Or.inl ⟨rfl, rfl⟩)
            | false => exact Or.inr (Or.inr ⟨rfl, rfl⟩)
  unfold Layout.blockHeader
  cases s.head?.any Style.isLoose with
  | true => rcases hsign with ⟨h₁, h₂⟩ | ⟨h₁, h₂⟩ | ⟨h₁, h₂⟩ <;> rw [h₁, h₂] <;> rfl
  | false => rcases hsign with ⟨h₁, h₂⟩ | ⟨h₁, h₂⟩ | ⟨h₁, h₂⟩ <;> rw [h₁, h₂] <;> rfl

/-!
## Margins
-/

theorem readMargin_cons {start m : Mark} {least indent widest : Nat} {breaks : List Char}
    {c : Char} (hreturn : c ≠ '\r') (rest : List Char) :
    readMargin start least indent widest breaks m (c :: rest) =
      if c == ' ' && (indent == 0 || m.column < indent) then
        readMargin start least indent widest breaks (m.past c) rest
      else if c == '\t' && (indent == 0 || m.column < indent) then
        .error (fault start .tabForIndentation m)
      else if Character.isBreak c then
        readMargin start least indent (max widest m.column) (Cursor.breakContent c :: breaks)
          (m.newline c.utf8Size) rest
      else
        .ok ⟨readMargin.settle least indent (max widest m.column), breaks, ⟨m, c :: rest⟩⟩ := by
  rw [readMargin]
  intro _ heq
  exact absurd heq hreturn

theorem readMargin_indent {start m : Mark} {least indent widest n : Nat} {breaks : List Char}
    (h : indent = 0 ∨ m.column + n ≤ indent) (rest : List Char) :
    readMargin start least indent widest breaks m (Layout.indent n ++ rest) =
      readMargin start least indent widest breaks (m.through (Layout.indent n)) rest := by
  induction n generalizing m with
  | zero => rfl
  | succ n ih =>
      have hcons : Layout.indent (n + 1) = ' ' :: Layout.indent n := rfl
      have hadjust : (indent == 0 || decide (m.column < indent)) = true := by
        rcases h with h | h
        · simp [h]
        · have : m.column < indent := by omega
          simp [this]
      have hnext : indent = 0 ∨ (m.past ' ').column + n ≤ indent := by
        rw [Mark.past_column]
        omega
      rw [hcons, List.cons_append, readMargin_cons (by decide)]
      simp only [BEq.rfl, hadjust, Bool.and_true, if_true]
      rw [ih hnext]
      rfl

theorem readMargin_breaks (start m : Mark) (least indent widest : Nat) (breaks : List Char)
    {bs : List Char}
    (hbs : forall c, c ∈ bs -> Character.isBreak c = true ∧ Character.isPrintable c = true)
    (rest : List Char) :
    exists widest', readMargin start least indent widest breaks m (bs ++ rest) =
      readMargin start least indent widest' (bs.reverse ++ breaks) (m.through bs) rest := by
  induction bs generalizing m widest breaks with
  | nil => exact ⟨widest, rfl⟩
  | cons c bs ih =>
      rcases hbs c List.mem_cons_self with ⟨hbreak, hprint⟩
      have hcontent := Character.breakContent_of_printable hprint hbreak
      have hreturn := Character.ne_return_of_printable hprint
      have hspace : c ≠ ' ' := by
        intro heq
        subst heq
        cases hbreak
      have htab : c ≠ '\t' := by
        intro heq
        subst heq
        cases hbreak
      rcases ih (m.across c) (max widest m.column) (c :: breaks)
        (fun d hd => hbs d (List.mem_cons_of_mem c hd)) with ⟨widest', hrest⟩
      exists widest'
      rw [List.cons_append, readMargin_cons hreturn]
      simp only [beq_eq_false_iff_ne.mpr hspace, beq_eq_false_iff_ne.mpr htab, Bool.false_and,
        Bool.false_eq_true, if_false, hbreak, if_true, hcontent]
      rw [← Mark.across_of_break hbreak, hrest]
      simp [Mark.through_cons]

/-- Where a margin ends: at the text of a line, or further out at another token. -/
structure MarginEnd (column indent : Nat) (rest : List Char) : Prop where
  column_le : column ≤ indent
  stop : forall c, rest.head? = some c ->
    Character.isBreak c = false ∧ c ≠ '\t' ∧ (c = ' ' -> column = indent)

theorem readMargin_end {start m : Mark} {least indent widest : Nat} {breaks rest : List Char}
    (hindent : 0 < indent) (h : MarginEnd m.column indent rest) :
    readMargin start least indent widest breaks m rest = .ok ⟨indent, breaks, ⟨m, rest⟩⟩ := by
  have hzero : (indent == 0) = false := by
    rw [beq_eq_false_iff_ne]
    omega
  cases rest with
  | nil => simp [readMargin, readMargin.settle, hzero]
  | cons c rest =>
      rcases h.stop c rfl with ⟨hbreak, htab, hspace⟩
      have hreturn : c ≠ '\r' := by
        intro heq
        subst heq
        cases hbreak
      have hadjust : (c == ' ' && (indent == 0 || decide (m.column < indent))) = false := by
        by_cases hc : c = ' '
        · rw [hspace hc, hzero]
          simp
        · simp [hc]
      rw [readMargin_cons hreturn]
      simp only [hadjust, Bool.false_eq_true, if_false, beq_eq_false_iff_ne.mpr htab,
        Bool.false_and, hbreak]
      simp [readMargin.settle, hzero]

theorem column_through_break {m : Mark} {cs : List Char}
    (h : cs.getLast?.any Character.isBreak = true) (n : Nat) :
    (m.through (cs ++ Layout.indent n)).column = n := by
  rcases List.eq_nil_or_concat cs with rfl | ⟨front, b, rfl⟩
  · cases h
  · have hb : Character.isBreak b = true := by simpa using h
    rw [Mark.through_append, Mark.through_indent, List.concat_eq_append, Mark.through_append,
      Mark.through_cons, Mark.through_nil, Mark.across_of_break hb, Mark.newline_column,
      Nat.zero_add]

theorem column_through_breaks {m : Mark} {bs : List Char} (hm : m.column = 0)
    (hbs : forall c, c ∈ bs -> Character.isBreak c = true ∧ Character.isPrintable c = true)
    (n : Nat) :
    (m.through (bs ++ Layout.indent n)).column = n := by
  cases hlast : bs.getLast? with
  | none =>
      rw [List.getLast?_eq_none_iff.mp hlast, List.nil_append, Mark.through_indent, hm,
        Nat.zero_add]
  | some b =>
      apply column_through_break
      rw [hlast]
      exact (hbs b (List.mem_of_getLast? hlast)).1

/-- Empty lines and indentation in front of where a margin ends. -/
theorem readMargin_lines (start : Mark) (least : Nat) {m : Mark} {indent n : Nat}
    {bs rest : List Char} (hindent : 0 < indent) (hm : m.column = 0)
    (hbs : forall c, c ∈ bs -> Character.isBreak c = true ∧ Character.isPrintable c = true)
    (h : MarginEnd n indent rest) (widest : Nat) :
    readMargin start least indent widest [] m (bs ++ (Layout.indent n ++ rest)) =
      .ok ⟨indent, bs.reverse, ⟨m.through (bs ++ Layout.indent n), rest⟩⟩ := by
  have hcolumn : (m.through bs).column = 0 := by
    simpa [Layout.indent] using column_through_breaks hm hbs 0
  rcases readMargin_breaks start m least indent widest [] hbs (Layout.indent n ++ rest) with
    ⟨widest', hbreaks⟩
  have hend : MarginEnd ((m.through bs).through (Layout.indent n)).column indent rest := by
    rw [Mark.through_indent, hcolumn, Nat.zero_add]
    exact h
  rw [hbreaks, readMargin_indent (Or.inr (by rw [hcolumn, Nat.zero_add]; exact h.column_le)),
    readMargin_end hindent hend, List.append_nil, Mark.through_append]

theorem readMargin_first {start m : Mark} {least n : Nat} {c : Char} {rest : List Char}
    (hm : m.column = 0) (hn : least ≤ n) (hc : Character.isGap c = false) :
    readMargin start least 0 0 [] m (Layout.indent n ++ c :: rest) =
      .ok ⟨n, [], ⟨m.through (Layout.indent n), c :: rest⟩⟩ := by
  rw [Character.isGap, Bool.or_eq_false_iff, Character.isBlank, Bool.or_eq_false_iff] at hc
  have hreturn : c ≠ '\r' := by
    intro heq
    subst heq
    cases hc.2
  rw [readMargin_indent (Or.inl rfl), readMargin_cons hreturn]
  simp only [hc.1.1, hc.1.2, Bool.false_and, Bool.false_eq_true, if_false, hc.2]
  simp [readMargin.settle, Mark.through_indent, hm, hn]

/-!
## Lines
-/

theorem span_line {m : Mark} {d b : Char} {line : List Char} (more : List Char)
    (hd : Character.isBreak d = false) (hline : line.any Character.isBreak = false)
    (hb : Character.isBreak b = true) :
    (Cursor.skip ⟨m, d :: (line ++ b :: more)⟩ 1).span (fun d => !Character.isBreak d) =
      (line, ⟨m.through (d :: line), b :: more⟩) := by
  have hrun : (line ++ b :: more).takeWhile (fun d => !Character.isBreak d) = line := by
    rw [List.takeWhile_append_of_pos (by
      intro c hc
      simpa using List.any_eq_false.mp hline c hc)]
    simp [hb]
  have hmark : line.foldl Mark.past (m.past d) = m.through (d :: line) := by
    rw [Mark.foldl_past hline, Mark.through_cons, Mark.across_of_not_break hd]
  unfold Cursor.span
  simp only [Cursor.skip_rest, List.drop_succ_cons, List.drop_zero, hrun]
  simp [Cursor.skip, hmark]

theorem takeBreak_printable {m : Mark} {b : Char} (more : List Char)
    (hb : Character.isBreak b = true) (hprint : Character.isPrintable b = true) :
    Cursor.takeBreak ⟨m, b :: more⟩ = (some b, ⟨m.across b, more⟩) := by
  have hreturn := Character.ne_return_of_printable hprint
  have hskip : Cursor.skipBreak ⟨m, b :: more⟩ = ⟨m.across b, more⟩ := by
    unfold Cursor.skipBreak
    split
    · rename_i heq
      injection heq with hb' _
      exact absurd hb' hreturn
    · rename_i heq
      injection heq with hb' hrest
      subst hb' hrest
      rw [if_pos hb, Mark.across_of_break hb]
    · rename_i heq
      cases heq
  rw [Cursor.takeBreak]
  simp only [hb, if_true, Character.breakContent_of_printable hprint hb, hskip]

theorem readLines_line {start m : Mark} (chomping : Chomping) {least indent : Nat} (p : Progress)
    {line more : List Char} {b : Char} (hm : m.column = indent) (hne : line ≠ [])
    (hline : line.any Character.isBreak = false) (hbreak : Character.isBreak b = true)
    (hprint : Character.isPrintable b = true) {margin : Margin}
    (hmargin : readMargin start least indent 0 [] ((m.through line).across b) more = .ok margin) :
    exists blankStart,
      readLines start true chomping least indent p ⟨m, line ++ b :: more⟩ =
        readLines start true chomping least margin.indent
          ⟨line.reverse ++ ((p.lastBreak.toList ++ p.emptyLines.reverse).reverse ++ p.text), some b,
            margin.breaks, blankStart⟩ margin.next := by
  cases line with
  | nil => exact absurd rfl hne
  | cons d line =>
      rw [List.any_cons, Bool.or_eq_false_iff] at hline
      have htail := span_line (m := m) more hline.1 hline.2 hbreak
      have hended := takeBreak_printable (m := m.through (d :: line)) more hbreak hprint
      exists Character.isBlank d
      rw [List.cons_append, readLines]
      simp only [hm, bne_self_eq_false, Bool.false_eq_true, if_false, htail, hended]
      split
      · rename_i e he
        simp only [htail, hended] at he
        rw [hmargin] at he
        cases he
      · rename_i margin' he
        simp only [htail, hended] at he
        rw [hmargin] at he
        cases he
        rfl

theorem readLines_end {start : Mark} {literal : Bool} {chomping : Chomping} {least indent : Nat}
    (p : Progress) {c : Cursor} (h : c.mark.column ≠ indent) :
    readLines start literal chomping least indent p c = .ok ⟨p.finish chomping, c⟩ := by
  rw [readLines]
  split
  · rfl
  · rw [if_pos (by simpa using h)]

/-!
## What is written
-/

theorem blockBody_line {n : Nat} {afterBreak : Bool} {line : List Char} (hne : line ≠ [])
    (hline : line.any Character.isBreak = false) (s : List Char) :
    Layout.blockBody n afterBreak (line ++ s) =
      (if afterBreak then Layout.indent n else []) ++ (line ++ Layout.blockBody n false s) := by
  induction line generalizing afterBreak with
  | nil => exact absurd rfl hne
  | cons c line ih =>
      rw [List.any_cons, Bool.or_eq_false_iff] at hline
      rw [List.cons_append, Layout.blockBody, hline.1, if_neg Bool.false_ne_true]
      cases line with
      | nil => rfl
      | cons d line =>
          rw [ih (by simp) hline.2]
          simp

theorem blockBody_breaks (n : Nat) (afterBreak : Bool) {bs : List Char} (hne : bs ≠ [])
    (hbs : forall c, c ∈ bs -> Character.isBreak c = true) (s : List Char) :
    Layout.blockBody n afterBreak (bs ++ s) = bs ++ Layout.blockBody n true s := by
  induction bs generalizing afterBreak with
  | nil => exact absurd rfl hne
  | cons c bs ih =>
      rw [List.cons_append, Layout.blockBody, if_pos (hbs c List.mem_cons_self)]
      cases bs with
      | nil => rfl
      | cons d bs => rw [ih true (by simp) (fun e he => hbs e (List.mem_cons_of_mem c he))]; rfl

theorem exists_run (p : Char -> Bool) (s : List Char) :
    exists xs ys, s = xs ++ ys ∧ (forall c, c ∈ xs -> p c = true) ∧
      (forall e, ys.head? = some e -> p e = false) := by
  induction s with
  | nil => exact ⟨[], [], rfl, by simp, by simp⟩
  | cons c s ih =>
      cases hc : p c with
      | false => exact ⟨[], c :: s, rfl, by simp, by simp [hc]⟩
      | true =>
          rcases ih with ⟨xs, ys, rfl, hxs, hys⟩
          refine ⟨c :: xs, ys, rfl, ?_, hys⟩
          intro d hd
          rcases List.mem_cons.mp hd with rfl | hd
          · exact hc
          · exact hxs d hd

theorem exists_line {s : List Char} {d : Char} (hs : s.head? = some d)
    (hd : Character.isBreak d = false) :
    exists line bs more, s = line ++ (bs ++ more) ∧ line ≠ [] ∧
      line.any Character.isBreak = false ∧
      (forall c, c ∈ bs -> Character.isBreak c = true) ∧
      (more = [] ∨ bs ≠ [] ∧ exists e, more.head? = some e ∧ Character.isBreak e = false) := by
  rcases exists_run (fun c => !Character.isBreak c) s with ⟨line, after, rfl, hline, hafter⟩
  rcases exists_run Character.isBreak after with ⟨bs, more, rfl, hbs, hmore⟩
  refine ⟨line, bs, more, rfl, ?_, ?_, hbs, ?_⟩
  · intro heq
    subst heq
    have := hafter d hs
    simp [hd] at this
  · rw [List.any_eq_false]
    intro c hc
    simpa using hline c hc
  · cases more with
    | nil => exact Or.inl rfl
    | cons e more =>
        refine Or.inr ⟨?_, e, rfl, hmore e rfl⟩
        intro heq
        subst heq
        have := hafter e rfl
        simp [hmore e rfl] at this

/-!
## The end of a text
-/

theorem chompingOf_append {s : List Char} {d : Char} (hs : s.head? = some d)
    (hd : Character.isBreak d = false) (before : List Char) :
    chompingOf (before ++ s) = chompingOf s := by
  rcases List.eq_nil_or_concat s with rfl | ⟨front, c, rfl⟩
  · cases hs
  · rw [List.concat_eq_append] at hs ⊢
    simp only [chompingOf, List.reverse_append, List.reverse_cons, List.reverse_nil,
      List.nil_append, List.cons_append]
    cases hc : Character.isBreak c with
    | false => rfl
    | true =>
        cases front with
        | nil =>
            cases hs
            rw [hc] at hd
            cases hd
        | cons e front =>
            cases hfront : (e :: front).reverse with
            | nil => simp at hfront
            | cons x xs => rfl

theorem finish_end {line bs : List Char} (hne : line ≠ [])
    (hline : line.any Character.isBreak = false)
    (hbs : forall c, c ∈ bs -> Character.isBreak c = true) (text : List Char) (b : Char)
    (blankStart : Bool) (hb : bs = [] ∨ bs.head? = some b) :
    Progress.finish ⟨text, some b, bs.tail.reverse, blankStart⟩ (chompingOf (line ++ bs)) =
      text.reverse ++ bs := by
  rcases List.eq_nil_or_concat line with rfl | ⟨front, d, rfl⟩
  · exact absurd rfl hne
  have hd : Character.isBreak d = false := by
    simpa using List.any_eq_false.mp hline d (by simp)
  match bs with
  | [] =>
      simp [chompingOf, hd, Progress.finish]
  | [c] =>
      rcases hb with hb | hb
      · cases hb
      · cases hb
        have hc := hbs b (by simp)
        simp [chompingOf, hc, hd, Progress.finish]
  | c :: c' :: bs =>
      rcases hb with hb | hb
      · cases hb
      · cases hb
        have hkeep : chompingOf (front.concat d ++ b :: c' :: bs) = .keep := by
          rcases List.eq_nil_or_concat bs with rfl | ⟨more, e, rfl⟩
          · simp [chompingOf, hbs b (by simp), hbs c' (by simp)]
          · rcases List.eq_nil_or_concat more with rfl | ⟨more, e', rfl⟩
            · simp [chompingOf, hbs e (by simp), hbs c' (by simp)]
            · simp [chompingOf, hbs e (by simp), hbs e' (by simp)]
        rw [hkeep]
        simp [Progress.finish]

/-!
## Whole blocks
-/

def blockEnd (s : List Char) (n : Nat) : List Char :=
  Layout.lineEnd .literal s ++ Layout.indent n

theorem lineEnd_literal (s : List Char) :
    Layout.lineEnd .literal s = if s.getLast?.any Character.isBreak then [] else ['\n'] := by
  simp [Layout.lineEnd]

theorem blockBody_true {s : List Char} {d : Char} (hs : s.head? = some d)
    (hd : Character.isBreak d = false) (n : Nat) :
    Layout.blockBody n true s = Layout.indent n ++ Layout.blockBody n false s := by
  cases s with
  | nil => cases hs
  | cons c s =>
      cases hs
      simp [Layout.blockBody, hd]

theorem blockEnd_append {s : List Char} (hs : s ≠ []) (before : List Char) (n : Nat) :
    blockEnd (before ++ s) n = blockEnd s n := by
  rw [blockEnd, blockEnd, lineEnd_literal, lineEnd_literal, List.getLast?_append]
  cases h : s.getLast? with
  | none => exact absurd (List.getLast?_eq_none_iff.mp h) hs
  | some c => rfl

theorem blockBody_end {line bs : List Char} (hne : line ≠ [])
    (hline : line.any Character.isBreak = false)
    (hbs : forall c, c ∈ bs -> Character.isBreak c = true) (indent n : Nat) :
    Layout.blockBody indent false bs ++ blockEnd (line ++ bs) n =
      bs.head?.getD '\n' :: (bs.tail ++ Layout.indent n) := by
  cases bs with
  | nil =>
      have hlast : line.getLast?.any Character.isBreak = false := by
        rcases List.eq_nil_or_concat line with rfl | ⟨front, d, rfl⟩
        · rfl
        · simpa using List.any_eq_false.mp hline d (by simp)
      rw [List.append_nil, blockEnd, lineEnd_literal, hlast]
      rfl
  | cons b bs =>
      have hlast : (b :: bs).getLast?.any Character.isBreak = true := by
        cases h : (b :: bs).getLast? with
        | none => simp at h
        | some c => exact hbs c (List.mem_of_getLast? h)
      have hbody := blockBody_breaks indent false (by simp) hbs []
      rw [blockEnd_append (by simp), blockEnd, lineEnd_literal, hlast]
      rw [List.append_nil] at hbody
      rw [hbody]
      simp [Layout.blockBody]

theorem marginEnd_of_tokenNext {rest : List Char} (h : TokenNext rest) {n indent : Nat}
    (hn : n < indent) :
    MarginEnd n indent rest := by
  constructor
  · exact Nat.le_of_lt hn
  · intro c hc
    have hgap := (h c hc).1
    rw [Character.isGap, Bool.or_eq_false_iff, Character.isBlank, Bool.or_eq_false_iff,
      beq_eq_false_iff_ne, beq_eq_false_iff_ne] at hgap
    exact ⟨hgap.2, hgap.1.2, fun h => absurd h hgap.1.1⟩

theorem readLines_last {start : Mark} {least indent n : Nat} (hindent : n < indent)
    {line bs rest : List Char} (hne : line ≠ []) (hline : line.any Character.isBreak = false)
    (hbs : forall c, c ∈ bs -> Character.isBreak c = true ∧ Character.isPrintable c = true)
    (hrest : TokenNext rest) (p : Progress) {m : Mark} (hm : m.column = indent) :
    readLines start true (chompingOf (line ++ bs)) least indent p
        ⟨m, line ++ (Layout.blockBody indent false bs ++ (blockEnd (line ++ bs) n ++ rest))⟩ =
      .ok ⟨p.text.reverse ++ (p.lastBreak.toList ++ p.emptyLines.reverse) ++ (line ++ bs),
        ⟨m.through (line ++ (Layout.blockBody indent false bs ++ blockEnd (line ++ bs) n)),
          rest⟩⟩ := by
  have hend := blockBody_end hne hline (fun c hc => (hbs c hc).1) indent n
  generalize hb : bs.head?.getD '\n' = b at hend
  have hb' : Character.isBreak b = true ∧ Character.isPrintable b = true ∧
      (bs = [] ∨ bs.head? = some b) := by
    cases bs with
    | nil =>
        subst hb
        exact ⟨rfl, by decide, Or.inl rfl⟩
    | cons c bs =>
        subst hb
        exact ⟨(hbs c List.mem_cons_self).1, (hbs c List.mem_cons_self).2, Or.inr rfl⟩
  have hcolumn : ((m.through line).across b).column = 0 := by
    rw [Mark.across_of_break hb'.1, Mark.newline_column]
  have htail := fun c hc => hbs c (List.mem_of_mem_tail hc)
  have hmargin := readMargin_lines start least (Nat.zero_lt_of_lt hindent) hcolumn htail
    (marginEnd_of_tokenNext hrest hindent) 0
  have hout : (((m.through line).across b).through (bs.tail ++ Layout.indent n)).column ≠
      indent := by
    rw [column_through_breaks hcolumn htail]
    exact Nat.ne_of_lt hindent
  rcases readLines_line (chompingOf (line ++ bs)) p hm hne hline hb'.1 hb'.2.1 hmargin with
    ⟨blankStart, hstep⟩
  rw [← List.append_assoc (Layout.blockBody indent false bs), hend, List.cons_append,
    List.append_assoc bs.tail, hstep, readLines_end _ hout,
    finish_end hne hline (fun c hc => (hbs c hc).1) _ b _ hb'.2.2, Mark.through_append m line,
    Mark.through_cons]
  simp

theorem readLines_next (start : Mark) (chomping : Chomping) (least : Nat) (after : List Char)
    {indent : Nat} (hindent : 0 < indent) {line bs s : List Char} {d : Char} (hne : line ≠ [])
    (hline : line.any Character.isBreak = false) (hbsne : bs ≠ [])
    (hbs : forall c, c ∈ bs -> Character.isBreak c = true ∧ Character.isPrintable c = true)
    (hs : s.head? = some d) (hd : Character.isBreak d = false)
    (hprint : Character.isPrintable d = true) (p : Progress) {m : Mark} (hm : m.column = indent) :
    exists p' : Progress,
      readLines start true chomping least indent p
          ⟨m, line ++ (Layout.blockBody indent false (bs ++ s) ++ after)⟩ =
        readLines start true chomping least indent p'
          ⟨m.through (line ++ (bs ++ Layout.indent indent)),
            Layout.blockBody indent false s ++ after⟩ ∧
      p'.text.reverse ++ (p'.lastBreak.toList ++ p'.emptyLines.reverse) =
        p.text.reverse ++ (p.lastBreak.toList ++ p.emptyLines.reverse) ++ (line ++ bs) ∧
      (m.through (line ++ (bs ++ Layout.indent indent))).column = indent := by
  cases bs with
  | nil => exact absurd rfl hbsne
  | cons b bs =>
      rcases hbs b List.mem_cons_self with ⟨hbreak, hbprint⟩
      have htail := fun c hc => hbs c (List.mem_cons_of_mem b hc)
      have hcolumn : ((m.through line).across b).column = 0 := by
        rw [Mark.across_of_break hbreak, Mark.newline_column]
      have hend : MarginEnd indent indent (Layout.blockBody indent false s ++ after) := by
        constructor
        · exact Nat.le_refl _
        · cases s with
          | nil => cases hs
          | cons e s =>
              cases hs
              intro c hc
              rw [Layout.blockBody, hd] at hc
              cases hc
              refine ⟨hd, ?_, fun _ => rfl⟩
              intro heq
              subst heq
              revert hprint
              decide
      have hmargin := readMargin_lines start least hindent hcolumn htail hend 0
      rcases readLines_line chomping p hm hne hline hbreak hbprint hmargin with
        ⟨blankStart, hstep⟩
      refine ⟨⟨line.reverse ++ ((p.lastBreak.toList ++ p.emptyLines.reverse).reverse ++ p.text),
        some b, bs.reverse, blankStart⟩, ?_, ?_, ?_⟩
      · rw [blockBody_breaks _ _ (by simp) (fun c hc => (hbs c hc).1), blockBody_true hs hd,
          List.cons_append, List.cons_append, List.append_assoc, List.append_assoc, hstep,
          Mark.through_append m line, List.cons_append, Mark.through_cons]
      · simp
      · rw [Mark.through_append m line, List.cons_append, Mark.through_cons]
        exact column_through_breaks hcolumn htail indent

/-- The lines of a text that does not start with a break. -/
theorem readLines_text (start : Mark) (least : Nat) {indent n : Nat} (hindent : n < indent)
    {s rest : List Char} {d : Char} (hs : s.head? = some d) (hd : Character.isBreak d = false)
    (hspecial : Style.hasSpecial s = false) (hrest : TokenNext rest) (p : Progress) {m : Mark}
    (hm : m.column = indent) :
    readLines start true (chompingOf s) least indent p
        ⟨m, Layout.blockBody indent false s ++ (blockEnd s n ++ rest)⟩ =
      .ok ⟨p.text.reverse ++ (p.lastBreak.toList ++ p.emptyLines.reverse) ++ s,
        ⟨m.through (Layout.blockBody indent false s ++ blockEnd s n), rest⟩⟩ := by
  induction hlen : s.length using Nat.strongRecOn generalizing s d p m with
  | ind len ih =>
      rcases exists_line hs hd with ⟨line, bs, more, rfl, hne, hline, hbs, hmore⟩
      have hboth : forall c, c ∈ bs ->
          Character.isBreak c = true ∧ Character.isPrintable c = true := by
        intro c hc
        exact ⟨hbs c hc, Style.isPrintable_of_mem hspecial (by simp [hc])⟩
      rw [blockBody_line hne hline, if_neg Bool.false_ne_true, List.nil_append]
      rcases hmore with rfl | ⟨hbsne, e, he, hebreak⟩
      · rw [List.append_nil, List.append_assoc line, List.append_assoc line]
        exact readLines_last hindent hne hline hboth hrest p hm
      · have hmore : more ≠ [] := by
          intro heq
          subst heq
          cases he
        have hprint : forall c, c ∈ more -> Character.isPrintable c = true := by
          intro c hc
          exact Style.isPrintable_of_mem hspecial (by simp [hc])
        have hspecial' : Style.hasSpecial more = false := by
          unfold Style.hasSpecial
          rw [List.any_eq_false]
          intro c hc
          simp [hprint c hc]
        have hshort : more.length < len := by
          have := List.length_pos_iff.mpr hne
          simp only [List.length_append] at hlen
          omega
        rcases readLines_next start (chompingOf (line ++ (bs ++ more))) least
          (blockEnd (line ++ (bs ++ more)) n ++ rest)
          (Nat.zero_lt_of_lt hindent) hne hline hbsne hboth he hebreak
          (hprint e (List.mem_of_mem_head? he)) p hm with ⟨p', hstep, htext, hcolumn⟩
        rw [List.append_assoc line, hstep, ← List.append_assoc line bs more,
          chompingOf_append he hebreak, blockEnd_append hmore,
          ih more.length hshort he hebreak hspecial' p' hcolumn rfl, htext,
          blockBody_breaks _ _ hbsne hbs, blockBody_true he hebreak]
        simp [Mark.through_append]

theorem column_through_blockHeader (m : Mark) (s : List Char) :
    (m.through (Layout.blockHeader s)).column = 0 := by
  rw [Layout.blockHeader, Mark.through_append]
  rfl

theorem chompingOf_breaks {bs : List Char} (hne : bs ≠ [])
    (hbs : forall c, c ∈ bs -> Character.isBreak c = true) :
    chompingOf bs = .keep := by
  rcases List.eq_nil_or_concat bs with rfl | ⟨front, d, rfl⟩
  · exact absurd rfl hne
  · rcases List.eq_nil_or_concat front with rfl | ⟨front, e, rfl⟩
    · simp [chompingOf, hbs d (by simp)]
    · simp [chompingOf, hbs d (by simp), hbs e (by simp)]

theorem readLines_breaks (start : Mark) {m : Mark} {n k : Nat} {bs rest : List Char} (hne : bs ≠ [])
    (hboth : forall c, c ∈ bs -> Character.isBreak c = true ∧ Character.isPrintable c = true)
    (hm : m.column = 0) (hk : k < n + 2) (hrest : TokenNext rest) :
    exists margin,
      readMargin start (n + 1) (if bs.head?.any Style.isLoose then n + 2 else 0) 0 [] m
        (bs ++ (blockEnd bs k ++ rest)) = .ok margin ∧
      readLines start true (chompingOf bs) (n + 1) margin.indent ⟨[], none, margin.breaks, false⟩
        margin.next = .ok ⟨bs, ⟨m.through (bs ++ blockEnd bs k), rest⟩⟩ := by
  have hbs : forall c, c ∈ bs -> Character.isBreak c = true := by
    intro c hc
    exact (hboth c hc).1
  have hloose : bs.head?.any Style.isLoose = true := by
    cases bs with
    | nil => exact absurd rfl hne
    | cons b bs => simp [Style.isLoose, hbs b List.mem_cons_self]
  have hend : blockEnd bs k = Layout.indent k := by
    have hlast : bs.getLast?.any Character.isBreak = true := by
      cases h : bs.getLast? with
      | none => exact absurd (List.getLast?_eq_none_iff.mp h) hne
      | some c => exact hbs c (List.mem_of_getLast? h)
    rw [blockEnd, lineEnd_literal, hlast]
    rfl
  have hout : (m.through (bs ++ Layout.indent k)).column ≠ n + 2 := by
    rw [column_through_breaks hm hboth]
    exact Nat.ne_of_lt hk
  rw [if_pos hloose, hend, chompingOf_breaks hne hbs]
  refine ⟨_, readMargin_lines _ _ (Nat.succ_pos _) hm hboth (marginEnd_of_tokenNext hrest hk) 0, ?_⟩
  rw [readLines_end _ hout]
  simp [Progress.finish]

/-- The margin ends with the first line that has text, and that line says how far it goes in, unless
the header does. -/
theorem readMargin_text (start : Mark) {m : Mark} (n : Nat) {bs : List Char} {d : Char}
    (cs rest : List Char)
    (hboth : forall c, c ∈ bs -> Character.isBreak c = true ∧ Character.isPrintable c = true)
    (hd : Character.isBreak d = false) (hprint : Character.isPrintable d = true)
    (hm : m.column = 0) :
    readMargin start (n + 1) (if (bs ++ d :: cs).head?.any Style.isLoose then n + 2 else 0) 0 [] m
        (bs ++ (Layout.indent (n + 2) ++ (Layout.blockBody (n + 2) false (d :: cs) ++ rest))) =
      .ok ⟨n + 2, bs.reverse, ⟨m.through (bs ++ Layout.indent (n + 2)),
        Layout.blockBody (n + 2) false (d :: cs) ++ rest⟩⟩ := by
  have htab : d ≠ '\t' := by
    intro heq
    subst heq
    revert hprint
    decide
  cases hloose : (bs ++ d :: cs).head?.any Style.isLoose with
  | true =>
      rw [if_pos rfl]
      refine readMargin_lines _ _ (Nat.succ_pos _) hm hboth ⟨Nat.le_refl _, ?_⟩ 0
      intro c hc
      rw [Layout.blockBody, hd] at hc
      cases hc
      exact ⟨hd, htab, fun _ => rfl⟩
  | false =>
      cases bs with
      | cons b bs => simp [Style.isLoose, (hboth b List.mem_cons_self).1] at hloose
      | nil =>
          have hgap : Character.isGap d = false := by
            simp only [List.nil_append, List.head?_cons, Option.any_some, Style.isLoose,
              Bool.or_eq_false_iff] at hloose
            simp [Character.isGap, Character.isBlank, hloose.1, hd, htab]
          rw [if_neg Bool.false_ne_true, Layout.blockBody, hd]
          exact readMargin_first hm (Nat.le_succ _) hgap

theorem readLines_body (start : Mark) {m : Mark} {n k : Nat} {s rest : List Char} (hs : s ≠ [])
    (hspecial : Style.hasSpecial s = false) (hm : m.column = 0) (hk : k < n + 2)
    (hrest : TokenNext rest) :
    exists margin,
      readMargin start (n + 1) (if s.head?.any Style.isLoose then n + 2 else 0) 0 [] m
        (Layout.blockBody (n + 2) true s ++ (blockEnd s k ++ rest)) = .ok margin ∧
      readLines start true (chompingOf s) (n + 1) margin.indent ⟨[], none, margin.breaks, false⟩
        margin.next =
          .ok ⟨s, ⟨m.through (Layout.blockBody (n + 2) true s ++ blockEnd s k), rest⟩⟩ := by
  rcases exists_run Character.isBreak s with ⟨bs, more, rfl, hbs, hmore⟩
  have hboth : forall c, c ∈ bs ->
      Character.isBreak c = true ∧ Character.isPrintable c = true := by
    intro c hc
    exact ⟨hbs c hc, Style.isPrintable_of_mem hspecial (by simp [hc])⟩
  have hbody : Layout.blockBody (n + 2) true (bs ++ more) =
      bs ++ Layout.blockBody (n + 2) true more := by
    cases bs with
    | nil => rfl
    | cons b bs => exact blockBody_breaks _ _ (by simp) hbs more
  cases more with
  | nil =>
      rw [Layout.blockBody] at hbody
      simp only [List.append_nil] at hs hbody ⊢
      rw [hbody]
      exact readLines_breaks start hs hboth hm hk hrest
  | cons d more =>
      have hd : Character.isBreak d = false := hmore d rfl
      have hprint : Character.isPrintable d = true :=
        Style.isPrintable_of_mem hspecial (by simp)
      have hspecial' : Style.hasSpecial (d :: more) = false := by
        unfold Style.hasSpecial
        rw [List.any_eq_false]
        intro c hc
        simp [Style.isPrintable_of_mem hspecial (List.mem_append_right bs hc)]
      have hlines := readLines_text start (n + 1) hk rfl hd hspecial' hrest
        ⟨[], none, bs.reverse, false⟩ (column_through_breaks hm hboth (n + 2))
      have hmargin := readMargin_text start n more (blockEnd (d :: more) k ++ rest) hboth hd
          hprint hm
      have htext : Layout.blockBody (n + 2) true (bs ++ d :: more) =
          bs ++ (Layout.indent (n + 2) ++ Layout.blockBody (n + 2) false (d :: more)) := by
        rw [hbody, blockBody_true rfl hd]
      have hend : blockEnd (bs ++ d :: more) k = blockEnd (d :: more) k :=
        blockEnd_append (List.cons_ne_nil d more) bs k
      rw [htext, hend, chompingOf_append rfl hd, List.append_assoc, List.append_assoc]
      refine ⟨_, hmargin, ?_⟩
      rw [hlines]
      simp [Mark.through_append]

theorem getLast?_blockBody (n : Nat) (afterBreak : Bool) {s : List Char} (hs : s ≠ []) :
    (Layout.blockBody n afterBreak s).getLast? = s.getLast? := by
  induction s generalizing afterBreak with
  | nil => exact absurd rfl hs
  | cons c s ih =>
      rw [Layout.blockBody]
      cases s with
      | nil => split <;> simp [Layout.blockBody]
      | cons d s =>
          have htail := fun b => ih b (List.cons_ne_nil d s)
          split
          · rw [List.getLast?_cons, htail, List.getLast?_cons_cons, List.getLast?_cons]
            rfl
          · rw [List.getLast?_append, List.getLast?_cons, htail, List.getLast?_cons_cons,
              List.getLast?_cons]
            rfl

theorem column_through_literal (m : Mark) (n k : Nat) {s : List Char} (hs : s ≠ []) :
    (m.through (Layout.blockHeader s ++ (Layout.blockBody n true s ++ blockEnd s k))).column =
      k := by
  rw [blockEnd, ← List.append_assoc, ← List.append_assoc]
  apply column_through_break
  rw [lineEnd_literal]
  cases hlast : s.getLast?.any Character.isBreak with
  | true =>
      rw [if_pos rfl, List.append_nil, List.getLast?_append, getLast?_blockBody n true hs]
      cases hl : s.getLast? with
      | none => exact absurd (List.getLast?_eq_none_iff.mp hl) hs
      | some c => simpa [hl] using hlast
  | false => simp [Character.isBreak]

/-- The text of a literal block reads back as itself. -/
theorem scan_literal (start m : Mark) {n k : Nat} {s rest : List Char} (hs : s ≠ [])
    (hspecial : Style.hasSpecial s = false) (hk : k < n + 2) (hrest : TokenNext rest) :
    scan true (some n) start ⟨m, Layout.blockHeader s ++ (Layout.blockBody (n + 2) true s ++
        (blockEnd s k ++ rest))⟩ =
      .ok ⟨s, ⟨m.through (Layout.blockHeader s ++ (Layout.blockBody (n + 2) true s ++
        blockEnd s k)), rest⟩⟩ := by
  rcases readLines_body start hs hspecial (column_through_blockHeader m s) hk hrest with
    ⟨margin, hmargin, hlines⟩
  have hindent : (if (if s.head?.any Style.isLoose then 2 else 0) == 0 then 0
      else n + if s.head?.any Style.isLoose then 2 else 0) =
        if s.head?.any Style.isLoose then n + 2 else 0 := by
    cases s.head?.any Style.isLoose <;> rfl
  rw [scan, readHeader_blockHeader]
  simp only [Option.getD_some, hindent, hmargin, hlines, Mark.through_append m]

end BlockScalar
end Yaml
end Clippings
