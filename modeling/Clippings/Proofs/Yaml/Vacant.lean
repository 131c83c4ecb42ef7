import Clippings.Proofs.Yaml.Presence

/-!
# Texts without a document

A text holds no document if its lines hold no more than spaces and comments.  Here all breaks of the
format count, and of all blanks only the space: a tab is not passed over where a node may start.
-/

namespace Clippings
namespace Yaml

/-!
## Vacant lines
-/

def isVacantRest (line : List Char) : Bool :=
  (line.dropWhile (· == ' ')).head?.all (· == '#')

def isVacantLine (line : List Char) : Bool :=
  isVacantRest (if line.head? == some Character.byteOrderMark then line.tail else line)

/-- A text without a token, of characters that a text may hold. -/
def isVacant (text : List Char) : Bool :=
  text.all Character.isAllowed && (text.splitOnP Character.isBreak).all isVacantLine

def isVacantFrom (inComment : Bool) (column : Nat) (text : List Char) : Bool :=
  match text.splitOnP Character.isBreak with
  | [] => true
  | line :: lines =>
    (inComment || if column == 0 then isVacantLine line else isVacantRest line) &&
      lines.all isVacantLine

theorem isVacantFrom_start (text : List Char) :
    isVacantFrom false 0 text = (text.splitOnP Character.isBreak).all isVacantLine := by
  unfold isVacantFrom
  split
  · rename_i h
    exact absurd h (List.splitOnP_ne_nil _ _)
  · rename_i h
    rw [h]
    rfl

theorem isVacantFrom_break {c : Char} (h : Character.isBreak c = true) (inComment : Bool)
    (column : Nat) (rest : List Char) :
    isVacantFrom inComment column (c :: rest) = isVacantFrom false 0 rest := by
  rw [isVacantFrom_start]
  simp [isVacantFrom, List.splitOnP_cons_eq_if_modifyHead, h, isVacantLine, isVacantRest]

theorem isVacantFrom_cons {c : Char} (h : Character.isBreak c = false) (inComment : Bool)
    (column : Nat) (rest : List Char) :
    exists line lines, rest.splitOnP Character.isBreak = line :: lines ∧
      isVacantFrom inComment column (c :: rest) =
        ((inComment || if column == 0 then isVacantLine (c :: line)
          else isVacantRest (c :: line)) && lines.all isVacantLine) := by
  rcases List.exists_cons_of_ne_nil (List.splitOnP_ne_nil Character.isBreak rest) with
    ⟨line, lines, hlines⟩
  refine ⟨line, lines, hlines, ?_⟩
  rw [isVacantFrom, List.splitOnP_cons_eq_if_modifyHead, h, hlines]
  rfl

theorem isVacantFrom_comment {c : Char} (h : Character.isBreak c = false) (column column' : Nat)
    (rest : List Char) :
    isVacantFrom true column (c :: rest) = isVacantFrom true column' rest := by
  rcases isVacantFrom_cons h true column rest with ⟨line, lines, hlines, heq⟩
  rw [heq, isVacantFrom, hlines]
  rfl

theorem isVacantFrom_hash (column column' : Nat) (rest : List Char) :
    isVacantFrom false column ('#' :: rest) = isVacantFrom true column' rest := by
  rcases isVacantFrom_cons (c := '#') rfl false column rest with ⟨line, lines, hlines, heq⟩
  rw [heq, isVacantFrom, hlines]
  simp [isVacantLine, isVacantRest, Character.byteOrderMark]

theorem isVacantFrom_space (column column' : Nat) (rest : List Char) :
    isVacantFrom false column (' ' :: rest) = isVacantFrom false (column' + 1) rest := by
  rcases isVacantFrom_cons (c := ' ') rfl false column rest with ⟨line, lines, hlines, heq⟩
  rw [heq, isVacantFrom, hlines]
  simp [isVacantLine, isVacantRest, Character.byteOrderMark]

theorem isVacantFrom_mark (column' : Nat) (rest : List Char) :
    isVacantFrom false 0 (Character.byteOrderMark :: rest) =
      isVacantFrom false (column' + 1) rest := by
  rcases isVacantFrom_cons (c := Character.byteOrderMark) rfl false 0 rest with
    ⟨line, lines, hlines, heq⟩
  rw [heq, isVacantFrom, hlines]
  simp [isVacantLine]

theorem isVacantFrom_other {c : Char} {column : Nat} (hbreak : Character.isBreak c = false)
    (hspace : c ≠ ' ') (hhash : c ≠ '#') (hmark : c = Character.byteOrderMark -> column ≠ 0)
    (rest : List Char) :
    isVacantFrom false column (c :: rest) = false := by
  rcases isVacantFrom_cons hbreak false column rest with ⟨line, lines, -, heq⟩
  rw [heq]
  by_cases hcolumn : column = 0
  · have hc : c ≠ Character.byteOrderMark := fun h => hmark h hcolumn
    simp [hcolumn, isVacantLine, isVacantRest, hc, hspace, hhash]
  · simp [hcolumn, isVacantRest, hspace, hhash]

namespace Lexer

/-- A gap reaches the end exactly where no line has a token. -/
theorem skipGap_takes_all (inComment : Bool) (m : Mark) (cs : List Char) :
    (skipGap false true inComment m cs).1.rest = [] <->
      isVacantFrom inComment m.column cs = true := by
  have hgeneral : forall inFlow keyAllowed, inFlow = false -> keyAllowed = true ->
      ((skipGap inFlow keyAllowed inComment m cs).1.rest = [] <->
        isVacantFrom inComment m.column cs = true) := by
    intro inFlow keyAllowed hflow hkey
    fun_induction skipGap inFlow keyAllowed inComment m cs with
    | case1 keyAllowed inComment m =>
        cases inComment <;> simp [isVacantFrom, isVacantLine, isVacantRest]
    | case2 keyAllowed inComment m c rest hreturn ih =>
        rw [ih hkey]
        simp only [Bool.and_eq_true, beq_iff_eq] at hreturn
        rcases hreturn with ⟨rfl, hline⟩
        cases rest with
        | nil => cases hline
        | cons d rest =>
            cases hline
            rw [isVacantFrom_break rfl, isVacantFrom_break rfl, isVacantFrom_break rfl]
    | case3 keyAllowed inComment m c rest hreturn hbreak ih =>
        rw [ih (by rw [hkey]; rfl), isVacantFrom_break hbreak]
        rfl
    | case4 keyAllowed inComment m c rest hreturn hbreak hpassed ih =>
        rw [ih hkey]
        simp only [Bool.not_eq_true] at hbreak
        simp only [hflow, hkey, Bool.or_eq_true, Bool.and_eq_true, beq_iff_eq, Bool.not_true,
          Bool.or_self, Bool.false_eq_true, and_false, or_false] at hpassed
        rcases hpassed with (hcomment | rfl) | ⟨rfl, hcolumn⟩
        · subst hcomment
          rw [isVacantFrom_comment hbreak]
        · cases inComment with
          | true => rw [isVacantFrom_comment hbreak]
          | false => rw [isVacantFrom_space m.column m.column, Mark.past_column]
        · cases inComment with
          | true => rw [isVacantFrom_comment hbreak]
          | false => rw [hcolumn, isVacantFrom_mark m.column, Mark.past_column]
    | case5 keyAllowed inComment m c rest hreturn hbreak hpassed hhash ih =>
        rw [ih hkey]
        simp only [beq_iff_eq] at hhash
        subst hhash
        cases inComment with
        | true => simp at hpassed
        | false => rw [isVacantFrom_hash m.column]
    | case6 keyAllowed inComment m c rest hreturn hbreak hpassed hhash =>
        simp only [Bool.not_eq_true] at hbreak
        simp only [Bool.or_eq_true, Bool.and_eq_true, beq_iff_eq, not_or, not_and] at hpassed
        rcases hpassed with ⟨⟨⟨hcomment, hspace⟩, -⟩, hmark⟩
        simp only [Bool.not_eq_true] at hcomment
        rw [hcomment, isVacantFrom_other hbreak hspace (by simpa using hhash) hmark]
        simp
  exact hgeneral false true rfl rfl

def atFirst (c : Cursor) (keyAllowed : Bool) : Lexer :=
  ⟨c, [], none, [], keyAllowed, [], 0⟩

theorem skipToToken_start (text : List Char) :
    exists c keyAllowed, (start text).skipToToken = atFirst c keyAllowed ∧
      (c.rest = [] <-> (text.splitOnP Character.isBreak).all isVacantLine = true) := by
  refine ⟨_, _, rfl, ?_⟩
  rw [← isVacantFrom_start]
  exact skipGap_takes_all false Mark.start text

theorem advance_of_vacant {text : List Char}
    (h : (text.splitOnP Character.isBreak).all isVacantLine = true) :
    exists place, advance (start text) = .ok (.done [⟨.streamEnd, place, place⟩]) := by
  rcases skipToToken_start text with ⟨⟨m, rest⟩, keyAllowed, hskip, hrest⟩
  obtain rfl : rest = [] := hrest.mpr h
  exact ⟨_, by rw [advance, hskip]; rfl⟩

theorem advance_of_token {text : List Char}
    (h : (text.splitOnP Character.isBreak).all isVacantLine = false) :
    exists l c rest, advance (start text) = (readToken l c rest).map .more := by
  rcases skipToToken_start text with ⟨⟨m, rest⟩, keyAllowed, hskip, hrest⟩
  cases rest with
  | nil => simp [hrest.mp rfl] at h
  | cons c rest => exact ⟨_, c, rest, by rw [advance, hskip]; rfl⟩

end Lexer

theorem tokens_of_token {text : List Char}
    (h : (text.splitOnP Character.isBreak).all isVacantLine = false) :
    (exists f, Token.ofText text = ([], some f)) ∨
      exists t rest fault, Token.ofText text = (t :: rest, fault) ∧ t.kind ≠ .streamEnd ∧
        (fault = none -> Expectation.Ended (t :: rest)) := by
  have hkind : forall t : Token, Lexer.Spelled t.kind -> t.kind ≠ .streamEnd := by
    intro t ht hend
    rw [hend] at ht
    exact ht
  rcases Lexer.advance_of_token h with ⟨l, c, rest, hadvance⟩
  cases hread : Lexer.readToken l c rest with
  | error f =>
      rw [hread] at hadvance
      exact Or.inl ⟨f, Lexer.run_of_error hadvance⟩
  | ok l' =>
      rw [hread] at hadvance
      rcases (Lexer.spelled_of_start text).advance_more Lexer.throughout_spelled hadvance with
        ⟨hl, hne⟩
      have hrun := Lexer.holds_run Lexer.throughout_spelled l' hl
      rw [Token.ofText, Lexer.run_of_more hadvance]
      split at hrun
      · rename_i tokens f hl'
        rw [hl']
        cases tokens with
        | nil => exact Or.inl ⟨f, rfl⟩
        | cons t rest =>
            exact Or.inr ⟨t, rest, some f, rfl, hkind t (hrun t List.mem_cons_self), by simp⟩
      · rename_i tokens hl'
        rcases hrun with ⟨before, last, hfinished, hbefore⟩
        cases before with
        | nil => exact absurd rfl (hbefore hne)
        | cons t before =>
            rw [hl', hfinished.split]
            refine Or.inr ⟨t, before ++ [last], none, rfl, ?_, fun _ => ?_⟩
            · exact hkind t (hfinished.holds t List.mem_cons_self)
            · exact ⟨last, by rw [← List.cons_append, List.getLast?_concat], hfinished.streamEnd⟩

/-!
## Trees without a node
-/

theorem forbiddenOffset?_eq_none (offset : Nat) (text : List Char) :
    forbiddenOffset? offset text = none <-> text.all Character.isAllowed = true := by
  induction text generalizing offset with
  | nil => simp [forbiddenOffset?]
  | cons c rest ih =>
      rw [forbiddenOffset?, List.all_cons]
      split
      · rename_i h
        rw [ih, h, Bool.true_and]
      · rename_i h
        simp [h]

/-- The text is read to its end without a fault, and no node is found. -/
def FindsNothing (text : List Char) : Prop :=
  exists t, Tree.ofText text = .ok t ∧ ¬ t.Yields

theorem ofText_of_allowed {text : List Char} (h : text.all Character.isAllowed = true) :
    Tree.ofText text = .ok (Tree.ofEvents
      (Event.ofTokens (Token.ofText text).1 (Token.ofText text).2).1
      (Event.ofTokens (Token.ofText text).1 (Token.ofText text).2).2) := by
  rw [Tree.ofText, (forbiddenOffset?_eq_none 0 text).mpr h]

theorem ofText_of_vacant {text : List Char} (h : isVacant text = true) :
    Tree.ofText text = .ok ⟨none, [], 1, none, false⟩ := by
  rw [isVacant, Bool.and_eq_true] at h
  rcases Lexer.advance_of_vacant h.2 with ⟨place, hadvance⟩
  rw [ofText_of_allowed h.1, Token.ofText, Lexer.run_of_done hadvance]
  simp [Event.ofTokens, Expectation.run, Expectation.move, Expectation.moveDocumentStart,
    Tree.ofEvents, Tree.Builder.run, Tree.Builder.tree, Tree.Builder.empty,
    Tree.Builder.closeAll, Tree.Anchors.empty]

/-- A text without a document is one without a token. -/
theorem findsNothing_iff_isVacant (text : List Char) :
    FindsNothing text <-> isVacant text = true := by
  constructor
  · rintro ⟨t, ht, hyields⟩
    have hallowed : text.all Character.isAllowed = true := by
      rw [← forbiddenOffset?_eq_none 0]
      unfold Tree.ofText at ht
      split at ht
      · cases ht
      · assumption
    rw [ofText_of_allowed hallowed] at ht
    cases ht
    rw [isVacant, hallowed, Bool.true_and]
    cases hlines : (text.splitOnP Character.isBreak).all isVacantLine with
    | true => rfl
    | false =>
        refine absurd ?_ hyields
        rcases tokens_of_token hlines with ⟨f, htokens⟩ | ⟨t, rest, fault, htokens, ht, hended⟩
        · rw [htokens]
          exact Tree.yields_of_fault f
        · rw [htokens]
          exact Tree.yields_of_token fault ht hended
  · intro h
    exact ⟨_, ofText_of_vacant h, by simp [Tree.Yields]⟩

theorem Value.ofText_of_vacant {text : String} (h : isVacant text.toList = true) :
    Value.ofText text = .ok .null := by
  rw [Value.ofText, Yaml.ofText_of_vacant h]
  rfl

end Yaml
end Clippings
