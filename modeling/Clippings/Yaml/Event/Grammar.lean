import Clippings.Yaml.Event
import Clippings.Yaml.SyntaxFault

/-!
# From tokens to events

The grammar is a stack of expectations.  The topmost one looks at the next tokens, may take some of
them and may report an event, and is replaced by the expectations that follow from it.  Every move
takes tokens or lightens the stack, so there are finitely many.
-/

namespace Clippings
namespace Yaml

/-- What tag handles stand for. -/
abbrev Handles :=
  List (List Char × Octets)

namespace Handles

def octets (cs : List Char) : Octets :=
  cs.map fun c => c.toNat.toUInt8

/-- The handles that stand for something in every document. -/
def standard : Handles :=
  [(['!'], octets ['!']), (['!', '!'], octets "tag:yaml.org,2002:".toList)]

end Handles

/-- What may come next.  Parts of a collection know where the collection began. -/
inductive Expectation where
  | documentStart (first : Bool)
  | documentContent
  | documentEnd
  | node (block indentless : Bool)
  | blockSequence (began : Mark)
  | indentlessSequence
  | blockKey (began : Mark)
  | blockValue (began : Mark)
  | flowSequence (began : Mark) (first : Bool)
  | pairKey (began : Mark)
  | pairValue (began : Mark)
  | pairEnd (began : Mark)
  | flowKey (began : Mark) (first : Bool)
  | flowValue (began : Mark)
  | flowNoValue (began : Mark)
deriving DecidableEq, Repr

namespace Expectation

/-- A move that takes no token replaces an expectation by lighter ones. -/
def weight : Expectation -> Nat
  | documentStart true => 5
  | documentStart false => 1
  | documentContent => 3
  | documentEnd => 2
  | node _ _ => 2
  | blockSequence _ => 1
  | indentlessSequence => 1
  | blockKey _ => 1
  | blockValue _ => 2
  | flowSequence _ true => 4
  | flowSequence _ false => 1
  | pairKey _ => 6
  | pairValue _ => 3
  | pairEnd _ => 2
  | flowKey _ true => 5
  | flowKey _ false => 1
  | flowValue _ => 2
  | flowNoValue _ => 2

end Expectation

def stackWeight : List Expectation -> Nat
  | [] => 0
  | e :: stack => e.weight + stackWeight stack

theorem stackWeight_append (stack stack' : List Expectation) :
    stackWeight (stack ++ stack') = stackWeight stack + stackWeight stack' := by
  induction stack with
  | nil => rw [List.nil_append, stackWeight, Nat.zero_add]
  | cons e stack ih => rw [List.cons_append, stackWeight, stackWeight, ih, Nat.add_assoc]

structure Move where
  event : Option (Mark × Event)
  next : List Expectation
  rest : List Token
  handles : Handles

/-- How a move fails: the form is wrong, or the tokens do not reach far enough. -/
inductive Halt where
  | fault (f : SyntaxFault)
  | starved

namespace Expectation

def isDocumentMark : TokenKind -> Bool
  | .versionDirective _ _ | .tagDirective _ _ | .documentStart | .documentEnd | .streamEnd => true
  | _ => false

/-- No node starts here inside a block: the next entry or the end comes first. -/
def endsBlockNode : TokenKind -> Bool
  | .key | .value | .blockEnd => true
  | _ => false

def endsPairNode : TokenKind -> Bool
  | .flowEntry | .flowSequenceEnd => true
  | _ => false

def endsFlowNode : TokenKind -> Bool
  | .flowEntry | .flowMappingEnd => true
  | _ => false

/-!
## Directives
-/

/-- Reads the directives in front of a document. -/
def readDirectives (versioned : Bool) (handles : Handles) :
    List Token -> Except Halt (Handles × List Token)
  | [] => .error .starved
  | t :: rest =>
    match t.kind with
    | .versionDirective major minor =>
      if versioned then .error (.fault ⟨.duplicateVersionDirective, t.start, none⟩)
      else if major == 1 && (minor == 1 || minor == 2) then readDirectives true handles rest
      else .error (.fault ⟨.incompatibleVersion, t.start, none⟩)
    | .tagDirective handle expansion =>
      if (handles.lookup handle).isSome then
        .error (.fault ⟨.duplicateTagDirective, t.start, none⟩)
      else readDirectives versioned (handles ++ [(handle, expansion)]) rest
    | _ => .ok (handles ++ Handles.standard, t :: rest)

def skipDocumentEnds : List Token -> List Token
  | [] => []
  | t :: rest => if t.kind == .documentEnd then skipDocumentEnds rest else t :: rest

/-!
## Node properties
-/

structure Spelled where
  anchor : Option (List Char)
  tag : Option (List Char × Octets × Mark)
  /-- Where the first property stands. -/
  began : Option Mark
  rest : List Token

/-- An anchor and a tag in either order. -/
def readProperties : List Token -> Spelled
  | ⟨.anchor a, m, _⟩ :: ⟨.tag h x, n, _⟩ :: rest => ⟨some a, some (h, x, n), some m, rest⟩
  | ⟨.tag h x, m, _⟩ :: ⟨.anchor a, _, _⟩ :: rest => ⟨some a, some (h, x, m), some m, rest⟩
  | ⟨.anchor a, m, _⟩ :: rest => ⟨some a, none, some m, rest⟩
  | ⟨.tag h x, m, _⟩ :: rest => ⟨none, some (h, x, m), some m, rest⟩
  | rest => ⟨none, none, none, rest⟩

def resolveTag (handles : Handles) (began : Mark) :
    Option (List Char × Octets × Mark) -> Except Halt (Option Octets)
  | none => .ok none
  | some (handle, suffix, place) =>
    if handle.isEmpty then .ok (some suffix)
    else
      match handles.lookup handle with
      | some expansion => .ok (some (expansion ++ suffix))
      | none => .error (.fault ⟨.undefinedHandle, place, some (.node, began)⟩)

/-!
## Moves
-/

def moveNode (handles : Handles) (block indentless : Bool) (tokens : List Token) :
    Except Halt Move :=
  match tokens with
  | [] => .error .starved
  | ⟨.alias name, m, _⟩ :: rest => .ok ⟨some (m, .alias name), [], rest, handles⟩
  | _ =>
    let spelled := readProperties tokens
    match spelled.rest with
    | [] => .error .starved
    | t :: rest =>
      let began := spelled.began.getD t.start
      match resolveTag handles began spelled.tag with
      | .error e => .error e
      | .ok tag =>
        let properties : Properties := ⟨spelled.anchor, tag⟩
        let collection (shape : Shape) (next : Expectation) (rest : List Token) :
            Except Halt Move :=
          .ok ⟨some (began, .collectionStart shape properties), [next], rest, handles⟩
        let bare : Except Halt Move :=
          if spelled.began.isSome then
            .ok ⟨some (began, .scalar properties .plain []), [], t :: rest, handles⟩
          else
            .error (.fault ⟨.nodeContent, t.start,
              some (if block then .blockNode else .flowNode, began)⟩)
        match t.kind with
        | .blockEntry => if indentless then collection .sequence .indentlessSequence (t :: rest)
          else bare
        | .scalar style text =>
          .ok ⟨some (began, .scalar properties style text), [], rest, handles⟩
        | .flowSequenceStart => collection .sequence (.flowSequence t.start true) rest
        | .flowMappingStart => collection .mapping (.flowKey t.start true) rest
        | .blockSequenceStart => if block then collection .sequence (.blockSequence t.start) rest
          else bare
        | .blockMappingStart => if block then collection .mapping (.blockKey t.start) rest
          else bare
        | _ => bare

/-- After an indicator that ended at `stop`: a node, unless the next token shows that it was left
out. -/
def moveEntry (handles : Handles) (ends : TokenKind -> Bool) (stop : Token -> Mark)
    (node next : Expectation) (rest : List Token) : Except Halt Move :=
  match rest with
  | [] => .error .starved
  | t :: _ =>
    if ends t.kind then .ok ⟨some (stop t, Event.empty), [next], rest, handles⟩
    else .ok ⟨none, [node, next], rest, handles⟩

/-- One entry of a sequence in brackets. -/
def moveFlowEntry (handles : Handles) (began : Mark) (tokens : List Token) : Except Halt Move :=
  match tokens with
  | [] => .error .starved
  | t :: rest =>
    match t.kind with
    | .flowSequenceEnd => .ok ⟨some (t.start, .collectionEnd .sequence), [], rest, handles⟩
    | .key =>
      .ok ⟨some (t.start, .collectionStart .mapping Properties.none), [.pairKey began], rest,
        handles⟩
    | _ => .ok ⟨none, [.node false false, .flowSequence began false], tokens, handles⟩

/-- One key of a mapping in brackets. -/
def moveFlowKey (handles : Handles) (began : Mark) (tokens : List Token) : Except Halt Move :=
  match tokens with
  | [] => .error .starved
  | t :: rest =>
    match t.kind with
    | .flowMappingEnd => .ok ⟨some (t.start, .collectionEnd .mapping), [], rest, handles⟩
    | .key =>
      moveEntry handles (fun k => k == .value || endsFlowNode k) Token.start (.node false false)
        (.flowValue began) rest
    | _ => .ok ⟨none, [.node false false, .flowNoValue began], tokens, handles⟩

/-- The first document may start without a mark. -/
def moveDocumentStart (first : Bool) (tokens : List Token) : Except Halt Move :=
  match if first then tokens else skipDocumentEnds tokens with
  | [] => .error .starved
  | t :: rest =>
    if t.kind == .streamEnd then .ok ⟨some (t.start, .streamEnd), [], rest, []⟩
    else if first && (t.kind == .documentEnd || !isDocumentMark t.kind) then
      .ok ⟨some (t.start, .documentStart), [.node true false, .documentEnd], tokens,
        Handles.standard⟩
    else
      match readDirectives false [] (t :: rest) with
      | .error e => .error e
      | .ok (_, []) => .error .starved
      | .ok (handles, u :: rest) =>
        if u.kind == .documentStart then
          .ok ⟨some (t.start, .documentStart), [.documentContent, .documentEnd], rest, handles⟩
        else .error (.fault ⟨.documentStart, u.start, none⟩)

def move (handles : Handles) (e : Expectation) (tokens : List Token) : Except Halt Move :=
  match e with
  | .documentStart first => moveDocumentStart first tokens
  | .node block indentless => moveNode handles block indentless tokens
  | e =>
    match tokens with
    | [] => .error .starved
    | t :: rest =>
      let skip (next : Expectation) : Except Halt Move :=
        .ok ⟨some (t.start, Event.empty), [next], tokens, handles⟩
      match e with
      | .documentContent =>
        if isDocumentMark t.kind then .ok ⟨some (t.start, Event.empty), [], tokens, handles⟩
        else .ok ⟨none, [.node true false], tokens, handles⟩
      | .documentEnd =>
        .ok ⟨some (t.start, .documentEnd), [.documentStart false],
          if t.kind == .documentEnd then rest else tokens, []⟩
      | .blockSequence began =>
        match t.kind with
        | .blockEntry =>
          moveEntry handles (fun k => k == .blockEntry || k == .blockEnd) (fun _ => t.stop)
            (.node true false) (.blockSequence began) rest
        | .blockEnd => .ok ⟨some (t.start, .collectionEnd .sequence), [], rest, handles⟩
        | _ => .error (.fault ⟨.sequenceEntry, t.start, some (.blockCollection, began)⟩)
      | .indentlessSequence =>
        match t.kind with
        | .blockEntry =>
          moveEntry handles (fun k => k == .blockEntry || endsBlockNode k) (fun _ => t.stop)
            (.node true false) .indentlessSequence rest
        | _ => .ok ⟨some (t.start, .collectionEnd .sequence), [], tokens, handles⟩
      | .blockKey began =>
        match t.kind with
        | .key =>
          moveEntry handles endsBlockNode (fun _ => t.stop) (.node true true) (.blockValue began)
            rest
        | .blockEnd => .ok ⟨some (t.start, .collectionEnd .mapping), [], rest, handles⟩
        | _ => .error (.fault ⟨.mappingKey, t.start, some (.blockMapping, began)⟩)
      | .blockValue began =>
        match t.kind with
        | .value =>
          moveEntry handles endsBlockNode (fun _ => t.stop) (.node true true) (.blockKey began)
            rest
        | _ => skip (.blockKey began)
      | .flowSequence began first =>
        if first || t.kind == .flowSequenceEnd then moveFlowEntry handles began tokens
        else if t.kind == .flowEntry then moveFlowEntry handles began rest
        else .error (.fault ⟨.flowSequenceEnd, t.start, some (.flowSequence, began)⟩)
      | .pairKey began =>
        if t.kind == .value || endsPairNode t.kind then
          .ok ⟨some (t.stop, Event.empty), [.pairValue began], rest, handles⟩
        else .ok ⟨none, [.node false false, .pairValue began], tokens, handles⟩
      | .pairValue began =>
        match t.kind with
        | .value =>
          moveEntry handles endsPairNode Token.start (.node false false) (.pairEnd began) rest
        | _ => skip (.pairEnd began)
      | .pairEnd began =>
        .ok ⟨some (t.start, .collectionEnd .mapping), [.flowSequence began false], tokens,
          handles⟩
      | .flowKey began first =>
        if first || t.kind == .flowMappingEnd then moveFlowKey handles began tokens
        else if t.kind == .flowEntry then moveFlowKey handles began rest
        else .error (.fault ⟨.flowMappingEnd, t.start, some (.flowMapping, began)⟩)
      | .flowValue began =>
        match t.kind with
        | .value =>
          moveEntry handles endsFlowNode Token.start (.node false false) (.flowKey began false)
            rest
        | _ => skip (.flowKey began false)
      | .flowNoValue began => skip (.flowKey began false)
      | _ => .error .starved

/-!
## Every move takes tokens or lightens the stack
-/

/-- Tokens were taken, or none were and the replacement is lighter. -/
def Lessens (e : Expectation) (tokens : List Token) (m : Move) : Prop :=
  m.rest.length < tokens.length ∨
    m.rest.length = tokens.length ∧ stackWeight m.next < e.weight

theorem skipDocumentEnds_length_le (tokens : List Token) :
    (skipDocumentEnds tokens).length ≤ tokens.length := by
  fun_induction skipDocumentEnds tokens <;> grind

theorem readDirectives_length_le {versioned : Bool} {handles : Handles} {tokens : List Token}
    {r : Handles × List Token} (h : readDirectives versioned handles tokens = .ok r) :
    r.2.length ≤ tokens.length := by
  fun_induction readDirectives versioned handles tokens <;> grind

theorem readProperties_rest_length_le (tokens : List Token) :
    (readProperties tokens).rest.length ≤ tokens.length := by
  unfold readProperties
  split <;> simp only [List.length_cons] <;> omega

theorem readProperties_rest_length_lt {tokens : List Token}
    (h : (readProperties tokens).began.isSome = true) :
    (readProperties tokens).rest.length < tokens.length := by
  revert h
  unfold readProperties
  split <;> simp only [List.length_cons, Option.isSome, reduceCtorEq, false_implies,
    forall_const] <;> omega

theorem lessens_moveDocumentStart {first : Bool} {tokens : List Token} {m : Move}
    (h : moveDocumentStart first tokens = .ok m) :
    Lessens (.documentStart first) tokens m := by
  unfold moveDocumentStart at h
  have hs := skipDocumentEnds_length_le tokens
  have hle : (if first then tokens else skipDocumentEnds tokens).length ≤ tokens.length := by
    split <;> omega
  split at h
  · cases h
  · next t rest ht =>
      rw [ht, List.length_cons] at hle
      split at h
      · cases h
        exact Or.inl hle
      · split at h
        · next hf =>
            cases h
            cases first
            · simp at hf
            · exact Or.inr ⟨rfl, Nat.lt_succ_self 4⟩
        · split at h
          · cases h
          · cases h
          · next handles u rest' hd =>
              have := readDirectives_length_le hd
              simp only [List.length_cons] at this
              split at h
              · cases h
                exact Or.inl (by simp only; omega)
              · cases h

theorem lessens_moveNode {handles : Handles} {block indentless : Bool} {tokens : List Token}
    {m : Move} (h : moveNode handles block indentless tokens = .ok m) :
    Lessens (.node block indentless) tokens m := by
  unfold moveNode at h
  split at h
  · cases h
  · cases h
    exact Or.inl (by simp)
  · have hle := readProperties_rest_length_le tokens
    have hlt := @readProperties_rest_length_lt tokens
    simp only at h
    split at h
    · cases h
    · next t rest ht =>
        rw [ht, List.length_cons] at hle
        rw [ht, List.length_cons] at hlt
        split at h
        · cases h
        · grind [Lessens, stackWeight, weight]

theorem lessens_moveEntry {handles : Handles} {ends : TokenKind -> Bool} {stop : Token -> Mark}
    {node next e : Expectation} {t : Token} {rest : List Token} {m : Move}
    (h : moveEntry handles ends stop node next rest = .ok m) :
    Lessens e (t :: rest) m := by
  unfold moveEntry at h
  refine Or.inl ?_
  repeat' split at h
  all_goals
    cases h
  all_goals
    simp

theorem lessens_moveFlowEntry_end {handles : Handles} {began : Mark} {e : Expectation} {t : Token}
    {rest : List Token} {m : Move} (ht : t.kind = .flowSequenceEnd)
    (h : moveFlowEntry handles began (t :: rest) = .ok m) :
    Lessens e (t :: rest) m := by
  simp only [moveFlowEntry, ht] at h
  cases h
  exact Or.inl (Nat.lt_succ_self _)

theorem lessens_moveFlowKey_end {handles : Handles} {began : Mark} {e : Expectation} {t : Token}
    {rest : List Token} {m : Move} (ht : t.kind = .flowMappingEnd)
    (h : moveFlowKey handles began (t :: rest) = .ok m) :
    Lessens e (t :: rest) m := by
  simp only [moveFlowKey, ht] at h
  cases h
  exact Or.inl (Nat.lt_succ_self _)

theorem moveFlowEntry_length_le {handles : Handles} {began : Mark} {tokens : List Token}
    {m : Move} (h : moveFlowEntry handles began tokens = .ok m) :
    m.rest.length < tokens.length ∨ m.rest.length = tokens.length ∧ stackWeight m.next = 3 := by
  unfold moveFlowEntry at h
  repeat' split at h
  all_goals
    cases h
  all_goals
    simp [stackWeight, weight]

theorem moveFlowKey_length_le {handles : Handles} {began : Mark} {tokens : List Token}
    {m : Move} (h : moveFlowKey handles began tokens = .ok m) :
    m.rest.length < tokens.length ∨ m.rest.length = tokens.length ∧ stackWeight m.next = 4 := by
  unfold moveFlowKey moveEntry at h
  repeat' split at h
  all_goals
    cases h
  all_goals
    simp [stackWeight, weight]

theorem lessens_flowSequence {handles : Handles} {began : Mark} {first : Bool} {t : Token}
    {rest : List Token} {m : Move}
    (h : move handles (.flowSequence began first) (t :: rest) = .ok m) :
    Lessens (.flowSequence began first) (t :: rest) m := by
  simp only [move] at h
  split at h
  · next hf =>
      cases first
      · exact lessens_moveFlowEntry_end (by simpa using hf) h
      · rcases moveFlowEntry_length_le h with h | h
        · exact Or.inl h
        · exact Or.inr ⟨h.1, by rw [h.2]; exact Nat.lt_succ_self 3⟩
  · split at h
    · refine Or.inl ?_
      have := moveFlowEntry_length_le h
      simp only [List.length_cons]
      omega
    · cases h

theorem lessens_flowKey {handles : Handles} {began : Mark} {first : Bool} {t : Token}
    {rest : List Token} {m : Move}
    (h : move handles (.flowKey began first) (t :: rest) = .ok m) :
    Lessens (.flowKey began first) (t :: rest) m := by
  simp only [move] at h
  split at h
  · next hf =>
      cases first
      · exact lessens_moveFlowKey_end (by simpa using hf) h
      · rcases moveFlowKey_length_le h with h | h
        · exact Or.inl h
        · exact Or.inr ⟨h.1, by rw [h.2]; exact Nat.lt_succ_self 4⟩
  · split at h
    · refine Or.inl ?_
      have := moveFlowKey_length_le h
      simp only [List.length_cons]
      omega
    · cases h

/-- Moves of the expectations that only look at one token. -/
theorem lessens_move_cons {handles : Handles} {e : Expectation} {t : Token} {rest : List Token}
    {m : Move} (h : move handles e (t :: rest) = .ok m) :
    Lessens e (t :: rest) m := by
  cases e with
  | documentStart first => exact lessens_moveDocumentStart h
  | node block indentless => exact lessens_moveNode h
  | flowSequence began first => exact lessens_flowSequence h
  | flowKey began first => exact lessens_flowKey h
  | documentContent | documentEnd | pairKey | pairEnd | flowNoValue =>
      simp only [move] at h
      grind [Lessens, stackWeight, weight]
  | blockSequence began | indentlessSequence | blockKey began | blockValue began | pairValue began
  | flowValue began =>
      simp only [move] at h
      grind [lessens_moveEntry, Lessens, stackWeight, weight]

theorem lessens_move {handles : Handles} {e : Expectation} {tokens : List Token} {m : Move}
    (h : move handles e tokens = .ok m) :
    Lessens e tokens m := by
  cases tokens with
  | cons t rest => exact lessens_move_cons h
  | nil =>
      cases e with
      | documentStart first => exact lessens_moveDocumentStart h
      | node block indentless => exact @lessens_moveNode handles block indentless [] m h
      | _ => cases h

/-!
## All events
-/

/-- The events that the tokens give under a stack of expectations, collected in front of `done`, and
the fault that ends them if there is one.  `fault` says why the tokens end. -/
def run (fault : Option SyntaxFault) (handles : Handles) (done : List (Mark × Event))
    (stack : List Expectation) (tokens : List Token) :
    List (Mark × Event) × Option SyntaxFault :=
  match stack with
  | [] => (done.reverse, none)
  | e :: stack =>
    match _h : move handles e tokens with
    | .error (.fault f) => (done.reverse, some f)
    | .error .starved => (done.reverse, fault)
    | .ok m => run fault m.handles (m.event.toList ++ done) (m.next ++ stack) m.rest
termination_by (tokens.length, stackWeight stack)
decreasing_by
  rcases lessens_move _h with h | h
  · exact Prod.Lex.left _ _ h
  · rw [h.1]
    refine Prod.Lex.right _ ?_
    simp only [stackWeight_append, stackWeight]
    omega

theorem run_cons (fault : Option SyntaxFault) (handles : Handles) (done : List (Mark × Event))
    (e : Expectation) (stack : List Expectation) (tokens : List Token) :
    run fault handles done (e :: stack) tokens =
      match move handles e tokens with
      | .error (.fault f) => (done.reverse, some f)
      | .error .starved => (done.reverse, fault)
      | .ok m => run fault m.handles (m.event.toList ++ done) (m.next ++ stack) m.rest := by
  rw [run]
  split <;> rename_i h <;> rw [h]

end Expectation

/-- The events of a text, and the fault that ends them if there is one. -/
def Event.ofTokens (tokens : List Token) (fault : Option SyntaxFault) :
    List (Mark × Event) × Option SyntaxFault :=
  Expectation.run fault [] [] [.documentStart true] tokens

end Yaml
end Clippings
