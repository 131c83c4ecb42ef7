import Clippings.Proofs.Yaml.Lexing.Node
import Clippings.Yaml.Event.Grammar

/-!
# From the tokens of a draft to its events

Every expectation takes the tokens of what it expects, whatever comes after them; only a sequence
that has no end of its own has to see that no further entry follows.
-/

namespace Clippings
namespace Yaml

/-!
## The events of a draft
-/

namespace Draft

mutual
def events (simpleKey : Bool) : Draft -> List Event
  | .scalar tag style text => [.scalar ⟨none, tag⟩ (Style.choose simpleKey style text) text]
  | .collection shape tag children =>
    let events := match shape with
      | .sequence => itemEvents children
      | .mapping => entryEvents children
    .collectionStart shape ⟨none, tag⟩ :: (events ++ [.collectionEnd shape])
def itemEvents : List Draft -> List Event
  | [] => []
  | d :: rest => d.events false ++ itemEvents rest
def entryEvents : List Draft -> List Event
  | k :: v :: rest => k.events (Layout.isSimpleKey k) ++ v.events false ++ entryEvents rest
  | _ => []
end

end Draft

namespace Expectation

theorem run_of_move {fault : Option SyntaxFault} {handles : Handles} {done : List (Mark × Event)}
    {e : Expectation} {stack : List Expectation} {tokens : List Token} {m : Move}
    (h : move handles e tokens = .ok m) :
    run fault handles done (e :: stack) tokens =
      run fault m.handles (m.event.toList ++ done) (m.next ++ stack) m.rest := by
  rw [run_cons, h]

/-!
## What an expectation takes
-/

/-- In a document without directives, tokens of these kinds give these events and lead from one
expectation to others, in front of everything that may follow. -/
def Takes (mayFollow : List Token -> Bool) (e : Expectation) (kinds : List TokenKind)
    (events : List Event) (next : List Expectation) : Prop :=
  forall (fault : Option SyntaxFault) (done : List (Mark × Event)) (stack : List Expectation)
    (tokens rest : List Token),
    tokens.map (·.kind) = kinds -> mayFollow rest = true ->
    exists marked : List (Mark × Event), marked.map (·.2) = events ∧
      run fault Handles.standard done (e :: stack) (tokens ++ rest) =
        run fault Handles.standard (marked.reverse ++ done) (next ++ stack) rest

def anything (_ : List Token) : Bool :=
  true

def noEntry (rest : List Token) : Bool :=
  rest.head?.any (·.kind != .blockEntry)

theorem takes_nothing (mayFollow : List Token -> Bool) (e : Expectation) :
    Takes mayFollow e [] [] [e] := by
  intro fault done stack tokens rest htokens _
  rw [List.map_eq_nil_iff] at htokens
  subst htokens
  exact ⟨[], rfl, rfl⟩

theorem Takes.weaken {mayFollow : List Token -> Bool} {e : Expectation} {kinds : List TokenKind}
    {events : List Event} {next : List Expectation} (h : Takes anything e kinds events next) :
    Takes mayFollow e kinds events next := by
  intro fault done stack tokens rest htokens _
  exact h fault done stack tokens rest htokens rfl

theorem Takes.trans {mayFollow mayFollow' : List Token -> Bool} {e e' : Expectation}
    {kinds kinds' : List TokenKind} {events events' : List Event} {more next : List Expectation}
    (h : Takes mayFollow e kinds events (e' :: more))
    (h' : Takes mayFollow' e' kinds' events' next)
    (hfollow : forall tokens rest, tokens.map (·.kind) = kinds' -> mayFollow' rest = true ->
      mayFollow (tokens ++ rest) = true) :
    Takes mayFollow' e (kinds ++ kinds') (events ++ events') (next ++ more) := by
  intro fault done stack tokens rest htokens hrest
  rcases List.map_eq_append_iff.mp htokens with ⟨front, back, rfl, hfront, hback⟩
  rcases h fault done stack front (back ++ rest) hfront (hfollow back rest hback hrest) with
    ⟨marked, hmarked, hrun⟩
  rcases h' fault (marked.reverse ++ done) (more ++ stack) back rest hback hrest with
    ⟨marked', hmarked', hrun'⟩
  exists marked ++ marked'
  constructor
  · rw [List.map_append, hmarked, hmarked']
  · rw [List.append_assoc, hrun, List.cons_append, hrun', List.reverse_append, List.append_assoc,
      List.append_assoc]

section Moves

variable {mayFollow : List Token -> Bool} {e node next : Expectation} {kind : TokenKind}
variable {kinds : List TokenKind} {event : Event} {events : List Event}

theorem takes_token {after : List Expectation}
    (hmove : forall start stop rest,
      move Handles.standard e (⟨kind, start, stop⟩ :: rest) =
        .ok ⟨some (start, event), after, rest, Handles.standard⟩) :
    Takes anything e [kind] [event] after := by
  intro fault done stack tokens rest htokens _
  rcases List.map_eq_singleton_iff.mp htokens with ⟨⟨kind', start, stop⟩, rfl, rfl⟩
  refine ⟨[(start, event)], rfl, ?_⟩
  rw [List.singleton_append, run_of_move (hmove start stop rest)]
  rfl

theorem takes_entry {ends : TokenKind -> Bool}
    (hmove : forall start stop rest, exists place,
      move Handles.standard e (⟨kind, start, stop⟩ :: rest) =
        moveEntry Handles.standard ends place node next rest)
    (hends : kinds.head?.any (fun k => !ends k) = true)
    (h : Takes mayFollow node kinds events []) :
    Takes mayFollow e (kind :: kinds) events [next] := by
  intro fault done stack tokens rest htokens hrest
  rcases List.map_eq_cons_iff.mp htokens with ⟨⟨kind', start, stop⟩, tokens, rfl, rfl, hkinds⟩
  rcases hmove start stop (tokens ++ rest) with ⟨place, hplace⟩
  have hentry : moveEntry Handles.standard ends place node next (tokens ++ rest) =
      .ok ⟨none, [node, next], tokens ++ rest, Handles.standard⟩ := by
    cases tokens with
    | nil =>
        subst hkinds
        cases hends
    | cons t tokens =>
        have ht : ends t.kind = false := by
          subst hkinds
          simpa using hends
        simp [moveEntry, ht]
  rcases h fault done (next :: stack) tokens rest hkinds hrest with ⟨marked, hmarked, hrun⟩
  refine ⟨marked, hmarked, ?_⟩
  rw [List.cons_append, run_of_move (hplace.trans hentry)]
  simpa using hrun

end Moves

/-!
## Properties
-/

inductive Opens : TokenKind -> Shape -> (Mark -> Expectation) -> Prop where
  | flowSequence : Opens .flowSequenceStart .sequence (.flowSequence · true)
  | flowMapping : Opens .flowMappingStart .mapping (.flowKey · true)
  | blockSequence : Opens .blockSequenceStart .sequence .blockSequence
  | blockMapping : Opens .blockMappingStart .mapping .blockKey

theorem lookup_standard :
    Handles.standard.lookup ['!'] = some [33] := rfl

theorem resolveTag_tokenKind (octets : Octets) :
    exists handle suffix, TagSpelling.tokenKind octets = .tag handle suffix ∧
      forall began place, resolveTag Handles.standard began (some (handle, suffix, place)) =
        .ok (some octets) := by
  unfold TagSpelling.tokenKind
  split
  · refine ⟨['!'], _, rfl, ?_⟩
    intro began place
    rw [resolveTag, lookup_standard]
    rfl
  · refine ⟨[], octets, rfl, ?_⟩
    intro _ _
    rfl

section Properties

variable {tag : Option Octets} {front : List Token}
variable (hfront : front.map (·.kind) = TagSpelling.tokenKinds tag)
include hfront

theorem front_cases :
    (tag = none ∧ front = []) ∨ exists handle suffix place stop,
      front = [⟨.tag handle suffix, place, stop⟩] ∧
        forall began, resolveTag Handles.standard began (some (handle, suffix, place)) =
          .ok tag := by
  cases tag with
  | none => exact Or.inl ⟨rfl, List.map_eq_nil_iff.mp hfront⟩
  | some octets =>
      rcases List.map_eq_singleton_iff.mp hfront with ⟨⟨kind, place, stop⟩, rfl, hkind⟩
      rcases resolveTag_tokenKind octets with ⟨handle, suffix, htag, hresolve⟩
      obtain rfl : kind = .tag handle suffix := hkind.trans htag
      exact Or.inr ⟨handle, suffix, place, stop, rfl, fun began => hresolve began place⟩

variable (indentless : Bool) (start stop : Mark) (rest : List Token)

theorem move_opens {kind : TokenKind} {shape : Shape} {inner : Mark -> Expectation}
    (h : Opens kind shape inner) :
    exists began,
      move Handles.standard (.node true indentless) (front ++ ⟨kind, start, stop⟩ :: rest) =
        .ok ⟨some (began, .collectionStart shape ⟨none, tag⟩), [inner start], rest,
          Handles.standard⟩ := by
  rcases front_cases hfront with ⟨rfl, rfl⟩ | ⟨handle, suffix, place, stop', rfl, hresolve⟩
  · exists start
    cases h <;> rfl
  · exists place
    cases h <;> simp [move, moveNode, readProperties, hresolve]

theorem move_scalar (style : ScalarStyle) (text : List Char) :
    exists began,
      move Handles.standard (.node true indentless)
          (front ++ ⟨.scalar style text, start, stop⟩ :: rest) =
        .ok ⟨some (began, .scalar ⟨none, tag⟩ style text), [], rest, Handles.standard⟩ := by
  rcases front_cases hfront with ⟨rfl, rfl⟩ | ⟨handle, suffix, place, stop', rfl, hresolve⟩
  · exact ⟨start, rfl⟩
  · exists place
    simp [move, moveNode, readProperties, hresolve]

theorem move_indentless :
    exists began,
      move Handles.standard (.node true true) (front ++ ⟨.blockEntry, start, stop⟩ :: rest) =
        .ok ⟨some (began, .collectionStart .sequence ⟨none, tag⟩), [.indentlessSequence],
          ⟨.blockEntry, start, stop⟩ :: rest, Handles.standard⟩ := by
  rcases front_cases hfront with ⟨rfl, rfl⟩ | ⟨handle, suffix, place, stop', rfl, hresolve⟩
  · exact ⟨start, rfl⟩
  · exists place
    simp [move, moveNode, readProperties, hresolve]

end Properties

/-!
## Nodes
-/

def startsNode : TokenKind -> Bool
  | .tag _ _ | .scalar _ _ | .flowSequenceStart | .flowMappingStart | .blockSequenceStart
  | .blockMappingStart => true
  | _ => false

theorem not_ends_of_startsNode {kind : TokenKind} (h : startsNode kind = true) :
    endsBlockNode kind = false ∧ kind ≠ .blockEntry ∧ kind ≠ .blockEnd := by
  revert h
  cases kind <;> simp [startsNode, endsBlockNode]

theorem takes_scalar (indentless : Bool) (tag : Option Octets) (style : ScalarStyle)
    (text : List Char) :
    Takes anything (.node true indentless) (TagSpelling.tokenKinds tag ++ [.scalar style text])
      [.scalar ⟨none, tag⟩ style text] [] := by
  intro fault done stack tokens rest htokens _
  rcases List.map_eq_append_iff.mp htokens with ⟨front, back, rfl, hfront, hback⟩
  rcases List.map_eq_singleton_iff.mp hback with ⟨⟨kind, start, stop⟩, rfl, rfl⟩
  rcases move_scalar hfront indentless start stop rest style text with ⟨began, hmove⟩
  refine ⟨[(began, .scalar ⟨none, tag⟩ style text)], rfl, ?_⟩
  rw [List.append_assoc, List.singleton_append, run_of_move hmove]
  rfl

/-- The start of a collection, whose parts know where it began. -/
theorem takes_collection {kind : TokenKind} {shape : Shape} {inner : Mark -> Expectation}
    (hopens : Opens kind shape inner) (indentless : Bool) (tag : Option Octets)
    {mayFollow : List Token -> Bool} {kinds : List TokenKind} {events : List Event}
    (h : forall began, Takes mayFollow (inner began) kinds events []) :
    Takes mayFollow (.node true indentless) (TagSpelling.tokenKinds tag ++ kind :: kinds)
      (.collectionStart shape ⟨none, tag⟩ :: events) [] := by
  intro fault done stack tokens rest htokens hrest
  rcases List.map_eq_append_iff.mp htokens with ⟨front, back, rfl, hfront, hback⟩
  rcases List.map_eq_cons_iff.mp hback with ⟨⟨kind', start, stop⟩, tokens, rfl, rfl, hkinds⟩
  rcases move_opens hfront indentless start stop (tokens ++ rest) hopens with ⟨began, hmove⟩
  rcases h start fault ((began, .collectionStart shape ⟨none, tag⟩) :: done) stack tokens rest
    hkinds hrest with ⟨marked, hmarked, hrun⟩
  refine ⟨(began, .collectionStart shape ⟨none, tag⟩) :: marked,
    by rw [List.map_cons, hmarked], ?_⟩
  rw [List.append_assoc, List.cons_append, run_of_move hmove]
  simpa using hrun

theorem takes_brackets (indentless : Bool) (tag : Option Octets) (shape : Shape) :
    Takes anything (.node true indentless) (TagSpelling.tokenKinds tag ++ shape.brackets)
      [.collectionStart shape ⟨none, tag⟩, .collectionEnd shape] [] := by
  cases shape with
  | sequence =>
      apply takes_collection .flowSequence
      intro began
      apply takes_token
      intro start stop rest
      rfl
  | mapping =>
      apply takes_collection .flowMapping
      intro began
      apply takes_token
      intro start stop rest
      rfl

theorem events_empty (simpleKey : Bool) (shape : Shape) (tag : Option Octets) :
    Draft.events simpleKey (.collection shape tag []) =
      [.collectionStart shape ⟨none, tag⟩, .collectionEnd shape] := by
  cases shape with
  | sequence => rw [Draft.events]; rfl
  | mapping => rw [Draft.events]; rfl

theorem head_tagged (tag : Option Octets) {kinds : List TokenKind}
    (h : kinds.head?.any startsNode = true) :
    (TagSpelling.tokenKinds tag ++ kinds).head?.any startsNode = true := by
  cases tag with
  | none => exact h
  | some octets =>
      rcases resolveTag_tokenKind octets with ⟨handle, suffix, htag, -⟩
      rw [TagSpelling.tokenKinds, Option.toList_some, List.map_singleton, htag]
      rfl

theorem head_brackets (shape : Shape) :
    shape.brackets.head?.any startsNode = true := by
  cases shape <;> rfl

theorem head_nodeKinds (inMapping : Bool) (d : Draft) :
    (d.nodeKinds inMapping false).head?.any startsNode = true := by
  cases d with
  | scalar tag style text =>
      rw [Draft.nodeKinds]
      exact head_tagged tag rfl
  | collection shape tag children =>
      cases children with
      | nil =>
          rw [Draft.nodeKinds]
          exact head_tagged tag (head_brackets shape)
      | cons child children =>
          rw [Spot.nodeKinds_collection]
          cases tag with
          | none =>
              rw [Draft.isIndentless, Option.isSome_none, Bool.or_false, Bool.and_false,
                Bool.false_and, if_neg Bool.false_ne_true]
              cases shape <;> rfl
          | some octets =>
              have hhead := head_tagged (some octets) (head_brackets .sequence)
              simpa [TagSpelling.tokenKinds] using hhead

theorem head_keyKinds (k : Draft) :
    k.keyKinds.head?.any startsNode = true := by
  cases k with
  | scalar tag style text => exact head_tagged tag rfl
  | collection shape tag children => exact head_tagged tag (head_brackets shape)

theorem any_not_of_startsNode {ends : TokenKind -> Bool}
    (hends : forall kind, startsNode kind = true -> ends kind = false) {kinds : List TokenKind}
    (h : kinds.head?.any startsNode = true) :
    kinds.head?.any (fun kind => !ends kind) = true := by
  cases hkinds : kinds.head? with
  | none =>
      rw [hkinds] at h
      cases h
  | some kind =>
      rw [hkinds] at h
      simp [hends kind h]

theorem any_not_endsBlockNode {kinds : List TokenKind} (h : kinds.head?.any startsNode = true) :
    kinds.head?.any (fun kind => !endsBlockNode kind) = true :=
  any_not_of_startsNode (fun _ hkind => (not_ends_of_startsNode hkind).1) h

theorem head_nodeKinds_afterKey (d : Draft) :
    (d.nodeKinds true true).head?.any (fun kind => !endsBlockNode kind) = true := by
  cases d with
  | scalar tag style text =>
      rw [Draft.nodeKinds]
      exact any_not_endsBlockNode (head_tagged tag rfl)
  | collection shape tag children =>
      cases children with
      | nil =>
          rw [Draft.nodeKinds]
          exact any_not_endsBlockNode (head_tagged tag (head_brackets shape))
      | cons child children =>
          rw [Spot.nodeKinds_collection]
          cases tag with
          | none =>
              cases shape with
              | sequence => rfl
              | mapping => rfl
          | some octets =>
              have hhead := any_not_endsBlockNode
                (head_tagged (some octets) (head_brackets .sequence))
              simpa [TagSpelling.tokenKinds] using hhead

/-- The tokens of the draft give its events, wherever it stands. -/
structure Parsed (d : Draft) : Prop where
  inner : forall indentless,
    Takes anything (.node true indentless) (d.nodeKinds false false) (d.events false) []
  inMapping : forall afterKey,
    Takes noEntry (.node true true) (d.nodeKinds true afterKey) (d.events false) []

/-!
## Children
-/

theorem takes_items {e : Expectation} {ends : TokenKind -> Bool}
    (hmove : forall start stop rest, exists place,
      move Handles.standard e (⟨.blockEntry, start, stop⟩ :: rest) =
        moveEntry Handles.standard ends place (.node true false) e rest)
    (hends : forall kind, startsNode kind = true -> ends kind = false) {items : List Draft}
    (h : forall d, d ∈ items -> Parsed d) :
    Takes anything e (Draft.itemKinds items) (Draft.itemEvents items) [e] := by
  induction items with
  | nil => exact takes_nothing anything e
  | cons d items ih =>
      have hhead := any_not_of_startsNode hends (head_nodeKinds false d)
      have hitem := takes_entry hmove hhead ((h d List.mem_cons_self).inner false)
      have hothers := ih (fun d' hd' => h d' (List.mem_cons_of_mem d hd'))
      rw [Draft.itemKinds, Draft.itemEvents]
      exact hitem.trans hothers (fun _ _ _ _ => rfl)

theorem takes_keyKinds {k : Draft} (hsimple : Layout.isSimpleKey k = true) :
    Takes anything (.node true true) k.keyKinds (k.events true) [] := by
  cases k with
  | scalar tag style text =>
      rw [Draft.events]
      exact takes_scalar true tag _ _
  | collection shape tag children =>
      simp only [Layout.isSimpleKey, Bool.and_eq_true, List.isEmpty_iff] at hsimple
      rw [hsimple.1, events_empty]
      exact takes_brackets true tag shape

theorem takes_pair {k v : List TokenKind} {events events' : List Event}
    (hk : k.head?.any startsNode = true) (hv : v.head?.any (fun kind => !endsBlockNode kind) = true)
    (h : Takes noEntry (.node true true) k events [])
    (h' : Takes noEntry (.node true true) v events' []) (began : Mark) :
    Takes noEntry (.blockKey began) (.key :: (k ++ .value :: v)) (events ++ events')
      [.blockKey began] := by
  have hkey : Takes noEntry (.blockKey began) (.key :: k) events [.blockValue began] := by
    refine takes_entry ?_ (any_not_endsBlockNode hk) h
    intro start stop rest
    exact ⟨_, rfl⟩
  have hvalue : Takes noEntry (.blockValue began) (.value :: v) events' [.blockKey began] := by
    refine takes_entry ?_ hv h'
    intro start stop rest
    exact ⟨_, rfl⟩
  apply hkey.trans hvalue
  intro tokens rest htokens _
  rcases List.map_eq_cons_iff.mp htokens with ⟨t, tokens, rfl, ht, -⟩
  simp [noEntry, ht]

theorem noEntry_entryKinds {children : List Draft} {tokens rest : List Token}
    (htokens : tokens.map (·.kind) = Draft.entryKinds children) (hrest : noEntry rest = true) :
    noEntry (tokens ++ rest) = true := by
  have hkind : forall kinds, tokens.map (·.kind) = .key :: kinds ->
      noEntry (tokens ++ rest) = true := by
    intro kinds hkinds
    rcases List.map_eq_cons_iff.mp hkinds with ⟨t, tokens, rfl, ht, -⟩
    simp [noEntry, ht]
  match children with
  | [] =>
      have hnil : tokens = [] := by simpa [Draft.entryKinds] using htokens
      rw [hnil]
      exact hrest
  | [_] =>
      have hnil : tokens = [] := by simpa [Draft.entryKinds] using htokens
      rw [hnil]
      exact hrest
  | k :: v :: children =>
      rw [Draft.entryKinds] at htokens
      split at htokens
      · exact hkind _ htokens
      · exact hkind _ htokens

theorem takes_entries {children : List Draft} (hpaired : Draft.Paired children)
    (h : forall d, d ∈ children -> Parsed d) (began : Mark) :
    Takes noEntry (.blockKey began) (Draft.entryKinds children) (Draft.entryEvents children)
      [.blockKey began] := by
  induction hpaired with
  | nil =>
      rw [Draft.entryKinds, Draft.entryEvents]
      · exact takes_nothing noEntry _
      all_goals simp
  | entry k v hpaired ih =>
      rename_i rest
      have hv' := h v (List.mem_cons_of_mem k List.mem_cons_self)
      have hentry : Takes noEntry (.blockKey began)
          (if Layout.isSimpleKey k then .key :: (k.keyKinds ++ .value :: v.nodeKinds true true)
            else .key :: (k.nodeKinds true false ++ .value :: v.nodeKinds true false))
          (k.events (Layout.isSimpleKey k) ++ v.events false) [.blockKey began] := by
        cases hsimple : Layout.isSimpleKey k with
        | true =>
            exact takes_pair (head_keyKinds k) (head_nodeKinds_afterKey v)
              (takes_keyKinds hsimple).weaken (hv'.inMapping true) began
        | false =>
            exact takes_pair (head_nodeKinds true k)
              (any_not_endsBlockNode (head_nodeKinds true v))
              ((h k List.mem_cons_self).inMapping false) (hv'.inMapping false) began
      have hothers := ih
        (fun d hd => h d (List.mem_cons_of_mem k (List.mem_cons_of_mem v hd)))
      rw [Draft.entryKinds, Draft.entryEvents]
      exact hentry.trans hothers (fun _ _ => noEntry_entryKinds)

/-!
## Collections
-/

theorem takes_blockSequence {items : List Draft} (h : forall d, d ∈ items -> Parsed d)
    (indentless : Bool) (tag : Option Octets) :
    Takes anything (.node true indentless)
      (TagSpelling.tokenKinds tag ++ .blockSequenceStart :: (Draft.itemKinds items ++ [.blockEnd]))
      (.collectionStart .sequence ⟨none, tag⟩ ::
        (Draft.itemEvents items ++ [.collectionEnd .sequence])) [] := by
  apply takes_collection .blockSequence
  intro began
  have hmove : forall start stop rest, exists place,
      move Handles.standard (.blockSequence began) (⟨.blockEntry, start, stop⟩ :: rest) =
        moveEntry Handles.standard (fun k => k == .blockEntry || k == .blockEnd) place
          (.node true false) (.blockSequence began) rest := by
    intro start stop rest
    exact ⟨_, rfl⟩
  have hends : forall kind, startsNode kind = true ->
      (kind == TokenKind.blockEntry || kind == TokenKind.blockEnd) = false := by
    intro kind hkind
    rcases not_ends_of_startsNode hkind with ⟨-, hentry, hend⟩
    rw [beq_eq_false_iff_ne.mpr hentry, beq_eq_false_iff_ne.mpr hend]
    rfl
  have hend : Takes anything (.blockSequence began) [.blockEnd] [.collectionEnd .sequence]
      [] := by
    apply takes_token
    intro start stop rest
    rfl
  exact (takes_items hmove hends h).trans hend (fun _ _ _ _ => rfl)

theorem takes_blockMapping {children : List Draft} (hpaired : Draft.Paired children)
    (h : forall d, d ∈ children -> Parsed d) (indentless : Bool) (tag : Option Octets) :
    Takes anything (.node true indentless)
      (TagSpelling.tokenKinds tag ++
        .blockMappingStart :: (Draft.entryKinds children ++ [.blockEnd]))
      (.collectionStart .mapping ⟨none, tag⟩ ::
        (Draft.entryEvents children ++ [.collectionEnd .mapping])) [] := by
  apply takes_collection .blockMapping
  intro began
  have hend : Takes anything (.blockKey began) [.blockEnd] [.collectionEnd .mapping] [] := by
    apply takes_token
    intro start stop rest
    rfl
  apply (takes_entries hpaired h began).trans hend
  intro tokens rest htokens _
  rcases List.map_eq_singleton_iff.mp htokens with ⟨t, rfl, ht⟩
  simp [noEntry, ht]

theorem takes_indentlessEnd :
    Takes noEntry .indentlessSequence [] [.collectionEnd .sequence] [] := by
  intro fault done stack tokens rest htokens hrest
  rw [List.map_eq_nil_iff] at htokens
  subst htokens
  cases rest with
  | nil => cases hrest
  | cons t rest =>
      have hkind : t.kind ≠ .blockEntry := by simpa [noEntry] using hrest
      have hmove : move Handles.standard .indentlessSequence (t :: rest) =
          .ok ⟨some (t.start, .collectionEnd .sequence), [], t :: rest, Handles.standard⟩ := by
        simp only [move]
      refine ⟨[(t.start, .collectionEnd .sequence)], rfl, ?_⟩
      rw [List.nil_append, run_of_move hmove]
      rfl

theorem takes_indentlessSequence {items : List Draft} (hne : items ≠ [])
    (h : forall d, d ∈ items -> Parsed d) (tag : Option Octets) :
    Takes noEntry (.node true true) (TagSpelling.tokenKinds tag ++ Draft.itemKinds items)
      (.collectionStart .sequence ⟨none, tag⟩ ::
        (Draft.itemEvents items ++ [.collectionEnd .sequence])) [] := by
  have hmove : forall start stop rest, exists place,
      move Handles.standard .indentlessSequence (⟨.blockEntry, start, stop⟩ :: rest) =
        moveEntry Handles.standard (fun k => k == .blockEntry || endsBlockNode k) place
          (.node true false) .indentlessSequence rest := by
    intro start stop rest
    exact ⟨_, rfl⟩
  have hends : forall kind, startsNode kind = true ->
      (kind == TokenKind.blockEntry || endsBlockNode kind) = false := by
    intro kind hkind
    rcases not_ends_of_startsNode hkind with ⟨hend, hentry, -⟩
    rw [beq_eq_false_iff_ne.mpr hentry, hend]
    rfl
  have hinner := (takes_items hmove hends h).trans takes_indentlessEnd (fun _ _ _ _ => rfl)
  rw [List.append_nil] at hinner
  intro fault done stack tokens rest htokens hrest
  rcases List.map_eq_append_iff.mp htokens with ⟨front, back, rfl, hfront, hback⟩
  cases items with
  | nil => exact absurd rfl hne
  | cons item items =>
      rw [Draft.itemKinds, List.cons_append] at hback
      rcases List.map_eq_cons_iff.mp hback with ⟨⟨kind, start, stop⟩, tokens, rfl, rfl, hkinds⟩
      rcases move_indentless hfront start stop (tokens ++ rest) with ⟨began, hstart⟩
      rcases hinner fault ((began, .collectionStart .sequence ⟨none, tag⟩) :: done) stack
        (⟨.blockEntry, start, stop⟩ :: tokens) rest hback hrest with ⟨marked, hmarked, hrun⟩
      refine ⟨(began, .collectionStart .sequence ⟨none, tag⟩) :: marked,
        by rw [List.map_cons, hmarked], ?_⟩
      rw [List.append_assoc, List.cons_append, run_of_move hstart]
      simpa using hrun

/-!
## Nodes and documents
-/

theorem parsed_of_eq {d : Draft} {kinds : List TokenKind}
    (hkinds : forall inMapping afterKey, d.nodeKinds inMapping afterKey = kinds)
    (h : forall indentless,
      Takes anything (.node true indentless) kinds (d.events false) []) :
    Parsed d := by
  constructor
  · intro indentless
    rw [hkinds]
    exact h indentless
  · intro afterKey
    rw [hkinds]
    exact (h true).weaken

theorem parsed_empty (shape : Shape) (tag : Option Octets) :
    Parsed (.collection shape tag []) := by
  apply parsed_of_eq
  · intro inMapping afterKey
    rw [Draft.nodeKinds]
  · intro indentless
    rw [events_empty]
    exact takes_brackets indentless tag shape

theorem parsed_of_sound {d : Draft} (h : d.Sound) :
    Parsed d := by
  induction h with
  | scalar htag hwanted =>
      rename_i tag style text
      apply parsed_of_eq
      · intro inMapping afterKey
        rw [Draft.nodeKinds]
      · intro indentless
        rw [Draft.events]
        exact takes_scalar indentless tag _ _
  | sequence htag hitems ih =>
      rename_i tag items
      cases items with
      | nil => exact parsed_empty .sequence tag
      | cons item items =>
          constructor
          · intro indentless
            rw [Spot.nodeKinds_collection, Draft.events]
            exact takes_blockSequence ih indentless tag
          · intro afterKey
            rw [Spot.nodeKinds_collection, Draft.events]
            split
            · exact takes_indentlessSequence (List.cons_ne_nil item items) ih tag
            · exact (takes_blockSequence ih true tag).weaken
  | mapping htag hchildren hpaired ih =>
      rename_i tag children
      cases children with
      | nil => exact parsed_empty .mapping tag
      | cons child children =>
          apply parsed_of_eq
          · intro inMapping afterKey
            rw [Spot.nodeKinds_collection, Draft.isIndentless,
              show (Shape.mapping == Shape.sequence) = false from rfl, Bool.and_false,
              if_neg Bool.false_ne_true]
          · intro indentless
            rw [Draft.events]
            exact takes_blockMapping hpaired ih indentless tag

end Expectation

/-- The events of a document that is a draft. -/
theorem Event.ofTokens_document {d : Draft} (h : d.Sound) {tokens : List Token}
    (htokens : tokens.map (·.kind) = d.nodeKinds false false ++ [.streamEnd]) :
    exists events, Event.ofTokens tokens none = (events, none) ∧
      events.map (·.2) =
        .documentStart :: (d.events false ++ [.documentEnd, .streamEnd]) := by
  rcases List.map_eq_append_iff.mp htokens with ⟨front, back, rfl, hfront, hback⟩
  rcases List.map_eq_singleton_iff.mp hback with ⟨⟨kind, start, stop⟩, rfl, rfl⟩
  cases front with
  | nil =>
      have hhead := Expectation.head_nodeKinds false d
      rw [← hfront] at hhead
      cases hhead
  | cons t front =>
      have ht : Expectation.startsNode t.kind = true := by
        have hhead := Expectation.head_nodeKinds false d
        rw [← hfront] at hhead
        simpa using hhead
      have hfirst : Expectation.move [] (.documentStart true)
          (t :: (front ++ [⟨.streamEnd, start, stop⟩])) =
          .ok ⟨some (t.start, .documentStart), [.node true false, .documentEnd],
            t :: (front ++ [⟨.streamEnd, start, stop⟩]), Handles.standard⟩ := by
        rcases t with ⟨kind, _, _⟩
        cases kind <;> first | rfl | cases ht
      rcases (Expectation.parsed_of_sound h).inner false none
        [(t.start, .documentStart)] [.documentEnd] (t :: front) [⟨.streamEnd, start, stop⟩]
        hfront rfl with ⟨marked, hmarked, hrun⟩
      have hdocumentEnd : Expectation.move Handles.standard .documentEnd
          [⟨.streamEnd, start, stop⟩] =
          .ok ⟨some (start, .documentEnd), [.documentStart false],
            [⟨.streamEnd, start, stop⟩], []⟩ :=
        rfl
      have hstreamEnd : Expectation.move [] (.documentStart false) [⟨.streamEnd, start, stop⟩] =
          .ok ⟨some (start, .streamEnd), [], [], []⟩ := rfl
      refine ⟨(t.start, .documentStart) ::
        (marked ++ [(start, .documentEnd), (start, .streamEnd)]), ?_, ?_⟩
      · change Expectation.run none [] [] [.documentStart true]
          (t :: (front ++ [⟨.streamEnd, start, stop⟩])) = _
        rw [Expectation.run_of_move hfirst]
        change Expectation.run none Handles.standard [(t.start, .documentStart)]
          [.node true false, .documentEnd] ((t :: front) ++ [⟨.streamEnd, start, stop⟩]) = _
        rw [hrun, List.nil_append, Expectation.run_of_move hdocumentEnd, List.append_nil,
          Expectation.run_of_move hstreamEnd, List.append_nil, Expectation.run]
        simp
      · rw [List.map_cons, List.map_append, hmarked]
        rfl

end Yaml
end Clippings
