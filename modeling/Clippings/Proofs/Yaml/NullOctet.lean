import Clippings.Proofs.Yaml.Lexing.Tokens
import Clippings.Yaml.Value.Reader

/-!
# Tags without null octets

The null octet ends what a tag or a directive spells.  No tag of a text has one, through handles and
anchors up to the tree.
-/

namespace Clippings
namespace Yaml

def NullFree (tag : Option Octets) : Prop :=
  forall octets, tag = some octets -> 0 ∉ octets

theorem nullFree_none :
    NullFree none :=
  fun _ h => nomatch h

theorem NullFree.append {expansion suffix : Octets} (h : 0 ∉ expansion) (h' : 0 ∉ suffix) :
    NullFree (some (expansion ++ suffix)) := by
  intro octets hoctets
  cases hoctets
  rw [List.mem_append, not_or]
  exact ⟨h, h'⟩

theorem Handles.standard_nullFree :
    forall h, h ∈ Handles.standard -> 0 ∉ h.2 := by
  decide

/-!
## Tokens
-/

namespace TokenKind

def NullFree : TokenKind -> Prop
  | tag _ suffix => 0 ∉ suffix
  | tagDirective _ expansion => 0 ∉ expansion
  | _ => True

theorem nullFree_of_spelled {kind : TokenKind} (h : Lexer.Spelled kind) :
    kind.NullFree := by
  cases kind with
  | tag handle suffix => exact h
  | tagDirective handle expansion => exact h
  | _ => trivial

end TokenKind

theorem Token.nullFree_ofText (text : List Char) :
    forall t, t ∈ (Token.ofText text).1 -> t.kind.NullFree := by
  have hrun := Lexer.holds_run Lexer.throughout_spelled _ (Lexer.spelled_of_start text)
  intro t ht
  rw [Token.ofText] at ht
  split at hrun
  · rename_i tokens f hl
    rw [hl] at ht
    exact TokenKind.nullFree_of_spelled (hrun t ht)
  · rename_i tokens hl
    rcases hrun with ⟨before, last, hfinished, -⟩
    rw [hl, hfinished.split] at ht
    rcases List.mem_append.mp ht with ht | ht
    · exact TokenKind.nullFree_of_spelled (hfinished.holds t ht)
    · rw [List.mem_singleton.mp ht, hfinished.streamEnd]
      trivial

/-!
## Events
-/

namespace Event

def tag? : Event -> Option Octets
  | scalar properties _ _ => properties.tag
  | collectionStart _ properties => properties.tag
  | _ => none

end Event

namespace Expectation

structure NullFree (tokens : List Token) (handles : Handles) : Prop where
  tokens : forall t, t ∈ tokens -> t.kind.NullFree
  handles : forall h, h ∈ handles -> 0 ∉ h.2

section Moves

variable {tokens rest : List Token} {handles handles' : Handles} {m : Move}

theorem NullFree.sublist (h : NullFree tokens handles) (hrest : forall t, t ∈ rest -> t ∈ tokens) :
    NullFree rest handles :=
  ⟨fun t ht => h.tokens t (hrest t ht), h.handles⟩

theorem NullFree.tail {t : Token} (h : NullFree (t :: rest) handles) :
    NullFree rest handles :=
  h.sublist (fun _ => List.mem_cons_of_mem t)

theorem NullFree.withHandles (h : NullFree tokens handles)
    (hhandles : forall h, h ∈ handles' -> 0 ∉ h.2) :
    NullFree tokens handles' :=
  ⟨h.tokens, hhandles⟩

/-- A move that reports no null octet and leaves none. -/
structure NullFreeMove (m : Move) : Prop where
  event : forall e, m.event = some e -> Yaml.NullFree e.2.tag?
  left : NullFree m.rest m.handles

theorem NullFreeMove.silent {next : List Expectation} (h : NullFree tokens handles) :
    NullFreeMove ⟨none, next, tokens, handles⟩ :=
  ⟨(fun _ he => nomatch he), h⟩

theorem NullFreeMove.report {place : Mark} {e : Event} {next : List Expectation}
    (h : NullFree tokens handles) (he : Yaml.NullFree e.tag?) :
    NullFreeMove ⟨some (place, e), next, tokens, handles⟩ := by
  refine ⟨?_, h⟩
  intro e' he'
  cases he'
  exact he

theorem nullFree_skipDocumentEnds (h : NullFree tokens handles) :
    NullFree (skipDocumentEnds tokens) handles := by
  fun_induction skipDocumentEnds tokens with
  | case1 => exact h
  | case2 t rest ht ih => exact ih h.tail
  | case3 t rest ht => exact h

theorem nullFree_readDirectives {versioned : Bool} {r : Handles × List Token}
    (hr : readDirectives versioned handles tokens = .ok r) (h : NullFree tokens handles) :
    NullFree r.2 r.1 := by
  fun_induction readDirectives versioned handles tokens with
  | case3 _ handles t rest major minor hkind _ _ ih => exact ih hr h.tail
  | case6 versioned handles t rest handle expansion hkind hnew ih =>
      refine ih hr (h.tail.withHandles ?_)
      intro p hp
      rcases List.mem_append.mp hp with hp | hp
      · exact h.handles p hp
      · have hexpansion := h.tokens t List.mem_cons_self
        rw [hkind] at hexpansion
        rw [List.mem_singleton.mp hp]
        exact hexpansion
  | case7 versioned handles t rest hversion htag =>
      cases hr
      apply h.withHandles
      intro p hp
      rcases List.mem_append.mp hp with hp | hp
      · exact h.handles p hp
      · exact Handles.standard_nullFree p hp
  | _ => cases hr

theorem nullFree_moveDocumentStart {first : Bool} (h : NullFree tokens handles)
    (hm : moveDocumentStart first tokens = .ok m) :
    NullFreeMove m := by
  have hskip : NullFree (if first then tokens else skipDocumentEnds tokens) [] := by
    have hnone : NullFree tokens [] := h.withHandles (by simp)
    split
    · exact hnone
    · exact nullFree_skipDocumentEnds hnone
  unfold moveDocumentStart at hm
  split at hm
  · cases hm
  · rename_i t rest ht
    rw [ht] at hskip
    split at hm
    · cases hm
      exact .report hskip.tail nullFree_none
    · split at hm
      · cases hm
        exact .report (h.withHandles Handles.standard_nullFree) nullFree_none
      · split at hm
        · cases hm
        · cases hm
        · rename_i handles' u rest' hd
          have hdirectives := nullFree_readDirectives hd hskip
          split at hm
          · cases hm
            exact .report hdirectives.tail nullFree_none
          · cases hm

/-!
## Nodes
-/

def SpelledNullFree (tag : Option (List Char × Octets × Mark)) : Prop :=
  forall handle suffix place, tag = some (handle, suffix, place) -> 0 ∉ suffix

theorem nullFree_readProperties (h : NullFree tokens handles) :
    SpelledNullFree (readProperties tokens).tag ∧
      NullFree (readProperties tokens).rest handles := by
  have htag : forall {handle : List Char} {suffix : Octets} {m n place : Mark},
      ⟨.tag handle suffix, m, n⟩ ∈ tokens -> SpelledNullFree (some (handle, suffix, place)) := by
    intro handle suffix m n place ht handle' suffix' place' heq
    cases heq
    exact h.tokens _ ht
  unfold readProperties
  split
  · exact ⟨htag (List.mem_cons_of_mem _ List.mem_cons_self), h.tail.tail⟩
  · exact ⟨htag List.mem_cons_self, h.tail.tail⟩
  · exact ⟨(fun _ _ _ heq => nomatch heq), h.tail⟩
  · exact ⟨htag List.mem_cons_self, h.tail⟩
  · exact ⟨(fun _ _ _ heq => nomatch heq), h⟩

theorem nullFree_resolveTag {began : Mark} {spelled : Option (List Char × Octets × Mark)}
    {tag : Option Octets} (hhandles : forall h, h ∈ handles -> 0 ∉ h.2)
    (hspelled : SpelledNullFree spelled) (htag : resolveTag handles began spelled = .ok tag) :
    Yaml.NullFree tag := by
  unfold resolveTag at htag
  split at htag
  · cases htag
    exact nullFree_none
  · rename_i handle suffix place
    have hsuffix := hspelled handle suffix place rfl
    split at htag
    · cases htag
      exact NullFree.append List.not_mem_nil hsuffix
    · split at htag
      · rename_i expansion hlookup
        cases htag
        rcases List.lookup_eq_some_iff.mp hlookup with ⟨before, after, rfl, -⟩
        exact NullFree.append (hhandles (handle, expansion) (by simp)) hsuffix
      · cases htag

theorem nullFree_moveNode {block indentless : Bool} (h : NullFree tokens handles)
    (hm : moveNode handles block indentless tokens = .ok m) :
    NullFreeMove m := by
  unfold moveNode at hm
  split at hm
  · cases hm
  · cases hm
    exact .report h.tail nullFree_none
  · rcases nullFree_readProperties h with ⟨hspelled, hrest⟩
    simp only at hm
    split at hm
    · cases hm
    · rename_i t rest ht
      rw [ht] at hrest
      split at hm
      · cases hm
      · rename_i tag hresolved
        have htag := nullFree_resolveTag h.handles hspelled hresolved
        have hbare : forall {place : Mark} {anchor : Option (List Char)} {cond : Bool}
            {f : SyntaxFault}, (if cond = true then
              Except.ok ⟨some (place, .scalar ⟨anchor, tag⟩ .plain []), [], t :: rest, handles⟩
              else Except.error (Halt.fault f)) = Except.ok m -> NullFreeMove m := by
          intro place anchor cond f hm
          split at hm
          · cases hm
            exact .report hrest htag
          · cases hm
        have hopen : forall {place : Mark} {shape : Shape} {anchor : Option (List Char)}
            {next : Expectation} {rest' : List Token}, NullFree rest' handles ->
            Except.ok ⟨some (place, .collectionStart shape ⟨anchor, tag⟩), [next], rest',
              handles⟩ = (Except.ok m : Except Halt Move) -> NullFreeMove m := by
          intro place shape anchor next rest' hrest' hm
          cases hm
          exact .report hrest' htag
        split at hm
        · split at hm
          · exact hopen hrest hm
          · exact hbare hm
        · cases hm
          exact .report hrest.tail htag
        · exact hopen hrest.tail hm
        · exact hopen hrest.tail hm
        · split at hm
          · exact hopen hrest.tail hm
          · exact hbare hm
        · split at hm
          · exact hopen hrest.tail hm
          · exact hbare hm
        · exact hbare hm

/-!
## All moves
-/

theorem nullFree_moveEntry {ends : TokenKind -> Bool} {stop : Token -> Mark}
    {node next : Expectation} (h : NullFree rest handles)
    (hm : moveEntry handles ends stop node next rest = .ok m) :
    NullFreeMove m := by
  unfold moveEntry at hm
  split at hm
  · cases hm
  · split at hm
    · cases hm
      exact .report h nullFree_none
    · cases hm
      exact .silent h

theorem nullFree_moveFlowEntry {began : Mark} (h : NullFree tokens handles)
    (hm : moveFlowEntry handles began tokens = .ok m) :
    NullFreeMove m := by
  unfold moveFlowEntry at hm
  split at hm
  · cases hm
  · split at hm
    · cases hm
      exact .report h.tail nullFree_none
    · cases hm
      exact .report h.tail nullFree_none
    · cases hm
      exact .silent h

theorem nullFree_moveFlowKey {began : Mark} (h : NullFree tokens handles)
    (hm : moveFlowKey handles began tokens = .ok m) :
    NullFreeMove m := by
  unfold moveFlowKey at hm
  split at hm
  · cases hm
  · split at hm
    · cases hm
      exact .report h.tail nullFree_none
    · exact nullFree_moveEntry h.tail hm
    · cases hm
      exact .silent h

theorem nullFree_move {e : Expectation} (h : NullFree tokens handles)
    (hm : move handles e tokens = .ok m) :
    NullFreeMove m := by
  cases tokens with
  | nil =>
      cases e with
      | documentStart first => exact nullFree_moveDocumentStart h hm
      | _ => cases hm
  | cons t rest =>
      cases e with
      | documentStart first => exact nullFree_moveDocumentStart h hm
      | node block indentless => exact nullFree_moveNode h hm
      | documentContent =>
          simp only [move] at hm
          split at hm
          · cases hm
            exact .report h nullFree_none
          · cases hm
            exact .silent h
      | documentEnd =>
          cases hm
          have hrest : NullFree (if t.kind == .documentEnd then rest else t :: rest) handles := by
            split
            · exact h.tail
            · exact h
          exact .report (hrest.withHandles (by simp)) nullFree_none
      | blockSequence began | blockKey began =>
          simp only [move] at hm
          split at hm
          · exact nullFree_moveEntry h.tail hm
          · cases hm
            exact .report h.tail nullFree_none
          · cases hm
      | indentlessSequence | blockValue began | pairValue began | flowValue began =>
          simp only [move] at hm
          split at hm
          · exact nullFree_moveEntry h.tail hm
          · cases hm
            exact .report h nullFree_none
      | flowSequence began first =>
          simp only [move] at hm
          split at hm
          · exact nullFree_moveFlowEntry h hm
          · split at hm
            · exact nullFree_moveFlowEntry h.tail hm
            · cases hm
      | flowKey began first =>
          simp only [move] at hm
          split at hm
          · exact nullFree_moveFlowKey h hm
          · split at hm
            · exact nullFree_moveFlowKey h.tail hm
            · cases hm
      | pairKey began =>
          simp only [move] at hm
          split at hm
          · cases hm
            exact .report h.tail nullFree_none
          · cases hm
            exact .silent h
      | pairEnd began | flowNoValue began =>
          cases hm
          exact .report h nullFree_none

end Moves

theorem nullFree_run {fault : Option SyntaxFault} {handles : Handles} {done : List (Mark × Event)}
    {stack : List Expectation} {tokens : List Token} (h : NullFree tokens handles)
    (hdone : forall e, e ∈ done -> Yaml.NullFree e.2.tag?) :
    forall e, e ∈ (run fault handles done stack tokens).1 -> Yaml.NullFree e.2.tag? := by
  have hreverse : forall {done : List (Mark × Event)},
      (forall e, e ∈ done -> Yaml.NullFree e.2.tag?) ->
      forall e, e ∈ done.reverse -> Yaml.NullFree e.2.tag? :=
    fun hdone e he => hdone e (List.mem_reverse.mp he)
  fun_induction run fault handles done stack tokens with
  | case1 | case2 | case3 => exact hreverse hdone
  | case4 handles done tokens e stack m hm ih =>
      have hmove := nullFree_move h hm
      apply ih hmove.left
      intro e he
      rcases List.mem_append.mp he with he | he
      · exact hmove.event e (Option.mem_toList.mp he)
      · exact hdone e he

end Expectation

theorem Event.nullFree_ofTokens {tokens : List Token} {fault : Option SyntaxFault}
    (h : forall t, t ∈ tokens -> t.kind.NullFree) :
    forall e, e ∈ (Event.ofTokens tokens fault).1 -> NullFree e.2.tag? :=
  Expectation.nullFree_run ⟨h, by simp⟩ (by simp)

/-!
## Trees
-/

namespace Node

inductive NullFree : Node -> Prop where
  | scalar {place : Mark} {tag : Option Octets} {style : ScalarStyle} {text : List Char} :
      Yaml.NullFree tag -> NullFree (.scalar place tag style text)
  | collection {shape : Shape} {place : Mark} {tag : Option Octets} {children : List Node}
      {complete : Bool} :
      Yaml.NullFree tag -> (forall n, n ∈ children -> NullFree n) ->
      NullFree (.collection shape place tag children complete)
  | alias (number : Nat) : NullFree (.alias number)

end Node

namespace Tree

structure NullFree (t : Tree) : Prop where
  root : forall n, t.root = some n -> n.NullFree
  anchored : forall n, n ∈ t.anchored -> n.2.NullFree

namespace Builder

structure NullFreeFrame (f : Frame) : Prop where
  tag : Yaml.NullFree f.tag
  children : forall n, n ∈ f.children -> n.NullFree

structure NullFree (b : Builder) : Prop where
  frames : forall f, f ∈ b.frames -> NullFreeFrame f
  roots : forall n, n ∈ b.roots -> n.NullFree
  finished : forall n, n ∈ b.finished -> n.2.NullFree

theorem nullFree_empty :
    NullFree empty :=
  ⟨by simp [empty], by simp [empty], by simp [empty]⟩

section Building

variable {b : Builder}

theorem NullFree.add (h : NullFree b) (position : Nat) {node : Node} (hnode : node.NullFree) :
    NullFree (b.add position node) := by
  have hfinished : forall n, n ∈ (position, node) :: b.finished -> n.2.NullFree := by
    intro n hn
    rcases List.mem_cons.mp hn with rfl | hn
    · exact hnode
    · exact h.finished n hn
  unfold Builder.add
  split
  · refine ⟨h.frames, ?_, hfinished⟩
    intro n hn
    rcases List.mem_cons.mp hn with rfl | hn
    · exact hnode
    · exact h.roots n hn
  · rename_i f frames hframes
    have hframe := h.frames
    rw [hframes] at hframe
    refine ⟨?_, h.roots, hfinished⟩
    intro g hg
    rcases List.mem_cons.mp hg with rfl | hg
    · constructor
      · exact (hframe f List.mem_cons_self).tag
      · intro n hn
        rcases List.mem_cons.mp hn with rfl | hn
        · exact hnode
        · exact (hframe f List.mem_cons_self).children n hn
    · exact hframe g (List.mem_cons_of_mem f hg)

theorem NullFree.close (h : NullFree b) (complete : Bool) :
    NullFree (b.close complete) := by
  unfold Builder.close
  split
  · exact h
  · rename_i f frames hframes
    have hframe := h.frames
    rw [hframes] at hframe
    have hfront := hframe f List.mem_cons_self
    have hrest : NullFree { b with frames := frames } :=
      ⟨fun g hg => hframe g (List.mem_cons_of_mem f hg), h.roots, h.finished⟩
    exact hrest.add _
      (.collection hfront.tag (fun n hn => hfront.children n (List.mem_reverse.mp hn)))

theorem NullFree.closeAll (h : NullFree b) :
    NullFree b.closeAll := by
  have hfold : forall (frames : List Frame) {b : Builder}, NullFree b ->
      NullFree (frames.foldl (fun b _ => b.close false) b) := by
    intro frames
    induction frames with
    | nil => exact id
    | cons f frames ih => exact fun h => ih (h.close false)
  exact hfold b.frames h

theorem NullFree.tree (h : NullFree b) (fault : Option TreeFault) (followed : Bool) :
    (b.tree fault followed).NullFree := by
  have hdone := h.closeAll
  constructor
  · intro n hn
    exact hdone.roots n (List.mem_of_getLast? hn)
  · intro n hn
    rcases List.mem_filterMap.mp hn with ⟨⟨number, position⟩, -, hlookup⟩
    rcases Option.map_eq_some_iff.mp hlookup with ⟨node, hnode, rfl⟩
    rcases List.lookup_eq_some_iff.mp hnode with ⟨before, after, hfinished, -⟩
    exact hdone.finished (position, node) (by rw [hfinished]; simp)

end Building

theorem nullFree_run {fault : Option TreeFault} {b : Builder} {events : List (Mark × Event)}
    (h : NullFree b) (hevents : forall e, e ∈ events -> Yaml.NullFree e.2.tag?) :
    (run fault b events).NullFree := by
  induction events generalizing b with
  | nil => exact h.tree fault false
  | cons e rest ih =>
      rcases e with ⟨place, event⟩
      have hrest : forall e, e ∈ rest -> Yaml.NullFree e.2.tag? :=
        fun e he => hevents e (List.mem_cons_of_mem _ he)
      have htag : Yaml.NullFree event.tag? := hevents (place, event) List.mem_cons_self
      have hstep : forall {b : Builder}, NullFree b -> NullFree b.step :=
        fun h => ⟨h.frames, h.roots, h.finished⟩
      cases event with
      | documentStart => exact ih h hrest
      | streamEnd => exact h.tree none false
      | documentEnd => exact h.tree none _
      | «alias» name =>
          rw [run]
          split
          · exact h.tree _ false
          · exact ih (hstep (h.add _ (.alias _))) hrest
      | scalar properties style text =>
          have hnoted : NullFree { b with anchors := b.anchors.note properties b.position } :=
            ⟨h.frames, h.roots, h.finished⟩
          exact ih (hstep (hnoted.add _ (.scalar htag))) hrest
      | collectionStart shape properties =>
          refine ih (hstep ⟨?_, h.roots, h.finished⟩) hrest
          intro f hf
          rcases List.mem_cons.mp hf with rfl | hf
          · exact ⟨htag, by simp⟩
          · exact h.frames f hf
      | collectionEnd shape => exact ih (hstep (h.close true)) hrest

end Builder

/-- No tag of a text has a null octet. -/
theorem nullFree_ofText {text : List Char} {t : Tree} (h : Tree.ofText text = .ok t) :
    t.NullFree := by
  unfold Tree.ofText at h
  split at h
  · cases h
  · cases h
    exact Builder.nullFree_run Builder.nullFree_empty
      (Event.nullFree_ofTokens (Token.nullFree_ofText text))

end Tree
end Yaml
end Clippings
