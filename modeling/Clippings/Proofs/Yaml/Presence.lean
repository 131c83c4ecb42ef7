import Clippings.Proofs.Yaml.Events
import Clippings.Proofs.Yaml.Lexing.Tokens
import Clippings.Yaml.Node
import Clippings.Yaml.Value.Reader

/-!
# Texts with a token

A text with any token but the one at its end holds a node, or something is wrong with it.
-/

namespace Clippings
namespace Yaml

/-!
## Trees with a root
-/

namespace Tree

/-- There is a node, or a reason why there is none. -/
def Yields (t : Tree) : Prop :=
  t.root ≠ none ∨ t.fault ≠ none

namespace Builder

def Begun (b : Builder) : Prop :=
  b.roots ≠ [] ∨ b.frames ≠ []

theorem begun_add (b : Builder) (position : Nat) (node : Node) :
    (b.add position node).Begun := by
  unfold add
  split
  · exact Or.inl (List.cons_ne_nil _ _)
  · exact Or.inr (List.cons_ne_nil _ _)

theorem begun_step {b : Builder} (h : b.Begun) :
    b.step.Begun :=
  h

theorem frames_add (b : Builder) (position : Nat) (node : Node) :
    (b.add position node).frames.length = b.frames.length := by
  unfold add
  split
  · rename_i h
    rw [h]
  · rename_i h
    rw [h]
    rfl

theorem begun_close {b : Builder} (complete : Bool) (h : b.Begun) :
    (b.close complete).Begun := by
  unfold close
  split
  · exact h
  · exact begun_add _ _ _

theorem frames_close (b : Builder) (complete : Bool) :
    (b.close complete).frames.length = b.frames.length - 1 := by
  unfold close
  split
  · rename_i h
    rw [h]
    rfl
  · rename_i h
    rw [frames_add, h]
    rfl

theorem root_tree {b : Builder} (h : b.Begun) (fault : Option TreeFault) (followed : Bool) :
    (b.tree fault followed).root ≠ none := by
  have hclosed : forall (n : Nat) (fs : List Frame) (b : Builder), fs.length = n ->
      b.frames.length = n -> b.Begun ->
        (fs.foldl (fun b _ => b.close false) b).roots ≠ [] := by
    intro n
    induction n with
    | zero =>
        intro fs b hfs hframes hb
        rw [List.length_eq_zero_iff] at hfs hframes
        subst hfs
        exact hb.resolve_right (fun hne => hne hframes)
    | succ n ih =>
        intro fs b hfs hframes hb
        cases fs with
        | nil => cases hfs
        | cons f fs =>
            refine ih fs _ (by simpa using hfs) ?_ (begun_close false hb)
            rw [frames_close, hframes]
            rfl
  have hroots := hclosed b.frames.length b.frames b rfl rfl h
  intro hnone
  exact hroots (List.getLast?_eq_none_iff.mp hnone)

theorem root_run (fault : Option TreeFault) {b : Builder} (h : b.Begun)
    (events : List (Mark × Event)) :
    (run fault b events).root ≠ none := by
  induction events generalizing b with
  | nil => exact root_tree h fault false
  | cons marked rest ih =>
      rcases marked with ⟨place, event⟩
      cases event with
      | documentStart => exact ih h
      | documentEnd => exact root_tree h none _
      | streamEnd => exact root_tree h none false
      | «alias» name =>
          rw [run]
          split
          · exact root_tree h _ false
          · exact ih (begun_add b _ _)
      | scalar properties style text => exact ih (begun_add _ _ _)
      | collectionStart shape properties => exact ih (Or.inr (List.cons_ne_nil _ _))
      | collectionEnd shape => exact ih (begun_close true h)

end Builder
end Tree

/-!
## Events with a node
-/

def Event.startsNode : Event -> Bool
  | .alias _ | .scalar _ _ _ | .collectionStart _ _ => true
  | _ => false

namespace Tree

theorem yields_of_startsNode {place : Mark} {event : Event} (h : event.startsNode = true)
    (fault : Option TreeFault) (rest : List (Mark × Event)) :
    (Builder.run fault Builder.empty ((place, event) :: rest)).Yields := by
  cases event with
  | «alias» name => exact Or.inr (by simp [Builder.run, Builder.empty, Anchors.empty, Builder.tree])
  | scalar properties style text =>
      apply Or.inl
      rw [Builder.run]
      exact Builder.root_run fault (Builder.begun_step (Builder.begun_add _ _ _)) rest
  | collectionStart shape properties =>
      apply Or.inl
      rw [Builder.run]
      exact Builder.root_run fault (Or.inr (List.cons_ne_nil _ _)) rest
  | documentStart | documentEnd | streamEnd | collectionEnd => cases h

end Tree

namespace Expectation

theorem run_extends (fault : Option SyntaxFault) (handles : Handles) (done : List (Mark × Event))
    (stack : List Expectation) (tokens : List Token) :
    exists more, (run fault handles done stack tokens).1 = done.reverse ++ more := by
  fun_induction run fault handles done stack tokens with
  | case1 => exact ⟨[], by simp⟩
  | case2 => exact ⟨[], by simp⟩
  | case3 => exact ⟨[], by simp⟩
  | case4 handles done tokens e stack m hm ih =>
      rcases ih with ⟨more, hmore⟩
      exists m.event.toList ++ more
      rw [hmore, List.reverse_append, List.append_assoc]
      cases m.event <;> rfl

def Ended (tokens : List Token) : Prop :=
  exists last, tokens.getLast? = some last ∧ last.kind = .streamEnd

theorem Ended.ne_nil {tokens : List Token} (h : Ended tokens) :
    tokens ≠ [] := by
  rintro rfl
  rcases h with ⟨last, hlast, -⟩
  cases hlast

theorem Ended.tail {t : Token} {rest : List Token} (h : Ended (t :: rest))
    (ht : t.kind ≠ .streamEnd) :
    Ended rest := by
  rcases h with ⟨last, hlast, hkind⟩
  cases rest with
  | nil =>
      cases hlast
      exact absurd hkind ht
  | cons u rest => exact ⟨last, by rwa [List.getLast?_cons_cons] at hlast, hkind⟩

theorem resolveTag_ne_starved (handles : Handles) (began : Mark)
    (tag : Option (List Char × Octets × Mark)) :
    resolveTag handles began tag ≠ .error .starved := by
  unfold resolveTag
  repeat' split
  all_goals simp

theorem ended_readProperties {tokens : List Token} (h : Ended tokens) :
    Ended (readProperties tokens).rest := by
  unfold readProperties
  split
  · exact (h.tail (by simp)).tail (by simp)
  · exact (h.tail (by simp)).tail (by simp)
  · exact h.tail (by simp)
  · exact h.tail (by simp)
  · exact h

theorem moveNode_ne_starved {handles : Handles} {block indentless : Bool} {tokens : List Token}
    (h : Ended tokens) :
    moveNode handles block indentless tokens ≠ .error .starved := by
  unfold moveNode
  split
  · exact absurd rfl h.ne_nil
  · simp
  · simp only
    split
    · rename_i hrest
      exact absurd hrest (ended_readProperties h).ne_nil
    · split
      · rename_i e he
        intro hstarved
        cases hstarved
        exact resolveTag_ne_starved _ _ _ he
      · repeat' split
        all_goals simp

theorem event_of_moveNode {handles : Handles} {block indentless : Bool} {tokens : List Token}
    {m : Move} (h : moveNode handles block indentless tokens = .ok m) :
    exists place event, m.event = some (place, event) ∧ event.startsNode = true := by
  unfold moveNode at h
  split at h
  · cases h
  · cases h
    exact ⟨_, _, rfl, rfl⟩
  · simp only at h
    split at h
    · cases h
    · split at h
      · cases h
      · repeat' split at h
        all_goals
          cases h
        all_goals
          exact ⟨_, _, rfl, rfl⟩

/-- A node is started on top of these events, or a fault ends them. -/
def Starts (done : List (Mark × Event)) (r : List (Mark × Event) × Option SyntaxFault) : Prop :=
  (exists place event more, event.startsNode = true ∧
    r.1 = done.reverse ++ (place, event) :: more) ∨
  exists f, r = (done.reverse, some f)

theorem starts_of_event {fault : Option SyntaxFault} {handles : Handles}
    {done : List (Mark × Event)} {stack : List Expectation} {tokens : List Token} {place : Mark}
    {event : Event} (h : event.startsNode = true) :
    Starts done (run fault handles ((place, event) :: done) stack tokens) := by
  rcases run_extends fault handles ((place, event) :: done) stack tokens with ⟨more, hmore⟩
  exact Or.inl ⟨place, event, more, h, by rw [hmore]; simp⟩

theorem run_of_fault {fault : Option SyntaxFault} {handles : Handles}
    {done : List (Mark × Event)} {e : Expectation} {stack : List Expectation}
    {tokens : List Token} {f : SyntaxFault} (h : move handles e tokens = .error (.fault f)) :
    run fault handles done (e :: stack) tokens = (done.reverse, some f) := by
  rw [run_cons, h]

theorem run_of_starved {fault : Option SyntaxFault} {handles : Handles}
    {done : List (Mark × Event)} {e : Expectation} {stack : List Expectation}
    {tokens : List Token} (h : move handles e tokens = .error .starved) :
    run fault handles done (e :: stack) tokens = (done.reverse, fault) := by
  rw [run_cons, h]

theorem starts_node (fault : Option SyntaxFault) (handles : Handles) (done : List (Mark × Event))
    (block indentless : Bool) (stack : List Expectation) {tokens : List Token}
    (h : fault = none -> Ended tokens) :
    Starts done (run fault handles done (.node block indentless :: stack) tokens) := by
  cases hmove : move handles (.node block indentless) tokens with
  | ok m =>
      rcases event_of_moveNode hmove with ⟨place, event, hevent, hstarts⟩
      rw [run_of_move hmove, hevent]
      exact starts_of_event hstarts
  | error halt =>
      apply Or.inr
      cases halt with
      | fault f => exact ⟨f, run_of_fault hmove⟩
      | starved =>
          cases hfault : fault with
          | some f => exact ⟨f, run_of_starved hmove⟩
          | none => exact absurd hmove (moveNode_ne_starved (h hfault))

theorem readDirectives_ended {versioned : Bool} {handles : Handles} {tokens : List Token}
    (h : Ended tokens) :
    readDirectives versioned handles tokens ≠ .error .starved ∧
      forall r, readDirectives versioned handles tokens = .ok r -> Ended r.2 := by
  fun_induction readDirectives versioned handles tokens with
  | case1 => exact absurd rfl h.ne_nil
  | case2 => simp
  | case3 =>
      rename_i hkind _ _ ih
      exact ih (h.tail (by simp [hkind]))
  | case4 => simp
  | case5 => simp
  | case6 =>
      rename_i hkind _ ih
      exact ih (h.tail (by simp [hkind]))
  | case7 =>
      constructor
      · simp
      · rintro r hr
        cases hr
        exact h

theorem starts_documentContent (fault : Option SyntaxFault) (handles : Handles)
    (done : List (Mark × Event)) (stack : List Expectation) {tokens : List Token}
    (h : fault = none -> Ended tokens) :
    Starts done (run fault handles done (.documentContent :: stack) tokens) := by
  cases tokens with
  | nil =>
      cases hfault : fault with
      | some f => exact Or.inr ⟨f, run_of_starved rfl⟩
      | none => exact absurd rfl (h hfault).ne_nil
  | cons t rest =>
      by_cases ht : isDocumentMark t.kind = true
      · have hmove : move handles .documentContent (t :: rest) =
            .ok ⟨some (t.start, Event.empty), [], t :: rest, handles⟩ := by
          simp only [move, ht, if_true]
        rw [run_of_move hmove]
        exact starts_of_event rfl
      · have hmove : move handles .documentContent (t :: rest) =
            .ok ⟨none, [.node true false], t :: rest, handles⟩ := by
          simp only [move, ht]
          rfl
        rw [run_of_move hmove]
        exact starts_node fault handles done true false stack h

theorem opens_documentStart {t : Token} {rest : List Token} {m : Move}
    (ht : t.kind ≠ .streamEnd) (h : moveDocumentStart true (t :: rest) = .ok m) :
    exists place next, m.event = some (place, .documentStart) ∧ m.next = [next, .documentEnd] ∧
      (next = .node true false ∨ next = .documentContent) ∧
      (Ended (t :: rest) -> Ended m.rest) := by
  unfold moveDocumentStart at h
  simp only [if_true, beq_iff_eq, if_neg ht] at h
  split at h
  · cases h
    exact ⟨_, _, rfl, rfl, Or.inl rfl, id⟩
  · split at h
    · cases h
    · cases h
    · rename_i handles u after hread
      split at h
      · rename_i hu
        cases h
        refine ⟨_, _, rfl, rfl, Or.inr rfl, ?_⟩
        intro hended
        exact ((readDirectives_ended hended).2 _ hread).tail (by simp [hu])
      · cases h

theorem documentStart_ne_starved {t : Token} {rest : List Token} (h : Ended (t :: rest)) :
    moveDocumentStart true (t :: rest) ≠ .error .starved := by
  unfold moveDocumentStart
  simp only [if_true]
  split
  · simp
  · split
    · simp
    · split
      · rename_i e hread
        intro hstarved
        cases hstarved
        exact (readDirectives_ended h).1 hread
      · rename_i hread
        exact absurd rfl ((readDirectives_ended h).2 _ hread).ne_nil
      · split <;> simp

/-- A text whose first token is not its end starts a document with a node, or has a fault. -/
theorem starts_document (fault : Option SyntaxFault) {t : Token} {rest : List Token}
    (ht : t.kind ≠ .streamEnd) (h : fault = none -> Ended (t :: rest)) :
    (exists place, Starts [(place, .documentStart)] (Event.ofTokens (t :: rest) fault)) ∨
      exists f, Event.ofTokens (t :: rest) fault = ([], some f) := by
  unfold Event.ofTokens
  cases hmove : move [] (.documentStart true) (t :: rest) with
  | ok m =>
      rcases opens_documentStart ht hmove with ⟨place, next, hevent, hnext, hkind, hended⟩
      rw [run_of_move hmove, hevent, hnext]
      refine Or.inl ⟨place, ?_⟩
      rcases hkind with rfl | rfl
      · exact starts_node fault _ _ _ _ _ (fun hnone => hended (h hnone))
      · exact starts_documentContent fault _ _ _ (fun hnone => hended (h hnone))
  | error halt =>
      apply Or.inr
      cases halt with
      | fault f => exact ⟨f, run_of_fault hmove⟩
      | starved =>
          cases hfault : fault with
          | some f => exact ⟨f, run_of_starved hmove⟩
          | none => exact absurd hmove (documentStart_ne_starved (h hfault))

end Expectation

/-!
## Texts that say something
-/

theorem Tree.yields_of_fault (f : SyntaxFault) :
    (Tree.ofEvents (Event.ofTokens [] (some f)).1 (Event.ofTokens [] (some f)).2).Yields := by
  rw [Event.ofTokens, Expectation.run_of_starved rfl]
  exact Or.inr (by simp [ofEvents, Builder.run, Builder.tree])

/-- A text with a token that is not its end says something, be it a fault. -/
theorem Tree.yields_of_token (fault : Option SyntaxFault) {t : Token} {rest : List Token}
    (ht : t.kind ≠ .streamEnd) (h : fault = none -> Expectation.Ended (t :: rest)) :
    (Tree.ofEvents (Event.ofTokens (t :: rest) fault).1
      (Event.ofTokens (t :: rest) fault).2).Yields := by
  have hfault : forall f : SyntaxFault, (Builder.empty.tree (some (.form f)) false).Yields :=
    fun f => Or.inr (by simp [Builder.tree])
  rcases Expectation.starts_document fault ht h with ⟨place, hstarts⟩ | ⟨f, hnone⟩
  · rcases hstarts with ⟨_, event, more, hevent, hevents⟩ | ⟨f, hnone⟩
    · rw [hevents]
      exact yields_of_startsNode hevent _ more
    · rw [hnone]
      exact hfault f
  · rw [hnone]
    exact hfault f

end Yaml
end Clippings
