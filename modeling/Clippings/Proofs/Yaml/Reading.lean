import Clippings.Proofs.Yaml.Draft
import Clippings.Proofs.Yaml.Events
import Clippings.Proofs.Yaml.Scalar.Number
import Clippings.Proofs.Yaml.Tags

/-!
# From the events of a draft to its value

The events of a value's draft are built into a node, and the node is read as the value.
-/

namespace Clippings
namespace Yaml

/-!
## Scalars
-/

namespace Style

theorem choose_plain {s : List Char} (hne : s ≠ []) (h : plainAllowed s = true) (simpleKey : Bool) :
    choose simpleKey .plain s = .plain := by
  have hline : isMultiline s = false := by
    cases s with
    | nil => rfl
    | cons c s =>
        simp only [plainAllowed, Bool.not_eq_true', Bool.or_eq_false_iff] at h
        exact h.1.1.2
  simp [choose, hline, h, hne]

theorem eq_plain_of_choose {simpleKey : Bool} {wanted : ScalarStyle} {s : List Char}
    (h : choose simpleKey wanted s = .plain) :
    wanted = .plain := by
  unfold choose at h
  by_cases hkey : (simpleKey && isMultiline s) = true
  · simp only [hkey, if_true] at h
    cases h
  · rw [Bool.not_eq_true] at hkey
    simp only [hkey, Bool.false_eq_true, if_false] at h
    cases wanted with
    | plain => rfl
    | singleQuoted => simp only at h; split at h <;> cases h
    | doubleQuoted => cases h
    | literal => simp only at h; split at h <;> cases h
    | folded => simp only at h; split at h <;> cases h

end Style

namespace Tree

theorem scalar_untagged (style : ScalarStyle) (text : List Char) :
    scalar false none style text =
      if style = .plain then ofMeaning text (Meaning.ofPlain text)
      else .ok (.str (String.ofList text)) := by
  by_cases h : style = .plain
  · rw [if_pos h, h]
    rfl
  · rw [if_neg h, scalar]
    simp [h]

theorem scalar_string (simpleKey : Bool) (s : String) :
    scalar false none (Style.choose simpleKey (Value.stringStyle s.toList) s.toList) s.toList =
      .ok (.str s) := by
  rw [scalar_untagged]
  split
  · rename_i hplain
    have hstyle := Style.eq_plain_of_choose hplain
    have hmeaning : Meaning.ofPlain s.toList = .str := by
      unfold Value.stringStyle at hstyle
      split at hstyle
      · cases hstyle
      · split at hstyle
        · rename_i hstr
          rw [Bool.and_eq_true, beq_iff_eq] at hstr
          exact hstr.1
        · cases hstyle
    rw [hmeaning, ofMeaning, String.ofList_toList]
  · rw [String.ofList_toList]

theorem scalar_integer (simpleKey : Bool) {i : Int} (h : -Int.pow 2 63 ≤ i)
    (h' : i < Int.pow 2 64) :
    scalar false none (Style.choose simpleKey .plain (toString i).toList) (toString i).toList =
      .ok (.int i) := by
  have hnumeral := Meaning.isNumeral_text i
  rw [Style.choose_plain (Meaning.ne_nil_of_isNumeral hnumeral)
    (Style.plainAllowed_numeral hnumeral), scalar_untagged, if_pos rfl,
    Meaning.ofPlain_integer h h']
  rfl

theorem scalar_float (simpleKey : Bool) {x : Binary64} (h : x.IsLowest) :
    scalar false none (Style.choose simpleKey .plain x.text.toList) x.text.toList =
      .ok (.float x) := by
  rcases Style.plainAllowed_float x with ⟨hallowed, hne, -⟩
  rw [Style.choose_plain hne hallowed, scalar_untagged, if_pos rfl, Meaning.ofPlain_float h]
  rfl

end Tree

namespace Value

/-!
## Drafts are sound
-/

theorem wanted_stringStyle (s : List Char) :
    Style.Wanted (stringStyle s) s := by
  unfold stringStyle
  split
  · exact .literal s
  · rename_i hfeed
    have hmem : '\n' ∉ s := by simpa using hfeed
    split
    · rename_i hstr
      refine .plain ?_ hmem
      intro heq
      subst heq
      cases hstr
    · exact .singleQuoted hmem

theorem mem_itemDrafts {items : List Value} {d : Draft} (h : d ∈ itemDrafts items) :
    exists v, v ∈ items ∧ d = v.draftWith none := by
  induction items with
  | nil => cases h
  | cons v items ih =>
      rw [itemDrafts] at h
      rcases List.mem_cons.mp h with rfl | h
      · exact ⟨v, List.mem_cons_self, rfl⟩
      · rcases ih h with ⟨w, hw, hd⟩
        exact ⟨w, List.mem_cons_of_mem v hw, hd⟩

theorem mem_entryDrafts {entries : Entries} {d : Draft} (h : d ∈ entryDrafts entries) :
    exists e, e ∈ entries ∧ (d = e.1.draftWith none ∨ d = e.2.draftWith none) := by
  induction entries with
  | nil => cases h
  | cons e entries ih =>
      rcases e with ⟨k, v⟩
      rw [entryDrafts] at h
      rcases List.mem_cons.mp h with rfl | h
      · exact ⟨(k, v), List.mem_cons_self, Or.inl rfl⟩
      · rcases List.mem_cons.mp h with rfl | h
        · exact ⟨(k, v), List.mem_cons_self, Or.inr rfl⟩
        · rcases ih h with ⟨e, he, hd⟩
          exact ⟨e, List.mem_cons_of_mem (k, v) he, hd⟩

theorem paired_entryDrafts (entries : Entries) :
    Draft.Paired (entryDrafts entries) := by
  induction entries with
  | nil => exact .nil
  | cons e entries ih =>
      rcases e with ⟨k, v⟩
      exact .entry (k.draftWith none) (v.draftWith none) ih

theorem sound_draftWith {v : Value} (h : v.Sayable) (htags : v.TagsReadable)
    {tag : Option Octets} (htag : TagSpelling.IsLegible tag) :
    (v.draftWith tag).Sound := by
  have hnone := TagSpelling.isLegible_none
  induction h generalizing tag with
  | null => exact .scalar htag (.plain (by decide) (by decide))
  | bool b => cases b <;> exact .scalar htag (.plain (by decide) (by decide))
  | int h h' =>
      rename_i i
      have hnumeral := Meaning.isNumeral_text i
      exact .scalar htag (.plain (Meaning.ne_nil_of_isNumeral hnumeral)
        (Meaning.not_mem_of_isNumeral hnumeral rfl (by decide)))
  | float h =>
      rename_i x
      rcases Style.plainAllowed_float x with ⟨-, hne, hline⟩
      exact .scalar htag (.plain hne hline)
  | str s => exact .scalar htag (wanted_stringStyle s.toList)
  | seq h ih =>
      rw [draftWith]
      refine .sequence htag ?_
      intro d hd
      rcases mem_itemDrafts hd with ⟨v, hv, rfl⟩
      exact ih v hv (htags.item hv) hnone
  | map hk hv hd ihk ihv =>
      rw [draftWith]
      refine .mapping htag ?_ (paired_entryDrafts _)
      intro d hd
      rcases mem_entryDrafts hd with ⟨e, he, rfl | rfl⟩
      · exact ihk e he (htags.entry he).1 hnone
      · exact ihv e he (htags.entry he).2 hnone
  | tagged hname hnull hv h ih =>
      rename_i t v
      rw [draftWith]
      apply ih htags.inner.2
      intro octets hoctets
      cases hoctets
      exact Tag.legible_spelling hname hnull htags.inner.1

/-!
## Nesting
-/

mutual
def height : Value -> Nat
  | seq items => heightOfItems items + 1
  | map entries => heightOfEntries entries + 1
  | tagged _ v => height v
  | _ => 0
def heightOfItems : List Value -> Nat
  | [] => 0
  | v :: rest => max (height v) (heightOfItems rest)
def heightOfEntries : List (Value × Value) -> Nat
  | [] => 0
  | (k, v) :: rest => max (max (height k) (height v)) (heightOfEntries rest)
end

theorem Untagged.tags {v : Value} (h : v.Untagged) :
    v.tags = [] := by
  induction h with
  | null => rfl
  | bool b => rfl
  | int h h' => rfl
  | str s => rfl
  | seq h ih =>
      rename_i items
      rw [Value.tags]
      clear h
      induction items with
      | nil => rfl
      | cons v items ihs =>
          rw [tagsOfItems, ih v List.mem_cons_self,
            ihs (fun w hw => ih w (List.mem_cons_of_mem v hw))]
          rfl
  | map hk hv hd ihk ihv =>
      rename_i entries
      rw [Value.tags]
      clear hk hv hd
      induction entries with
      | nil => rfl
      | cons e entries ihs =>
          rcases e with ⟨k, v⟩
          rw [tagsOfEntries, ihk (k, v) List.mem_cons_self, ihv (k, v) List.mem_cons_self,
            ihs (fun e he => ihk e (List.mem_cons_of_mem (k, v) he))
              (fun e he => ihv e (List.mem_cons_of_mem (k, v) he))]
          rfl

theorem Untagged.tagsReadable {v : Value} (h : v.Untagged) :
    v.TagsReadable := by
  intro t ht
  rw [h.tags] at ht
  cases ht

theorem height_withTag (tag : Option Octets) (v : Value) :
    (Tree.withTag tag v).height = v.height := by
  unfold Tree.withTag
  split
  · rw [height]
  · rfl

end Value

namespace Tree

/-!
## Nodes that say a value
-/

def Marks (tag : Option Octets) (v : Value) : Prop :=
  tag = none ∨ ((localTag? tag).isSome = true ∧ v.isTagged = false)

theorem scalar_of_marks {tag : Option Octets} {v : Value} (h : Marks tag v) (style : ScalarStyle)
    (text : List Char) :
    scalar (localTag? tag).isSome tag style text = scalar false none style text := by
  rcases h with rfl | ⟨htag, -⟩
  · rfl
  · rw [htag]
    rfl

/-- Where so many levels may nest, the node is read as the value. -/
def Says (node : Node) (v : Value) (height : Nat) : Prop :=
  forall (t : Tree) (depth : Nat) (place : Place) (jumps : Nat), height ≤ depth ->
    t.readNode depth place node jumps = .ok (v, jumps)

inductive SayItems : List Node -> List Value -> Nat -> Prop where
  | nil (height : Nat) : SayItems [] [] height
  | cons {node : Node} {v : Value} {nodes : List Node} {items : List Value} {height : Nat} :
      Says node v height -> SayItems nodes items height ->
        SayItems (node :: nodes) (v :: items) height

inductive SayEntries : List Node -> Entries -> Nat -> Prop where
  | nil (height : Nat) : SayEntries [] [] height
  | cons {key node : Node} {k v : Value} {nodes : List Node} {entries : Entries} {height : Nat} :
      Says key k height -> Says node v height -> SayEntries nodes entries height ->
      SayEntries (key :: node :: nodes) ((k, v) :: entries) height

theorem Says.mono {node : Node} {v : Value} {height height' : Nat} (h : Says node v height)
    (hle : height ≤ height') :
    Says node v height' := by
  intro t depth place jumps hdepth
  exact h t depth place jumps (Nat.le_trans hle hdepth)

theorem SayItems.mono {nodes : List Node} {items : List Value} {height height' : Nat}
    (h : SayItems nodes items height) (hle : height ≤ height') :
    SayItems nodes items height' := by
  induction h with
  | nil => exact .nil height'
  | cons hnode hnodes ih => exact .cons (hnode.mono hle) (ih hle)

theorem SayEntries.mono {nodes : List Node} {entries : Entries} {height height' : Nat}
    (h : SayEntries nodes entries height) (hle : height ≤ height') :
    SayEntries nodes entries height' := by
  induction h with
  | nil => exact .nil height'
  | cons hkey hnode hnodes ih => exact .cons (hkey.mono hle) (hnode.mono hle) (ih hle)

theorem readItems_eq {nodes : List Node} {items : List Value} {height : Nat}
    (h : SayItems nodes items height) (t : Tree) {depth : Nat} (hdepth : height ≤ depth)
    (place : Place) (index : Nat) (done : List Value) (jumps : Nat) :
    readItems (t.readNode depth) place index done nodes jumps =
      .ok (done.reverse ++ items, jumps) := by
  induction h generalizing index done with
  | nil => rw [readItems, List.append_nil]
  | cons hnode hnodes ih =>
      rw [readItems, hnode t depth _ jumps hdepth]
      simp only
      rw [ih hdepth, List.reverse_cons, List.append_assoc]
      rfl

theorem readEntries_eq {nodes : List Node} {entries : Entries} {height : Nat}
    (h : SayEntries nodes entries height)
    (hkeys : entries.Pairwise fun e e' => e.1.same e'.1 = false) (t : Tree) {depth : Nat}
    (hdepth : height ≤ depth) (place : Place) (mark : Mark) (breakFault : Fault) (done : Entries)
    (hdone : forall e, e ∈ done -> forall e', e' ∈ entries -> e.1.same e'.1 = false) (jumps : Nat) :
    readEntries (t.readNode depth) place mark breakFault done nodes jumps =
      .ok (done.reverse ++ entries, jumps) := by
  induction h generalizing done with
  | nil => rw [readEntries, List.append_nil]
  | cons hkey hnode hnodes ih =>
      rename_i k v nodes entries height
      rw [List.pairwise_cons] at hkeys
      have hnew : done.has k = false := by
        rw [Entries.has, List.any_eq_false]
        intro e he
        simp [hdone e he (k, v) List.mem_cons_self]
      have hdone' : forall e, e ∈ (k, v) :: done -> forall e', e' ∈ entries ->
          e.1.same e'.1 = false := by
        intro e he e' he'
        rcases List.mem_cons.mp he with rfl | he
        · exact hkeys.1 e' he'
        · exact hdone e he e' (List.mem_cons_of_mem (k, v) he')
      rw [readEntries, hkey t depth place jumps hdepth]
      simp only [hnew, Bool.false_eq_true, if_false, hnode t depth _ jumps hdepth]
      rw [ih hkeys.2 hdepth _ hdone', List.reverse_cons, List.append_assoc]
      rfl

theorem says_scalar {v : Value} {tag : Option Octets} (htag : Marks tag v) {style : ScalarStyle}
    {text : List Char} (h : scalar false none style text = .ok v) (mark : Mark) :
    Says (.scalar mark tag style text) (withTag tag v) 0 := by
  intro t depth place jumps _
  rw [readNode]
  simp only [follow, scalar_of_marks htag, h]

theorem says_sequence {nodes : List Node} {items : List Value} {height : Nat}
    (h : SayItems nodes items height) (mark : Mark) (tag : Option Octets) :
    Says (.collection .sequence mark tag nodes true) (withTag tag (.seq items)) (height + 1) := by
  intro t depth place jumps hdepth
  cases depth with
  | zero => cases hdepth
  | succ depth =>
      have hitems := readItems_eq h t (Nat.le_of_succ_le_succ hdepth) place 0 [] jumps
      rw [readNode]
      simp only [follow, readChildren, hitems]
      rfl

theorem says_mapping {nodes : List Node} {entries : Entries} {height : Nat}
    (h : SayEntries nodes entries height)
    (hkeys : entries.Pairwise fun e e' => e.1.same e'.1 = false) (mark : Mark)
    (tag : Option Octets) :
    Says (.collection .mapping mark tag nodes true) (withTag tag (.map entries))
      (height + 1) := by
  intro t depth place jumps hdepth
  cases depth with
  | zero => cases hdepth
  | succ depth =>
      have hentries := readEntries_eq h hkeys t (Nat.le_of_succ_le_succ hdepth) place mark
        t.breakFault [] (by
          intro e he
          cases he) jumps
      rw [readNode]
      simp only [follow, readChildren, hentries]
      rfl

/-!
## Building
-/

namespace Builder

structure Gains (b b' : Builder) (node : Node) : Prop where
  anchors : b'.anchors = b.anchors
  frames : b'.frames = match b.frames with
    | [] => []
    | f :: frames => { f with children := node :: f.children } :: frames
  roots : b'.roots = match b.frames with
    | [] => node :: b.roots
    | _ :: _ => b.roots

/-- Events give a node that says the value, wherever they come. -/
def Builds (events : List Event) (v : Value) : Prop :=
  forall (fault : Option TreeFault) (b : Builder) (marked rest : List (Mark × Event)),
    marked.map (·.2) = events ->
    exists node b', Says node v v.height ∧ b.Gains b' node ∧
      run fault b (marked ++ rest) = run fault b' rest

theorem gains_add (b : Builder) (position : Nat) (node : Node) :
    b.Gains (b.add position node).step node := by
  rcases b with ⟨position, anchors, frames, roots, finished⟩
  cases frames with
  | nil => exact ⟨rfl, rfl, rfl⟩
  | cons f frames => exact ⟨rfl, rfl, rfl⟩

theorem builds_scalar {v : Value} {tag : Option Octets} (htag : Marks tag v)
    {style : ScalarStyle} {text : List Char} (h : scalar false none style text = .ok v)
    (hheight : v.height = 0) :
    Builds [.scalar ⟨none, tag⟩ style text] (withTag tag v) := by
  intro fault b marked rest hmarked
  rcases List.map_eq_singleton_iff.mp hmarked with ⟨⟨mark, event⟩, rfl, rfl⟩
  refine ⟨.scalar mark tag style text, (b.add b.position (.scalar mark tag style text)).step, ?_,
    gains_add b _ _, rfl⟩
  rw [Value.height_withTag, hheight]
  exact says_scalar htag h mark

structure Fills (b b' : Builder) (f : Frame) (frames : List Frame) (nodes : List Node) : Prop where
  anchors : b'.anchors = b.anchors
  frames : b'.frames = { f with children := nodes.reverse ++ f.children } :: frames
  roots : b'.roots = b.roots

def Fill (events : List Event) (tells : List Node -> Prop) : Prop :=
  forall (fault : Option TreeFault) (b : Builder) (f : Frame) (frames : List Frame)
    (marked rest : List (Mark × Event)), b.frames = f :: frames -> marked.map (·.2) = events ->
    exists nodes b', tells nodes ∧ Fills b b' f frames nodes ∧
      run fault b (marked ++ rest) = run fault b' rest

theorem fill_nothing {tells : List Node -> Prop} (h : tells []) :
    Fill [] tells := by
  intro fault b f frames marked rest hframes hmarked
  rw [List.map_eq_nil_iff] at hmarked
  subst hmarked
  exact ⟨[], b, h, ⟨rfl, hframes, rfl⟩, rfl⟩

theorem fill_more {events events' : List Event} {v : Value} {tells tells' : List Node -> Prop}
    (h : Builds events v) (h' : Fill events' tells)
    (htells : forall node nodes, Says node v v.height -> tells nodes -> tells' (node :: nodes)) :
    Fill (events ++ events') tells' := by
  intro fault b f frames marked rest hframes hmarked
  rcases List.map_eq_append_iff.mp hmarked with ⟨front, back, rfl, hfront, hback⟩
  rcases h fault b front (back ++ rest) hfront with ⟨node, b₁, hnode, hgains, hrun⟩
  have hframes₁ : b₁.frames = { f with children := node :: f.children } :: frames := by
    rw [hgains.frames, hframes]
  have hroots₁ : b₁.roots = b.roots := by
    rw [hgains.roots, hframes]
  rcases h' fault b₁ _ frames back rest hframes₁ hback with ⟨nodes, b₂, hnodes, hfills, hrun'⟩
  refine ⟨node :: nodes, b₂, htells node nodes hnode hnodes, ⟨?_, ?_, ?_⟩, ?_⟩
  · rw [hfills.anchors, hgains.anchors]
  · rw [hfills.frames, List.reverse_cons, List.append_assoc]
    rfl
  · rw [hfills.roots, hroots₁]
  · rw [List.append_assoc, hrun, hrun']

theorem builds_collection {shape : Shape} {events : List Event} {v : Value} (tag : Option Octets)
    {tells : List Node -> Prop} (h : Fill events tells)
    (htells : forall nodes mark, tells nodes ->
      Says (.collection shape mark tag nodes true) v v.height) :
    Builds (.collectionStart shape ⟨none, tag⟩ :: (events ++ [.collectionEnd shape])) v := by
  intro fault b marked rest hmarked
  rcases List.map_eq_cons_iff.mp hmarked with ⟨⟨mark, event⟩, inner, rfl, rfl, hinner⟩
  rcases List.map_eq_append_iff.mp hinner with ⟨front, back, rfl, hfront, hback⟩
  rcases List.map_eq_singleton_iff.mp hback with ⟨⟨mark', event⟩, rfl, rfl⟩
  generalize hb₁ : Builder.step { b with
    frames := ⟨shape, mark, tag, b.position, []⟩ :: b.frames } = b₁
  have hframes₁ : b₁.frames = ⟨shape, mark, tag, b.position, []⟩ :: b.frames := by
    rw [← hb₁]
    rfl
  have hothers₁ : b₁.anchors = b.anchors ∧ b₁.roots = b.roots := by
    rw [← hb₁]
    exact ⟨rfl, rfl⟩
  rcases h fault b₁ _ b.frames front ((mark', .collectionEnd shape) :: rest) hframes₁ hfront with
    ⟨nodes, b₂, hnodes, hfills, hrun⟩
  have hgains : b.Gains (b₂.close true).step (.collection shape mark tag nodes true) := by
    have hclose : b₂.close true = Builder.add { b₂ with frames := b.frames } b.position
        (.collection shape mark tag nodes true) := by
      rw [Builder.close, hfills.frames]
      simp
    have hadd := gains_add { b₂ with frames := b.frames } b.position
      (.collection shape mark tag nodes true)
    rw [hclose]
    refine ⟨?_, hadd.frames, ?_⟩
    · rw [hadd.anchors, hfills.anchors, hothers₁.1]
    · rw [hadd.roots, hfills.roots, hothers₁.2]
  refine ⟨_, (b₂.close true).step, htells nodes mark hnodes, hgains, ?_⟩
  have hstart : run fault b ((mark, .collectionStart shape ⟨none, tag⟩) ::
      (front ++ [(mark', .collectionEnd shape)]) ++ rest) =
        run fault b₁ (front ++ (mark', .collectionEnd shape) :: rest) := by
    rw [← hb₁, List.cons_append, List.append_assoc]
    rfl
  rw [hstart, hrun]
  rfl

/-!
## Values
-/

theorem fill_items {items : List Value}
    (h : forall v, v ∈ items -> Builds ((v.draftWith none).events false) v) :
    Fill (Draft.itemEvents (Value.itemDrafts items))
      (fun nodes => SayItems nodes items (Value.heightOfItems items)) := by
  induction items with
  | nil => exact fill_nothing (.nil _)
  | cons v items ih =>
      refine fill_more (h v List.mem_cons_self)
        (ih (fun w hw => h w (List.mem_cons_of_mem v hw))) ?_
      intro node nodes hnode hnodes
      exact .cons (hnode.mono (Nat.le_max_left _ _)) (hnodes.mono (Nat.le_max_right _ _))

theorem fill_entries {entries : Entries}
    (h : forall e, e ∈ entries -> forall simpleKey,
      Builds ((e.1.draftWith none).events simpleKey) e.1)
    (h' : forall e, e ∈ entries -> Builds ((e.2.draftWith none).events false) e.2) :
    Fill (Draft.entryEvents (Value.entryDrafts entries))
      (fun nodes => SayEntries nodes entries (Value.heightOfEntries entries)) := by
  induction entries with
  | nil => exact fill_nothing (.nil _)
  | cons e entries ih =>
      rcases e with ⟨k, v⟩
      have hothers := ih (fun e he => h e (List.mem_cons_of_mem (k, v) he))
        (fun e he => h' e (List.mem_cons_of_mem (k, v) he))
      have hvalue : Fill ((v.draftWith none).events false ++
            Draft.entryEvents (Value.entryDrafts entries))
          (fun nodes => exists node rest, nodes = node :: rest ∧ Says node v v.height ∧
            SayEntries rest entries (Value.heightOfEntries entries)) := by
        apply fill_more (h' (k, v) List.mem_cons_self) hothers
        intro node nodes hnode hnodes
        exact ⟨node, nodes, rfl, hnode, hnodes⟩
      rw [Value.entryDrafts, Draft.entryEvents, List.append_assoc]
      apply fill_more (h (k, v) List.mem_cons_self _) hvalue
      rintro key nodes hkey ⟨node, rest, rfl, hnode, hnodes⟩
      have hboth := Nat.le_max_left (max k.height v.height) (Value.heightOfEntries entries)
      exact .cons (hkey.mono (Nat.le_trans (Nat.le_max_left _ _) hboth))
        (hnode.mono (Nat.le_trans (Nat.le_max_right _ _) hboth))
        (hnodes.mono (Nat.le_max_right _ _))

theorem builds_draftWith {v : Value} (h : v.Sayable) (htags : v.TagsReadable)
    {tag : Option Octets} (htag : Marks tag v) (simpleKey : Bool) :
    Builds ((v.draftWith tag).events simpleKey) (withTag tag v) := by
  have hnone : forall v, Marks none v := fun _ => Or.inl rfl
  induction h generalizing tag simpleKey with
  | null =>
      apply builds_scalar htag
      · cases simpleKey <;> rfl
      · rfl
  | bool b =>
      apply builds_scalar htag
      · cases b <;> cases simpleKey <;> rfl
      · rfl
  | int h h' => exact builds_scalar htag (scalar_integer simpleKey h h') rfl
  | float h => exact builds_scalar htag (scalar_float simpleKey h) rfl
  | str s => exact builds_scalar htag (scalar_string simpleKey s) rfl
  | seq h ih =>
      rw [Value.draftWith, Draft.events]
      apply builds_collection tag
        (fill_items (fun v hv => ih v hv (htags.item hv) (hnone v) false))
      intro nodes mark hnodes
      rw [Value.height_withTag]
      exact says_sequence hnodes mark tag
  | map hk hv hd ihk ihv =>
      rw [Value.draftWith, Draft.events]
      apply builds_collection tag
        (fill_entries (fun e he => ihk e he (htags.entry he).1 (hnone _))
          (fun e he => ihv e he (htags.entry he).2 (hnone _) false))
      intro nodes mark hnodes
      rw [Value.height_withTag]
      exact says_mapping hnodes hd mark tag
  | tagged hname hnull hv h ih =>
      rename_i t v
      have hlocal := localTag?_spelling hname htags.inner.1
      have hmarks : Marks (some (Pending.spelling t)) v := Or.inr ⟨by rw [hlocal]; rfl, hv⟩
      have hinner := ih htags.inner.2 hmarks simpleKey
      rcases htag with rfl | ⟨-, htag⟩
      · rw [Value.draftWith]
        rw [withTag, hlocal] at hinner
        exact hinner
      · cases htag

end Builder

/-- The events of a value's document say that value, if it does not nest too deep. -/
theorem value_ofEvents {v : Value} (h : v.Sayable) (htags : v.TagsReadable)
    (hheight : v.height ≤ maxDepth) {events : List (Mark × Event)}
    (hevents : events.map (·.2) =
      .documentStart :: (v.draft.events false ++ [.documentEnd, .streamEnd])) :
    (Tree.ofEvents events none).value = .ok v := by
  rcases List.map_eq_cons_iff.mp hevents with ⟨⟨mark, event⟩, inner, rfl, rfl, hinner⟩
  rcases List.map_eq_append_iff.mp hinner with ⟨front, back, rfl, hfront, hback⟩
  rcases Builder.builds_draftWith h htags (Or.inl rfl) false none Builder.empty front back
    hfront with ⟨node, b, hnode, hgains, hrun⟩
  have hdone : Builder.run none b back = b.tree none false := by
    rcases List.map_eq_cons_iff.mp hback with ⟨⟨mark', event⟩, last, rfl, rfl, hlast⟩
    rcases List.map_eq_singleton_iff.mp hlast with ⟨⟨mark'', event⟩, rfl, rfl⟩
    rfl
  have htree : Tree.ofEvents ((mark, .documentStart) :: (front ++ back)) none =
      b.tree none false := by
    rw [← hdone, ← hrun]
    rfl
  have hframes : b.frames = [] := hgains.frames
  have hroots : b.roots = [node] := hgains.roots
  have hread := hnode (b.tree none false) maxDepth .root 0 hheight
  have hroot : (b.tree none false).root = some node := by
    simp [Builder.tree, Builder.closeAll, hframes, hroots]
  rw [htree, value, hroot]
  simp only [hread]
  rfl

end Tree
end Yaml
end Clippings
