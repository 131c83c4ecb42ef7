import Mathlib.Data.List.Forall2
import Clippings.Proofs.Yaml.Inside

/-!
# Repeated keys

The nodes of a text say values, an alias what its anchored node says.  A mapping of a text with two
keys that say the same has no value, wherever in the text it stands and however often it comes up:
its value would have a key twice.
-/

namespace Clippings
namespace Yaml
namespace Tree

/-!
## What nodes say
-/

/-- What a node says, with no limit on nesting or on aliases, and be keys repeated or not. -/
inductive Denotes (t : Tree) : Node -> Value -> Prop where
  | scalar {mark : Mark} {tag : Option Octets} {style : ScalarStyle} {text : List Char}
      {v : Value} :
      Tree.scalar (localTag? tag).isSome tag style text = .ok v ->
        Denotes t (.scalar mark tag style text) (withTag tag v)
  | sequence {mark : Mark} {tag : Option Octets} {nodes : List Node} {items : List Value} :
      nodes.length = items.length ->
        (forall i (h : i < nodes.length) (h' : i < items.length), Denotes t nodes[i] items[i]) ->
          Denotes t (.collection .sequence mark tag nodes true) (withTag tag (.seq items))
  | mapping {mark : Mark} {tag : Option Octets} {nodes : List Node} {entries : Entries} :
      nodes.length = (Value.map entries).children.length ->
        (forall i (h : i < nodes.length) (h' : i < (Value.map entries).children.length),
          Denotes t nodes[i] (Value.map entries).children[i]) ->
          Denotes t (.collection .mapping mark tag nodes true) (withTag tag (.map entries))
  | target {number : Nat} {node : Node} {v : Value} :
      t.anchored.lookup number = some node -> Denotes t node v -> Denotes t (.alias number) v

theorem eq_of_children_map {entries entries' : Entries}
    (h : (Value.map entries).children = (Value.map entries').children) :
    entries = entries' := by
  induction entries generalizing entries' with
  | nil =>
      cases entries' with
      | nil => rfl
      | cons e' entries' => cases h
  | cons e entries ih =>
      cases entries' with
      | nil => cases h
      | cons e' entries' =>
          simp only [Value.children, List.flatMap_cons, List.cons_append, List.nil_append,
            List.cons.injEq] at h
          rw [Prod.ext h.1 h.2.1, ih h.2.2]

theorem Denotes.unique {t : Tree} {node : Node} {v w : Value} (h : t.Denotes node v)
    (h' : t.Denotes node w) :
    v = w := by
  induction h generalizing w with
  | scalar hv =>
      cases h' with
      | scalar hw =>
          rw [hv] at hw
          cases hw
          rfl
  | sequence hlength _ ih =>
      cases h' with
      | sequence hlength' hitems' =>
          congr 2
          exact List.ext_getElem (hlength.symm.trans hlength') fun i hi hi' =>
            ih i (hlength ▸ hi) hi (hitems' i (hlength ▸ hi) hi')
  | mapping hlength _ ih =>
      cases h' with
      | mapping hlength' hchildren' =>
          congr 2
          apply eq_of_children_map
          exact List.ext_getElem (hlength.symm.trans hlength') fun i hi hi' =>
            ih i (hlength ▸ hi) hi (hchildren' i (hlength ▸ hi) hi')
  | target hnode _ ih =>
      cases h' with
      | target hnode' hw =>
          rw [hnode] at hnode'
          cases hnode'
          exact ih hw

/-!
## What is read
-/

def Faithful (t : Tree) (read : ReadNode) : Prop :=
  forall {place : Place} {node : Node} {jumps jumps' : Nat} {v : Value},
    read place node jumps = .ok (v, jumps') -> t.Denotes node v

theorem forall₂_of_readItems {t : Tree} {read : ReadNode} (h : t.Faithful read) {place : Place}
    {index : Nat} {done items : List Value} {nodes : List Node} {jumps jumps' : Nat}
    (hread : readItems read place index done nodes jumps = .ok (items, jumps')) :
    exists items', items = done.reverse ++ items' ∧ List.Forall₂ t.Denotes nodes items' := by
  fun_induction readItems read place index done nodes jumps with
  | case1 =>
      cases hread
      exact ⟨[], by simp, .nil⟩
  | case2 => cases hread
  | case3 _ _ _ _ _ v _ hv ih =>
      rcases ih hread with ⟨items', rfl, hitems'⟩
      exact ⟨v :: items', by simp, .cons (h hv) hitems'⟩

theorem forall₂_of_readEntries {t : Tree} {read : ReadNode} (h : t.Faithful read) {place : Place}
    {mark : Mark} {breakFault : Fault} {done entries : Entries} {nodes : List Node}
    {jumps jumps' : Nat}
    (hread : readEntries read place mark breakFault done nodes jumps = .ok (entries, jumps')) :
    exists entries', entries = done.reverse ++ entries' ∧
      List.Forall₂ t.Denotes nodes (Value.map entries').children := by
  fun_induction readEntries read place mark breakFault done nodes jumps with
  | case1 =>
      cases hread
      exact ⟨[], by simp, .nil⟩
  | case6 _ _ _ k _ hk _ _ _ v _ hv ih =>
      rcases ih hread with ⟨entries', rfl, hentries'⟩
      exact ⟨(k, v) :: entries', by simp, .cons (h hk) (.cons (h hv) hentries')⟩
  | _ => cases hread

theorem denotes_of_readChildren {t : Tree} {read : ReadNode} (h : t.Faithful read) {place : Place}
    {shape : Shape} {mark : Mark} (tag : Option Octets) {children : List Node} {complete : Bool}
    {jumps jumps' : Nat} {v : Value}
    (hread : t.readChildren read place shape mark children complete jumps = .ok (v, jumps')) :
    t.Denotes (.collection shape mark tag children complete) (withTag tag v) := by
  rcases readChildren_cases hread with
    ⟨rfl, ⟨items, rfl, rfl, hitems⟩ | ⟨entries, rfl, rfl, hentries⟩⟩
  · rcases forall₂_of_readItems h hitems with ⟨items', rfl, hall⟩
    rw [List.forall₂_iff_get] at hall
    exact .sequence hall.1 hall.2
  · rcases forall₂_of_readEntries h hentries with ⟨entries', rfl, hall⟩
    rw [List.forall₂_iff_get] at hall
    exact .mapping hall.1 hall.2

theorem denotes_of_follow {t : Tree} {place place' : Place} {node node' : Node}
    {jumps jumps' : Nat} (h : t.follow place node jumps = .ok (place', node', jumps'))
    {v : Value} (hv : t.Denotes node' v) :
    t.Denotes node v := by
  unfold follow at h
  split at h
  · split at h
    · cases h
    · split at h
      · rename_i hlookup
        cases h
        exact .target hlookup hv
      · cases h
  · cases h
    exact hv

theorem faithful_step {t : Tree} {depth : Nat}
    (h : forall n, depth = n + 1 -> t.Faithful (t.readNode n)) :
    t.Faithful (t.readNode depth) := by
  intro place node jumps jumps' v hread
  rcases readNode_cases hread with ⟨place', node', jumps₁, hfollow, hcases⟩
  apply denotes_of_follow hfollow
  rcases hcases with ⟨_, _, _, _, w, rfl, hscalar, rfl⟩ | ⟨n, _, _, _, _, _, w, rfl, rfl, hw, rfl⟩
  · exact .scalar hscalar
  · exact denotes_of_readChildren (h n rfl) _ hw

theorem faithful_readNode (t : Tree) (depth : Nat) :
    t.Faithful (t.readNode depth) := by
  induction depth with
  | zero => exact faithful_step fun n hn => by cases hn
  | succ depth ih =>
      refine faithful_step fun n hn => ?_
      cases hn
      exact ih

theorem denotes_of_value {t : Tree} {v : Value} (h : t.value = .ok v) {root : Node}
    (hroot : t.root = some root) :
    t.Denotes root v := by
  rcases value_cases h with ⟨hnone, -⟩ | ⟨node, jumps, hnode, hread⟩
  · rw [hnone] at hroot
    cases hroot
  · rw [hnode] at hroot
    cases hroot
    exact faithful_readNode t maxDepth hread

/-!
## Nodes of a text
-/

inductive Reached (t : Tree) : Node -> Prop where
  | root {node : Node} : t.root = some node -> Reached t node
  | child {shape : Shape} {mark : Mark} {tag : Option Octets} {nodes : List Node}
      {complete : Bool} {node : Node} :
      Reached t (.collection shape mark tag nodes complete) -> node ∈ nodes -> Reached t node
  | target {number : Nat} {node : Node} :
      Reached t (.alias number) -> t.anchored.lookup number = some node -> Reached t node

/-- Two keys of one mapping say the same. -/
def RepeatsKey (t : Tree) : Prop :=
  exists mark tag nodes complete, t.Reached (.collection .mapping mark tag nodes complete) ∧
    exists i j key key' k k', i < j ∧ nodes[2 * i]? = some key ∧ nodes[2 * j]? = some key' ∧
      t.Denotes key k ∧ t.Denotes key' k' ∧ k.same k' = true

theorem children_withTag (tag : Option Octets) (v : Value) :
    (withTag tag v).children = v.children := by
  unfold withTag
  split <;> rfl

theorem untag_withTag_map (tag : Option Octets) (entries : Entries) :
    (withTag tag (.map entries)).untag = .map entries := by
  unfold withTag
  split <;> rfl

theorem exists_denotes_of_mem {t : Tree} {shape : Shape} {mark : Mark} {tag : Option Octets}
    {nodes : List Node} {complete : Bool} {v : Value}
    (h : t.Denotes (.collection shape mark tag nodes complete) v) {node : Node}
    (hnode : node ∈ nodes) :
    exists c, c ∈ v.children ∧ t.Denotes node c := by
  rcases List.getElem_of_mem hnode with ⟨i, hi, rfl⟩
  cases h with
  | sequence hlength hitems =>
      rw [children_withTag]
      exact ⟨_, List.getElem_mem (hlength ▸ hi), hitems i hi (hlength ▸ hi)⟩
  | mapping hlength hchildren =>
      rw [children_withTag]
      exact ⟨_, List.getElem_mem (hlength ▸ hi), hchildren i hi (hlength ▸ hi)⟩

/-- What a node says that reading comes to is part of the value. -/
theorem exists_occurs_of_reached {t : Tree} {v : Value} (h : t.value = .ok v) {node : Node}
    (hnode : t.Reached node) :
    exists w, t.Denotes node w ∧ Value.Occurs w v := by
  induction hnode with
  | root hroot => exact ⟨v, denotes_of_value h hroot, .here⟩
  | child _ hmem ih =>
      rcases ih with ⟨w, hw, hoccurs⟩
      rcases exists_denotes_of_mem hw hmem with ⟨c, hc, hdenotes⟩
      exact ⟨c, hdenotes, hoccurs.child hc⟩
  | target _ hlookup ih =>
      rcases ih with ⟨w, hw, hoccurs⟩
      cases hw with
      | target hlookup' hdenotes =>
          rw [hlookup] at hlookup'
          cases hlookup'
          exact ⟨w, hdenotes, hoccurs⟩

theorem getElem?_children_map (entries : Entries) (i : Nat) :
    (Value.map entries).children[2 * i]? = entries[i]?.map (·.1) := by
  induction entries generalizing i with
  | nil => rfl
  | cons e entries ih =>
      cases i with
      | zero => rfl
      | succ i => exact ih i

/-- A text with a value repeats no key, as the two would be keys of one mapping of the value. -/
theorem not_repeatsKey_of_value {t : Tree} {v : Value} (hv : v.Sayable) (h : t.value = .ok v) :
    ¬ t.RepeatsKey := by
  rintro ⟨mark, tag, nodes, complete, hreached, i, j, key, key', k, k', hlt, hkey, hkey', hk, hk',
    hsame⟩
  rcases exists_occurs_of_reached h hreached with ⟨w, hw, hoccurs⟩
  cases hw with
  | mapping hlength hchildren =>
      rename_i entries
      have hdistinct := (hv.of_occurs hoccurs).distinct (untag_withTag_map tag entries)
      have hfound : forall {i : Nat} {key : Node} {k : Value}, nodes[2 * i]? = some key ->
          t.Denotes key k -> exists h : i < entries.length, entries[i].1 = k := by
        intro i key k hkey hk
        rcases List.getElem?_eq_some_iff.mp hkey with ⟨hi, rfl⟩
        have hchild := getElem?_children_map entries i
        rw [List.getElem?_eq_getElem (hlength ▸ hi)] at hchild
        rcases Option.map_eq_some_iff.mp hchild.symm with ⟨e, he, hfst⟩
        rcases List.getElem?_eq_some_iff.mp he with ⟨hi', rfl⟩
        exact ⟨hi', hfst.trans ((hchildren _ hi (hlength ▸ hi)).unique hk)⟩
      rcases hfound hkey hk with ⟨hi, rfl⟩
      rcases hfound hkey' hk' with ⟨hj, rfl⟩
      rw [List.pairwise_iff_getElem.mp hdistinct i j hi hj hlt] at hsame
      cases hsame

end Tree
end Yaml
end Clippings
