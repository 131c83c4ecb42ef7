import Clippings.Proofs.Yaml.Reading

/-!
# What a text says

Reading gives numbers within range, different keys in every mapping, at most one tag in front of a
value, and no more levels than it was allowed.
-/

namespace Clippings
namespace Yaml

/-!
## Scalars
-/

namespace Meaning

inductive Sayable : Meaning -> Prop where
  | null : Sayable .null
  | bool (b : Bool) : Sayable (.bool b)
  | int {i : Int} : -Int.pow 2 63 ≤ i -> i < Int.pow 2 64 -> Sayable (.int i)
  | wide (i : Int) : Sayable (.wide i)
  | float {x : Binary64} : x.IsLowest -> Sayable (.float x)
  | str : Sayable .str

theorem sayable_int? {s : List Char} {m : Meaning} (h : int? s = some m) :
    m.Sayable := by
  unfold int? at h
  split at h
  · cases h
  · split at h
    · rename_i hrange
      cases h
      rw [Bool.and_eq_true, decide_eq_true_eq, decide_eq_true_eq] at hrange
      exact .int hrange.1 hrange.2
    · split at h
      · cases h
        exact .wide _
      · cases h

theorem isLowest_float? {s : List Char} {x : Binary64} (h : float? s = some x) :
    x.IsLowest := by
  unfold float? at h
  split at h
  · cases h
    trivial
  · simp only at h
    split at h
    · cases h
      trivial
    · unfold finite? at h
      split at h
      · cases h
      · rename_i d hd
        split at h
        · rename_i n m e hx
          cases h
          rw [← hx]
          exact Binary64.isLowest_ofScientific _ _ _
        · cases h

theorem sayable_ofPlain (s : List Char) :
    (ofPlain s).Sayable := by
  unfold ofPlain
  split
  · exact .null
  · split
    · exact .bool _
    · split
      · rename_i hint
        exact sayable_int? hint
      · split
        · exact .str
        · split
          · rename_i hfloat
            exact .float (isLowest_float? hfloat)
          · exact .str

end Meaning

namespace Value

structure Flat (v : Value) : Prop where
  sayable : v.Sayable
  untagged : v.isTagged = false
  height : v.height = 0

end Value

namespace Tree

theorem flat_ofMeaning {m : Meaning} (h : m.Sayable) {text : List Char} {v : Value}
    (hv : ofMeaning text m = .ok v) :
    v.Flat := by
  cases h with
  | null => cases hv; exact ⟨.null, rfl, rfl⟩
  | bool b => cases hv; exact ⟨.bool b, rfl, rfl⟩
  | int h h' => cases hv; exact ⟨.int h h', rfl, rfl⟩
  | wide i => cases hv
  | float h => cases hv; exact ⟨.float h, rfl, rfl⟩
  | str => cases hv; exact ⟨.str _, rfl, rfl⟩

theorem flat_ofStandardTag? {tag : Octets} {text : List Char} {v : Value}
    (h : ofStandardTag? tag text = some (.ok v)) :
    v.Flat := by
  unfold ofStandardTag? at h
  simp only at h
  split at h
  · injection h with h
    split at h
    · cases h
      exact ⟨.bool _, rfl, rfl⟩
    · cases h
  · split at h
    · injection h with h
      split at h
      · rename_i hint
        exact flat_ofMeaning (Meaning.sayable_int? hint) h
      · cases h
    · split at h
      · injection h with h
        split at h
        · rename_i hfloat
          cases h
          exact ⟨.float (Meaning.isLowest_float? hfloat), rfl, rfl⟩
        · cases h
      · split at h
        · injection h with h
          split at h
          · cases h
            exact ⟨.null, rfl, rfl⟩
          · cases h
        · cases h

theorem flat_scalar {tagged : Bool} {tag : Option Octets} {style : ScalarStyle}
    {text : List Char} {v : Value} (h : scalar tagged tag style text = .ok v) :
    v.Flat := by
  have hstr : forall {v : Value}, Except.ok (Value.str (String.ofList text)) =
      (Except.ok v : Except Complaint Value) -> v.Flat := by
    intro v hv
    cases hv
    exact ⟨.str _, rfl, rfl⟩
  have hplain : forall {v : Value}, (if style == .plain then
      ofMeaning text (Meaning.ofPlain text) else .ok (.str (String.ofList text))) = .ok v ->
      v.Flat := by
    intro v hv
    split at hv
    · exact flat_ofMeaning (Meaning.sayable_ofPlain text) hv
    · exact hstr hv
  unfold scalar at h
  simp only at h
  split at h
  · exact hplain h
  · split at h
    · rename_i hstandard
      rw [h] at hstandard
      exact flat_ofStandardTag? hstandard
    · split at h
      · exact hplain h
      · exact hstr h

/-!
## Collections
-/

end Tree

namespace Value

/-- A value as reading gives it with so many levels. -/
structure Fits (depth : Nat) (v : Value) : Prop where
  sayable : v.Sayable
  height : v.height ≤ depth

theorem heightOfItems_le {items : List Value} {n : Nat}
    (h : forall v, v ∈ items -> v.height ≤ n) :
    heightOfItems items ≤ n := by
  induction items with
  | nil => exact Nat.zero_le n
  | cons v items ih =>
      exact Nat.max_le.mpr ⟨h v List.mem_cons_self,
        ih (fun w hw => h w (List.mem_cons_of_mem v hw))⟩

theorem heightOfEntries_le {entries : Entries} {n : Nat}
    (h : forall e, e ∈ entries -> e.1.height ≤ n ∧ e.2.height ≤ n) :
    heightOfEntries entries ≤ n := by
  induction entries with
  | nil => exact Nat.zero_le n
  | cons e entries ih =>
      rcases e with ⟨k, v⟩
      have hentry := Nat.max_le.mpr (h (k, v) List.mem_cons_self)
      have hrest := ih fun e he => h e (List.mem_cons_of_mem (k, v) he)
      exact Nat.max_le.mpr ⟨hentry, hrest⟩

theorem fits_seq {items : List Value} {depth : Nat} (h : forall v, v ∈ items -> v.Fits depth) :
    (seq items).Fits (depth + 1) := by
  constructor
  · exact .seq fun v hv => (h v hv).sayable
  · apply Nat.succ_le_succ
    exact heightOfItems_le fun v hv => (h v hv).height

theorem fits_map {entries : Entries} {depth : Nat}
    (h : forall e, e ∈ entries -> e.1.Fits depth ∧ e.2.Fits depth)
    (hkeys : entries.Pairwise fun e e' => e.1.same e'.1 = false) :
    (map entries).Fits (depth + 1) := by
  constructor
  · exact .map (fun e he => (h e he).1.sayable) (fun e he => (h e he).2.sayable) hkeys
  · apply Nat.succ_le_succ
    apply heightOfEntries_le
    intro e he
    exact ⟨(h e he).1.height, (h e he).2.height⟩

theorem fits_withTag {v : Value} {depth : Nat} (h : v.Fits depth) (hv : v.isTagged = false)
    {tag : Option Octets} (htag : NullFree tag) :
    (Tree.withTag tag v).Fits depth := by
  constructor
  · unfold Tree.withTag
    split
    · rename_i t ht
      have hname := Tree.name_of_localTag? ht
      have hnull := Tree.null_not_mem_of_localTag? htag ht
      exact .tagged hname hnull hv h.sayable
    · exact h.sayable
  · rw [height_withTag]
    exact h.height

end Value

namespace Tree

/-- What is read from a node without null octets is of this kind. -/
def Gives (read : ReadNode) (p : Value -> Prop) : Prop :=
  forall {place : Place} {node : Node} {jumps jumps' : Nat} {v : Value},
    node.NullFree -> read place node jumps = .ok (v, jumps') -> p v

theorem readItems_gives {read : ReadNode} {p : Value -> Prop} (h : Gives read p) {place : Place}
    {index : Nat} {done items : List Value} {nodes : List Node} {jumps jumps' : Nat}
    (hread : readItems read place index done nodes jumps = .ok (items, jumps'))
    (hnodes : forall n, n ∈ nodes -> n.NullFree) (hdone : forall v, v ∈ done -> p v) :
    forall v, v ∈ items -> p v := by
  induction nodes generalizing index done jumps with
  | nil =>
      rw [readItems] at hread
      cases hread
      intro v hv
      exact hdone v (List.mem_reverse.mp hv)
  | cons node nodes ih =>
      rw [readItems] at hread
      split at hread
      · cases hread
      · rename_i v jumps₁ hv
        apply ih hread (fun n hn => hnodes n (List.mem_cons_of_mem node hn))
        intro w hw
        rcases List.mem_cons.mp hw with rfl | hw
        · exact h (hnodes node List.mem_cons_self) hv
        · exact hdone w hw

structure Noted (p : Value -> Prop) (done : Entries) : Prop where
  all : forall e, e ∈ done -> p e.1 ∧ p e.2
  differ : done.Pairwise fun e e' => e'.1.same e.1 = false

theorem Noted.cons {p : Value -> Prop} {done : Entries} (h : Noted p done) {k v : Value}
    (hnew : done.has k = false) (hk : p k) (hv : p v) :
    Noted p ((k, v) :: done) := by
  constructor
  · intro e he
    rcases List.mem_cons.mp he with rfl | he
    · exact ⟨hk, hv⟩
    · exact h.all e he
  · refine List.pairwise_cons.mpr ⟨?_, h.differ⟩
    intro e he
    rw [Entries.has, List.any_eq_false] at hnew
    simpa using hnew e he

theorem readEntries_gives {read : ReadNode} {p : Value -> Prop} (h : Gives read p) {place : Place}
    {mark : Mark} {breakFault : Fault} {done entries : Entries} {nodes : List Node}
    {jumps jumps' : Nat}
    (hread : readEntries read place mark breakFault done nodes jumps = .ok (entries, jumps'))
    (hnodes : forall n, n ∈ nodes -> n.NullFree) (hdone : Noted p done) :
    (forall e, e ∈ entries -> p e.1 ∧ p e.2) ∧
      entries.Pairwise fun e e' => e.1.same e'.1 = false := by
  fun_induction readEntries read place mark breakFault done nodes jumps with
  | case1 =>
      cases hread
      constructor
      · intro e he
        exact hdone.all e (List.mem_reverse.mp he)
      · exact List.pairwise_reverse.mpr hdone.differ
  | case6 done key jumps k jumps₁ hk hnew node nodes v jumps₂ hv ih =>
      have hkey := h (hnodes key (by simp)) hk
      have hvalue := h (hnodes node (by simp)) hv
      exact ih hread (fun n hn => hnodes n (by simp [hn]))
        (hdone.cons (by simpa using hnew) hkey hvalue)
  | _ => cases hread

theorem readChildren_cases {t : Tree} {read : ReadNode} {place : Place} {shape : Shape}
    {mark : Mark} {children : List Node} {complete : Bool} {jumps jumps' : Nat} {v : Value}
    (h : t.readChildren read place shape mark children complete jumps = .ok (v, jumps')) :
    complete = true ∧
      ((exists items, shape = .sequence ∧ v = .seq items ∧
          readItems read place 0 [] children jumps = .ok (items, jumps')) ∨
        exists entries, shape = .mapping ∧ v = .map entries ∧
          readEntries read place mark t.breakFault [] children jumps = .ok (entries, jumps')) := by
  unfold readChildren at h
  simp only at h
  split at h
  · cases h
  · rename_i hresult
    split at h
    · rename_i hcomplete
      cases h
      constructor
      · exact hcomplete
      · cases shape with
        | sequence =>
            rcases Lexeme.map_ok hresult with ⟨⟨items, n⟩, hitems, heq⟩
            cases heq
            exact Or.inl ⟨items, rfl, rfl, hitems⟩
        | mapping =>
            rcases Lexeme.map_ok hresult with ⟨⟨entries, n⟩, hentries, heq⟩
            cases heq
            exact Or.inr ⟨entries, rfl, rfl, hentries⟩
    · cases h

theorem fits_readChildren {t : Tree} {read : ReadNode} {depth : Nat}
    (h : Gives read (Value.Fits depth)) {place : Place} {shape : Shape} {mark : Mark}
    {children : List Node} (hchildren : forall n, n ∈ children -> n.NullFree) {complete : Bool}
    {jumps jumps' : Nat} {v : Value}
    (hread : t.readChildren read place shape mark children complete jumps = .ok (v, jumps')) :
    v.Fits (depth + 1) ∧ v.isTagged = false := by
  rcases readChildren_cases hread with
    ⟨-, ⟨items, -, rfl, hitems⟩ | ⟨entries, -, rfl, hentries⟩⟩
  · exact ⟨Value.fits_seq (readItems_gives h hitems hchildren (by simp)), rfl⟩
  · have hall := readEntries_gives h hentries hchildren ⟨by simp, .nil⟩
    exact ⟨Value.fits_map hall.1 hall.2, rfl⟩

theorem nullFree_follow {t : Tree} (ht : t.NullFree) {place place' : Place} {node node' : Node}
    {jumps jumps' : Nat} (hnode : node.NullFree)
    (h : t.follow place node jumps = .ok (place', node', jumps')) :
    node'.NullFree := by
  unfold follow at h
  split at h
  · split at h
    · cases h
    · split at h
      · rename_i hlookup
        cases h
        rcases List.lookup_eq_some_iff.mp hlookup with ⟨before, after, hanchored, -⟩
        exact ht.anchored _ (hanchored ▸ List.mem_append_right before List.mem_cons_self)
      · cases h
  · cases h
    exact hnode

theorem readNode_cases {t : Tree} {depth : Nat} {place : Place} {node : Node}
    {jumps jumps' : Nat} {v : Value} (h : t.readNode depth place node jumps = .ok (v, jumps')) :
    exists place' node' jumps₁, t.follow place node jumps = .ok (place', node', jumps₁) ∧
      ((exists mark tag style text w, node' = .scalar mark tag style text ∧
          scalar (localTag? tag).isSome tag style text = .ok w ∧ v = withTag tag w) ∨
        exists n shape mark tag children complete w, depth = n + 1 ∧
          node' = .collection shape mark tag children complete ∧
          t.readChildren (t.readNode n) place' shape mark children complete jumps₁ =
            .ok (w, jumps') ∧
          v = withTag tag w) := by
  rw [readNode] at h
  split at h
  · cases h
  · rename_i place' node' jumps₁ hfollow
    refine ⟨place', node', jumps₁, hfollow, ?_⟩
    split at h
    · cases h
    · split at h
      · rename_i hscalar
        cases h
        exact Or.inl ⟨_, _, _, _, _, rfl, hscalar, rfl⟩
      · cases h
    · split at h
      · cases h
      · rcases Lexeme.map_ok h with ⟨⟨w, jumps₂⟩, hw, heq⟩
        cases heq
        exact Or.inr ⟨_, _, _, _, _, _, w, rfl, rfl, hw, rfl⟩

theorem readNode_step {t : Tree} (ht : t.NullFree) {depth : Nat}
    (h : forall n, depth = n + 1 -> Gives (t.readNode n) (Value.Fits n)) :
    Gives (t.readNode depth) (Value.Fits depth) := by
  intro place node jumps jumps' v hnode hread
  rcases readNode_cases hread with ⟨place', node', jumps₁, hfollow, hcases⟩
  have hnode' := nullFree_follow ht hnode hfollow
  rcases hcases with ⟨_, _, _, _, w, rfl, hscalar, rfl⟩ | ⟨n, _, _, _, _, _, w, rfl, rfl, hw, rfl⟩
  · cases hnode' with
    | scalar htag =>
        have hflat := flat_scalar hscalar
        exact Value.fits_withTag ⟨hflat.sayable, Nat.le_trans (Nat.le_of_eq hflat.height)
          (Nat.zero_le depth)⟩ hflat.untagged htag
  · cases hnode' with
    | collection htag hchildren =>
        rcases fits_readChildren (h n rfl) hchildren hw with ⟨hfits, huntagged⟩
        exact Value.fits_withTag hfits huntagged htag

theorem readNode_gives {t : Tree} (ht : t.NullFree) (depth : Nat) :
    Gives (t.readNode depth) (Value.Fits depth) := by
  induction depth with
  | zero => exact readNode_step ht (fun n hn => by cases hn)
  | succ depth ih =>
      refine readNode_step ht (fun n hn => ?_)
      cases hn
      exact ih

theorem finish_eq_ok {α : Type} {t : Tree} {r r' : α} (h : t.finish r = .ok r') :
    r = r' := by
  unfold finish at h
  split at h
  · cases h
  · split at h
    · cases h
    · cases h
      rfl

theorem value_cases {t : Tree} {v : Value} (h : t.value = .ok v) :
    (t.root = none ∧ v = .null) ∨
      exists node jumps, t.root = some node ∧
        t.readNode maxDepth .root node 0 = .ok (v, jumps) := by
  unfold value at h
  split at h
  · rename_i hroot
    split at h
    · cases h
    · exact Or.inl ⟨hroot, (finish_eq_ok h).symm⟩
  · rename_i node hroot
    split at h
    · cases h
    · rename_i w jumps hread
      rw [finish_eq_ok h] at hread
      exact Or.inr ⟨node, jumps, hroot, hread⟩

theorem fits_value {t : Tree} (ht : t.NullFree) {v : Value} (h : t.value = .ok v) :
    v.Fits maxDepth := by
  rcases value_cases h with ⟨-, rfl⟩ | ⟨node, jumps, hroot, hread⟩
  · exact ⟨.null, Nat.zero_le _⟩
  · exact readNode_gives ht maxDepth (ht.root _ hroot) hread

end Tree

/-- A text says only values that reading can give. -/
theorem Value.fits_ofText {text : String} {v : Value} (h : Value.ofText text = .ok v) :
    v.Fits Tree.maxDepth := by
  unfold Value.ofText at h
  split at h
  · cases h
  · rename_i t ht
    exact Tree.fits_value (Tree.nullFree_ofText ht) h

end Yaml
end Clippings
