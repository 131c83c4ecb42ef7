import Clippings.Proofs.Decimal.Binary64
import Clippings.Yaml.Layout

/-!
# The draft of a value

The walk through a value announces as many ends as starts, unless the only key of a mapping takes
the start of that mapping: then a start is missing.  So these are the values that have no draft, and
all others have the draft that mirrors them.
-/

namespace Clippings
namespace Yaml
namespace Value

/-!
## Values without tags
-/

inductive Untagged : Value -> Prop where
  | null : Untagged .null
  | bool (b : Bool) : Untagged (.bool b)
  | int {i : Int} : -Int.pow 2 63 ≤ i -> i < Int.pow 2 64 -> Untagged (.int i)
  | str (s : String) : Untagged (.str s)
  | seq {items : List Value} : (forall v, v ∈ items -> Untagged v) -> Untagged (.seq items)
  | map {entries : Entries} :
      (forall e, e ∈ entries -> Untagged e.1) ->
      (forall e, e ∈ entries -> Untagged e.2) ->
      entries.Pairwise (fun e e' => e.1.same e'.1 = false) ->
      Untagged (.map entries)

def isSingle : Value -> Bool
  | map [_] => true
  | _ => false

mutual
def clashes : Value -> Nat
  | seq items => clashesOfItems items
  | map entries =>
    (match entries with
      | [(k, _)] => if k.isSingle then 1 else 0
      | _ => 0) + clashesOfEntries entries
  | tagged _ v => clashes v
  | _ => 0
def clashesOfItems : List Value -> Nat
  | [] => 0
  | v :: rest => clashes v + clashesOfItems rest
def clashesOfEntries : List (Value × Value) -> Nat
  | [] => 0
  | (k, v) :: rest => clashes k + clashes v + clashesOfEntries rest
end

def keyIsSingle : Entries -> Bool
  | [(k, _)] => k.isSingle
  | _ => false

theorem clashes_map (entries : Entries) :
    (Value.map entries).clashes =
      (if keyIsSingle entries then 1 else 0) + clashesOfEntries entries := by
  match entries with
  | [] => rfl
  | [(k, v)] => rfl
  | e :: e' :: rest => rfl

/-!
## Values that a text says
-/

def isTagged : Value -> Bool
  | tagged _ _ => true
  | _ => false

/-- A value as reading gives it: numbers are within range and in lowest form, the keys of a mapping
differ, tags have names without null characters, and none stands right inside another. -/
inductive Sayable : Value -> Prop where
  | null : Sayable .null
  | bool (b : Bool) : Sayable (.bool b)
  | int {i : Int} : -Int.pow 2 63 ≤ i -> i < Int.pow 2 64 -> Sayable (.int i)
  | float {x : Binary64} : x.IsLowest -> Sayable (.float x)
  | str (s : String) : Sayable (.str s)
  | seq {items : List Value} : (forall v, v ∈ items -> Sayable v) -> Sayable (.seq items)
  | map {entries : Entries} :
      (forall e, e ∈ entries -> Sayable e.1) ->
      (forall e, e ∈ entries -> Sayable e.2) ->
      entries.Pairwise (fun e e' => e.1.same e'.1 = false) ->
      Sayable (.map entries)
  | tagged {t : Tag} {v : Value} :
      t.name ≠ "" -> '\x00' ∉ t.name.toList -> v.isTagged = false -> Sayable v ->
      Sayable (.tagged t v)

theorem Untagged.sayable {v : Value} (h : v.Untagged) :
    v.Sayable := by
  induction h with
  | null => exact .null
  | bool b => exact .bool b
  | int h h' => exact .int h h'
  | str s => exact .str s
  | seq h ih => exact .seq ih
  | map hk hv hd ihk ihv => exact .map ihk ihv hd

/-- The only key takes the start of the mapping for its own. -/
def keyTakesStart : Entries -> Bool
  | [(k, _)] => k.isSingle || k.isTagged
  | _ => false

mutual
/-- How many ends have no start.  The start of a tagged mapping is announced with its tag. -/
def strayEnds (announced : Bool) : Value -> Nat
  | seq items => strayEndsOfItems items
  | map entries => (if !announced && keyTakesStart entries then 1 else 0) +
      strayEndsOfEntries entries
  | tagged _ v => strayEnds true v
  | _ => 0
def strayEndsOfItems : List Value -> Nat
  | [] => 0
  | v :: rest => strayEnds false v + strayEndsOfItems rest
def strayEndsOfEntries : List (Value × Value) -> Nat
  | [] => 0
  | (k, v) :: rest => strayEnds false k + strayEnds false v + strayEndsOfEntries rest
end

theorem Untagged.isTagged {v : Value} (h : v.Untagged) :
    v.isTagged = false := by
  cases h <;> rfl

theorem Untagged.strayEnds {v : Value} (h : v.Untagged) :
    v.strayEnds false = v.clashes := by
  induction h with
  | null => rfl
  | bool b => rfl
  | int h h' => rfl
  | str s => rfl
  | seq h ih =>
      rename_i items
      rw [Value.strayEnds, clashes]
      induction items with
      | nil => rfl
      | cons v items ihs =>
          rw [strayEndsOfItems, clashesOfItems, ih v List.mem_cons_self,
            ihs (fun w hw => h w (List.mem_cons_of_mem v hw))
              (fun w hw => ih w (List.mem_cons_of_mem v hw))]
  | map hk hv hd ihk ihv =>
      rename_i entries
      have htakes : keyTakesStart entries = keyIsSingle entries := by
        match entries with
        | [] => rfl
        | [(k, v)] => simp [keyTakesStart, keyIsSingle, (hk (k, v) List.mem_cons_self).isTagged]
        | e :: e' :: rest => rfl
      rw [Value.strayEnds, clashes_map, htakes, Bool.not_false, Bool.true_and]
      congr 1
      clear htakes hd
      induction entries with
      | nil => rfl
      | cons e entries ihs =>
          rcases e with ⟨k, v⟩
          rw [strayEndsOfEntries, clashesOfEntries, ihk (k, v) List.mem_cons_self,
            ihv (k, v) List.mem_cons_self,
            ihs (fun e he => hk e (List.mem_cons_of_mem (k, v) he))
              (fun e he => hv e (List.mem_cons_of_mem (k, v) he))
              (fun e he => ihk e (List.mem_cons_of_mem (k, v) he))
              (fun e he => ihv e (List.mem_cons_of_mem (k, v) he))]

/-!
## The draft
-/

mutual
def draftWith (tag : Option Octets) : Value -> Draft
  | seq items => .collection .sequence tag (itemDrafts items)
  | map entries => .collection .mapping tag (entryDrafts entries)
  | tagged t v => draftWith (some (Pending.spelling t)) v
  | v => .scalar tag (scalarText v).1 (scalarText v).2
def itemDrafts : List Value -> List Draft
  | [] => []
  | v :: rest => draftWith none v :: itemDrafts rest
def entryDrafts : List (Value × Value) -> List Draft
  | [] => []
  | (k, v) :: rest => draftWith none k :: draftWith none v :: entryDrafts rest
end

def draft (v : Value) : Draft :=
  draftWith none v

theorem length_entryDrafts (entries : Entries) :
    (entryDrafts entries).length = 2 * entries.length := by
  induction entries with
  | nil => rfl
  | cons e rest ih =>
      rcases e with ⟨k, v⟩
      simp only [entryDrafts, List.length_cons, ih]
      omega

/-!
## The walk
-/

inductive Announced : Pending -> Value -> Prop where
  | nothing (v : Value) : Announced .nothing v
  | tag (t : Tag) {v : Value} : v.isTagged = false -> Announced (.tag t) v

def startUnless (taken : Bool) (tag : Option Octets) : List (Except WriteFault Event) :=
  if taken then [] else [.ok (.collectionStart .mapping ⟨none, tag⟩)]

theorem walk_map_of_not_isSingle {entries : Entries} (h : (Value.map entries).isSingle = false)
    (p : Pending) :
    (Value.map entries).walk p =
      p.starts.map .ok ++ .ok (.collectionStart .mapping p.properties) ::
        (walkEntries entries ++ [.ok (.collectionEnd .mapping)]) := by
  rw [walk]
  rintro k v rfl
  cases h

/-- A start that was held back is announced in front of a key, unless the key takes it. -/
theorem walk_held (v : Value) {p : Pending} (hp : p.isTag = false) :
    v.walk p =
      (if v.isSingle || v.isTagged then [] else p.starts.map .ok) ++ v.walk .nothing := by
  have hproperties : p.properties = Properties.none := by
    cases p with
    | tag t => cases hp
    | _ => rfl
  have hisTag : Pending.nothing.isTag = false := rfl
  have hstarts : Pending.nothing.starts = [] := rfl
  have hnothing : Pending.nothing.properties = Properties.none := rfl
  cases v with
  | map entries =>
      cases hsingle : (Value.map entries).isSingle with
      | true =>
          match entries, hsingle with
          | [(k, v)], _ => simp [walk, hp, hisTag]
      | false =>
          rw [walk_map_of_not_isSingle hsingle, walk_map_of_not_isSingle hsingle, hproperties]
          rfl
  | seq items =>
      rw [walk, walk, hproperties]
      rfl
  | tagged t v => simp [walk, isTagged, hp, hisTag]
  | _ => simp [walk, isSingle, isTagged, hstarts, hproperties, hnothing]

theorem walk_map {entries : Entries} {p : Pending} (hp : Announced p (.map entries)) :
    (Value.map entries).walk p =
      startUnless (!p.isTag && keyTakesStart entries) p.properties.tag ++
        (walkEntries entries ++ [.ok (.collectionEnd .mapping)]) := by
  cases hsingle : (Value.map entries).isSingle with
  | false =>
      have htakes : keyTakesStart entries = false := by
        unfold keyTakesStart
        split
        · cases hsingle
        · rfl
      rw [walk_map_of_not_isSingle hsingle, htakes]
      cases hp <;> rfl
  | true =>
      match entries, hsingle with
      | [(k, v)], _ =>
          cases hp with
          | nothing =>
              rw [walk, walk_held (p := .mapping) k rfl]
              simp [walkEntries, keyTakesStart, startUnless, Pending.isTag, Pending.starts,
                Pending.properties, Properties.none]
          | tag t htagged =>
              -- The start of a mapping with a tag has been announced together with the tag.
              rw [walk, walk_held (p := .taggedMapping) k rfl]
              simp [walkEntries, startUnless, Pending.isTag, Pending.starts, Pending.properties]

theorem walk_tagged {t : Tag} {v : Value} {p : Pending} (hp : Announced p (.tagged t v)) :
    (Value.tagged t v).walk p = v.walk (.tag t) := by
  cases hp with
  | nothing => rw [walk]; rfl
  | tag t' h => cases h

/-!
## Gathering a draft
-/

/-- The walk is gathered as a whole, wherever the value stands. -/
def GathersTo (events : List (Except WriteFault Event)) (d : Draft) : Prop :=
  forall frames document rest,
    Draft.gather frames document (events ++ rest) =
      Draft.gather (Draft.add d frames).2 (document <|> (Draft.add d frames).1) rest

theorem GathersTo.inside {events : List (Except WriteFault Event)} {d : Draft}
    (h : GathersTo events d) (f : Draft.Frame) (frames : List Draft.Frame) (document : Option Draft)
    (rest : List (Except WriteFault Event)) :
    Draft.gather (f :: frames) document (events ++ rest) =
      Draft.gather ({ f with children := d :: f.children } :: frames) document rest := by
  rw [h]
  simp [Draft.add]

theorem strayEnds_of_mem_items {items : List Value} (h : strayEndsOfItems items = 0) {v : Value}
    (hv : v ∈ items) :
    v.strayEnds false = 0 := by
  induction items with
  | nil => cases hv
  | cons w rest ih =>
      rw [strayEndsOfItems, Nat.add_eq_zero_iff] at h
      rcases List.mem_cons.mp hv with rfl | hv
      · exact h.1
      · exact ih h.2 hv

theorem strayEnds_of_mem_entries {entries : Entries} (h : strayEndsOfEntries entries = 0)
    {e : Value × Value} (he : e ∈ entries) :
    e.1.strayEnds false = 0 ∧ e.2.strayEnds false = 0 := by
  induction entries with
  | nil => cases he
  | cons e' rest ih =>
      rw [strayEndsOfEntries, Nat.add_eq_zero_iff, Nat.add_eq_zero_iff] at h
      rcases List.mem_cons.mp he with rfl | he
      · exact h.1
      · exact ih h.2 he

theorem gather_walkItems {items : List Value}
    (h : forall v, v ∈ items -> GathersTo (v.walk .nothing) (v.draftWith none))
    (f : Draft.Frame) (frames : List Draft.Frame) (document : Option Draft)
    (rest : List (Except WriteFault Event)) :
    Draft.gather (f :: frames) document (walkItems items ++ rest) =
      Draft.gather ({ f with children := (itemDrafts items).reverse ++ f.children } :: frames)
        document rest := by
  induction items generalizing f with
  | nil => rfl
  | cons v items ih =>
      have hv := h v List.mem_cons_self
      rw [walkItems, List.append_assoc, hv.inside,
        ih (fun w hw => h w (List.mem_cons_of_mem v hw))]
      simp [itemDrafts]

theorem gather_walkEntries {entries : Entries}
    (h : forall e, e ∈ entries -> GathersTo (e.1.walk .nothing) (e.1.draftWith none) ∧
      GathersTo (e.2.walk .nothing) (e.2.draftWith none))
    (f : Draft.Frame) (frames : List Draft.Frame) (document : Option Draft)
    (rest : List (Except WriteFault Event)) :
    Draft.gather (f :: frames) document (walkEntries entries ++ rest) =
      Draft.gather ({ f with children := (entryDrafts entries).reverse ++ f.children } :: frames)
        document rest := by
  induction entries generalizing f with
  | nil => rfl
  | cons e entries ih =>
      rcases e with ⟨k, v⟩
      rcases h (k, v) List.mem_cons_self with ⟨hk, hv⟩
      rw [walkEntries, List.append_assoc, List.append_assoc, hk.inside, hv.inside,
        ih (fun e he => h e (List.mem_cons_of_mem (k, v) he))]
      simp [entryDrafts]

theorem gathersTo_scalar (tag : Option Octets) (style : ScalarStyle) (text : List Char) :
    GathersTo [.ok (.scalar ⟨none, tag⟩ style text)] (.scalar tag style text) := by
  intro frames document rest
  cases frames <;> rfl

theorem gathersTo_collection (shape : Shape) {events : List (Except WriteFault Event)}
    {children : List Draft} (tag : Option Octets)
    (hend : (shape == .sequence || children.length % 2 == 0) = true)
    (h : forall f frames document rest,
      Draft.gather (f :: frames) document (events ++ rest) =
        Draft.gather ({ f with children := children.reverse ++ f.children } :: frames) document
          rest) :
    GathersTo (.ok (.collectionStart shape ⟨none, tag⟩) ::
        (events ++ [.ok (.collectionEnd shape)]))
      (.collection shape tag children) := by
  intro frames document rest
  rw [List.cons_append, List.append_assoc, Draft.gather]
  simp only [h, List.append_nil, List.cons_append, List.nil_append, Draft.gather]
  simp [Draft.Frame.mayEnd, Draft.Frame.draft, hend]

theorem gathersTo_walk {v : Value} (h : v.Sayable) {p : Pending} (hp : Announced p v)
    (hends : v.strayEnds p.isTag = 0) :
    GathersTo (v.walk p) (v.draftWith p.properties.tag) := by
  have hscalar : forall style text,
      GathersTo (p.starts.map .ok ++ [.ok (.scalar p.properties style text)])
        (.scalar p.properties.tag style text) := by
    intro style text
    cases hp <;> exact gathersTo_scalar _ style text
  induction h generalizing p with
  | null => exact hscalar _ _
  | bool b => exact hscalar _ _
  | int h₁ h₂ => exact hscalar _ _
  | float h => exact hscalar _ _
  | str s => exact hscalar _ _
  | seq h ih =>
      rename_i items
      have hitems := gathersTo_collection .sequence p.properties.tag rfl
        (gather_walkItems (fun v hv => ih v hv (.nothing v) (strayEnds_of_mem_items hends hv)
          (gathersTo_scalar none)))
      rw [walk, draftWith]
      cases hp <;> exact hitems
  | map hk hv hd ihk ihv =>
      rename_i entries
      rw [strayEnds, Nat.add_eq_zero_iff] at hends
      have htaken : (!p.isTag && keyTakesStart entries) = false := by simpa using hends.1
      rw [walk_map hp, htaken, draftWith]
      apply gathersTo_collection .mapping
      · simp [length_entryDrafts]
      · exact gather_walkEntries (fun e he =>
          ⟨ihk e he (.nothing _) (strayEnds_of_mem_entries hends.2 he).1 (gathersTo_scalar none),
            ihv e he (.nothing _) (strayEnds_of_mem_entries hends.2 he).2
              (gathersTo_scalar none)⟩)
  | tagged hname hnull hv h ih =>
      rename_i t v
      rw [walk_tagged hp, draftWith]
      exact ih (.tag t hv) hends (gathersTo_scalar _)

/-!
## Missing starts
-/

def isStart : Except WriteFault Event -> Bool
  | .ok (.collectionStart _ _) => true
  | _ => false

def isEnd : Except WriteFault Event -> Bool
  | .ok (.collectionEnd _) => true
  | _ => false

theorem countP_isEnd_le_of_gather {events : List (Except WriteFault Event)}
    {frames : List Draft.Frame} {document : Option Draft} {d : Draft}
    (h : Draft.gather frames document events = .ok d) :
    events.countP isEnd ≤ frames.length + events.countP isStart := by
  induction events generalizing frames document with
  | nil => simp
  | cons event rest ih =>
      cases event with
      | error f => cases h
      | ok event =>
          have hadd : forall d frames, (Draft.add d frames).2.length = frames.length := by
            intro d frames
            cases frames <;> rfl
          cases event with
          | collectionStart shape properties =>
              have := ih h
              simp only [List.length_cons] at this
              simp only [List.countP_cons, isEnd, isStart, Bool.false_eq_true, if_false, if_true]
              omega
          | collectionEnd shape =>
              cases frames with
              | nil => cases h
              | cons f frames =>
                  rw [Draft.gather] at h
                  simp only at h
                  split at h
                  · have := ih h
                    rw [hadd] at this
                    simp only [List.countP_cons, isEnd, isStart, Bool.false_eq_true, if_false,
                      if_true, List.length_cons]
                    omega
                  · cases h
          | scalar properties style text =>
              have := ih h
              cases frames <;> simpa [List.countP_cons, isEnd, isStart] using this
          | _ => simpa [List.countP_cons, isEnd, isStart] using ih h

def Misses (events : List (Except WriteFault Event)) (n : Nat) : Prop :=
  events.countP isStart + n = events.countP isEnd

theorem misses_walkItems {items : List Value}
    (h : forall v, v ∈ items -> Misses (v.walk .nothing) (v.strayEnds false)) :
    Misses (walkItems items) (strayEndsOfItems items) := by
  induction items with
  | nil => rfl
  | cons v items ih =>
      have hv := h v List.mem_cons_self
      have hrest := ih (fun w hw => h w (List.mem_cons_of_mem v hw))
      unfold Misses at *
      simp only [walkItems, strayEndsOfItems, List.countP_append]
      omega

theorem misses_walkEntries {entries : Entries}
    (h : forall e, e ∈ entries -> Misses (e.1.walk .nothing) (e.1.strayEnds false) ∧
      Misses (e.2.walk .nothing) (e.2.strayEnds false)) :
    Misses (walkEntries entries) (strayEndsOfEntries entries) := by
  induction entries with
  | nil => rfl
  | cons e entries ih =>
      rcases e with ⟨k, v⟩
      rcases h (k, v) List.mem_cons_self with ⟨hk, hv⟩
      have hrest := ih (fun e he => h e (List.mem_cons_of_mem (k, v) he))
      unfold Misses at *
      simp only [walkEntries, strayEndsOfEntries, List.countP_append] at *
      omega

theorem misses_scalar (p : Pending) (hp : p.starts = []) (style : ScalarStyle)
    (text : List Char) :
    Misses (p.starts.map .ok ++ [.ok (.scalar p.properties style text)]) 0 := by
  rw [hp]
  rfl

theorem misses_walk {v : Value} (h : v.Sayable) {p : Pending} (hp : Announced p v) :
    Misses (v.walk p) (v.strayEnds p.isTag) := by
  have hstarts : p.starts = [] := by cases hp <;> rfl
  induction h generalizing p with
  | null => exact misses_scalar p hstarts _ _
  | bool b => exact misses_scalar p hstarts _ _
  | int h₁ h₂ => exact misses_scalar p hstarts _ _
  | float h => exact misses_scalar p hstarts _ _
  | str s => exact misses_scalar p hstarts _ _
  | seq h ih =>
      have hitems := misses_walkItems (fun v hv => ih v hv (.nothing v) rfl)
      unfold Misses at *
      rw [walk, strayEnds, hstarts]
      simp only [List.map_nil, List.nil_append, List.countP_cons, List.countP_append, isStart,
        isEnd, Bool.false_eq_true, if_false, if_true, List.countP_nil]
      omega
  | map hk hv hd ihk ihv =>
      rename_i entries
      have hentries := misses_walkEntries (fun e he =>
        ⟨ihk e he (.nothing _) rfl, ihv e he (.nothing _) rfl⟩)
      unfold Misses at *
      rw [walk_map hp, strayEnds]
      cases !p.isTag && keyTakesStart entries with
      | true =>
          simp only [startUnless, if_true, List.nil_append, List.countP_cons, List.countP_append,
            isStart, isEnd, Bool.false_eq_true, if_false, List.countP_nil]
          omega
      | false =>
          simp only [startUnless, if_true, List.nil_append, List.cons_append, List.countP_cons,
            List.countP_append, isStart, isEnd, Bool.false_eq_true, if_false, List.countP_nil]
          omega
  | tagged hname hnull hv h ih =>
      rename_i t v
      rw [walk_tagged hp, strayEnds]
      exact ih (.tag t hv) rfl

/-!
## Values with a draft
-/

/-- A value has a draft exactly if no start is missing. -/
theorem Sayable.ofValue_eq_ok_iff {v : Value} (h : v.Sayable) {d : Draft} :
    Draft.ofValue v = .ok d <-> v.strayEnds false = 0 ∧ d = v.draft := by
  have hdraft : v.strayEnds false = 0 -> Draft.ofValue v = .ok v.draft := by
    intro hends
    have hgather := gathersTo_walk h (.nothing v) hends [] none []
    rw [List.append_nil] at hgather
    rw [Draft.ofValue, hgather]
    rfl
  constructor
  · intro hd
    have hle := countP_isEnd_le_of_gather hd
    have hmisses := misses_walk h (.nothing v)
    unfold Misses at hmisses
    have hends : v.strayEnds false = 0 := by
      simp only [List.length_nil] at hle
      simp only [Pending.isTag] at hmisses
      omega
    rw [hdraft hends] at hd
    cases hd
    exact ⟨hends, rfl⟩
  · rintro ⟨hends, rfl⟩
    exact hdraft hends

theorem Sayable.toText_eq_ok_iff {v : Value} (h : v.Sayable) {text : String} :
    v.toText = .ok text <->
      v.strayEnds false = 0 ∧ text = String.ofList (Layout.documentText v.draft) := by
  unfold Value.toText
  cases hd : Draft.ofValue v with
  | error f =>
      simp only [Except.map, false_iff, reduceCtorEq, not_and]
      intro hends
      have := h.ofValue_eq_ok_iff.mpr ⟨hends, rfl⟩
      rw [hd] at this
      cases this
  | ok d =>
      rcases h.ofValue_eq_ok_iff.mp hd with ⟨hends, rfl⟩
      simp [Except.map, hends, eq_comm]

theorem toText_eq_ok_iff {v : Value} (h : v.Untagged) {text : String} :
    v.toText = .ok text <->
      v.clashes = 0 ∧ text = String.ofList (Layout.documentText v.draft) := by
  rw [← h.strayEnds]
  exact h.sayable.toText_eq_ok_iff

end Value
end Yaml
end Clippings
