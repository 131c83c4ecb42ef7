import Clippings.Storage.Tree

/-!
# Looking up in trees that change

A way that leads somewhere still leads there after a change, as long as everything that was there is
there still, if perhaps with another content.
-/

namespace Clippings
namespace Storage

namespace Entry

def shape : Entry -> Entry
  | file _ => file []
  | e => e

theorem shape_eq_directory {e : Entry} :
    e.shape = directory <-> e = directory := by
  cases e <;> simp [shape]

theorem shape_eq_link {e : Entry} {target : Path} :
    e.shape = link target <-> e = link target := by
  cases e <;> simp [shape]

end Entry

namespace Tree

/-!
## Entries
-/

theorem at?_cons (t : Tree) (name : Name) (a : Address) :
    t.at? (name :: a) = t.entries.lookup (name :: a) := rfl

@[simp]
theorem set_origin (t : Tree) (a : Address) (e : Entry) (p : Path) :
    (t.set a e).origin p = t.origin p := rfl

theorem lookup_filter_ne {α : Type} (entries : List (Address × α)) {a b : Address} (h : b ≠ a) :
    (entries.filter (·.1 != a)).lookup b = entries.lookup b := by
  induction entries with
  | nil => rfl
  | cons entry rest ih =>
      rcases entry with ⟨c, e⟩
      by_cases hc : c = a
      · have hb : (b == a) = false := by
          rw [beq_eq_false_iff_ne]
          exact h
        simp [hc, List.lookup_cons, ih, hb]
      · simp only [List.filter_cons, bne_iff_ne, ne_eq, hc, not_false_eq_true, if_true,
          List.lookup_cons, ih]

theorem at?_set_self (t : Tree) {a : Address} (e : Entry) (ha : a ≠ []) :
    (t.set a e).at? a = some e := by
  cases a with
  | nil => exact absurd rfl ha
  | cons name a => simp [at?_cons, set]

theorem at?_set_of_ne (t : Tree) {a b : Address} (e : Entry) (h : b ≠ a) :
    (t.set a e).at? b = t.at? b := by
  cases b with
  | nil => rfl
  | cons name b =>
      have hb : ((name :: b) == a) = false := by
        rw [beq_eq_false_iff_ne]
        exact h
      simp only [at?_cons, set, List.lookup_cons, hb]
      exact lookup_filter_ne t.entries h

/-!
## Ways that stay
-/

structure Keeps (t t' : Tree) : Prop where
  here : t'.here = t.here
  shape : forall a e, t.at? a = some e -> (t'.at? a).map Entry.shape = some e.shape

namespace Keeps

variable {t t' t'' : Tree}

theorem refl (t : Tree) :
    Keeps t t := by
  constructor
  · rfl
  · intro a e h
    rw [h]
    rfl

theorem trans (h : Keeps t t') (h' : Keeps t' t'') :
    Keeps t t'' := by
  constructor
  · rw [h'.here, h.here]
  · intro a e he
    rcases Option.map_eq_some_iff.mp (h.shape a e he) with ⟨e', he', hs⟩
    rw [h'.shape a e' he', hs]

theorem directory (h : Keeps t t') {a : Address} (ha : t.at? a = some .directory) :
    t'.at? a = some .directory := by
  rcases Option.map_eq_some_iff.mp (h.shape a _ ha) with ⟨e, he, hs⟩
  rw [he, Entry.shape_eq_directory.mp hs]

theorem link (h : Keeps t t') {a : Address} {target : Path} (ha : t.at? a = some (.link target)) :
    t'.at? a = some (.link target) := by
  rcases Option.map_eq_some_iff.mp (h.shape a _ ha) with ⟨e, he, hs⟩
  rw [he, Entry.shape_eq_link.mp hs]

theorem origin (h : Keeps t t') (p : Path) :
    t'.origin p = t.origin p := by
  simp only [Tree.origin, h.here]

theorem set_fresh {a : Address} (e : Entry) (ha : t.at? a = none) :
    Keeps t (t.set a e) := by
  constructor
  · rfl
  · intro b e' hb
    have hne : b ≠ a := by
      intro heq
      subst heq
      rw [ha] at hb
      cases hb
    rw [at?_set_of_ne t e hne, hb]
    rfl

theorem set_file {a : Address} {old : List UInt8} (content : List UInt8)
    (ha : t.at? a = some (.file old)) :
    Keeps t (t.set a (.file content)) := by
  constructor
  · rfl
  · intro b e hb
    by_cases hba : b = a
    · subst hba
      have hne : b ≠ [] := by
        intro heq
        subst heq
        cases ha
      rw [ha] at hb
      cases hb
      rw [at?_set_self t _ hne]
      rfl
    · rw [at?_set_of_ne t _ hba, hb]
      rfl

end Keeps

/-!
## Ways
-/

structure Ordinary (part : Name) : Prop where
  ne_nil : part ≠ []
  ne_dot : part ≠ Path.dot
  ne_dotDot : part ≠ Path.dotDot
  length_le : part.length ≤ maxNameLength

instance (part : Name) : Decidable (Ordinary part) :=
  decidable_of_iff
    (part ≠ [] ∧ part ≠ Path.dot ∧ part ≠ Path.dotDot ∧ part.length ≤ maxNameLength)
    ⟨fun h => ⟨h.1, h.2.1, h.2.2.1, h.2.2.2⟩,
      fun h => ⟨h.ne_nil, h.ne_dot, h.ne_dotDot, h.length_le⟩⟩

/-- A way along parts from one address to another, with how many links may be followed before and
after it. -/
inductive Way (t : Tree) : Nat -> Address -> List Name -> Nat -> Address -> Prop where
  | done (links : Nat) (a : Address) : Way t links a [] links a
  | stay {links links' : Nat} {a b : Address} {part : Name} {rest : List Name} :
      t.at? a = some .directory ->
      part = [] ∨ part = Path.dot ->
      Way t links a rest links' b ->
      Way t links a (part :: rest) links' b
  | up {links links' : Nat} {a b : Address} {rest : List Name} :
      t.at? a = some .directory ->
      Way t links a.tail rest links' b ->
      Way t links a (Path.dotDot :: rest) links' b
  | enter {links links' : Nat} {a b : Address} {part : Name} {rest : List Name} {e : Entry} :
      t.at? a = some .directory ->
      Ordinary part ->
      t.at? (part :: a) = some e ->
      (forall target, e ≠ .link target) ->
      Way t links (part :: a) rest links' b ->
      Way t links a (part :: rest) links' b
  | follow {links links' : Nat} {a b : Address} {part : Name} {rest : List Name} {target : Path} :
      t.at? a = some .directory ->
      Ordinary part ->
      t.at? (part :: a) = some (.link target) ->
      Way t links (if target.isAbsolute then [] else a) (Path.parts target.octets ++ rest)
        links' b ->
      Way t (links + 1) a (part :: rest) links' b

namespace Way

variable {t t' : Tree}

theorem keeps (h : Keeps t t') {links links' : Nat} {a b : Address} {parts : List Name}
    (hw : Way t links a parts links' b) :
    Way t' links a parts links' b := by
  induction hw with
  | done links a => exact Way.done links a
  | stay ha hpart _ ih => exact Way.stay (h.directory ha) hpart ih
  | up ha _ ih => exact Way.up (h.directory ha) ih
  | enter ha hpart he hlink _ ih =>
      rename_i e _
      rcases Option.map_eq_some_iff.mp (h.shape _ e he) with ⟨e', he', hs⟩
      refine Way.enter (h.directory ha) hpart he' ?_ ih
      rintro target rfl
      exact hlink target (Entry.shape_eq_link.mp hs.symm)
  | follow ha hpart he _ ih => exact Way.follow (h.directory ha) hpart (h.link he) ih

theorem append {links links' links'' : Nat} {a b c : Address} {xs ys : List Name}
    (hx : Way t links a xs links' b) (hy : Way t links' b ys links'' c) :
    Way t links a (xs ++ ys) links'' c := by
  induction hx with
  | done _ _ => exact hy
  | stay ha hpart _ ih => exact Way.stay ha hpart (ih hy)
  | up ha _ ih => exact Way.up ha (ih hy)
  | enter ha hpart he hlink _ ih => exact Way.enter ha hpart he hlink (ih hy)
  | follow ha hpart he _ ih =>
      have hrest := ih hy
      rw [List.append_assoc] at hrest
      exact Way.follow ha hpart he hrest

/-- Ways that start with a part go on along `inner`, the parts that it stands for, from another
address.  So where the rest of such a way can be cut, the whole of it can. -/
theorem split_cons {links links₁ links'' : Nat} {a a₁ c : Address} {part : Name} {rest : List Name}
    (inner : List Name) (hwhole : Way t links a (part :: rest) links'' c)
    (hstep : forall {links' : Nat} {b : Address} {rest' : List Name},
      Way t links₁ a₁ (inner ++ rest') links' b -> Way t links a (part :: rest') links' b)
    (hsplit : forall xs ys, inner ++ rest = xs ++ ys ->
      exists links' b, Way t links₁ a₁ xs links' b ∧ Way t links' b ys links'' c)
    (xs ys : List Name) (hparts : part :: rest = xs ++ ys) :
    exists links' b, Way t links a xs links' b ∧ Way t links' b ys links'' c := by
  cases xs with
  | nil =>
      subst hparts
      exact ⟨links, a, Way.done links a, hwhole⟩
  | cons x xs =>
      rw [List.cons_append, List.cons.injEq] at hparts
      rcases hparts with ⟨rfl, hrest⟩
      rcases hsplit (inner ++ xs) ys (by rw [hrest, List.append_assoc]) with ⟨links', b, hl, hr⟩
      exact ⟨links', b, hstep hl, hr⟩

theorem split {links links'' : Nat} {a c : Address} {parts : List Name}
    (h : Way t links a parts links'' c) :
    forall xs ys, parts = xs ++ ys ->
      exists links' b, Way t links a xs links' b ∧ Way t links' b ys links'' c := by
  induction h with
  | done links a =>
      intro xs ys hparts
      rcases List.append_eq_nil_iff.mp hparts.symm with ⟨rfl, rfl⟩
      exact ⟨links, a, Way.done links a, Way.done links a⟩
  | stay ha hpart hrest ih =>
      exact split_cons [] (Way.stay ha hpart hrest) (Way.stay ha hpart) ih
  | up ha hrest ih => exact split_cons [] (Way.up ha hrest) (Way.up ha) ih
  | enter ha hpart he hlink hrest ih =>
      exact split_cons [] (Way.enter ha hpart he hlink hrest) (Way.enter ha hpart he hlink) ih
  | @follow _ _ _ _ _ _ target ha hpart he hrest ih =>
      exact split_cons (Path.parts target.octets) (Way.follow ha hpart he hrest)
        (Way.follow ha hpart he) ih

theorem append_empty {links links' : Nat} {a b : Address} {parts empties : List Name}
    (h : Way t links a parts links' b) (hb : t.at? b = some .directory)
    (he : forall part, part ∈ empties -> part = []) :
    Way t links a (parts ++ empties) links' b := by
  apply h.append
  clear h
  induction empties with
  | nil => exact Way.done links' b
  | cons part rest ih =>
      refine Way.stay hb (Or.inl (he part List.mem_cons_self)) (ih ?_)
      intro part' hpart'
      exact he part' (List.mem_cons_of_mem part hpart')

end Way

/-!
## Steps of a walk
-/

section Steps

variable {t : Tree} {a : Address}

theorem walk_stay (new : Bool) (links : Nat) (rest : List Name) {part : Name}
    (ha : t.at? a = some .directory) (hpart : part = [] ∨ part = Path.dot) :
    t.walk new links a (part :: rest) = t.walk new links a rest := by
  rw [walk, if_neg (by simp [ha]), if_pos (by simpa using hpart)]

theorem walk_up (new : Bool) (links : Nat) (rest : List Name)
    (ha : t.at? a = some .directory) :
    t.walk new links a (Path.dotDot :: rest) = t.walk new links a.tail rest := by
  rw [walk, if_neg (by simp [ha]), if_neg (by decide), if_pos (by decide)]

theorem walk_part {new : Bool} (links : Nat) {part : Name} {rest : List Name}
    (ha : t.at? a = some .directory) (hpart : Ordinary part)
    (hrest : (new && !rest.isEmpty && rest.all List.isEmpty) = false) :
    t.walk new links a (part :: rest) =
      match t.at? (part :: a) with
      | none => if new && rest.isEmpty then .ok (part :: a) else .error .notFound
      | some (.link target) =>
        match links with
        | 0 => .error .tooManyLinks
        | links + 1 =>
          t.walk new links (if target.isAbsolute then [] else a) (Path.parts target.octets ++ rest)
      | some _ => t.walk new links (part :: a) rest := by
  rw [walk, if_neg (by simp [ha]), if_neg (by simp [hpart.ne_nil, hpart.ne_dot]),
    if_neg (by simp [hpart.ne_dotDot]), if_neg (Nat.not_lt.mpr hpart.length_le)]
  exact if_neg (by simp [hrest])

theorem walk_enter {new : Bool} (links : Nat) {part : Name} {rest : List Name} {e : Entry}
    (ha : t.at? a = some .directory) (hpart : Ordinary part) (he : t.at? (part :: a) = some e)
    (hlink : forall target, e ≠ .link target)
    (hrest : (new && !rest.isEmpty && rest.all List.isEmpty) = false) :
    t.walk new links a (part :: rest) = t.walk new links (part :: a) rest := by
  rw [walk_part links ha hpart hrest, he]
  cases e with
  | link target => exact absurd rfl (hlink target)
  | file content => rfl
  | directory => rfl

theorem walk_follow {new : Bool} (links : Nat) {part : Name} {rest : List Name} {target : Path}
    (ha : t.at? a = some .directory) (hpart : Ordinary part)
    (he : t.at? (part :: a) = some (.link target))
    (hrest : (new && !rest.isEmpty && rest.all List.isEmpty) = false) :
    t.walk new (links + 1) a (part :: rest) =
      t.walk new links (if target.isAbsolute then [] else a)
        (Path.parts target.octets ++ rest) := by
  rw [walk_part (links + 1) ha hpart hrest, he]

end Steps

/-!
## Ways and walks
-/

theorem walk_of_way {t : Tree} {links links' : Nat} {a b : Address} {parts : List Name}
    (h : Way t links a parts links' b) :
    t.walk false links a parts = .ok b := by
  induction h with
  | done links a => rw [walk]
  | stay ha hpart _ ih => rw [walk_stay false _ _ ha hpart, ih]
  | up ha _ ih => rw [walk_up false _ _ ha, ih]
  | enter ha hpart he hlink _ ih => rw [walk_enter _ ha hpart he hlink rfl, ih]
  | follow ha hpart he _ ih => rw [walk_follow _ ha hpart he rfl, ih]

/-- What a walk may find: what is there; or, where a new name may come last, everything but that
name is there, and once the name is there, too, the way leads to it. -/
def Reaches (t : Tree) (new : Bool) (links : Nat) (a : Address) (parts : List Name) (b : Address) :
    Prop :=
  (exists links', Way t links a parts links' b) ∨
    (new = true ∧ t.at? b = none ∧ t.at? b.tail = some .directory ∧
      forall e, (forall target, e ≠ .link target) ->
        exists links', Way (t.set b e) links a parts links' b)

theorem Reaches.step {t : Tree} {new : Bool} {links₁ links₂ : Nat} {a₁ a₂ b : Address}
    {parts₁ parts₂ : List Name} (h : Reaches t new links₂ a₂ parts₂ b)
    (hstep : forall {t' : Tree} {links' : Nat}, Keeps t t' -> Way t' links₂ a₂ parts₂ links' b ->
      Way t' links₁ a₁ parts₁ links' b) :
    Reaches t new links₁ a₁ parts₁ b := by
  rcases h with ⟨links', hw⟩ | ⟨hnew, hb, hparent, hw⟩
  · exact Or.inl ⟨links', hstep (Keeps.refl t) hw⟩
  · refine Or.inr ⟨hnew, hb, hparent, ?_⟩
    intro e he
    rcases hw e he with ⟨links', hw⟩
    exact ⟨links', hstep (Keeps.set_fresh e hb) hw⟩

theorem ordinary_of_tests {part : Name} (hpart : ¬(part.isEmpty || part == Path.dot) = true)
    (hup : ¬(part == Path.dotDot) = true) (hlen : ¬maxNameLength < part.length) :
    Ordinary part := by
  simp only [Bool.or_eq_true, not_or, List.isEmpty_iff, beq_iff_eq] at hpart hup
  exact ⟨hpart.1, hpart.2, hup, Nat.le_of_not_lt hlen⟩

theorem eq_directory_of_test {e : Option Entry} (h : ¬(e != some Entry.directory) = true) :
    e = some .directory := by
  simpa using h

theorem reaches_of_walk {t : Tree} {new : Bool} {links : Nat} {a b : Address} {parts : List Name}
    (h : t.walk new links a parts = .ok b) :
    Reaches t new links a parts b := by
  fun_induction Tree.walk t new links a parts with
  | case1 links a =>
      cases h
      exact Or.inl ⟨links, Way.done links b⟩
  | case2 | case5 | case6 | case8 | case9 => cases h
  | case3 links a part rest ha hpart ih =>
      have hpart : part = [] ∨ part = Path.dot := by simpa using hpart
      exact (ih h).step fun hk hw => Way.stay (hk.directory (eq_directory_of_test ha)) hpart hw
  | case4 links a part rest ha hpart hup ih =>
      have hup : part = Path.dotDot := by simpa using hup
      subst hup
      exact (ih h).step fun hk hw => Way.up (hk.directory (eq_directory_of_test ha)) hw
  | case7 links a part rest ha hpart hup hlen hslash hnone hlast =>
      rw [Bool.and_eq_true, List.isEmpty_iff] at hlast
      rcases hlast with ⟨hnew, rfl⟩
      cases h
      refine Or.inr ⟨hnew, hnone, eq_directory_of_test ha, ?_⟩
      intro e he
      have hdir := (Keeps.set_fresh e hnone).directory (eq_directory_of_test ha)
      have hset := t.at?_set_self e (List.cons_ne_nil part a)
      exact ⟨links, Way.enter hdir (ordinary_of_tests hpart hup hlen) hset he (Way.done _ _)⟩
  | case10 a part rest ha hpart hup hlen hslash target hlink links ih =>
      exact (ih h).step fun hk hw => Way.follow (hk.directory (eq_directory_of_test ha))
        (ordinary_of_tests hpart hup hlen) (hk.link hlink) hw
  | case11 links a part rest ha hpart hup hlen hslash e hlink he ih =>
      refine (ih h).step fun hk hw => ?_
      rcases Option.map_eq_some_iff.mp (hk.shape _ e he) with ⟨e', he', hs⟩
      refine Way.enter (hk.directory (eq_directory_of_test ha))
        (ordinary_of_tests hpart hup hlen) he' ?_ hw
      rintro target rfl
      exact hlink target (Entry.shape_eq_link.mp hs.symm)

theorem walk_eq_ok_iff {t : Tree} {links : Nat} {a b : Address} {parts : List Name} :
    t.walk false links a parts = .ok b <-> exists links', Way t links a parts links' b := by
  constructor
  · intro h
    rcases reaches_of_walk h with hw | ⟨hnew, -⟩
    · exact hw
    · cases hnew
  · rintro ⟨links', hw⟩
    exact walk_of_way hw

end Tree
end Storage
end Clippings
