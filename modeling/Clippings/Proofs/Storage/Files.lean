import Clippings.Proofs.Storage.Walk

/-!
# What the operations on files do

A new directory appears where nothing was, and a write reaches one address.  Every operation leaves
everything else as it is.
-/

namespace Clippings
namespace Storage
namespace Tree

/-!
## Well-formed trees

Nothing lies outside a directory, every address has one entry, and the names can be told apart in
a path.
-/

structure Proper (name : Name) : Prop where
  ordinary : Ordinary name
  no_slash : Path.slash ∉ name
  no_zero : 0 ∉ name

instance (name : Name) : Decidable (Proper name) :=
  decidable_of_iff (Ordinary name ∧ Path.slash ∉ name ∧ 0 ∉ name)
    ⟨fun h => ⟨h.1, h.2.1, h.2.2⟩, fun h => ⟨h.ordinary, h.no_slash, h.no_zero⟩⟩

structure WellFormed (t : Tree) : Prop where
  distinct : (t.entries.map (·.1)).Nodup
  inside : forall entry, entry ∈ t.entries -> t.at? entry.1.tail = some .directory
  named : forall entry, entry ∈ t.entries -> forall name, name ∈ entry.1 -> Proper name
  here : t.at? t.here = some .directory

instance (t : Tree) : Decidable t.WellFormed :=
  decidable_of_iff
    ((t.entries.map (·.1)).Nodup ∧
      (forall entry, entry ∈ t.entries -> t.at? entry.1.tail = some .directory) ∧
      (forall entry, entry ∈ t.entries -> forall name, name ∈ entry.1 -> Proper name) ∧
      t.at? t.here = some .directory)
    ⟨fun h => ⟨h.1, h.2.1, h.2.2.1, h.2.2.2⟩, fun h => ⟨h.distinct, h.inside, h.named, h.here⟩⟩

theorem mem_entries_of_at? {t : Tree} {a : Address} {e : Entry} (ha : a ≠ [])
    (h : t.at? a = some e) :
    (a, e) ∈ t.entries := by
  cases a with
  | nil => exact absurd rfl ha
  | cons name a =>
      rw [at?_cons, List.lookup_eq_some_iff] at h
      rcases h with ⟨before, after, h, -⟩
      rw [h]
      exact List.mem_append_right before List.mem_cons_self

namespace WellFormed

variable {t : Tree}

theorem parent (ht : t.WellFormed) {a : Address} {e : Entry} (h : t.at? a = some e) :
    t.at? a.tail = some .directory := by
  cases a with
  | nil => rfl
  | cons name a => exact ht.inside _ (mem_entries_of_at? (List.cons_ne_nil name a) h)

theorem proper (ht : t.WellFormed) {name : Name} {a : Address} {e : Entry}
    (h : t.at? (name :: a) = some e) :
    Proper name :=
  ht.named _ (mem_entries_of_at? (List.cons_ne_nil name a) h) name List.mem_cons_self

theorem set_fresh (ht : t.WellFormed) {name : Name} {a : Address} (e : Entry)
    (hnone : t.at? (name :: a) = none) (ha : t.at? a = some .directory) (hname : Proper name) :
    (t.set (name :: a) e).WellFormed := by
  have hk := Keeps.set_fresh e hnone
  have hnew : forall entry, entry ∈ (t.set (name :: a) e).entries ->
      entry = (name :: a, e) ∨ entry ∈ t.entries := by
    intro entry hentry
    rcases List.mem_cons.mp hentry with h | h
    · exact Or.inl h
    · exact Or.inr (List.mem_filter.mp h).1
  constructor
  · have hsub : ((t.entries.filter (·.1 != name :: a)).map (·.1)).Nodup :=
      ht.distinct.sublist (List.Sublist.map _ List.filter_sublist)
    simp only [set, List.map_cons, List.nodup_cons]
    refine ⟨?_, hsub⟩
    intro hmem
    rcases List.mem_map.mp hmem with ⟨entry, hentry, heq⟩
    simp [heq] at hentry
  · intro entry hentry
    rcases hnew entry hentry with rfl | h
    · exact hk.directory ha
    · exact hk.directory (ht.inside entry h)
  · intro entry hentry
    rcases hnew entry hentry with rfl | h
    · intro part hpart
      rcases List.mem_cons.mp hpart with rfl | hpart
      · exact hname
      · cases a with
        | nil => cases hpart
        | cons parent a =>
            exact ht.named _ (mem_entries_of_at? (List.cons_ne_nil parent a) ha) part hpart
    · exact ht.named entry h
  · exact hk.directory ht.here

end WellFormed

/-!
## Closed trees

What lies in a directory lies in one that is there, whatever its name is.  A link may lead to a name
that no path spells, and a file can be made there, so of all that is well formed this is what every
operation keeps.
-/

structure Closed (t : Tree) : Prop where
  parent : forall {a : Address} {e : Entry}, t.at? a = some e -> t.at? a.tail = some .directory
  here : t.at? t.here = some .directory

theorem WellFormed.closed {t : Tree} (ht : t.WellFormed) :
    t.Closed :=
  ⟨ht.parent, ht.here⟩

namespace Closed

variable {t : Tree}

theorem origin (ht : t.Closed) (p : Path) :
    t.at? (t.origin p) = some .directory := by
  unfold Tree.origin
  split
  · rfl
  · exact ht.here

theorem set (ht : t.Closed) {a : Address} {e : Entry} (hkeeps : Keeps t (t.set a e))
    (ha : t.at? a.tail = some .directory) :
    (t.set a e).Closed := by
  constructor
  · intro b e' hb
    by_cases hba : b = a
    · rw [hba]
      exact hkeeps.directory ha
    · rw [t.at?_set_of_ne e hba] at hb
      exact hkeeps.directory (ht.parent hb)
  · exact hkeeps.directory ht.here

theorem exists_entry (ht : t.Closed) {links links' : Nat} {a b : Address} {parts : List Name}
    (hw : Way t links a parts links' b) (ha : t.at? a = some .directory) :
    exists e, t.at? b = some e ∧ forall target, e ≠ .link target := by
  induction hw with
  | done links a => exact ⟨_, ha, by simp⟩
  | stay _ _ _ ih => exact ih ha
  | up ha' _ ih => exact ih (ht.parent ha')
  | enter ha' hpart he hlink hrest ih =>
      rename_i links links' a b part rest e
      cases e with
      | directory => exact ih he
      | link target => exact absurd rfl (hlink target)
      | file content =>
          cases hrest with
          | done => exact ⟨_, he, hlink⟩
          | stay h | up h | enter h | follow h =>
              rw [he] at h
              cases h
  | follow ha' _ _ _ ih =>
      apply ih
      split
      · rfl
      · exact ha'

end Closed

/-!
## Finding
-/

theorem find_eq_ok_iff {t : Tree} {p : Path} {a : Address} :
    t.find false p = .ok a <-> pathFault? p = none ∧
      exists links', Way t maxLinks (t.origin p) (Path.parts p.octets) links' a := by
  unfold find
  cases pathFault? p with
  | none => simp [walk_eq_ok_iff]
  | some f => simp

theorem Keeps.find {t t' : Tree} (h : Keeps t t') {p : Path} {a : Address}
    (hp : t.find false p = .ok a) :
    t'.find false p = .ok a := by
  rcases find_eq_ok_iff.mp hp with ⟨hf, links', hw⟩
  rw [find_eq_ok_iff, h.origin]
  exact ⟨hf, links', hw.keeps h⟩

/-!
## Writing
-/

/-- A write reaches one address in a directory, where a file was or nothing, and the path leads
there later. -/
theorem write_cases {t t' : Tree} {p : Path} {content : List UInt8} (ht : t.Closed)
    (h : t.write p content = .ok t') :
    exists a, a ≠ [] ∧ t' = t.set a (.file content) ∧
      (t.at? a = none ∨ exists old, t.at? a = some (.file old)) ∧
      t.at? a.tail = some .directory ∧
      t'.find false p = .ok a := by
  unfold write at h
  split at h
  · cases h
  rename_i a hfind
  split at h
  · cases h
  rename_i hdir
  cases h
  have hdir : t.at? a ≠ some .directory := by simpa using hdir
  have hne : a ≠ [] := by
    intro heq
    subst heq
    exact hdir rfl
  unfold find at hfind
  split at hfind
  · cases hfind
  rename_i hfault
  refine ⟨a, hne, rfl, ?_⟩
  rw [find_eq_ok_iff, set_origin]
  rcases reaches_of_walk hfind with ⟨links', hw⟩ | ⟨-, hnone, hparent, hw⟩
  · rcases ht.exists_entry hw (ht.origin p) with ⟨e, he, hlink⟩
    cases e with
    | directory => exact absurd he hdir
    | link target => exact absurd rfl (hlink target)
    | file old =>
        have hw' := hw.keeps (Keeps.set_file content he)
        exact ⟨Or.inr ⟨old, he⟩, ht.parent he, hfault, links', hw'⟩
  · rcases hw (.file content) (by simp) with ⟨links', hw⟩
    exact ⟨Or.inl hnone, hparent, hfault, links', hw⟩

theorem read_of_find {t : Tree} {p : Path} {a : Address} {content : List UInt8}
    (hfind : t.find false p = .ok a) (ha : t.at? a = some (.file content)) :
    t.read p = .ok content := by
  simp [read, hfind, ha]

theorem read_of_write {t t' : Tree} {p : Path} {content : List UInt8} (ht : t.Closed)
    (h : t.write p content = .ok t') :
    t'.read p = .ok content := by
  rcases write_cases ht h with ⟨a, ha, rfl, -, -, hfind⟩
  exact read_of_find hfind (t.at?_set_self _ ha)

/-!
## Making a directory
-/

theorem parts_of_reversedParts {p : Path} {name : Name} {parents : List Name}
    (h : reversedParts p = name :: parents) :
    exists empties, (forall part, part ∈ empties -> part = []) ∧
      Path.parts p.octets = parents.reverse ++ (name :: empties) ∧ name ≠ [] := by
  have hsplit := List.takeWhile_append_dropWhile (p := List.isEmpty)
    (l := (Path.parts p.octets).reverse)
  rw [show (Path.parts p.octets).reverse.dropWhile List.isEmpty = name :: parents from h] at hsplit
  exists ((Path.parts p.octets).reverse.takeWhile List.isEmpty).reverse
  constructor
  · intro part hpart
    rw [List.mem_reverse] at hpart
    exact List.isEmpty_iff.mp (List.all_eq_true.mp List.all_takeWhile part hpart)
  constructor
  · have hrev := congrArg List.reverse hsplit
    simpa using hrev.symm
  · intro heq
    subst heq
    have hhead := List.head?_dropWhile_not List.isEmpty (Path.parts p.octets).reverse
    rw [show (Path.parts p.octets).reverse.dropWhile List.isEmpty = [] :: parents from h] at hhead
    simp at hhead

/-- A new directory appears in a directory, where nothing was, and the path leads to it. -/
theorem makeDirectory_cases {t t' : Tree} {p : Path} (h : t.makeDirectory p = .ok t') :
    exists name a, t.at? (name :: a) = none ∧ t.at? a = some .directory ∧
      Ordinary name ∧ name ∈ Path.parts p.octets ∧ pathFault? p = none ∧
      t' = t.set (name :: a) .directory ∧ t'.find false p = .ok (name :: a) := by
  unfold makeDirectory at h
  split at h
  · cases h
  rename_i hfault
  split at h
  · cases h
  rename_i name parents hparts
  rcases parts_of_reversedParts hparts with ⟨empties, hempties, hp, hne⟩
  split at h
  · cases h
  rename_i a hwalk
  split at h
  · cases h
  rename_i ha
  split at h
  · cases h
  rename_i hdots
  split at h
  · cases h
  rename_i hlen
  split at h
  · cases h
  rename_i hfree
  cases h
  have ha : t.at? a = some .directory := eq_directory_of_test ha
  have hnone : t.at? (name :: a) = none := by simpa using hfree
  have hname : Ordinary name := by
    simp only [Bool.or_eq_true, not_or, beq_iff_eq] at hdots
    exact ⟨hne, hdots.1, hdots.2, Nat.le_of_not_lt hlen⟩
  have hk : Keeps t (t.set (name :: a) .directory) := Keeps.set_fresh .directory hnone
  have hself := t.at?_set_self .directory (List.cons_ne_nil name a)
  rcases walk_eq_ok_iff.mp hwalk with ⟨links', hw⟩
  refine ⟨name, a, hnone, ha, hname, ?_, hfault, rfl, ?_⟩
  · rw [hp]
    exact List.mem_append_right _ List.mem_cons_self
  · rw [find_eq_ok_iff, set_origin, hp]
    refine ⟨hfault, links', (hw.keeps hk).append ?_⟩
    apply Way.enter (hk.directory ha) hname hself (by simp)
    exact (Way.done links' (name :: a)).append_empty hself hempties

end Tree
end Storage
end Clippings
