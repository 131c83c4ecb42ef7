import Clippings.Proofs.Path.Join
import Clippings.Proofs.Storage.Directories

/-!
# Entries of a directory, by path

In a tree without links, a path of a directory joined with a name stands for the entry of that name,
as long as the joined path is not too long.
-/

namespace Clippings
namespace Storage

def Entry.isLink : Entry -> Bool
  | link _ => true
  | _ => false

namespace Tree

def LinkFree (t : Tree) : Prop :=
  forall entry, entry ∈ t.entries -> entry.2.isLink = false

instance (t : Tree) : Decidable t.LinkFree :=
  inferInstanceAs (Decidable (forall entry, entry ∈ t.entries -> entry.2.isLink = false))

theorem LinkFree.isLink {t : Tree} (h : t.LinkFree) {a : Address} {e : Entry}
    (ha : t.at? a = some e) :
    e.isLink = false := by
  by_cases hne : a = []
  · subst hne
    cases ha
    rfl
  · exact h _ (mem_entries_of_at? hne ha)

def Unlinked (t : Tree) : Prop :=
  forall a e, t.at? a = some e -> e.isLink = false

theorem LinkFree.unlinked {t : Tree} (h : t.LinkFree) :
    t.Unlinked :=
  fun _ _ => h.isLink

theorem Unlinked.grows {t t' : Tree} {ps : List Path} (h : t.Unlinked) (hg : Grows ps t t') :
    t'.Unlinked := by
  intro a e ha
  rcases hg.at? a with hsame | ⟨-, hdir, -⟩
  · exact h a e (hsame ▸ ha)
  · rw [hdir] at ha
    cases ha
    rfl

theorem Unlinked.set_file {t : Tree} (h : t.Unlinked) {a : Address} (ha : a ≠ [])
    (content : List UInt8) :
    (t.set a (.file content)).Unlinked := by
  intro b e hb
  by_cases hba : b = a
  · rw [hba, t.at?_set_self _ ha] at hb
    cases hb
    rfl
  · rw [t.at?_set_of_ne _ hba] at hb
    exact h b e hb

/-!
## Going on to a name
-/

structure Opens (t : Tree) (p : Path) (a : Address) : Prop where
  no_zero : 0 ∉ p.octets
  way : exists links', Way t maxLinks (t.origin p) (Path.parts p.octets) links' a
  directory : t.at? a = some .directory

theorem Opens.keeps {t t' : Tree} {p : Path} {a : Address} (h : Opens t p a) (hk : Keeps t t') :
    Opens t' p a := by
  rcases h.way with ⟨links', hw⟩
  constructor
  · exact h.no_zero
  · exists links'
    rw [hk.origin]
    exact hw.keeps hk
  · exact hk.directory h.directory

theorem opens_of_find {t : Tree} {p : Path} {a : Address} (h : t.find false p = .ok a)
    (ha : t.at? a = some .directory) :
    Opens t p a := by
  rcases find_eq_ok_iff.mp h with ⟨hfault, hway⟩
  refine ⟨?_, hway, ha⟩
  intro hzero
  unfold pathFault? at hfault
  simp [hzero] at hfault

theorem WellFormed.exists_opens {t : Tree} (ht : t.WellFormed) {p : Path}
    (h : p.octets = [] ∨ t.isDirectory p = true) :
    exists a, Opens t p a := by
  rcases h with hempty | hdir
  · exists t.origin p
    constructor
    · simp [hempty]
    · exists maxLinks
      rw [hempty]
      exact Way.stay (ht.closed.origin p) (Or.inl rfl) (Way.done _ _)
    · exact ht.closed.origin p
  · rcases isDirectory_iff.mp hdir with ⟨a, hfind, ha⟩
    exact ⟨a, opens_of_find hfind ha⟩

theorem Way.of_append_empty {t : Tree} {links links' : Nat} {a b : Address} {parts back : List Name}
    (h : Way t links a (parts ++ back) links' b) (hback : back = [] ∨ back = [[]]) :
    Way t links a parts links' b := by
  rcases h.split parts back rfl with ⟨links₁, c, hfront, hrest⟩
  rcases hback with rfl | rfl
  · cases hrest
    exact hfront
  · cases hrest with
    | stay _ _ hdone =>
        cases hdone
        exact hfront
    | enter _ hpart => exact absurd rfl hpart.ne_nil
    | follow _ hpart => exact absurd rfl hpart.ne_nil

/-- Once a way leads to an address, a walk that is to go on goes on from there. -/
theorem walk_append_of_way {t : Tree} (new : Bool) {links links' : Nat} {a b : Address}
    {xs ys : List Name} (hw : Way t links a xs links' b)
    (hys : exists part, part ∈ ys ∧ part ≠ []) :
    t.walk new links a (xs ++ ys) = t.walk new links' b ys := by
  have hall : forall zs : List Name,
      (new && !(zs ++ ys).isEmpty && (zs ++ ys).all List.isEmpty) = false := by
    intro zs
    have hmore : (zs ++ ys).all List.isEmpty = false := by
      rcases hys with ⟨part, hpart, hne⟩
      rw [List.all_eq_false]
      exact ⟨part, List.mem_append_right zs hpart, by simpa using hne⟩
    rw [hmore, Bool.and_false]
  induction hw with
  | done _ _ => rfl
  | stay ha hpart _ ih => rw [List.cons_append, walk_stay new _ _ ha hpart, ih]
  | up ha _ ih => rw [List.cons_append, walk_up new _ _ ha, ih]
  | enter ha hpart he hlink _ ih =>
      rw [List.cons_append, walk_enter _ ha hpart he hlink (hall _), ih]
  | follow ha hpart he _ ih =>
      rw [List.append_assoc] at ih
      rw [List.cons_append, walk_follow _ ha hpart he (hall _), ih]

theorem walk_name {t : Tree} (new : Bool) (links : Nat) {a : Address} {name : Name}
    (ha : t.at? a = some .directory) (hname : Ordinary name)
    (hlink : forall e, t.at? (name :: a) = some e -> e.isLink = false) :
    t.walk new links a [name] =
      match t.at? (name :: a) with
      | none => if new then .ok (name :: a) else .error .notFound
      | some _ => .ok (name :: a) := by
  rw [walk_part links ha hname (by simp)]
  cases he : t.at? (name :: a) with
  | none => simp
  | some e =>
      cases e with
      | link target => exact absurd (hlink _ he) (by simp [Entry.isLink])
      | file content => simp only [walk]
      | directory => simp only [walk]

section Joined

variable {t : Tree} {p : Path} {a : Address} {name : Name}

theorem pathFault?_join (hp : Opens t p a) (hname : Proper name) :
    pathFault? (p.join ⟨name⟩) =
      if maxPathLength < (p.join ⟨name⟩).octets.length then some .nameTooLong else none := by
  have hzero : 0 ∉ (p.join ⟨name⟩).octets := by
    intro h
    rcases Path.mem_octets_join hname.no_slash h with h | h | h
    · exact hp.no_zero h
    · cases h
    · exact hname.no_zero h
  have hne : (p.join ⟨name⟩).octets ≠ [] := by
    rw [Path.octets_join hname.no_slash]
    simp [hname.ordinary.ne_nil]
  unfold pathFault?
  simp [hzero, hne]

theorem find_join (new : Bool) (hp : Opens t p a) (hname : Proper name)
    (hlink : forall e, t.at? (name :: a) = some e -> e.isLink = false) :
    t.find new (p.join ⟨name⟩) =
      if maxPathLength < (p.join ⟨name⟩).octets.length then .error .nameTooLong
      else
        match t.at? (name :: a) with
        | none => if new then .ok (name :: a) else .error .notFound
        | some _ => .ok (name :: a) := by
  unfold find
  rw [pathFault?_join hp hname]
  by_cases hlen : maxPathLength < (p.join ⟨name⟩).octets.length
  · rw [if_pos hlen, if_pos hlen]
  · rw [if_neg hlen, if_neg hlen]
    rcases hp.way with ⟨links', hw⟩
    rcases Path.parts_join p hname.no_slash with ⟨front, back, hparts, hback, hjoined⟩
    have horigin : t.origin (p.join ⟨name⟩) = t.origin p := by
      rw [origin, origin, Path.isAbsolute_join p hname.no_slash]
    rw [hparts] at hw
    have hmore : exists part, part ∈ [name] ∧ part ≠ [] :=
      ⟨name, List.mem_singleton_self name, hname.ordinary.ne_nil⟩
    simp only [hjoined, horigin]
    rw [walk_append_of_way new (hw.of_append_empty hback) hmore]
    exact walk_name new links' hp.directory hname.ordinary hlink

theorem entryOf?_join (hp : Opens t p a) (hname : Proper name)
    (hlink : forall e, t.at? (name :: a) = some e -> e.isLink = false) :
    t.entryOf? (p.join ⟨name⟩) =
      if maxPathLength < (p.join ⟨name⟩).octets.length then none else t.at? (name :: a) := by
  unfold entryOf?
  rw [find_join false hp hname hlink]
  by_cases hlen : maxPathLength < (p.join ⟨name⟩).octets.length
  · rw [if_pos hlen, if_pos hlen]
  · rw [if_neg hlen, if_neg hlen]
    cases he : t.at? (name :: a) with
    | none => rfl
    | some e => exact he

theorem read_join {content : List UInt8} (hp : Opens t p a) (hname : Proper name)
    (he : t.at? (name :: a) = some (.file content))
    (hlen : (p.join ⟨name⟩).octets.length ≤ maxPathLength) :
    t.read (p.join ⟨name⟩) = .ok content := by
  have hfind := find_join false hp hname (by
    intro e h
    rw [he] at h
    cases h
    rfl)
  rw [if_neg (Nat.not_lt.mpr hlen), he] at hfind
  exact read_of_find hfind he

theorem write_join (content : List UInt8) (hp : Opens t p a) (hname : Proper name)
    (hlink : forall e, t.at? (name :: a) = some e -> e.isLink = false) :
    t.write (p.join ⟨name⟩) content =
      if maxPathLength < (p.join ⟨name⟩).octets.length then .error .nameTooLong
      else if t.at? (name :: a) = some .directory then .error .isDirectory
      else .ok (t.set (name :: a) (.file content)) := by
  unfold write
  rw [find_join true hp hname hlink]
  by_cases hlen : maxPathLength < (p.join ⟨name⟩).octets.length
  · rw [if_pos hlen, if_pos hlen]
  · rw [if_neg hlen, if_neg hlen]
    cases he : t.at? (name :: a) with
    | none => simp [he]
    | some e => simp [he]

theorem head?_of_find_join (ht : t.Unlinked) (hslash : Path.slash ∉ name) (h₁ : name ≠ [])
    (h₂ : name ≠ Path.dot) (h₃ : name ≠ Path.dotDot)
    (hfind : t.find false (p.join ⟨name⟩) = .ok a) :
    a.head? = some name := by
  rcases find_eq_ok_iff.mp hfind with ⟨-, links', hw⟩
  rcases Path.parts_join p hslash with ⟨front, back, -, -, hjoined⟩
  rcases hw.split front [name] hjoined with ⟨links₁, b, -, hlast⟩
  cases hlast with
  | stay _ hempty _ => exact absurd hempty (by simp [h₁, h₂])
  | up => exact absurd rfl h₃
  | enter _ _ _ _ hrest =>
      cases hrest
      rfl
  | follow _ _ hlink => exact absurd (ht _ _ hlink) (by simp [Entry.isLink])

end Joined

/-!
## Listing a directory
-/

def nameIn? (a : Address) : Address -> Option Name
  | name :: parent => if parent == a then some name else none
  | [] => none

theorem nameIn?_eq_some {a b : Address} {name : Name} :
    nameIn? a b = some name <-> b = name :: a := by
  cases b with
  | nil => simp [nameIn?]
  | cons part parent =>
      simp only [nameIn?, beq_iff_eq, Option.ite_none_right_eq_some, Option.some.injEq,
        List.cons.injEq]
      exact And.comm

theorem find_of_names {t : Tree} {p : Path} {names : List Name} (h : t.names p = .ok names) :
    exists a, t.find false p = .ok a ∧ t.at? a = some .directory := by
  unfold Tree.names at h
  cases hfind : t.find false p with
  | error f =>
      rw [hfind] at h
      cases h
  | ok a =>
      rw [hfind] at h
      by_cases ha : t.at? a = some .directory
      · exact ⟨a, rfl, ha⟩
      · simp [ha] at h

theorem names_of_find {t : Tree} {p : Path} {a : Address} (hfind : t.find false p = .ok a)
    (ha : t.at? a = some .directory) :
    t.names p = .ok ((t.entries.map (·.1)).filterMap (nameIn? a)) := by
  unfold names
  rw [hfind]
  simp only [ha, BEq.rfl, if_true, List.filterMap_map]
  rfl

theorem mem_names_iff {t : Tree} {a : Address} {name : Name} :
    name ∈ (t.entries.map (·.1)).filterMap (nameIn? a) <->
      exists e, t.at? (name :: a) = some e := by
  rw [List.mem_filterMap]
  constructor
  · rintro ⟨b, hb, hname⟩
    rw [nameIn?_eq_some] at hname
    subst hname
    rw [← Option.isSome_iff_exists, at?_cons, List.lookup_isSome_iff]
    rcases List.mem_map.mp hb with ⟨entry, hentry, heq⟩
    exact ⟨entry, hentry, by simp [heq]⟩
  · rintro ⟨e, he⟩
    have hmem := mem_entries_of_at? (List.cons_ne_nil name a) he
    exact ⟨name :: a, List.mem_map_of_mem (f := (·.1)) hmem, nameIn?_eq_some.mpr rfl⟩

theorem WellFormed.nodup_names {t : Tree} (ht : t.WellFormed) (a : Address) :
    ((t.entries.map (·.1)).filterMap (nameIn? a)).Nodup := by
  rw [List.Nodup, List.pairwise_filterMap]
  apply ht.distinct.imp
  rintro b c hbc name hname name' hname' rfl
  rw [nameIn?_eq_some] at hname hname'
  exact hbc (hname.trans hname'.symm)

end Tree
end Storage
end Clippings
