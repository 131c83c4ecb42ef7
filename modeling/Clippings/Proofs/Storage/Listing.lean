import Mathlib.Data.List.Nodup
import Clippings.Proofs.Path.Order
import Clippings.Proofs.Storage.Joined

/-!
# What the names of a directory lead to

A path of a directory joined with a name leads to a file if the entry of that name is a file or a
link that resolves to one.  The links in front of the name count, too, and so does the length of the
whole path.  The order in which a tree keeps its entries has no part in this.
-/

namespace Clippings
namespace Storage
namespace Tree

theorem Proper.isLast {name : Name} (h : Proper name) :
    Path.IsLast name :=
  ⟨h.no_slash, h.ordinary.ne_nil, h.ordinary.ne_dot, h.ordinary.ne_dotDot⟩

/-- The entry of a directory under a name is a file, or a link that resolves to one where so many
links may be followed. -/
inductive LeadsToFile (t : Tree) (a : Address) (name : Name) : Nat -> Prop where
  | file {links : Nat} {content : List UInt8} :
      t.at? (name :: a) = some (.file content) -> LeadsToFile t a name links
  | link {links links' : Nat} {target : Path} {b : Address} {content : List UInt8} :
      t.at? (name :: a) = some (.link target) ->
      Way t links (if target.isAbsolute then [] else a) (Path.parts target.octets) links' b ->
      t.at? b = some (.file content) -> LeadsToFile t a name (links + 1)

section Joined

variable {t : Tree} {p : Path} {a b : Address} {links : Nat} {name : Name}

theorem leadsToFile_iff (ha : t.at? a = some .directory) (hname : Ordinary name) :
    LeadsToFile t a name links <->
      exists links' b content, Way t links a [name] links' b ∧ t.at? b = some (.file content) := by
  constructor
  · intro h
    cases h with
    | file hfile => exact ⟨_, _, _, .enter ha hname hfile (by simp) (.done _ _), hfile⟩
    | link hlink hw hb =>
        rw [← List.append_nil (Path.parts _)] at hw
        exact ⟨_, _, _, .follow ha hname hlink hw, hb⟩
  · rintro ⟨links', b, content, hw, hb⟩
    cases hw with
    | stay _ hempty => exact absurd hempty (by simp [hname.ne_nil, hname.ne_dot])
    | up => exact absurd rfl hname.ne_dotDot
    | enter _ _ _ _ hdone =>
        cases hdone
        exact .file hb
    | follow _ _ hlink hrest =>
        rw [List.append_nil] at hrest
        exact .link hlink hrest hb

/-- The joined path leads on from the directory, with the links that are left there. -/
theorem find_join_iff (hp : Opens t p a)
    (hw : Way t maxLinks (t.origin p) (Path.parts p.octets) links a) (hname : Proper name) :
    t.find false (p.join ⟨name⟩) = .ok b <->
      (p.join ⟨name⟩).octets.length ≤ maxPathLength ∧
        exists links', Way t links a [name] links' b := by
  rcases Path.parts_join p hname.no_slash with ⟨front, back, hparts, hback, hjoined⟩
  have horigin : t.origin (p.join ⟨name⟩) = t.origin p := by
    rw [origin, origin, Path.isAbsolute_join p hname.no_slash]
  have hmore : exists part, part ∈ [name] ∧ part ≠ [] :=
    ⟨name, List.mem_singleton_self name, hname.ordinary.ne_nil⟩
  rw [hparts] at hw
  rw [find_eq_ok_iff, pathFault?_join hp hname, hjoined, horigin, ← walk_eq_ok_iff,
    ← walk_eq_ok_iff, walk_append_of_way false (hw.of_append_empty hback) hmore]
  simp

theorem isFile_join_iff (hp : Opens t p a)
    (hw : Way t maxLinks (t.origin p) (Path.parts p.octets) links a) (hname : Proper name) :
    t.isFile (p.join ⟨name⟩) = true <->
      LeadsToFile t a name links ∧ (p.join ⟨name⟩).octets.length ≤ maxPathLength := by
  have hfile : t.isFile (p.join ⟨name⟩) = true <->
      exists b content, t.find false (p.join ⟨name⟩) = .ok b ∧ t.at? b = some (.file content) := by
    unfold isFile entryOf?
    cases t.find false (p.join ⟨name⟩) with
    | error f => simp
    | ok b =>
        cases hb : t.at? b with
        | none => simp [hb]
        | some e => cases e <;> simp [hb]
  rw [hfile, leadsToFile_iff hp.directory hname.ordinary]
  constructor
  · rintro ⟨b, content, hfind, hb⟩
    rcases (find_join_iff hp hw hname).mp hfind with ⟨hlen, links', hway⟩
    constructor
    · exact ⟨links', b, content, hway, hb⟩
    · exact hlen
  · rintro ⟨⟨links', b, content, hway, hb⟩, hlen⟩
    have hfind := (find_join_iff hp hw hname).mpr ⟨hlen, links', hway⟩
    exact ⟨b, content, hfind, hb⟩

theorem LeadsToFile.exists_entry (h : LeadsToFile t a name links) :
    exists e, t.at? (name :: a) = some e := by
  cases h with
  | file hfile => exact ⟨_, hfile⟩
  | link hlink => exact ⟨_, hlink⟩

end Joined

/-!
## Entries in another order
-/

structure Reorders (t t' : Tree) : Prop where
  here : t'.here = t.here
  entries : t'.entries.Perm t.entries

theorem at?_eq_some_iff {t : Tree} (ht : (t.entries.map (·.1)).Nodup) {a : Address} (ha : a ≠ [])
    {e : Entry} :
    t.at? a = some e <-> (a, e) ∈ t.entries := by
  constructor
  · exact mem_entries_of_at? ha
  · intro hmem
    cases a with
    | nil => exact absurd rfl ha
    | cons name a =>
        cases he : t.at? (name :: a) with
        | none =>
            rw [at?_cons, List.lookup_eq_none_iff] at he
            simpa using he _ hmem
        | some e' =>
            have heq := List.inj_on_of_nodup_map ht hmem (mem_entries_of_at? ha he) rfl
            rw [(Prod.mk.inj heq).2]

namespace Reorders

variable {t t' : Tree}

theorem distinct (h : Reorders t t') (ht : t.WellFormed) :
    (t'.entries.map (·.1)).Nodup :=
  (h.entries.map _).nodup_iff.mpr ht.distinct

theorem at? (h : Reorders t t') (ht : t.WellFormed) (a : Address) :
    t'.at? a = t.at? a := by
  by_cases ha : a = []
  · rw [ha]
    rfl
  · ext e
    rw [at?_eq_some_iff (h.distinct ht) ha, at?_eq_some_iff ht.distinct ha]
    exact h.entries.mem_iff

theorem keeps (h : Reorders t t') (ht : t.WellFormed) :
    Keeps t t' := by
  constructor
  · exact h.here
  · intro a e ha
    rw [h.at? ht, ha]
    rfl

theorem wellFormed (h : Reorders t t') (ht : t.WellFormed) :
    t'.WellFormed := by
  constructor
  · exact h.distinct ht
  · intro entry hentry
    rw [h.at? ht]
    exact ht.inside entry (h.entries.mem_iff.mp hentry)
  · intro entry hentry
    exact ht.named entry (h.entries.mem_iff.mp hentry)
  · rw [h.at? ht, h.here]
    exact ht.here

theorem refl (t : Tree) :
    Reorders t t :=
  ⟨rfl, List.Perm.refl _⟩

theorem symm (h : Reorders t t') :
    Reorders t' t :=
  ⟨h.here.symm, h.entries.symm⟩

theorem leadsToFile (h : Reorders t t') (ht : t.WellFormed) {a : Address} {name : Name}
    {links : Nat} (hleads : LeadsToFile t a name links) :
    LeadsToFile t' a name links := by
  cases hleads with
  | file hfile => exact .file ((h.at? ht _).trans hfile)
  | link hlink hw hb =>
      exact .link ((h.at? ht _).trans hlink) (hw.keeps (h.keeps ht)) ((h.at? ht _).trans hb)

end Reorders
end Tree
end Storage
end Clippings
