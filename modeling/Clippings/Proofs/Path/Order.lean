import Mathlib.Data.List.Pairwise
import Clippings.Proofs.Path.Join

/-!
# The order of paths

Paths are compared component by component.  Those of one directory come in the order of their names,
whichever way the directory is spelt.
-/

namespace Clippings
namespace Path

namespace Component

def rank : Component -> Nat
  | root => 0
  | here => 1
  | above => 2
  | name _ => 3

def Precedes (c d : Component) : Prop :=
  c.rank < d.rank ∨ exists x y, c = name x ∧ d = name y ∧ x < y

theorem precedes_name_iff {x y : List UInt8} :
    (name x).Precedes (name y) <-> x < y := by
  simp [Precedes, rank]

theorem Precedes.asymm {c d : Component} (h : c.Precedes d) :
    ¬ d.Precedes c := by
  rcases h with hrank | ⟨x, y, rfl, rfl, hlt⟩
  · rintro (hrank' | ⟨x, y, rfl, rfl, -⟩)
    · exact Nat.lt_asymm hrank hrank'
    · exact Nat.lt_irrefl _ hrank
  · rw [precedes_name_iff]
    exact List.lt_asymm hlt

end Component

/-- Of two paths the first one is less where they first differ, or it ends there. -/
def Precedes (p q : Path) : Prop :=
  List.Lex Component.Precedes p.components q.components

theorem lex_concat_name_iff {before : List Component} {x y : List UInt8} :
    List.Lex Component.Precedes (before ++ [.name x]) (before ++ [.name y]) <-> x < y := by
  induction before with
  | nil =>
      rw [← Component.precedes_name_iff]
      constructor
      · intro h
        cases h with
        | rel h => exact h
        | cons h => cases h
      · exact List.Lex.rel
  | cons c before ih =>
      rw [← ih]
      constructor
      · intro h
        cases h with
        | rel h => exact absurd h h.asymm
        | cons h => exact h
      · exact List.Lex.cons

structure IsLast (name : List UInt8) : Prop where
  no_slash : slash ∉ name
  ne_nil : name ≠ []
  ne_dot : name ≠ dot
  ne_dotDot : name ≠ dotDot

theorem precedes_join_iff (p : Path) {x y : List UInt8} (hx : IsLast x) (hy : IsLast y) :
    (p.join ⟨x⟩).Precedes (p.join ⟨y⟩) <-> x < y := by
  rcases exists_parts_join p with ⟨front, back, -, -, hjoined⟩
  rw [Precedes, components_of_parts (hjoined hx.no_slash) hx.ne_nil hx.ne_dot hx.ne_dotDot,
    components_of_parts (hjoined hy.no_slash) hy.ne_nil hy.ne_dot hy.ne_dotDot,
    isAbsolute_join p hx.no_slash, isAbsolute_join p hy.no_slash]
  exact lex_concat_name_iff

/-!
## Sorted paths
-/

theorem Precedes.asymm {p q : Path} (h : p.Precedes q) :
    ¬ q.Precedes p :=
  List.lex_asymm Component.Precedes.asymm h

/-- However paths are sorted that their order tells apart, they come out in it. -/
theorem eq_of_perm_of_sorted {ps qs : List Path} (hps : ps.Pairwise Precedes) (hperm : qs.Perm ps)
    (hqs : qs.Pairwise fun p q => ¬ q.Precedes p) :
    qs = ps := by
  refine hperm.eq_of_pairwise ?_ hqs (hps.imp Precedes.asymm)
  intro p q hp hq hpq hqp
  by_contra hne
  have hordered : ps.Pairwise fun p q => p.Precedes q ∨ q.Precedes p := hps.imp Or.inl
  have : Std.Symm fun p q : Path => p.Precedes q ∨ q.Precedes p := ⟨fun _ _ => Or.symm⟩
  rcases hordered.forall (hperm.mem_iff.mp hp) hq hne with h | h
  · exact hqp h
  · exact hpq h

end Path
end Clippings
