import Mathlib.Data.Fintype.EquivFin
import Mathlib.Data.List.Forall2
import Clippings.Proofs.Yaml.Inside

/-!
# Sameness of values

`same` compares mappings by looking every entry of the first one up in the second one.  Where no key
comes twice this is a comparison in both directions, so among the values that a text says it does
not matter which of two keys was there first.
-/

namespace Clippings

namespace Binary64

theorem sameValue_symm {x y : Binary64} (h : x.sameValue y = true) :
    y.sameValue x = true := by
  cases x <;> cases y <;> simp only [sameValue] at h ⊢ <;> grind

theorem sameValue_trans {x y z : Binary64} (h : x.sameValue y = true)
    (h' : y.sameValue z = true) :
    x.sameValue z = true := by
  cases x <;> cases y <;> cases z <;> simp only [sameValue] at h h' ⊢ <;> grind

end Binary64

namespace Yaml
namespace Value

/-!
## Items and entries
-/

theorem sameItems_iff {xs ys : List Value} :
    sameItems xs ys = true <-> List.Forall₂ (fun x y => x.same y = true) xs ys := by
  induction xs generalizing ys with
  | nil => cases ys <;> simp [sameItems]
  | cons x xs ih => cases ys <;> simp [sameItems, ih]

theorem sameEntries_iff {xs ys : Entries} :
    sameEntries xs ys = true <->
      forall e, e ∈ xs -> exists e', e' ∈ ys ∧ e.1.same e'.1 = true ∧ e.2.same e'.2 = true := by
  induction xs with
  | nil => simp [sameEntries]
  | cons e xs ih =>
      rcases e with ⟨k, v⟩
      simp [sameEntries, ih]

theorem same_seq_iff {xs : List Value} {w : Value} :
    (seq xs).same w = true <->
      exists ys, w = seq ys ∧ List.Forall₂ (fun x y => x.same y = true) xs ys := by
  cases w <;> simp [same, sameItems_iff]

theorem same_map_iff {xs : Entries} {w : Value} :
    (map xs).same w = true <->
      exists ys, w = map ys ∧ xs.length = ys.length ∧
        forall e, e ∈ xs -> exists e', e' ∈ ys ∧ e.1.same e'.1 = true ∧ e.2.same e'.2 = true := by
  cases w <;> simp [same, sameEntries_iff]

theorem same_tagged_iff {t : Tag} {v w : Value} :
    (tagged t v).same w = true <-> exists v', w = tagged t v' ∧ v.same v' = true := by
  cases w with
  | tagged t' v' =>
      rw [same, Bool.and_eq_true, beq_iff_eq]
      constructor
      · rintro ⟨rfl, hv⟩
        exact ⟨v', rfl, hv⟩
      · rintro ⟨_, heq, hv⟩
        cases heq
        exact ⟨rfl, hv⟩
  | _ => simp [same]

/-!
## Both directions
-/

theorem forall₂_trans {R : Value -> Value -> Prop} {xs ys zs : List Value}
    (htrans : forall x, x ∈ xs -> forall {y z}, R x y -> R y z -> R x z)
    (h : List.Forall₂ R xs ys) (h' : List.Forall₂ R ys zs) :
    List.Forall₂ R xs zs := by
  induction h generalizing zs with
  | nil => exact h'
  | cons hx _ ih =>
      cases h' with
      | cons hy hys =>
          exact .cons (htrans _ List.mem_cons_self hx hy)
            (ih (fun x hmem => htrans x (List.mem_cons_of_mem _ hmem)) hys)

theorem Sayable.same_trans {u v w : Value} (hu : u.Sayable) (h : u.same v = true)
    (h' : v.same w = true) :
    u.same w = true := by
  induction hu generalizing v w with
  | null => cases v <;> cases w <;> simp_all [same]
  | bool | int | str => cases v <;> cases w <;> simp_all [same]
  | float =>
      cases v <;> cases w <;> simp only [same, reduceCtorEq] at h h' ⊢
      exact Binary64.sameValue_trans h h'
  | seq _ ih =>
      rcases same_seq_iff.mp h with ⟨ys, rfl, hxs⟩
      rcases same_seq_iff.mp h' with ⟨zs, rfl, hys⟩
      exact same_seq_iff.mpr ⟨zs, rfl, forall₂_trans (fun x hx _ _ => ih x hx) hxs hys⟩
  | map _ _ _ ihkeys ihvalues =>
      rcases same_map_iff.mp h with ⟨ys, rfl, hlength, hxs⟩
      rcases same_map_iff.mp h' with ⟨zs, rfl, hlength', hys⟩
      refine same_map_iff.mpr ⟨zs, rfl, hlength.trans hlength', fun e he => ?_⟩
      rcases hxs e he with ⟨e', he', hk, hv⟩
      rcases hys e' he' with ⟨e'', he'', hk', hv'⟩
      exact ⟨e'', he'', ihkeys e he hk hk', ihvalues e he hv hv'⟩
  | tagged _ _ _ _ ih =>
      rcases same_tagged_iff.mp h with ⟨v', rfl, hv⟩
      rcases same_tagged_iff.mp h' with ⟨v'', rfl, hv'⟩
      exact same_tagged_iff.mpr ⟨v'', rfl, ih hv hv'⟩

/-- Where as many are looked up as there are, and no two find the same, every one is found. -/
theorem exists_of_pairwise {α β : Type} {R : α -> β -> Prop} {xs : List α} {ys : List β}
    (hlength : xs.length = ys.length) (hfound : forall x, x ∈ xs -> exists y, y ∈ ys ∧ R x y)
    (honce : xs.Pairwise fun x x' => forall y, R x y -> ¬ R x' y) {y : β} (hy : y ∈ ys) :
    exists x, x ∈ xs ∧ R x y := by
  have hindex : forall i : Fin xs.length, exists j : Fin ys.length, R xs[i] ys[j] := by
    intro i
    rcases hfound xs[i] (List.getElem_mem i.isLt) with ⟨y, hy, hR⟩
    rcases List.getElem_of_mem hy with ⟨j, hj, rfl⟩
    exact ⟨⟨j, hj⟩, hR⟩
  choose place hplace using hindex
  have hinjective : Function.Injective place := by
    have hne : forall i i' : Fin xs.length, i < i' -> place i ≠ place i' := by
      intro i i' hlt heq
      apply List.pairwise_iff_getElem.mp honce i i' i.isLt i'.isLt hlt _ (hplace i)
      rw [heq]
      exact hplace i'
    intro i i' heq
    rcases lt_trichotomy i i' with hlt | rfl | hlt
    · exact absurd heq (hne i i' hlt)
    · rfl
    · exact absurd heq.symm (hne i' i hlt)
  have hsurjective : Function.Surjective place :=
    ((Fintype.bijective_iff_injective_and_card place).mpr ⟨hinjective, by simp [hlength]⟩).2
  rcases List.getElem_of_mem hy with ⟨j, hj, rfl⟩
  rcases hsurjective ⟨j, hj⟩ with ⟨i, hi⟩
  refine ⟨xs[i], List.getElem_mem i.isLt, ?_⟩
  have h := hplace i
  rwa [hi] at h

theorem Sayable.same_symm {v w : Value} (hv : v.Sayable) (h : v.same w = true) :
    w.same v = true := by
  induction hv generalizing w with
  | null => cases w <;> simp_all [same]
  | bool | int | str => cases w <;> simp_all [same]
  | float =>
      cases w <;> simp only [same, reduceCtorEq] at h ⊢
      exact Binary64.sameValue_symm h
  | seq _ ih =>
      rcases same_seq_iff.mp h with ⟨ys, rfl, hxs⟩
      have hboth := (List.forall₂_and_left _ _).mpr ⟨fun x hx w => @ih x hx w, hxs⟩
      exact same_seq_iff.mpr ⟨_, rfl, .flip (hboth.imp fun _ _ hx => hx.1 _ hx.2)⟩
  | map hkeys _ hdistinct ihkeys ihvalues =>
      rename_i xs _
      rcases same_map_iff.mp h with ⟨ys, rfl, hlength, hxs⟩
      refine same_map_iff.mpr ⟨xs, rfl, hlength.symm, fun e' he' => ?_⟩
      have honce : xs.Pairwise fun e e'' => forall e' : Value × Value,
          e.1.same e'.1 = true ∧ e.2.same e'.2 = true ->
            ¬ (e''.1.same e'.1 = true ∧ e''.2.same e'.2 = true) := by
        apply hdistinct.imp_of_mem
        rintro e e'' he he'' hne e' ⟨hk, -⟩ ⟨hk', -⟩
        rw [(hkeys e he).same_trans hk (ihkeys e'' he'' hk')] at hne
        cases hne
      rcases exists_of_pairwise hlength hxs honce he' with ⟨e, he, hk, hv⟩
      exact ⟨e, he, ihkeys e he hk, ihvalues e he hv⟩
  | tagged _ _ _ _ ih =>
      rcases same_tagged_iff.mp h with ⟨v', rfl, hv⟩
      exact same_tagged_iff.mpr ⟨_, rfl, ih hv⟩

theorem Sayable.distinct_of_occurs {v w : Value} (hv : v.Sayable) (hw : Occurs w v)
    {entries : Entries} (h : w.untag = Value.map entries) :
    entries.Pairwise fun e e' => e.1.same e'.1 = false ∧ e'.1.same e.1 = false := by
  have hsayable := hv.of_occurs hw
  have hkey : forall e, e ∈ entries -> e.1.Sayable := by
    intro e he
    apply hsayable.of_mem_children
    rw [← children_untag, h]
    exact mem_children_map.mpr ⟨e, he, Or.inl rfl⟩
  apply (hsayable.distinct h).imp_of_mem
  intro e e' _ he' hne
  constructor
  · exact hne
  · rw [← Bool.not_eq_true]
    intro hsame
    rw [(hkey e' he').same_symm hsame] at hne
    cases hne

end Value
end Yaml
end Clippings
