import Clippings.Program
import Clippings.Proofs.Host.View
import Clippings.Proofs.Path.Join

/-!
# Settings seen from roots

To see settings from one root and then from another is to see them once, from the first root as it
is seen from the second.  An absolute root is the last one that counts.
-/

namespace Clippings

open Host (outcome)

namespace Settings

theorem resolve_resolve (s : Settings) (inner outer : Path) :
    (s.resolve inner).resolve outer = s.resolve (outer.join inner) := by
  unfold resolve
  simp only [Path.join_join]

theorem resolve_empty (s : Settings) :
    s.resolve ⟨[]⟩ = s := by
  unfold resolve
  simp only [Path.empty_join]

theorem resolve_of_absolute_root {root : Path} (h : root.isAbsolute = true) (s : Settings)
    (outer : Path) :
    (s.resolve root).resolve outer = s.resolve root := by
  rw [resolve_resolve, Path.join_of_isAbsolute h]

theorem foldl_resolve (s : Settings) (roots : List Path) :
    roots.foldl resolve s =
      s.resolve (roots.foldl (fun inner outer => outer.join inner) ⟨[]⟩) := by
  have hbehind : forall inner : Path, roots.foldl resolve (s.resolve inner) =
      s.resolve (roots.foldl (fun inner outer => outer.join inner) inner) := by
    induction roots with
    | nil => exact fun inner => rfl
    | cons outer rest ih =>
        intro inner
        rw [List.foldl_cons, List.foldl_cons, resolve_resolve]
        exact ih (outer.join inner)
  have hempty := hbehind ⟨[]⟩
  rwa [resolve_empty] at hempty

/-- Two roots, one seen from the other, count as one root, and nothing leads out of an absolute
one.  Only directories are seen from a root: behind it if they are relative, and where they are if
they are absolute. -/
theorem resolve_composes (s : Settings) (inner outer : Path) :
    (s.resolve inner).resolve outer = s.resolve (outer.join inner) ∧
      (inner.isAbsolute = true -> (s.resolve inner).resolve outer = s.resolve inner) ∧
      (s.resolve inner).pattern = s.pattern ∧ (s.resolve inner).key = s.key ∧
      (s.resolve inner).policy = s.policy ∧
      forall directory, directory ∈ [Settings.inputDirectory, Settings.outputDirectory] ->
        ((directory s).isAbsolute = true -> directory (s.resolve inner) = directory s) ∧
        ((directory s).isAbsolute = false ->
          (directory (s.resolve inner)).octets =
            Path.withSlash inner.octets ++ (directory s).octets) := by
  refine ⟨resolve_resolve s inner outer, ?absolute, rfl, rfl, rfl, ?directories⟩
  case absolute => exact fun h => resolve_of_absolute_root h s outer
  case directories =>
    intro directory hdirectory
    have hjoin : directory (s.resolve inner) = inner.join (directory s) := by
      rcases List.mem_cons.mp hdirectory with rfl | houtput
      · rfl
      · rw [List.mem_singleton.mp houtput]
        rfl
    rw [hjoin]
    constructor
    · exact Path.join_of_isAbsolute
    · intro h
      rw [Path.join_of_relative h]

/-- A relative root around an absolute one. -/
theorem resolve_composes_absolute :
    (Path.ofString "/work/").isAbsolute = true ∧
      (default.resolve (Path.ofString "/work/")).resolve (Path.ofString "ksml") =
        default.resolve (Path.ofString "/work/") := by
  have habsolute : (Path.ofString "/work/").isAbsolute = true := by decide
  exact ⟨habsolute, (resolve_composes default _ (Path.ofString "ksml")).2.1 habsolute⟩

end Settings

/-- Settings that are built for an absolute root are not seen from a root a second time. -/
theorem Program.resolve_of_buildSettings {σ : Type} [Host (StateM σ)] {a : Arguments} {root : Path}
    (hroot : root.isAbsolute = true) {s s' : σ} {settings : Settings}
    (h : outcome (buildSettings a root) s = (.ok settings, s')) (outer : Path) :
    settings.resolve outer = settings := by
  have hbuilt : exists chosen : Settings, settings = chosen.resolve root := by
    unfold buildSettings at h
    cases hconfig : a.config with
    | none =>
        rw [hconfig] at h
        cases h
        exact ⟨_, rfl⟩
    | some file =>
        rw [hconfig] at h
        simp only at h
        rw [Host.outcome_bind] at h
        split at h <;> cases h
        exact ⟨_, rfl⟩
  rcases hbuilt with ⟨chosen, rfl⟩
  exact Settings.resolve_of_absolute_root hroot chosen outer

end Clippings
