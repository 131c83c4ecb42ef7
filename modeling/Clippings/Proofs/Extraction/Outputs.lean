import Mathlib.Data.List.Basic
import Clippings.Extractor
import Clippings.Proofs.Path.Last

/-!
# Where outputs lie

Every output lies in the output directory itself.  Of an input only its last part is taken, so
neither a root in front of it nor parts that lead up show in the output.
-/

namespace Clippings
namespace Extractor

open Clippings.Path (HasLast IsLast)

theorem outputPath_eq_error_iff {e : Extractor} {input : Path} {f : Failure} :
    e.outputPath input = .error f <-> f = .noFileName input ∧ input.fileName? = none := by
  unfold outputPath
  cases input.fileName? <;> simp [eq_comm]

theorem outputPath_of_hasLast (e : Extractor) {input : Path} {name : List UInt8}
    (h : HasLast input name) (hname : IsLast name) :
    e.outputPath input = .ok (e.outputDirectory.join ⟨name⟩) := by
  rw [outputPath, Path.fileName?_eq_some_iff.mpr ⟨h, hname.ne_dotDot⟩]

/-- An input whose last part is missing or leads up has no output.  Any other one has the output of
its last part's name in the output directory, whatever stands in front of that part, and this output
is its own output. -/
theorem outputPath_stays (e : Extractor) (input : Path) :
    (forall f, e.outputPath input = .error f <->
      f = .noFileName input ∧ forall last, HasLast input last -> last = Path.dotDot) ∧
    forall output, e.outputPath input = .ok output ->
      exists name, HasLast input name ∧ IsLast name ∧
        output = e.outputDirectory.join ⟨name⟩ ∧
        output.octets = Path.withSlash e.outputDirectory.octets ++ name ∧
        output.fileName? = some name ∧
        output.components = e.outputDirectory.components ++ [.name name] ∧
        (exists q, output.parent? = some q ∧ q.same e.outputDirectory = true) ∧
        e.outputPath output = .ok output ∧
        forall input', HasLast input' name -> e.outputPath input' = .ok output := by
  constructor
  · intro f
    rw [outputPath_eq_error_iff, Path.fileName?_eq_none_iff]
  · intro output h
    unfold outputPath at h
    split at h
    · cases h
    · rename_i name hname
      cases h
      rcases Path.fileName?_eq_some_iff.mp hname with ⟨hlast, hup⟩
      have hproper := hlast.isLast hup
      have hjoined := Path.fileName?_join e.outputDirectory hproper.no_slash hproper.ne_nil
        hproper.ne_dot hproper.ne_dotDot
      rcases Path.exists_parent?_join e.outputDirectory hproper with ⟨q, hq, hcomponents⟩
      have hoctets := Path.octets_join (p := e.outputDirectory) hproper.no_slash
      have hbelow := Path.components_join e.outputDirectory hproper
      have hsame : q.same e.outputDirectory = true := by rw [Path.same, hcomponents, BEq.rfl]
      refine ⟨name, hlast, hproper, rfl, hoctets, hjoined, hbelow, ⟨q, hq, hsame⟩, ?_, ?_⟩
      · exact e.outputPath_of_hasLast (Path.fileName?_eq_some_iff.mp hjoined).1 hproper
      · intro input' h'
        exact e.outputPath_of_hasLast h' hproper

/-- An absolute input with a part that leads up, a part `.` and a slash at its end. -/
theorem outputPath_stays_absolute :
    (usual (Path.ofString "o/..")).outputPath (Path.ofString "/x/../b/./") =
        .ok (Path.ofString "o/../b") ∧
      exists q, (Path.ofString "o/../b").parent? = some q ∧
        q.same (Path.ofString "o/..") = true := by
  have houtput : (usual (Path.ofString "o/..")).outputPath (Path.ofString "/x/../b/./") =
      .ok (Path.ofString "o/../b") := by
    cbv
  rcases (outputPath_stays _ _).2 _ houtput with ⟨_, -, -, -, -, -, -, hparent, -⟩
  exact ⟨houtput, hparent⟩

end Extractor
end Clippings
