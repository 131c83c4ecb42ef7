import Clippings.Proofs.Extraction.Directory
import Clippings.Proofs.Storage.Missing

/-!
# Directories that are missing

The output directory is made before the input directory is listed.  So a directory that is missing
is reported, unless what is missing of it comes to be with the output directory.
-/

namespace Clippings
namespace Extractor

open Host (outcome)
open Storage (Tree Address Name)

/-!
## Listing in a session
-/

theorem outcome_keepFiles_snd (ps : List Path) (s : Session) :
    (outcome (keepFiles ps) s).2 = s := by
  induction ps with
  | nil => rfl
  | cons p rest ih =>
      rw [keepFiles, Host.outcome_bind]
      exact ih

theorem outcome_matchingFiles_session (directory : Path) (pattern : Pattern) (s : Session) :
    outcome (matchingFiles directory pattern) s =
      ((outcome (matchingFiles directory pattern) s.files).1, s) := by
  refine Prod.ext ?_ ?_
  · exact (congrArg Prod.fst (Session.view_files.matchingFiles directory pattern s)).symm
  · unfold matchingFiles
    rw [Host.outcome_bind]
    change (outcome (match s.files.names directory with
      | .error f => _
      | .ok names => _) s).2 = s
    cases s.files.names directory with
    | error f => rfl
    | ok names => exact outcome_keepFiles_snd _ s

section Runs

variable {e : Extractor} {directory : Path} {pattern : Pattern} {policy : Policy}
  {announce : Extracted -> SessionM Unit} {s s₀ : Session}

theorem outcome_extractAll_of_unmade {g : Storage.Fault}
    (hmake : outcome (Host.makeDirectories e.outputDirectory) s = (.error g, s₀)) :
    outcome (e.extractAll directory pattern policy announce) s =
      (.error (.storage e.outputDirectory g), s₀) := by
  unfold extractAll
  rw [Host.outcome_bind, hmake]
  rfl

theorem outcome_extractAll_of_unlisted {f : Failure}
    (hmake : outcome (Host.makeDirectories e.outputDirectory) s = (.ok (), s₀))
    (hlist : (outcome (matchingFiles directory pattern) s₀.files).1 = .error f) :
    outcome (e.extractAll directory pattern policy announce) s = (.error f, s₀) := by
  unfold extractAll
  rw [Host.outcome_bind, hmake]
  simp only
  rw [Host.outcome_bind, outcome_matchingFiles_session, hlist]
  rfl

theorem outcome_extractAll_of_listed {inputs : List Path}
    (hmake : outcome (Host.makeDirectories e.outputDirectory) s = (.ok (), s₀))
    (hlist : (outcome (matchingFiles directory pattern) s₀.files).1 = .ok inputs) :
    outcome (e.extractAll directory pattern policy announce) s =
      outcome (e.extractFiles inputs policy announce)
        (s₀.record (recordDiscovered directory pattern inputs)) := by
  unfold extractAll
  rw [Host.outcome_bind, hmake]
  simp only
  rw [Host.outcome_bind, outcome_matchingFiles_session, hlist]
  rfl

end Runs

/-!
## Directories that are new
-/

theorem outcome_matchingFiles_new {ps : List Path} {t t' : Tree} (h : Tree.Grows ps t t')
    (ht : t.Closed) (ht' : t'.WellFormed) {directory : Path} {a : Address}
    (hfind : t'.find false directory = .ok a) (ha : t.at? a = none) (pattern : Pattern) :
    outcome (matchingFiles directory pattern) t' = (.ok [], t') := by
  have hdir : t'.at? a = some .directory := by
    rcases ht'.closed.exists_of_find hfind with ⟨entry, hentry⟩
    rcases h.at? a with hsame | ⟨-, hdir, -⟩
    · rw [hsame, ha] at hentry
      cases hentry
    · exact hdir
  rw [outcome_matchingFiles (Tree.names_of_find hfind hdir)]
  suffices hnone : forall name, name ∈ (t'.entries.map (·.1)).filterMap (Tree.nameIn? a) ->
      isInput t' directory pattern name = false by
    rw [List.filter_eq_nil_iff.mpr fun name hname => by simp [hnone name (by simpa using hname)]]
    rfl
  intro name hname
  rcases Tree.mem_names_iff.mp hname with ⟨entry, hentry⟩
  have hnew := h.directory_of_new ht ha hentry
  subst hnew
  have hjoin := Tree.entryOf?_join (Tree.opens_of_find hfind hdir) (ht'.proper hentry) (by
    intro e he
    rw [hentry] at he
    cases he
    rfl)
  rw [isInput, Tree.isFile, hjoin, hentry]
  split_ifs <;> rfl

/-!
## Runs
-/

/-- A directory that is missing is reported, and so is an output directory that cannot be made.
Only where the way to the missing directory breaks off at a directory that is made for the output
can it be there in time; a directory that is as new as that holds no files, and the run ends with
nothing done. -/
theorem extractAll_reports_missing (e : Extractor) (directory : Path) (pattern : Pattern)
    (policy : Policy) (announce : Extracted -> SessionM Unit) (s : Session)
    (hs : s.files.WellFormed) (hmissing : s.files.entryOf? directory = none) :
    exists f made s₀,
      s.files.find false directory = .error f ∧
      outcome (Host.makeDirectories e.outputDirectory) s = (made, s₀) ∧
      (forall g, made = .error g ->
        outcome (e.extractAll directory pattern policy announce) s =
          (.error (.storage e.outputDirectory g), s₀)) ∧
      (made = .ok () ->
        (forall c p, s.files.BreaksOff directory c -> p ∈ e.outputDirectory.ancestors ->
          s₀.files.find false p ≠ .ok c) ->
        outcome (e.extractAll directory pattern policy announce) s =
          (.error (.storage directory f), s₀)) ∧
      (e.outputDirectory.octets = [] ∨ s.files.isDirectory e.outputDirectory = true ->
        s₀.files = s.files ∧ outcome (e.extractAll directory pattern policy announce) s =
          (.error (.storage directory f), s₀)) ∧
      (made = .ok () ->
        forall a, s₀.files.find false directory = .ok a -> s.files.at? a = none ->
          outcome (e.extractAll directory pattern policy announce) s =
            (.ok Report.empty, s₀.record (recordDiscovered directory pattern []))) := by
  rcases hs.closed.find_eq_error hmissing with ⟨f, hfind⟩
  cases hmake : outcome (Host.makeDirectories e.outputDirectory) s with
  | mk made s₀ =>
      have hseen := Session.view_files.makeDirectories e.outputDirectory s
      rw [hmake] at hseen
      have hmade := Tree.made_makeDirectories e.outputDirectory hs
      rw [hseen] at hmade
      rcases hmade with ⟨hgrows, hs₀⟩
      have hreport : made = .ok () -> s₀.files.find false directory = .error f ->
          outcome (e.extractAll directory pattern policy announce) s =
            (.error (.storage directory f), s₀) := by
        intro hok hfind₀
        subst hok
        have hlisting := outcome_matchingFiles_error (Tree.names_of_find_error hfind₀) pattern
        exact outcome_extractAll_of_unlisted hmake (congrArg Prod.fst hlisting)
      refine ⟨f, made, s₀, hfind, rfl, ?_, ?_, ?_, ?_⟩
      · intro g hg
        subst hg
        exact outcome_extractAll_of_unmade hmake
      · intro hok hfar
        rcases hgrows.find_or_breaksOff hs.closed hfind with hfind₀ | ⟨-, c, p, hc, hp, hfindp⟩
        · exact hreport hok hfind₀
        · exact absurd hfindp (hfar c p hc hp)
      · intro hthere
        rw [Tree.outcome_makeDirectories_of_there hthere] at hseen
        rcases Prod.mk.inj hseen with ⟨hok, hfiles⟩
        exact ⟨hfiles.symm, hreport hok.symm (hfiles ▸ hfind)⟩
      · intro hok a hfind₀ ha
        subst hok
        have hlist := outcome_matchingFiles_new hgrows hs.closed hs₀ hfind₀ ha pattern
        rw [outcome_extractAll_of_listed hmake (congrArg Prod.fst hlist)]
        rfl

def bareDirectory : Tree :=
  ⟨[([[100]], .directory)], []⟩

theorem breaksOff_bareDirectory {c : Address}
    (h : bareDirectory.BreaksOff ⟨[100, 47, 97]⟩ c) :
    c = [[97], [100]] := by
  rw [Tree.BreaksOff, show Path.parts [100, 47, 97] = [[100], [97]] by decide] at h
  cases h with
  | missing _ _ hnone => cases hnone
  | stay _ hpart => exact absurd hpart (by decide)
  | follow _ _ hlink => cases hlink
  | enter _ _ _ _ hrest =>
      cases hrest with
      | missing => rfl
      | stay _ hpart => exact absurd hpart (by decide)
      | follow _ _ hlink => cases hlink
      | enter _ _ hentry => cases hentry

/-- The directory `d/a` is missing, and so is `d/b`, which is made. -/
theorem extractAll_reports_missing_neighbour :
    bareDirectory.WellFormed ∧ bareDirectory.entryOf? ⟨[100, 47, 97]⟩ = none ∧
      (outcome (extractAll (m := SessionM) (usual ⟨[100, 47, 98]⟩) ⟨[100, 47, 97]⟩ ⟨"*"⟩
          .keepGoing (fun _ => pure ()))
        (Session.ofTree bareDirectory (Journal.Filter.ofDirectives []))).1 =
          .error (.storage ⟨[100, 47, 97]⟩ .notFound) := by
  have hwell : bareDirectory.WellFormed := by decide
  have hmissing : bareDirectory.entryOf? ⟨[100, 47, 97]⟩ = none := by
    cbv
  have hmade : outcome (Host.makeDirectories ⟨[100, 47, 98]⟩)
      (Session.ofTree bareDirectory (Journal.Filter.ofDirectives [])) =
        (.ok (), Session.ofTree (bareDirectory.set [[98], [100]] .directory)
          (Journal.Filter.ofDirectives [])) := by
    cbv
  have hmade_closed : (bareDirectory.set [[98], [100]] .directory).Closed :=
    Tree.WellFormed.closed (by decide)
  rcases extractAll_reports_missing (usual ⟨[100, 47, 98]⟩) ⟨[100, 47, 97]⟩ ⟨"*"⟩ .keepGoing
    (fun _ => pure ()) (Session.ofTree bareDirectory (Journal.Filter.ofDirectives [])) hwell
    hmissing with ⟨f, made, s₀, hfind, hmake, -, hreport, -, -⟩
  have hnotFound : bareDirectory.find false ⟨[100, 47, 97]⟩ = .error .notFound := by
    cbv
  cases hnotFound.symm.trans hfind
  rcases Prod.mk.inj (hmade.symm.trans hmake) with ⟨rfl, rfl⟩
  constructor
  · exact hwell
  constructor
  · exact hmissing
  · apply congrArg Prod.fst (hreport rfl _)
    intro c p hc _ hfindp
    rw [breaksOff_bareDirectory hc] at hfindp
    rcases hmade_closed.exists_of_find hfindp with ⟨entry, hentry⟩
    cases hentry

/-- Where the missing directory is the output directory, too, it is made, and the run ends well. -/
theorem extractAll_makes_missing :
    (Tree.mk [] []).WellFormed ∧ (Tree.mk [] []).entryOf? ⟨[120]⟩ = none ∧
      (outcome (extractAll (m := SessionM) (usual ⟨[120]⟩) ⟨[120]⟩ ⟨"*.yaml"⟩ .failFast
          (fun _ => pure ()))
        (Session.ofTree ⟨[], []⟩ (Journal.Filter.ofDirectives []))).1 = .ok Report.empty := by
  have hmade : outcome (Host.makeDirectories ⟨[120]⟩)
      (Session.ofTree ⟨[], []⟩ (Journal.Filter.ofDirectives [])) =
        (.ok (), Session.ofTree ⟨[([[120]], .directory)], []⟩
          (Journal.Filter.ofDirectives [])) := by
    cbv
  have hlist : (outcome (matchingFiles ⟨[120]⟩ ⟨"*.yaml"⟩)
      (Tree.mk [([[120]], .directory)] [])).1 = .ok [] := by
    cbv
  refine ⟨by decide, by cbv, ?_⟩
  rw [outcome_extractAll_of_listed (e := usual ⟨[120]⟩) hmade hlist]
  rfl

end Extractor
end Clippings
