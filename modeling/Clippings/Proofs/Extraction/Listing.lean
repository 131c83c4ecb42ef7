import Clippings.Proofs.Extraction.Directory
import Clippings.Proofs.Pattern
import Clippings.Proofs.Storage.Listing

/-!
# The files of a directory

The files that are listed are those of the directory whose names match, in the order of their names,
which is the order of their paths as well.  In what order the system has the entries does not show.
-/

namespace Clippings
namespace Extractor

open Host (outcome)
open Storage (Tree Address Name)

/-!
## Names in order
-/

theorem eq_of_pairwise_lt {names names' : List Name} (h : names.Pairwise (· < ·))
    (h' : names'.Pairwise (· < ·)) (hmem : forall name, name ∈ names <-> name ∈ names') :
    names = names' := by
  have hnodup : forall {names : List Name}, names.Pairwise (· < ·) -> names.Nodup := by
    intro names hnames
    apply hnames.imp
    rintro name _ hlt rfl
    exact List.lt_irrefl name hlt
  refine List.Perm.eq_of_pairwise ?_ h h'
    ((List.perm_ext_iff_of_nodup (hnodup h) (hnodup h')).mpr hmem)
  exact fun _ _ _ _ hlt hlt' => absurd hlt' (List.lt_asymm hlt)

theorem pairwise_lt_mergeSort {names : List Name} (h : names.Nodup) :
    (names.mergeSort fun a b => !(b < a)).Pairwise (· < ·) := by
  have hsorted : (names.mergeSort fun a b => !(b < a)).Pairwise fun a b => (!(b < a)) = true :=
    List.pairwise_mergeSort (by simpa using fun a b c => List.le_trans)
      (by simpa using List.le_total) names
  have hnodup := (List.mergeSort_perm names fun a b => !(b < a)).nodup_iff.mpr h
  apply (hsorted.and hnodup).imp
  rintro a b ⟨hle, hne⟩
  by_contra hlt
  exact hne (List.le_antisymm (by simpa using hle) hlt)

/-!
## What is listed
-/

/-- The entry of the name leads to a file, its text is one that the pattern stands for, and the path
is one that can be looked up. -/
structure Lists (t : Tree) (directory : Path) (pattern : Pattern) (a : Address) (links : Nat)
    (name : Name) : Prop where
  leads : Tree.LeadsToFile t a name links
  covered : exists text : String, name = Text.Utf8.encode text.toList ∧
    Pattern.Covers pattern.text.toList text.toList
  short : (directory.join ⟨name⟩).octets.length ≤ Tree.maxPathLength

theorem isInput_iff_lists {t : Tree} {directory : Path} {pattern : Pattern} {a : Address}
    {links : Nat} {name : Name} (hp : Tree.Opens t directory a)
    (hw : Tree.Way t Tree.maxLinks (t.origin directory) (Path.parts directory.octets) links a)
    (hname : Tree.Proper name) :
    isInput t directory pattern name = true <-> Lists t directory pattern a links name := by
  have hcovered : pattern.matchesPath (directory.join ⟨name⟩) = true <->
      exists text : String, name = Text.Utf8.encode text.toList ∧
        Pattern.Covers pattern.text.toList text.toList := by
    rw [matchesPath_join hname]
    simp only [Path.text?_eq_some_iff, Pattern.matchesName, beq_iff_eq, Pattern.head?_verdicts]
  rw [isInput, Bool.and_eq_true, Tree.isFile_join_iff hp hw hname, hcovered]
  constructor
  · rintro ⟨⟨hleads, hshort⟩, hcovers⟩
    exact ⟨hleads, hcovers, hshort⟩
  · intro h
    constructor
    · exact ⟨h.leads, h.short⟩
    · exact h.covered

theorem exists_names_matchingFiles {t : Tree} (ht : t.WellFormed) {directory : Path} {a : Address}
    {links : Nat} (hfind : t.find false directory = .ok a) (ha : t.at? a = some .directory)
    (hw : Tree.Way t Tree.maxLinks (t.origin directory) (Path.parts directory.octets) links a)
    (pattern : Pattern) :
    exists names : List Name,
      outcome (matchingFiles directory pattern) t =
        (.ok (names.map fun name => directory.join ⟨name⟩), t) ∧
      (forall name, name ∈ names <-> Lists t directory pattern a links name) ∧
      names.Pairwise (· < ·) := by
  have hopens := Tree.opens_of_find hfind ha
  refine ⟨_, outcome_matchingFiles (Tree.names_of_find hfind ha) pattern, ?_, ?_⟩
  · intro name
    rw [List.mem_filter, List.mem_mergeSort, Tree.mem_names_iff]
    constructor
    · rintro ⟨⟨entry, hentry⟩, hinput⟩
      exact (isInput_iff_lists hopens hw (ht.proper hentry)).mp hinput
    · intro h
      rcases h.leads.exists_entry with ⟨entry, hentry⟩
      constructor
      · exact ⟨entry, hentry⟩
      · exact (isInput_iff_lists hopens hw (ht.proper hentry)).mpr h
  · exact (pairwise_lt_mergeSort (ht.nodup_names a)).filter _

theorem Lists.reorders {t t' : Tree} (h : Tree.Reorders t t') (ht : t.WellFormed)
    {directory : Path} {pattern : Pattern} {a : Address} {links : Nat} {name : Name}
    (hlists : Lists t directory pattern a links name) :
    Lists t' directory pattern a links name :=
  ⟨h.leadsToFile ht hlists.leads, hlists.covered, hlists.short⟩

theorem outcome_matchingFiles_reorders {t t' : Tree} (h : Tree.Reorders t t') (ht : t.WellFormed)
    {directory : Path} (hdir : t.isDirectory directory = true) (pattern : Pattern) :
    (outcome (matchingFiles directory pattern) t').1 =
      (outcome (matchingFiles directory pattern) t).1 := by
  rcases Tree.isDirectory_iff.mp hdir with ⟨a, hfind, ha⟩
  rcases Tree.find_eq_ok_iff.mp hfind with ⟨-, links, hw⟩
  have hkeeps := h.keeps ht
  have hw' := hw.keeps hkeeps
  rw [← hkeeps.origin] at hw'
  rcases exists_names_matchingFiles ht hfind ha hw pattern with ⟨names, hout, hmem, hsorted⟩
  rcases exists_names_matchingFiles (h.wellFormed ht) (hkeeps.find hfind)
    (hkeeps.directory ha) hw' pattern with ⟨names', hout', hmem', hsorted'⟩
  have hnames : names' = names := by
    refine eq_of_pairwise_lt hsorted' hsorted fun name => ?_
    rw [hmem, hmem']
    exact ⟨Lists.reorders h.symm (h.wellFormed ht), Lists.reorders h ht⟩
  rw [hout, hout', hnames]

theorem pairwise_precedes_join {names : List Name} (h : names.Pairwise (· < ·))
    (hproper : forall name, name ∈ names -> Tree.Proper name) (directory : Path) :
    (names.map fun name => directory.join ⟨name⟩).Pairwise Path.Precedes := by
  rw [List.pairwise_map]
  apply h.imp_of_mem
  intro name name' hname hname' hlt
  exact (Path.precedes_join_iff directory (hproper name hname).isLast
    (hproper name' hname').isLast).mpr hlt

/-- Every file of a directory with a matching name is listed, and nothing else, in the order of the
names.  The paths come out the same whichever way they are sorted, and in whatever order the system
has the entries. -/
theorem matchingFiles_lists (directory : Path) (pattern : Pattern) (s : Session)
    (hs : s.files.WellFormed) (hdir : s.files.isDirectory directory = true) :
    exists (a : Address) (links : Nat) (names : List Name) (paths : List Path),
      Tree.Way s.files Tree.maxLinks (s.files.origin directory) (Path.parts directory.octets)
        links a ∧
      s.files.at? a = some .directory ∧
      (forall name, name ∈ names <-> Lists s.files directory pattern a links name) ∧
      names.Pairwise (· < ·) ∧
      paths = names.map (fun name => directory.join ⟨name⟩) ∧
      (outcome (matchingFiles directory pattern) s).1 = .ok paths ∧
      paths.Pairwise Path.Precedes ∧
      (forall ps : List Path, ps.Perm paths -> ps.Pairwise (fun p q => ¬ q.Precedes p) ->
        ps = paths) ∧
      forall s' : Session, Tree.Reorders s.files s'.files ->
        (outcome (matchingFiles directory pattern) s').1 = .ok paths := by
  rcases Tree.isDirectory_iff.mp hdir with ⟨a, hfind, ha⟩
  rcases Tree.find_eq_ok_iff.mp hfind with ⟨-, links, hw⟩
  rcases exists_names_matchingFiles hs hfind ha hw pattern with ⟨names, hout, hmem, hsorted⟩
  have hreordered : forall s' : Session, Tree.Reorders s.files s'.files ->
      (outcome (matchingFiles directory pattern) s').1 =
        .ok (names.map fun name => directory.join ⟨name⟩) := by
    intro s' hs'
    have hseen := congrArg Prod.fst (Session.view_files.matchingFiles directory pattern s')
    exact hseen.symm.trans
      ((outcome_matchingFiles_reorders hs' hs hdir pattern).trans (congrArg Prod.fst hout))
  have hproper : forall name, name ∈ names -> Tree.Proper name := by
    intro name hname
    rcases ((hmem name).mp hname).leads.exists_entry with ⟨entry, hentry⟩
    exact hs.proper hentry
  have hpaths := pairwise_precedes_join hsorted hproper directory
  refine ⟨a, links, names, _, hw, ha, hmem, hsorted, rfl, ?_, hpaths, ?_, hreordered⟩
  · exact hreordered s (.refl s.files)
  · intro ps hperm hps
    exact Path.eq_of_perm_of_sorted hpaths hperm hps

def linkedNames : Tree :=
  ⟨[([[100]], .directory), ([[97], [100]], .link ⟨[98]⟩), ([[98], [100]], .file []),
    ([[99], [100]], .link ⟨[120]⟩), ([[101], [100]], .directory)], []⟩

theorem matchingFiles_lists_linked :
    linkedNames.WellFormed ∧ linkedNames.isDirectory ⟨[100, 47]⟩ = true ∧
      exists names : List Name, names.Pairwise (· < ·) ∧ [98] ∈ names ∧
        (outcome (matchingFiles ⟨[100, 47]⟩ ⟨"*"⟩) (Session.ofTree
            ⟨linkedNames.entries.reverse, []⟩ (Journal.Filter.ofDirectives []))).1 =
          .ok (names.map fun name => Path.join ⟨[100, 47]⟩ ⟨name⟩) := by
  have hwell : linkedNames.WellFormed := by decide
  have hdir : linkedNames.isDirectory ⟨[100, 47]⟩ = true := by
    cbv
  rcases matchingFiles_lists ⟨[100, 47]⟩ ⟨"*"⟩
    (Session.ofTree linkedNames (Journal.Filter.ofDirectives [])) hwell hdir with
    ⟨a, links, names, paths, hw, -, hmem, hsorted, rfl, -, -, -, hout⟩
  have ha : a = [[100]] := by
    have hwalk := Tree.walk_of_way hw
    have hfound : linkedNames.walk false Tree.maxLinks (linkedNames.origin ⟨[100, 47]⟩)
        (Path.parts [100, 47]) = .ok [[100]] := by
      cbv
    exact Except.ok.inj (hwalk.symm.trans hfound)
  subst ha
  have hcovers : Pattern.Covers "*".toList "b".toList := by
    rw [← Pattern.head?_verdicts]
    rfl
  have hlisted : [98] ∈ names := by
    apply (hmem [98]).mpr
    constructor
    · exact .file rfl
    · exact ⟨"b", rfl, hcovers⟩
    · decide
  have hreversed := hout (Session.ofTree ⟨linkedNames.entries.reverse, []⟩
    (Journal.Filter.ofDirectives [])) ⟨rfl, List.reverse_perm _⟩
  exact ⟨hwell, hdir, names, hsorted, hlisted, hreversed⟩

def oneFile : Tree :=
  ⟨[([[100]], .directory), ([[98], [100]], .file [])], []⟩

def slashed (n : Nat) : Path :=
  ⟨100 :: List.replicate n Path.slash⟩

theorem way_slashed (n : Nat) :
    Tree.Way oneFile Tree.maxLinks (oneFile.origin (slashed n)) (Path.parts (slashed n).octets)
      Tree.maxLinks [[100]] := by
  have hparts : Path.parts (slashed n).octets = [[100]] ++ List.replicate n [] :=
    Path.parts_cons_of_ne (by decide) ((Path.parts_replicate_slash n).trans List.replicate_succ)
  have henter : Tree.Way oneFile Tree.maxLinks [] [[100]] Tree.maxLinks [[100]] :=
    .enter rfl (by decide) (e := .directory) rfl (by simp) (.done _ _)
  rw [hparts]
  exact henter.append_empty rfl fun part hpart => (List.mem_replicate.mp hpart).2

theorem find_slashed {n : Nat} (hn : n < Tree.maxPathLength) :
    oneFile.find false (slashed n) = .ok [[100]] := by
  refine Tree.find_eq_ok_iff.mpr ⟨?_, _, way_slashed n⟩
  have hlength : ¬ Tree.maxPathLength < (slashed n).octets.length := by
    rw [slashed, List.length_cons, List.length_replicate]
    omega
  have hzero : (slashed n).octets.contains 0 = false := by
    simp [slashed, Path.slash]
  rw [Tree.pathFault?, hzero, if_neg Bool.false_ne_true, if_neg hlength]
  rfl

theorem outcome_matchingFiles_slashed {n : Nat} (hn : n + 1 = Tree.maxPathLength)
    (pattern : Pattern) {s : Session} (hs : s.files = oneFile) :
    (outcome (matchingFiles (slashed n) pattern) s).1 = .ok [] := by
  have hseen := congrArg Prod.fst (Session.view_files.matchingFiles (slashed n) pattern s)
  have hwell : oneFile.WellFormed := by decide
  have hn' : n < Tree.maxPathLength := by omega
  rcases exists_names_matchingFiles hwell (find_slashed hn') rfl (way_slashed n) pattern with
    ⟨names, hout, hmem, -⟩
  have hnames : names = [] := by
    rw [List.eq_nil_iff_forall_not_mem]
    intro name hname
    have hlists := (hmem name).mp hname
    rcases hlists.leads.exists_entry with ⟨entry, hentry⟩
    have hproper := hwell.proper hentry
    have hle := hlists.short
    rw [Path.octets_join hproper.no_slash, List.length_append] at hle
    have hpos := List.length_pos_iff.mpr hproper.ordinary.ne_nil
    have hslashed : n + 1 ≤ (Path.withSlash (slashed n).octets).length := by
      unfold Path.withSlash
      split <;> simp [slashed]
    omega
  rw [hs, hout, hnames] at hseen
  exact hseen.symm

theorem matchingFiles_longDirectory :
    oneFile.WellFormed ∧ oneFile.isDirectory (slashed 4094) = true ∧
      oneFile.at? [[98], [100]] = some (.file []) ∧ Pattern.matchesName ⟨"*"⟩ "b" = true ∧
      (outcome (matchingFiles (slashed 4094) ⟨"*"⟩)
        (Session.ofTree oneFile (Journal.Filter.ofDirectives []))).1 = .ok [] := by
  have hdir : oneFile.isDirectory (slashed 4094) = true :=
    Tree.isDirectory_iff.mpr ⟨_, find_slashed (by decide), rfl⟩
  have hwell : oneFile.WellFormed := by decide
  have hcovers : Pattern.matchesName ⟨"*"⟩ "b" = true := by decide
  have hnone := outcome_matchingFiles_slashed (n := 4094) (by decide) ⟨"*"⟩
    (s := Session.ofTree oneFile (Journal.Filter.ofDirectives [])) rfl
  exact ⟨hwell, hdir, rfl, hcovers, hnone⟩

end Extractor
end Clippings
