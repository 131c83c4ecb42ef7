import Mathlib
import Clippings.Proofs.Extraction.Directory

/-!
# Extracting from a directory again

A run writes below its output directory only.  So when its input directory is another one, a run
leaves the listing and the inputs as they are, and no output of it stands in the way of another one.
The run after it then has the same answer and makes the same writes, and these put into the output
directory what is there.
-/

namespace Clippings

/-!
## Files put into a directory
-/

namespace Storage
namespace Tree

def putAll (b : Address) (t : Tree) (files : List (Name × List UInt8)) : Tree :=
  files.foldl (fun t f => t.set (f.1 :: b) (.file f.2)) t

theorem putAll_eq (b : Address) (t : Tree) {files : List (Name × List UInt8)}
    (hfiles : (files.map (·.1)).Nodup) :
    putAll b t files =
      ⟨(files.map fun f => (f.1 :: b, Entry.file f.2)).reverse ++
        t.entries.filter (fun entry => entry.1 ∉ files.map (·.1 :: b)), t.here⟩ := by
  induction files generalizing t with
  | nil => simp [putAll]
  | cons f rest ih =>
      rcases List.nodup_cons.mp hfiles with ⟨hfresh, hrest⟩
      have hkept : f.1 :: b ∉ rest.map (·.1 :: b) := by
        intro hmem
        rcases List.mem_map.mp hmem with ⟨g, hg, heq⟩
        exact hfresh (List.mem_map.mpr ⟨g, hg, (List.cons.inj heq).1⟩)
      change putAll b (t.set (f.1 :: b) (.file f.2)) rest = _
      rw [ih _ hrest]
      simp only [set, List.filter_cons, hkept, not_false_eq_true, decide_true, if_true,
        List.filter_filter, List.map_cons, List.reverse_cons, List.append_assoc,
        List.singleton_append, List.mem_cons, not_or]
      congr 5
      funext entry
      rw [Bool.eq_iff_iff]
      simp [and_comm]

theorem putAll_putAll (b : Address) (t : Tree) {files : List (Name × List UInt8)}
    (hfiles : (files.map (·.1)).Nodup) :
    putAll b (putAll b t files) files = putAll b t files := by
  have hover : ((files.map fun f => (f.1 :: b, Entry.file f.2)).reverse.filter fun entry =>
      decide (entry.1 ∉ files.map (·.1 :: b))) = [] := by
    rw [List.filter_eq_nil_iff]
    intro entry hentry
    rcases List.mem_map.mp (List.mem_reverse.mp hentry) with ⟨f, hf, rfl⟩
    simpa using ⟨f.2, hf⟩
  rw [putAll_eq b (putAll b t files) hfiles, putAll_eq b t hfiles]
  simp only [List.filter_append, hover, List.nil_append, List.filter_filter, Bool.and_self]

/-!
## Trees that differ in the files of one directory
-/

/-- The second tree may have other files in the directory `b`, but no other directories there, and
the directory `a` is as in the first one. -/
structure Alike (a b : Address) (t t' : Tree) : Prop where
  listed : (t'.entries.map (·.1)).filterMap (nameIn? a) =
    (t.entries.map (·.1)).filterMap (nameIn? a)
  input : forall name, t'.at? (name :: a) = t.at? (name :: a)
  output : forall name, t'.at? (name :: b) = some .directory <-> t.at? (name :: b) = some .directory

section Alike

variable {a b : Address} {t t' t'' : Tree}

theorem Alike.refl (a b : Address) (t : Tree) :
    Alike a b t t :=
  ⟨rfl, fun _ => rfl, fun _ => Iff.rfl⟩

theorem Alike.trans (h : Alike a b t t') (h' : Alike a b t' t'') :
    Alike a b t t'' := by
  constructor
  · exact h'.listed.trans h.listed
  · intro name
    exact (h'.input name).trans (h.input name)
  · intro name
    exact (h'.output name).trans (h.output name)

theorem listed_set (hab : a ≠ b) (t : Tree) (name : Name) (e : Entry) :
    ((t.set (name :: b) e).entries.map (·.1)).filterMap (nameIn? a) =
      (t.entries.map (·.1)).filterMap (nameIn? a) := by
  have hhead : nameIn? a (name :: b) = none := by
    rw [Option.eq_none_iff_forall_ne_some]
    intro other hother
    exact hab (List.cons.inj (nameIn?_eq_some.mp hother)).2.symm
  simp only [set, List.map_cons, List.filterMap_cons, hhead, List.filterMap_map]
  rw [List.filterMap_filter]
  apply List.filterMap_congr
  intro entry _
  by_cases hentry : entry.1 = name :: b
  · simp [hentry, hhead]
  · simp [hentry]

theorem at?_set_of_ne_parent (hab : a ≠ b) (t : Tree) (name other : Name) (e : Entry) :
    (t.set (name :: b) e).at? (other :: a) = t.at? (other :: a) :=
  t.at?_set_of_ne e (fun heq => hab (List.cons.inj heq).2)

theorem alike_set (hab : a ≠ b) {name : Name} (content : List UInt8)
    (hdir : t.at? (name :: b) ≠ some .directory) :
    Alike a b t (t.set (name :: b) (.file content)) := by
  constructor
  · exact listed_set hab t name _
  · intro other
    exact at?_set_of_ne_parent hab t name other _
  · intro other
    by_cases hother : other :: b = name :: b
    · rw [hother, t.at?_set_self _ (List.cons_ne_nil name b)]
      simp [hdir]
    · rw [t.at?_set_of_ne _ hother]

theorem Alike.set (h : Alike a b t t') (hab : a ≠ b) {name : Name} (content : List UInt8)
    (hdir : t.at? (name :: b) ≠ some .directory) :
    Alike a b (t.set (name :: b) (.file content)) (t'.set (name :: b) (.file content)) := by
  have hdir' : t'.at? (name :: b) ≠ some .directory := fun hd => hdir ((h.output name).mp hd)
  have h₁ := alike_set hab content hdir
  have h₂ := alike_set hab content hdir'
  constructor
  · exact h₂.listed.trans (h.listed.trans h₁.listed.symm)
  · intro other
    exact (h₂.input other).trans ((h.input other).trans (h₁.input other).symm)
  · intro other
    exact (h₂.output other).trans ((h.output other).trans (h₁.output other).symm)

end Alike
end Tree
end Storage

namespace Extractor

open Host (outcome)
open Storage (Tree Address Name)

/-!
## What becomes of one file
-/

section Name

variable {e : Extractor} {directory : Path} {a b : Address} {t t' : Tree} {name : Name}

theorem not_directory_of_fate {text : String} (hbatch : Batch e directory a b t)
    (hreadable : Readable directory a t name)
    (h : e.fate t (directory.join ⟨name⟩) = .ok text) :
    t.at? (name :: b) ≠ some .directory := by
  rcases hreadable.file with ⟨content, hfile⟩
  intro hdir
  rw [fate_join hbatch hreadable.proper hfile hreadable.short] at h
  split at h
  · cases h
  · rw [if_pos hdir] at h
    split at h <;> cases h

theorem Readable.alike (h : Readable directory a t name) (halike : Tree.Alike a b t t') :
    Readable directory a t' name := by
  rcases h.file with ⟨content, hfile⟩
  have hfile' : t'.at? (name :: a) = some (.file content) := (halike.input name).trans hfile
  exact ⟨h.proper, ⟨content, hfile'⟩, h.short⟩

/-- What other files are in the output directory plays no part. -/
theorem fate_alike (hbatch : Batch e directory a b t) (hbatch' : Batch e directory a b t')
    (hreadable : Readable directory a t name) (halike : Tree.Alike a b t t') :
    e.fate t' (directory.join ⟨name⟩) = e.fate t (directory.join ⟨name⟩) := by
  rcases hreadable.file with ⟨content, hfile⟩
  rw [fate_join hbatch hreadable.proper hfile hreadable.short,
    fate_join hbatch' hreadable.proper ((halike.input name).trans hfile) hreadable.short]
  simp only [halike.output name]

theorem outcome_extract_alike (hbatch : Batch e directory a b t)
    (hbatch' : Batch e directory a b t') (hreadable : Readable directory a t name)
    (halike : Tree.Alike a b t t') :
    outcome (e.extract (directory.join ⟨name⟩)) t' =
      match e.fate t (directory.join ⟨name⟩) with
      | .error f => (.error f, t')
      | .ok text => (.ok (e.outputDirectory.join ⟨name⟩),
          t'.set (name :: b) (.file (Text.Utf8.encode text.toList))) := by
  rcases (hreadable.alike halike).file with ⟨content, hfile⟩
  have hextract := outcome_extract_fate hbatch' hreadable.proper hfile hreadable.short
  rw [fate_alike hbatch hbatch' hreadable halike] at hextract
  exact hextract

end Name

/-!
## What a run answers and writes
-/

section Run

variable {e : Extractor} {directory : Path} {a b : Address} {names : List Name} {t : Tree}
  {files : List (Name × List UInt8)}

structure Puts (e : Extractor) (directory : Path) (a b : Address) (names : List Name) (t : Tree)
    (files : List (Name × List UInt8)) : Prop where
  named : (files.map (·.1)).Sublist names
  keeps : Tree.Keeps t (Tree.putAll b t files)
  batch : Batch e directory a b (Tree.putAll b t files)
  alike : Tree.Alike a b t (Tree.putAll b t files)

theorem Puts.none (names : List Name) (hbatch : Batch e directory a b t) :
    Puts e directory a b names t [] :=
  ⟨List.nil_sublist names, Tree.Keeps.refl t, hbatch, Tree.Alike.refl a b t⟩

theorem Puts.skip (h : Puts e directory a b names t files) (name : Name) :
    Puts e directory a b (name :: names) t files :=
  ⟨h.named.cons name, h.keeps, h.batch, h.alike⟩

theorem Puts.first {name : Name} {content : List UInt8} (hab : a ≠ b)
    (hbatch : Batch e directory a b t) (hdir : t.at? (name :: b) ≠ some .directory)
    (h : Puts e directory a b names (t.set (name :: b) (.file content)) files) :
    Puts e directory a b (name :: names) t ((name, content) :: files) :=
  ⟨h.named.cons_cons name, (hbatch.set content hdir).1.trans h.keeps, h.batch,
    (Tree.alike_set hab content hdir).trans h.alike⟩

theorem exists_answer_extractOnto (hab : a ≠ b) (policy : Policy) (r : Report)
    (hbatch : Batch e directory a b t)
    (hnames : forall name, name ∈ names -> Readable directory a t name) :
    exists (answer : Except Failure Report) (files : List (Name × List UInt8)),
      Puts e directory a b names t files ∧
      forall t', Batch e directory a b t' -> Tree.Alike a b t t' ->
        outcome (e.extractOnto policy (fun _ => pure ()) r
          (names.map fun name => directory.join ⟨name⟩)) t' = (answer, Tree.putAll b t' files) := by
  induction names generalizing t r with
  | nil => exact ⟨.ok r, [], .none [] hbatch, fun _ _ _ => rfl⟩
  | cons name rest ih =>
      have hfirst := hnames name List.mem_cons_self
      have hlater : forall other, other ∈ rest -> Readable directory a t other :=
        fun other hother => hnames other (List.mem_cons_of_mem name hother)
      have hone := fun t' (hbatch' : Batch e directory a b t') (halike : Tree.Alike a b t t') =>
        outcome_extract_alike hbatch hbatch' hfirst halike
      cases hfate : e.fate t (directory.join ⟨name⟩) with
      | error f =>
          simp only [hfate] at hone
          cases policy with
          | failFast =>
              refine ⟨.error f, [], .none _ hbatch, ?_⟩
              intro t' hbatch' halike
              exact outcome_extractOnto_failFast (hone t' hbatch' halike) r _
          | keepGoing =>
              rcases ih (r.addFailure f) hbatch hlater with ⟨answer, files, hputs, hrun⟩
              refine ⟨answer, files, hputs.skip name, ?_⟩
              intro t' hbatch' halike
              rw [List.map_cons, outcome_extractOnto_keepGoing (hone t' hbatch' halike)]
              exact hrun t' hbatch' halike
      | ok text =>
          simp only [hfate] at hone
          have hdir := not_directory_of_fate hbatch hfirst hfate
          have hset := Tree.alike_set hab (Text.Utf8.encode text.toList) hdir
          rcases ih (r.addExtracted (e.pairOf directory name)) (hbatch.set _ hdir).2
            (fun other hother => (hlater other hother).alike hset) with
            ⟨answer, files, hputs, hrun⟩
          exists answer
          exists (name, Text.Utf8.encode text.toList) :: files
          refine ⟨.first hab hbatch hdir hputs, ?_⟩
          intro t' hbatch' halike
          have hdir' : t'.at? (name :: b) ≠ some .directory :=
            fun hd => hdir ((halike.output name).mp hd)
          rw [List.map_cons, outcome_extractOnto_of_ok (hone t' hbatch' halike)]
          exact hrun _ (hbatch'.set _ hdir').2 (halike.set hab _ hdir)

end Run

/-!
## The whole directory
-/

section Whole

variable {e : Extractor} {directory : Path} {a b : Address} {t t' : Tree}

theorem inputNames_alike (ht : t.WellFormed) (hbatch : Batch e directory a b t)
    (hbatch' : Batch e directory a b t') (halike : Tree.Alike a b t t') (pattern : Pattern) :
    inputNames t' directory pattern ((t'.entries.map (·.1)).filterMap (Tree.nameIn? a)) =
      inputNames t directory pattern ((t.entries.map (·.1)).filterMap (Tree.nameIn? a)) := by
  unfold inputNames
  rw [halike.listed]
  apply List.filter_congr
  intro name hname
  rw [List.mem_mergeSort, Tree.mem_names_iff] at hname
  rcases hname with ⟨entry, hentry⟩
  have hproper := ht.proper hentry
  unfold isInput Tree.isFile
  rw [Tree.entryOf?_join hbatch.input hproper (hbatch.linkFree _),
    Tree.entryOf?_join hbatch'.input hproper (hbatch'.linkFree _), halike.input name]

/-- A run leaves a tree that the same run leaves as it is. -/
theorem exists_outcome_extractAll (pattern : Pattern) (policy : Policy) (ht : t.WellFormed)
    (hlinks : t.LinkFree)
    (hmake : outcome (Host.makeDirectories e.outputDirectory) t = (.ok (), t'))
    (hother : forall a, t'.find false directory = .ok a -> ¬ Tree.Opens t' e.outputDirectory a) :
    exists answer t'',
      outcome (e.extractAll directory pattern policy (fun _ => pure ())) t = (answer, t'') ∧
      outcome (e.extractAll directory pattern policy (fun _ => pure ())) t'' = (answer, t'') := by
  rcases Tree.made_makeDirectories e.outputDirectory ht with ⟨hgrows, ht'⟩
  rw [hmake] at hgrows ht'
  rcases Tree.makeDirectories_again hmake with ⟨hthere, hmade⟩
  have hagain := hmade t' (Tree.Keeps.refl t')
  cases hnames : t'.names directory with
  | error f =>
      exists .error (.storage directory f)
      exists t'
      constructor
      · rw [outcome_extractAll_of_made hmake, outcome_matchingFiles_error hnames]
      · rw [outcome_extractAll_of_made hagain, outcome_matchingFiles_error hnames]
  | ok names =>
      rcases ht'.exists_opens hthere with ⟨b, hb⟩
      rcases Tree.find_of_names hnames with ⟨a, hfind, ha⟩
      have hab : a ≠ b := by
        rintro rfl
        exact hother a hfind hb
      have hbatch : Batch e directory a b t' :=
        ⟨Tree.opens_of_find hfind ha, hb, hmade, hlinks.unlinked.grows hgrows⟩
      have hnodup := nodup_inputNames ht' hfind ha hnames pattern
      have hreadable : forall name, name ∈ inputNames t' directory pattern names ->
          Readable directory a t' name := by
        intro name hname
        rcases (mem_inputNames_iff ht' hbatch.linkFree hfind ha hnames).mp hname with ⟨_, h⟩
        exact h.readable ht'
      rcases exists_answer_extractOnto hab policy Report.empty hbatch hreadable with
        ⟨answer, files, hputs, hrun⟩
      have hnames'' := Tree.names_of_find (hputs.keeps.find hfind) (hputs.keeps.directory ha)
      have hinputs := inputNames_alike ht' hbatch hputs.batch hputs.alike pattern
      rw [Tree.names_of_find hfind ha] at hnames
      cases hnames
      exists answer
      exists Tree.putAll b t' files
      constructor
      · rw [outcome_extractAll_of_made hmake,
          outcome_matchingFiles (Tree.names_of_find hfind ha)]
        exact hrun t' hbatch (Tree.Alike.refl a b t')
      · have hfixed := hrun (Tree.putAll b t' files) hputs.batch hputs.alike
        rw [Tree.putAll_putAll b t' (hnodup.sublist hputs.named)] at hfixed
        rw [outcome_extractAll_of_made (hmade _ hputs.keeps), outcome_matchingFiles hnames'']
        change outcome (e.extractOnto policy _ Report.empty
          ((inputNames _ directory pattern _).map _)) _ = _
        rw [hinputs]
        exact hfixed

end Whole

/-- To extract from a directory again, if it is not the output directory, has the same answer and
changes no file, whatever the first run came to. -/
theorem extractAll_again (e : Extractor) (directory : Path) (pattern : Pattern) (policy : Policy)
    (s s₀ : Session) (hs : s.files.WellFormed) (hlinks : s.files.LinkFree)
    (hmake : outcome (Host.makeDirectories e.outputDirectory) s = (.ok (), s₀))
    (hother : forall a, s₀.files.find false directory = .ok a ->
      ¬ Tree.Opens s₀.files e.outputDirectory a) :
    exists answer s₁ s₂,
      outcome (e.extractAll directory pattern policy (fun _ => pure ())) s = (answer, s₁) ∧
      outcome (e.extractAll directory pattern policy (fun _ => pure ())) s₁ = (answer, s₂) ∧
      s₂.files = s₁.files := by
  have hmade := Session.view_files.makeDirectories e.outputDirectory s
  rw [hmake] at hmade
  rcases exists_outcome_extractAll pattern policy hs hlinks hmade hother with
    ⟨answer, t, hfirst, hsecond⟩
  have hseen := Session.view_files.extractAll Session.seen_silent e directory pattern policy
  cases h₁ : outcome (e.extractAll directory pattern policy (fun _ => pure ())) s with
  | mk answer₁ s₁ =>
      have hseen₁ := hseen s
      rw [hfirst, h₁] at hseen₁
      injection hseen₁ with hanswer₁ hfiles₁
      cases h₂ : outcome (e.extractAll directory pattern policy (fun _ => pure ())) s₁ with
      | mk answer₂ s₂ =>
          have hseen₂ := hseen s₁
          rw [← hfiles₁, hsecond, h₂] at hseen₂
          injection hseen₂ with hanswer₂ hfiles₂
          have hsame : answer₂ = answer₁ := hanswer₂.symm.trans hanswer₁
          exact ⟨answer₁, s₁, s₂, rfl, by rw [h₂, hsame], hfiles₂.symm.trans hfiles₁⟩

/-- The output directory is made in the input directory, and one of the two files there cannot be
written. -/
theorem extractAll_again_definitions :
    definitions.WellFormed ∧ definitions.LinkFree ∧
      exists answer s₁ s₂,
        outcome (extractAll ⟨⟨[111]⟩, "a"⟩ ⟨[46]⟩ ⟨"*"⟩ .keepGoing (fun _ => pure ()))
          (Session.ofTree definitions (Journal.Filter.ofDirectives [])) = (answer, s₁) ∧
        outcome (extractAll ⟨⟨[111]⟩, "a"⟩ ⟨[46]⟩ ⟨"*"⟩ .keepGoing (fun _ => pure ())) s₁ =
          (answer, s₂) ∧
        s₂.files = s₁.files := by
  have hwell : definitions.WellFormed := by decide
  have hlinks : definitions.LinkFree := by decide
  have hmake : outcome (Host.makeDirectories ⟨[111]⟩)
      (Session.ofTree definitions (Journal.Filter.ofDirectives [])) =
        (.ok (), Session.ofTree (definitions.set [[111]] .directory)
          (Journal.Filter.ofDirectives [])) := by
    cbv
  have hinput : (definitions.set [[111]] .directory).find false ⟨[46]⟩ = .ok [] := by
    cbv
  have houtput : (definitions.set [[111]] .directory).find false ⟨[111]⟩ = .ok [[111]] := by
    cbv
  have hapart : forall a, (definitions.set [[111]] .directory).find false ⟨[46]⟩ = .ok a ->
      ¬ Tree.Opens (definitions.set [[111]] .directory) ⟨[111]⟩ a := by
    intro a ha hopens
    have hfind : (definitions.set [[111]] .directory).find false ⟨[111]⟩ = .ok a :=
      Tree.find_eq_ok_iff.mpr ⟨rfl, hopens.way⟩
    rw [houtput] at hfind
    cases hinput.symm.trans ha
    cases hfind
  have hagain :=
    extractAll_again ⟨⟨[111]⟩, "a"⟩ ⟨[46]⟩ ⟨"*"⟩ .keepGoing _ _ hwell hlinks hmake hapart
  exact ⟨hwell, hlinks, hagain⟩

end Extractor
end Clippings
