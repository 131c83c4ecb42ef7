import Mathlib
import Clippings.Proofs.Extraction.Policy
import Clippings.Proofs.Extraction.Single
import Clippings.Proofs.Storage.Joined
import Clippings.Proofs.Yaml.Steps

/-!
# Extracting from a directory

In a tree without links, what becomes of one file of a directory depends on nothing but that file,
as it was before the run, and on what stands under its name in the output directory.  This holds
also where the two directories are the same or lie in each other.
-/

namespace Clippings
namespace Extractor

open Host (outcome)
open Storage (Tree Address Name)

/-!
## The files of a directory
-/

theorem outcome_keepFiles (ps : List Path) (t : Tree) :
    outcome (keepFiles ps) t = (ps.filter t.isFile, t) := by
  induction ps with
  | nil => rfl
  | cons p rest ih =>
      rw [keepFiles, Host.outcome_bind]
      change outcome (keepFiles rest >>= _) t = _
      rw [Host.outcome_bind, ih]
      change (if t.isFile p then p :: rest.filter t.isFile else rest.filter t.isFile, t) = _
      rw [List.filter_cons]

def isInput (t : Tree) (directory : Path) (pattern : Pattern) (name : Name) : Bool :=
  t.isFile (directory.join ⟨name⟩) && pattern.matchesPath (directory.join ⟨name⟩)

theorem outcome_matchingFiles {t : Tree} {directory : Path} {names : List Name}
    (h : t.names directory = .ok names) (pattern : Pattern) :
    outcome (matchingFiles directory pattern) t =
      (.ok (((names.mergeSort fun a b => !(b < a)).filter (isInput t directory pattern)).map
        fun name => directory.join ⟨name⟩), t) := by
  unfold matchingFiles
  rw [Host.outcome_bind]
  change outcome (match t.names directory with
    | .error f => _
    | .ok names => _) t = _
  rw [h]
  simp only
  rw [Host.outcome_bind, outcome_keepFiles]
  simp only [Host.outcome_pure, List.filter_map, List.filter_filter]
  congr 5
  funext name
  exact Bool.and_comm _ _

theorem outcome_matchingFiles_error {t : Tree} {directory : Path} {f : Storage.Fault}
    (h : t.names directory = .error f) (pattern : Pattern) :
    outcome (matchingFiles directory pattern) t = (.error (.storage directory f), t) := by
  unfold matchingFiles
  rw [Host.outcome_bind]
  change outcome (match t.names directory with
    | .error f => _
    | .ok names => _) t = _
  rw [h]
  rfl

/-!
## One name
-/

structure Batch (e : Extractor) (directory : Path) (a b : Address) (t : Tree) : Prop where
  input : Tree.Opens t directory a
  output : Tree.Opens t e.outputDirectory b
  made : forall t', Tree.Keeps t t' ->
    outcome (Host.makeDirectories e.outputDirectory) t' = (.ok (), t')
  linkFree : forall c entry, t.at? c = some entry -> entry.isLink = false

/-- The text that is written for a name, if its snippet can be had and may be put there. -/
def written? (e : Extractor) (directory : Path) (a b : Address) (t : Tree) (name : Name) :
    Option String :=
  match t.at? (name :: a) with
  | some (.file content) =>
    match e.textOf (directory.join ⟨name⟩) content with
    | .error _ => none
    | .ok text =>
      if Tree.maxPathLength < (e.outputDirectory.join ⟨name⟩).octets.length then none
      else if t.at? (name :: b) = some .directory then none
      else some text
  | _ => none

theorem outputPath_join (e : Extractor) (directory : Path) {name : Name}
    (hname : Tree.Proper name) :
    e.outputPath (directory.join ⟨name⟩) = .ok (e.outputDirectory.join ⟨name⟩) := by
  unfold outputPath
  rw [Path.fileName?_join directory hname.no_slash hname.ordinary.ne_nil hname.ordinary.ne_dot
    hname.ordinary.ne_dotDot]

/-- The text that is written for an input, or the failure, where the output directory is there. -/
def fate (e : Extractor) (t : Tree) (input : Path) : Except Failure String :=
  match e.plan t input with
  | .error f => .error f
  | .ok (output, text) =>
    match t.write output (Text.Utf8.encode text.toList) with
    | .error f => .error (.storage output f)
    | .ok _ => .ok text

theorem fate_join {e : Extractor} {directory : Path} {a b : Address} {t : Tree} {name : Name}
    {content : List UInt8} (hbatch : Batch e directory a b t) (hname : Tree.Proper name)
    (hfile : t.at? (name :: a) = some (.file content))
    (hlen : (directory.join ⟨name⟩).octets.length ≤ Tree.maxPathLength) :
    e.fate t (directory.join ⟨name⟩) =
      match e.textOf (directory.join ⟨name⟩) content with
      | .error f => .error f
      | .ok text =>
        if Tree.maxPathLength < (e.outputDirectory.join ⟨name⟩).octets.length then
          .error (.storage (e.outputDirectory.join ⟨name⟩) .nameTooLong)
        else if t.at? (name :: b) = some .directory then
          .error (.storage (e.outputDirectory.join ⟨name⟩) .isDirectory)
        else .ok text := by
  unfold fate plan
  rw [outputPath_join e directory hname, Tree.read_join hbatch.input hname hfile hlen]
  simp only
  cases e.textOf (directory.join ⟨name⟩) content with
  | error f => rfl
  | ok text =>
      simp only [Except.map]
      rw [Tree.write_join _ hbatch.output hname (hbatch.linkFree (name :: b))]
      split_ifs <;> rfl

/-- What happens to one file: its text is written, or it fails and nothing changes. -/
theorem outcome_extract_fate {e : Extractor} {directory : Path} {a b : Address} {t : Tree}
    {name : Name} {content : List UInt8} (hbatch : Batch e directory a b t)
    (hname : Tree.Proper name) (hfile : t.at? (name :: a) = some (.file content))
    (hlen : (directory.join ⟨name⟩).octets.length ≤ Tree.maxPathLength) :
    outcome (e.extract (directory.join ⟨name⟩)) t =
      match e.fate t (directory.join ⟨name⟩) with
      | .error f => (.error f, t)
      | .ok text => (.ok (e.outputDirectory.join ⟨name⟩),
          t.set (name :: b) (.file (Text.Utf8.encode text.toList))) := by
  have hextract := outcome_extract e t (directory.join ⟨name⟩)
  unfold plan at hextract
  rw [outputPath_join e directory hname, Tree.read_join hbatch.input hname hfile hlen] at hextract
  rw [hextract, fate_join hbatch hname hfile hlen]
  simp only
  cases e.textOf (directory.join ⟨name⟩) content with
  | error f => rfl
  | ok text =>
      simp only [Except.map, outcome_writeText, hbatch.made t (Tree.Keeps.refl t)]
      rw [Tree.write_join _ hbatch.output hname (hbatch.linkFree (name :: b))]
      split_ifs <;> rfl

theorem outcome_extract_name {e : Extractor} {directory : Path} {a b : Address} {t : Tree}
    {name : Name} {content : List UInt8} (hbatch : Batch e directory a b t)
    (hname : Tree.Proper name) (hfile : t.at? (name :: a) = some (.file content))
    (hlen : (directory.join ⟨name⟩).octets.length ≤ Tree.maxPathLength) :
    match e.written? directory a b t name with
    | some text => outcome (e.extract (directory.join ⟨name⟩)) t =
        (.ok (e.outputDirectory.join ⟨name⟩),
          t.set (name :: b) (.file (Text.Utf8.encode text.toList)))
    | none => exists f, outcome (e.extract (directory.join ⟨name⟩)) t = (.error f, t) ∧
        f.path.fileName? = some name := by
  have hinputName := Path.fileName?_join directory hname.no_slash hname.ordinary.ne_nil
    hname.ordinary.ne_dot hname.ordinary.ne_dotDot
  have houtputName := Path.fileName?_join e.outputDirectory hname.no_slash hname.ordinary.ne_nil
    hname.ordinary.ne_dot hname.ordinary.ne_dotDot
  rw [outcome_extract_fate hbatch hname hfile hlen, fate_join hbatch hname hfile hlen, written?,
    hfile]
  simp only
  cases htext : e.textOf (directory.join ⟨name⟩) content with
  | error f => exact ⟨f, rfl, by rw [path_of_textOf htext, hinputName]⟩
  | ok text =>
      simp only
      by_cases hlong : Tree.maxPathLength < (e.outputDirectory.join ⟨name⟩).octets.length
      · rw [if_pos hlong, if_pos hlong]
        exact ⟨_, rfl, houtputName⟩
      · rw [if_neg hlong, if_neg hlong]
        by_cases hdir : t.at? (name :: b) = some .directory
        · rw [if_pos hdir, if_pos hdir]
          exact ⟨_, rfl, houtputName⟩
        · rw [if_neg hdir, if_neg hdir]

theorem Batch.set {e : Extractor} {directory : Path} {a b : Address} {t : Tree} {name : Name}
    (h : Batch e directory a b t) (content : List UInt8)
    (hdir : t.at? (name :: b) ≠ some .directory) :
    Tree.Keeps t (t.set (name :: b) (.file content)) ∧
      Batch e directory a b (t.set (name :: b) (.file content)) := by
  have hkeeps : Tree.Keeps t (t.set (name :: b) (.file content)) := by
    apply keeps_set
    cases hold : t.at? (name :: b) with
    | none => exact Or.inl rfl
    | some entry =>
        cases entry with
        | file old => exact Or.inr ⟨old, rfl⟩
        | directory => exact absurd hold hdir
        | link target => exact absurd (h.linkFree _ _ hold) (by simp [Storage.Entry.isLink])
  refine ⟨hkeeps, h.input.keeps hkeeps, h.output.keeps hkeeps, ?_, ?_⟩
  · intro t' ht'
    exact h.made t' (hkeeps.trans ht')
  · intro c entry hc
    by_cases hcb : c = name :: b
    · rw [hcb, t.at?_set_self _ (List.cons_ne_nil name b)] at hc
      cases hc
      rfl
    · rw [t.at?_set_of_ne _ hcb] at hc
      exact h.linkFree c entry hc

/-!
## All names

A write under one name leaves what stands under the other names in both directories, so what is
going to be written for them stays the same.
-/

theorem written?_set {e : Extractor} {directory : Path} {a b : Address} {t : Tree}
    {name other : Name} (content : List UInt8) (h : other ≠ name) :
    e.written? directory a b (t.set (name :: b) (.file content)) other =
      e.written? directory a b t other := by
  have hne : forall c : Address, other :: c ≠ name :: b := by
    intro c heq
    exact h (List.cons.inj heq).1
  unfold written?
  rw [t.at?_set_of_ne _ (hne a), t.at?_set_of_ne _ (hne b)]

structure Readable (directory : Path) (a : Address) (t : Tree) (name : Name) : Prop where
  proper : Tree.Proper name
  file : exists content, t.at? (name :: a) = some (.file content)
  short : (directory.join ⟨name⟩).octets.length ≤ Tree.maxPathLength

structure Left (e : Extractor) (directory : Path) (a b : Address) (names : List Name)
    (t t' : Tree) : Prop where
  keeps : Tree.Keeps t t'
  batch : Batch e directory a b t'
  written : forall name, name ∈ names -> forall text,
    e.written? directory a b t name = some text ->
      t'.at? (name :: b) = some (.file (Text.Utf8.encode text.toList))
  others : forall c,
    (forall name, name ∈ names -> c = name :: b -> e.written? directory a b t name = none) ->
      t'.at? c = t.at? c

theorem Left.cons_none {e : Extractor} {directory : Path} {a b : Address} {t t' : Tree}
    {name : Name} {rest : List Name} (hnone : e.written? directory a b t name = none)
    (h : Left e directory a b rest t t') :
    Left e directory a b (name :: rest) t t' := by
  refine ⟨h.keeps, h.batch, ?_, ?_⟩
  · intro other hother text htext
    rcases List.mem_cons.mp hother with rfl | hother
    · rw [hnone] at htext
      cases htext
    · exact h.written other hother text htext
  · intro c hc
    exact h.others c (fun other hother => hc other (List.mem_cons_of_mem name hother))

theorem Left.cons_some {e : Extractor} {directory : Path} {a b : Address} {t t' : Tree}
    {name : Name} {rest : List Name} {text : String}
    (hsome : e.written? directory a b t name = some text)
    (hkeeps : Tree.Keeps t (t.set (name :: b) (.file (Text.Utf8.encode text.toList))))
    (hfresh : name ∉ rest)
    (h : Left e directory a b rest (t.set (name :: b) (.file (Text.Utf8.encode text.toList))) t') :
    Left e directory a b (name :: rest) t t' := by
  have hself := t.at?_set_self (.file (Text.Utf8.encode text.toList)) (List.cons_ne_nil name b)
  have hother : forall other, other ∈ rest -> other ≠ name := by
    rintro other hmem rfl
    exact hfresh hmem
  refine ⟨hkeeps.trans h.keeps, h.batch, ?_, ?_⟩
  · intro other hmem text' htext'
    rcases List.mem_cons.mp hmem with rfl | hmem
    · rw [hsome] at htext'
      cases htext'
      rw [h.others, hself]
      intro other' hother' heq
      exact absurd (List.cons.inj heq).1.symm (hother other' hother')
    · apply h.written other hmem text'
      rw [written?_set _ (hother other hmem), htext']
  · intro c hc
    have hcne : c ≠ name :: b := by
      intro heq
      have := hc name List.mem_cons_self heq
      rw [hsome] at this
      cases this
    rw [h.others, t.at?_set_of_ne _ hcne]
    intro other hmem heq
    rw [written?_set _ (hother other hmem)]
    exact hc other (List.mem_cons_of_mem name hmem) heq

theorem Readable.set {directory : Path} {a b : Address} {t : Tree} {name other : Name}
    (h : Readable directory a t other) (content : List UInt8) (hne : other ≠ name) :
    Readable directory a (t.set (name :: b) (.file content)) other := by
  refine ⟨h.proper, ?_, h.short⟩
  rcases h.file with ⟨old, hold⟩
  exists old
  rw [t.at?_set_of_ne _ (fun heq => hne (List.cons.inj heq).1), hold]

def pairOf (e : Extractor) (directory : Path) (name : Name) : Extracted :=
  ⟨directory.join ⟨name⟩, e.outputDirectory.join ⟨name⟩⟩

theorem outcome_extractOnto_names {e : Extractor} {directory : Path} {a b : Address} {t : Tree}
    {names : List Name} (r : Report) (hbatch : Batch e directory a b t) (hnodup : names.Nodup)
    (hnames : forall name, name ∈ names -> Readable directory a t name) :
    exists fs t',
      outcome (e.extractOnto .keepGoing (fun _ => pure ()) r
        (names.map fun name => directory.join ⟨name⟩)) t =
        (.ok ⟨r.extracted ++ (names.filter fun name =>
            (e.written? directory a b t name).isSome).map (e.pairOf directory),
          r.failures ++ fs⟩, t') ∧
      fs.map (fun f => f.path.fileName?) =
        (names.filter fun name => (e.written? directory a b t name).isNone).map some ∧
      Left e directory a b names t t' := by
  induction names generalizing t r with
  | nil =>
      refine ⟨[], t, ?_, rfl, Tree.Keeps.refl t, hbatch, by simp, fun _ _ => rfl⟩
      simp [outcome_extractOnto_nil]
  | cons name rest ih =>
      rcases List.nodup_cons.mp hnodup with ⟨hfresh, hnodup⟩
      have hfirst := hnames name List.mem_cons_self
      rcases hfirst.file with ⟨content, hfile⟩
      have hone := outcome_extract_name hbatch hfirst.proper hfile hfirst.short
      rw [List.map_cons, List.filter_cons, List.filter_cons]
      cases hwritten : e.written? directory a b t name with
      | none =>
          rw [hwritten] at hone
          rcases hone with ⟨f, hf, hfname⟩
          rcases ih (r.addFailure f) hbatch hnodup
            (fun other hother => hnames other (List.mem_cons_of_mem name hother)) with
            ⟨fs, t', hrun, hfs, hleft⟩
          refine ⟨f :: fs, t', ?_, ?_, hleft.cons_none hwritten⟩
          · rw [outcome_extractOnto_keepGoing hf]
            change outcome (e.extractOnto .keepGoing _ (r.addFailure f) _) t = _
            rw [hrun]
            simp [Report.addFailure]
          · simp [hfname, hfs]
      | some text =>
          rw [hwritten] at hone
          have hdir : t.at? (name :: b) ≠ some .directory := by
            intro hdir
            simp [written?, hfile, hdir] at hwritten
            split at hwritten <;> simp at hwritten
          rcases hbatch.set (Text.Utf8.encode text.toList) hdir with ⟨hkeeps, hbatch'⟩
          have hother : forall other, other ∈ rest -> other ≠ name := by
            rintro other hmem rfl
            exact hfresh hmem
          rcases ih (r.addExtracted (e.pairOf directory name)) hbatch' hnodup (fun other hmem =>
            (hnames other (List.mem_cons_of_mem name hmem)).set _ (hother other hmem)) with
            ⟨fs, t', hrun, hfs, hleft⟩
          have hsame : forall other, other ∈ rest ->
              e.written? directory a b
                (t.set (name :: b) (.file (Text.Utf8.encode text.toList))) other =
              e.written? directory a b t other :=
            fun other hmem => written?_set _ (hother other hmem)
          refine ⟨fs, t', ?_, ?_, hleft.cons_some hwritten hkeeps hfresh⟩
          · rw [outcome_extractOnto_of_ok hone]
            apply Eq.trans hrun
            rw [List.filter_congr (fun other hmem => by rw [hsame other hmem])]
            simp [Report.addExtracted, pairOf]
          · rw [hfs, List.filter_congr (fun other hmem => by rw [hsame other hmem])]
            simp

/-!
## The whole directory
-/

/-- A file of the input directory whose name the pattern matches, and that a path can lead to. -/
structure Matching (directory : Path) (pattern : Pattern) (a : Address) (t : Tree) (name : Name)
    (content : List UInt8) : Prop where
  file : t.at? (name :: a) = some (.file content)
  matched : exists text, (Path.mk name).text? = some text ∧ pattern.matchesName text = true
  short : (directory.join ⟨name⟩).octets.length ≤ Tree.maxPathLength

theorem matchesPath_join {pattern : Pattern} {directory : Path} {name : Name}
    (hname : Tree.Proper name) :
    pattern.matchesPath (directory.join ⟨name⟩) = true <->
      exists text, (Path.mk name).text? = some text ∧ pattern.matchesName text = true := by
  unfold Pattern.matchesPath
  rw [Path.fileName?_join directory hname.no_slash hname.ordinary.ne_nil hname.ordinary.ne_dot
    hname.ordinary.ne_dotDot]
  cases h : (Path.mk name).text? <;> simp [h]

theorem isInput_iff {t : Tree} {directory : Path} {pattern : Pattern} {a : Address} {name : Name}
    (hopens : Tree.Opens t directory a) (hname : Tree.Proper name)
    (hlink : forall entry, t.at? (name :: a) = some entry -> entry.isLink = false) :
    isInput t directory pattern name = true <->
      exists content, Matching directory pattern a t name content := by
  unfold isInput Tree.isFile
  rw [Tree.entryOf?_join hopens hname hlink, Bool.and_eq_true, matchesPath_join hname]
  by_cases hlen : Tree.maxPathLength < (directory.join ⟨name⟩).octets.length
  · rw [if_pos hlen]
    constructor
    · rintro ⟨h, -⟩
      cases h
    · rintro ⟨content, h⟩
      exact absurd h.short (Nat.not_le.mpr hlen)
  · rw [if_neg hlen]
    constructor
    · rintro ⟨hfile, hmatched⟩
      split at hfile
      · rename_i content hcontent
        exact ⟨content, hcontent, hmatched, Nat.le_of_not_lt hlen⟩
      · cases hfile
    · rintro ⟨content, h⟩
      rw [h.file]
      exact ⟨rfl, h.matched⟩

theorem written?_isSome_iff {e : Extractor} {directory : Path} {a b : Address} {t : Tree}
    {name : Name} {content : List UInt8} (hfile : t.at? (name :: a) = some (.file content)) :
    (e.written? directory a b t name).isSome = true <->
      (exists d text, Document.ofOctets content (directory.join ⟨name⟩) = .ok d ∧
        (d.takeSnippet e.key).toText = .ok text) ∧
      (e.outputDirectory.join ⟨name⟩).octets.length ≤ Tree.maxPathLength ∧
      t.at? (name :: b) ≠ some .directory := by
  have htext : (exists d text, Document.ofOctets content (directory.join ⟨name⟩) = .ok d ∧
      (d.takeSnippet e.key).toText = .ok text) <->
      exists text, e.textOf (directory.join ⟨name⟩) content = .ok text := by
    simp only [textOf_eq_ok]
    exact exists_comm
  rw [htext]
  unfold written?
  rw [hfile]
  simp only
  cases e.textOf (directory.join ⟨name⟩) content with
  | error f => simp
  | ok text =>
      by_cases hlen : Tree.maxPathLength < (e.outputDirectory.join ⟨name⟩).octets.length
      · simp [hlen, Nat.not_le.mpr hlen]
      · by_cases hdir : t.at? (name :: b) = some .directory
        · simp [hdir]
        · simp [hlen, hdir, Nat.le_of_not_lt hlen]

theorem written?_eq_some {e : Extractor} {directory : Path} {a b : Address} {t : Tree}
    {name : Name} {content : List UInt8} (hfile : t.at? (name :: a) = some (.file content))
    {text : String} (h : e.written? directory a b t name = some text) :
    exists d, Document.ofOctets content (directory.join ⟨name⟩) = .ok d ∧
      (d.takeSnippet e.key).toText = .ok text := by
  rw [← textOf_eq_ok]
  unfold written? at h
  rw [hfile] at h
  simp only at h
  cases htext : e.textOf (directory.join ⟨name⟩) content with
  | error f =>
      rw [htext] at h
      cases h
  | ok text' =>
      rw [htext] at h
      simp only [Option.ite_none_left_eq_some, Option.some.injEq] at h
      rw [h.2.2]

theorem Matching.readable {directory : Path} {pattern : Pattern} {a : Address} {t : Tree}
    {name : Name} {content : List UInt8} (ht : t.WellFormed)
    (h : Matching directory pattern a t name content) :
    Readable directory a t name :=
  ⟨ht.proper h.file, ⟨content, h.file⟩, h.short⟩

theorem matching_iff_of_grows {directory : Path} {pattern : Pattern} {a : Address} {t t' : Tree}
    {name : Name} {content : List UInt8} {ps : List Path} (h : Tree.Grows ps t t') :
    Matching directory pattern a t' name content <->
      Matching directory pattern a t name content := by
  constructor
  · intro hm
    exact ⟨h.at?_file.mp hm.file, hm.matched, hm.short⟩
  · intro hm
    exact ⟨h.at?_file.mpr hm.file, hm.matched, hm.short⟩

def inputNames (t : Tree) (directory : Path) (pattern : Pattern) (names : List Name) : List Name :=
  (names.mergeSort fun a b => !(b < a)).filter (isInput t directory pattern)

theorem mem_inputNames_iff {t : Tree} {directory : Path} {pattern : Pattern} {a : Address}
    {names : List Name} {name : Name} (ht : t.WellFormed)
    (hlink : forall c entry, t.at? c = some entry -> entry.isLink = false)
    (hfind : t.find false directory = .ok a) (ha : t.at? a = some .directory)
    (hnames : t.names directory = .ok names) :
    name ∈ inputNames t directory pattern names <->
      exists content, Matching directory pattern a t name content := by
  have hopens := Tree.opens_of_find hfind ha
  rw [Tree.names_of_find hfind ha] at hnames
  cases hnames
  rw [inputNames, List.mem_filter, List.mem_mergeSort, Tree.mem_names_iff]
  constructor
  · rintro ⟨⟨entry, hentry⟩, hinput⟩
    exact (isInput_iff hopens (ht.proper hentry) (hlink _)).mp hinput
  · rintro ⟨content, h⟩
    have hproper := (h.readable ht).proper
    constructor
    · exact ⟨_, h.file⟩
    · exact (isInput_iff hopens hproper (hlink _)).mpr ⟨content, h⟩

theorem nodup_inputNames {t : Tree} {directory : Path} {a : Address} {names : List Name}
    (ht : t.WellFormed) (hfind : t.find false directory = .ok a) (ha : t.at? a = some .directory)
    (hnames : t.names directory = .ok names) (pattern : Pattern) :
    (inputNames t directory pattern names).Nodup := by
  rw [Tree.names_of_find hfind ha] at hnames
  cases hnames
  exact ((List.mergeSort_perm _ _).nodup_iff.mpr (ht.nodup_names a)).filter _

/-- A run makes no directory of an output, and takes none away. -/
theorem Left.isDirectory_eq_false_iff {e : Extractor} {directory : Path} {a b : Address}
    {t t' : Tree} {names : List Name} {name : Name} (h : Left e directory a b names t t')
    (hmem : name ∈ names) (hname : Tree.Proper name)
    (hlen : (e.outputDirectory.join ⟨name⟩).octets.length ≤ Tree.maxPathLength) :
    t'.isDirectory (e.outputDirectory.join ⟨name⟩) = false <->
      t.at? (name :: b) ≠ some .directory := by
  unfold Tree.isDirectory
  rw [Tree.entryOf?_join h.batch.output hname (h.batch.linkFree _), if_neg (Nat.not_lt.mpr hlen),
    beq_eq_false_iff_ne]
  apply not_congr
  constructor
  · intro hdir
    cases hwritten : e.written? directory a b t name with
    | some text =>
        rw [h.written name hmem text hwritten] at hdir
        cases hdir
    | none =>
        rw [← h.others, hdir]
        rintro other - heq
        rw [← (List.cons.inj heq).1]
        exact hwritten
  · exact h.keeps.directory

theorem outcome_extractAll_of_made {e : Extractor} {t t₁ : Tree}
    (hmake : outcome (Host.makeDirectories e.outputDirectory) t = (.ok (), t₁)) (directory : Path)
    (pattern : Pattern) (policy : Policy) :
    outcome (e.extractAll directory pattern policy (fun _ => pure ())) t =
      match outcome (matchingFiles directory pattern) t₁ with
      | (.error f, t₂) => (.error f, t₂)
      | (.ok inputs, t₂) =>
        outcome (e.extractOnto policy (fun _ => pure ()) Report.empty inputs) t₂ := by
  unfold extractAll
  rw [Host.outcome_bind, hmake]
  simp only
  rw [Host.outcome_bind]
  rcases outcome (matchingFiles directory pattern) t₁ with ⟨_ | _, t₂⟩ <;> rfl

theorem outcome_extractAll {e : Extractor} {directory : Path} {pattern : Pattern} {policy : Policy}
    {t t' : Tree} {r : Report}
    (h : outcome (e.extractAll directory pattern policy (fun _ => pure ())) t = (.ok r, t')) :
    exists t₁ names, outcome (Host.makeDirectories e.outputDirectory) t = (.ok (), t₁) ∧
      t₁.names directory = .ok names ∧
      outcome (e.extractOnto policy (fun _ => pure ()) Report.empty
        ((inputNames t₁ directory pattern names).map fun name => directory.join ⟨name⟩)) t₁ =
          (.ok r, t') := by
  cases hmake : outcome (Host.makeDirectories e.outputDirectory) t with
  | mk made t₁ =>
      cases made with
      | error f =>
          unfold extractAll at h
          rw [Host.outcome_bind, hmake] at h
          cases h
      | ok _ =>
          rw [outcome_extractAll_of_made hmake] at h
          cases hnames : t₁.names directory with
          | error f =>
              rw [outcome_matchingFiles_error hnames] at h
              cases h
          | ok names =>
              rw [outcome_matchingFiles hnames] at h
              exact ⟨t₁, names, rfl, hnames, h⟩

/-- No file of a directory has a part in what becomes of another one.  What is written for a file is
told by its content before the run, and by whether a file of its name can be put into the output
directory; everything that is not written over stays. -/
theorem extractAll_independent (e : Extractor) (directory : Path) (pattern : Pattern)
    (s s' : Session) (r : Report) (hs : s.files.WellFormed) (hlinks : s.files.LinkFree)
    (hrun : outcome (e.extractAll directory pattern .keepGoing (fun _ => pure ())) s =
      (.ok r, s')) :
    exists (a b : Address) (written unwritten : List Name),
      s'.files.find false directory = .ok a ∧
      (written ++ unwritten).Nodup ∧
      (forall name, name ∈ written ++ unwritten <->
        exists content, Matching directory pattern a s.files name content) ∧
      r.extracted = written.map (e.pairOf directory) ∧
      r.failures.map (fun f => f.path.fileName?) = unwritten.map some ∧
      (forall name content, Matching directory pattern a s.files name content ->
        (name ∈ written <->
          (exists d text, Document.ofOctets content (directory.join ⟨name⟩) = .ok d ∧
            (d.takeSnippet e.key).toText = .ok text) ∧
          (e.outputDirectory.join ⟨name⟩).octets.length ≤ Tree.maxPathLength ∧
          s'.files.isDirectory (e.outputDirectory.join ⟨name⟩) = false)) ∧
      (forall name, name ∈ written -> exists content d text,
        Matching directory pattern a s.files name content ∧
        Document.ofOctets content (directory.join ⟨name⟩) = .ok d ∧
        (d.takeSnippet e.key).toText = .ok text ∧
        s'.files.find false (e.outputDirectory.join ⟨name⟩) = .ok (name :: b) ∧
        s'.files.at? (name :: b) = some (.file (Text.Utf8.encode text.toList))) ∧
      (forall c, (forall name, name ∈ written -> c ≠ name :: b) -> forall content,
        s'.files.at? c = some (.file content) <-> s.files.at? c = some (.file content)) := by
  have hsilent : forall _ : Extracted, Host.Seen Session.files (pure () : StateM Session Unit)
      (pure () : StateM Tree Unit) :=
    fun _ => Host.Seen.pure ()
  have hseen := Session.view_files.extractAll hsilent e directory pattern .keepGoing s
  rw [hrun] at hseen
  rcases outcome_extractAll hseen with ⟨t, names, hmake, hnames, hloop⟩
  -- The output directory may only be made now, and the input directory may lie in it.
  rcases Tree.made_makeDirectories e.outputDirectory hs with ⟨hgrows, ht⟩
  rw [hmake] at hgrows ht
  rcases Tree.makeDirectories_again hmake with ⟨hthere, hmade⟩
  rcases ht.exists_opens hthere with ⟨b, hb⟩
  rcases Tree.find_of_names hnames with ⟨a, hfind, ha⟩
  have hlink : forall c entry, t.at? c = some entry -> entry.isLink = false :=
    hlinks.unlinked.grows hgrows
  have hbatch : Batch e directory a b t := ⟨Tree.opens_of_find hfind ha, hb, hmade, hlink⟩
  have hmem : forall name, name ∈ inputNames t directory pattern names <->
      exists content, Matching directory pattern a s.files name content := by
    intro name
    rw [mem_inputNames_iff ht hlink hfind ha hnames]
    exact exists_congr fun _ => matching_iff_of_grows hgrows
  have hnodup := nodup_inputNames ht hfind ha hnames pattern
  have hreadable : forall name, name ∈ inputNames t directory pattern names ->
      Readable directory a t name := by
    intro name hname
    rcases (mem_inputNames_iff ht hlink hfind ha hnames).mp hname with ⟨content, h⟩
    exact h.readable ht
  generalize inputNames t directory pattern names = inputs at hloop hmem hnodup hreadable
  rcases outcome_extractOnto_names Report.empty hbatch hnodup hreadable with
    ⟨fs, t', hrun', hfs, hleft⟩
  rw [hrun'] at hloop
  injection hloop with hr hfiles
  cases hr
  subst hfiles
  have hperm : ((inputs.filter fun name => (e.written? directory a b t name).isSome) ++
      inputs.filter fun name => (e.written? directory a b t name).isNone).Perm inputs := by
    simpa using List.filter_append_perm
      (fun name => (e.written? directory a b t name).isSome) inputs
  refine ⟨a, b, _, _, hleft.keeps.find hfind, hperm.nodup_iff.mpr hnodup, ?_, rfl, hfs, ?_, ?_, ?_⟩
  · intro name
    rw [hperm.mem_iff, hmem]
  · intro name content h
    have hname : name ∈ inputs := (hmem name).mpr ⟨content, h⟩
    have hdir := hleft.isDirectory_eq_false_iff hname (hreadable name hname).proper
    rw [List.mem_filter, written?_isSome_iff (hgrows.at?_file.mpr h.file)]
    constructor
    · rintro ⟨-, htext, hlen, hfree⟩
      exact ⟨htext, hlen, (hdir hlen).mpr hfree⟩
    · rintro ⟨htext, hlen, hfree⟩
      exact ⟨hname, htext, hlen, (hdir hlen).mp hfree⟩
  · intro name hname
    rcases List.mem_filter.mp hname with ⟨hname, hwritten⟩
    rcases Option.isSome_iff_exists.mp hwritten with ⟨text, htext⟩
    rcases (hmem name).mp hname with ⟨content, h⟩
    have hfile := hgrows.at?_file.mpr h.file
    rcases written?_eq_some hfile htext with ⟨d, hd, hdtext⟩
    refine ⟨content, d, text, h, hd, hdtext, ?_, hleft.written name hname text htext⟩
    rcases (written?_isSome_iff hfile).mp hwritten with ⟨-, hlen, -⟩
    rw [Tree.find_join false hleft.batch.output (hreadable name hname).proper
      (hleft.batch.linkFree _), if_neg (Nat.not_lt.mpr hlen), hleft.written name hname text htext]
  · intro c hc content
    rw [hleft.others]
    · exact hgrows.at?_file
    · intro name hname heq
      cases hwritten : e.written? directory a b t name with
      | none => rfl
      | some text => exact absurd heq (hc name (List.mem_filter.mpr ⟨hname, by simp [hwritten]⟩))

/-!
## A file that is read but cannot be written

In a mapping of one entry, a key that is itself such a mapping is read from a flow collection but
has no text of its own.  The file `a` below holds one; the file `b` is empty.
-/

def mappingKey : List UInt8 :=
  [97, 58, 32, 123, 123, 98, 125, 125]

def definitions : Tree :=
  ⟨[([[97]], .file mappingKey), ([[98]], .file [])], []⟩

def inPlace : Extractor :=
  ⟨⟨[46]⟩, "a"⟩

theorem ofText_mappingKey :
    Yaml.Value.ofText "a: {{b}}" =
      .ok (.map [(.str "a", .map [(.map [(.str "b", .null)], .null)])]) := by
  apply Yaml.Value.ofText_of_ofTextWithin 20
  · cbv
  · rfl

theorem ofOctets_mappingKey (path : Path) :
    Document.ofOctets mappingKey path =
      .ok ⟨path, [(.str "a", .map [(.map [(.str "b", .null)], .null)])]⟩ := by
  have hdecode : Text.Utf8.decode mappingKey = .ok "a: {{b}}".toList := by
    cbv
  have hcontent : hasContent "a: {{b}}" = true := by
    cbv
  unfold Document.ofOctets
  rw [hdecode]
  simp only [String.ofList_toList, Document.parse, hcontent, ofText_mappingKey]
  rfl

theorem written?_mappingKey :
    inPlace.written? ⟨[46]⟩ [] [] definitions [97] = none := by
  have htext : inPlace.textOf (Path.join ⟨[46]⟩ ⟨[97]⟩) mappingKey =
      .error (.unwritable (Path.join ⟨[46]⟩ ⟨[97]⟩) .strayEnd) := by
    unfold textOf
    rw [ofOctets_mappingKey]
    rfl
  unfold written?
  rw [show definitions.at? [[97]] = some (.file mappingKey) from rfl]
  simp only [htext]

theorem written?_nothing :
    inPlace.written? ⟨[46]⟩ [] [] definitions [98] = some "a: null\n" := by
  have hmapping : Snippet.toText ⟨"a", .null⟩ = .ok "a: null\n" := rfl
  have htext : inPlace.textOf (Path.join ⟨[46]⟩ ⟨[98]⟩) [] = .ok "a: null\n" := by
    have hdocument : Document.ofOctets [] (Path.join ⟨[46]⟩ ⟨[98]⟩) =
        .ok ⟨Path.join ⟨[46]⟩ ⟨[98]⟩, []⟩ := by
      cbv
    rw [textOf_eq_ok]
    exact ⟨_, hdocument, hmapping⟩
  unfold written?
  rw [show definitions.at? [[98]] = some (.file []) from rfl]
  simp only [htext]
  rfl

theorem exists_run_definitions (filter : Journal.Filter) :
    exists r s', outcome (inPlace.extractAll ⟨[46]⟩ ⟨"*"⟩ .keepGoing (fun _ => pure ()))
        (Session.ofTree definitions filter) = (.ok r, s') ∧
      r.extracted = [inPlace.pairOf ⟨[46]⟩ [98]] ∧
      s'.files.isDirectory (Path.join ⟨[46]⟩ ⟨[97]⟩) = false := by
  have hdirectory : definitions.isDirectory ⟨[46]⟩ = true := by
    cbv
  have hfind : definitions.find false ⟨[46]⟩ = .ok [] := by
    cbv
  have hnames : definitions.names ⟨[46]⟩ = .ok [[97], [98]] := by
    cbv
  have hinputs : inputNames definitions ⟨[46]⟩ ⟨"*"⟩ [[97], [98]] = [[97], [98]] := by
    cbv
  have hmake : forall t, Tree.Keeps definitions t ->
      outcome (Host.makeDirectories inPlace.outputDirectory) t = (.ok (), t) := by
    intro t ht
    exact Tree.outcome_makeInnermost_of_isDirectory [] (ht.isDirectory hdirectory)
  have hopens := Tree.opens_of_find hfind rfl
  have hbatch : Batch inPlace ⟨[46]⟩ [] [] definitions :=
    ⟨hopens, hopens, hmake, fun c entry => Tree.LinkFree.isLink (by decide)⟩
  have hreadable : forall name, name ∈ [[97], [98]] -> Readable ⟨[46]⟩ [] definitions name := by
    intro name hname
    simp only [List.mem_cons, List.not_mem_nil, or_false] at hname
    rcases hname with rfl | rfl
    · exact ⟨by decide, ⟨mappingKey, rfl⟩, by decide⟩
    · exact ⟨by decide, ⟨[], rfl⟩, by decide⟩
  rcases outcome_extractOnto_names Report.empty hbatch (by decide) hreadable with
    ⟨fs, t', hloop, -, hleft⟩
  have hrun : outcome (inPlace.extractAll ⟨[46]⟩ ⟨"*"⟩ .keepGoing (fun _ => pure ())) definitions =
      outcome (inPlace.extractOnto .keepGoing (fun _ => pure ()) Report.empty
        ([[97], [98]].map fun name => Path.join ⟨[46]⟩ ⟨name⟩)) definitions := by
    rw [outcome_extractAll_of_made (hmake _ (Tree.Keeps.refl _)), outcome_matchingFiles hnames]
    change outcome (inPlace.extractOnto .keepGoing _ Report.empty
      ((inputNames definitions ⟨[46]⟩ ⟨"*"⟩ [[97], [98]]).map _)) definitions = _
    rw [hinputs]
  have hseen := Session.view_files.extractAll Session.seen_silent inPlace ⟨[46]⟩ ⟨"*"⟩ .keepGoing
    (Session.ofTree definitions filter)
  rw [show (Session.ofTree definitions filter).files = definitions from rfl, hrun, hloop] at hseen
  rcases hout : outcome (inPlace.extractAll ⟨[46]⟩ ⟨"*"⟩ .keepGoing (fun _ => pure ()))
    (Session.ofTree definitions filter) with ⟨result, s'⟩
  rw [hout] at hseen
  injection hseen with hresult hfiles
  refine ⟨_, s', by rw [hresult], ?_, ?_⟩
  · simp [written?_mappingKey, written?_nothing, Report.empty]
  · rw [← hfiles]
    exact (hleft.isDirectory_eq_false_iff List.mem_cons_self (by decide) (by decide)).mpr
      (by decide)

/-- Both files are gone through, and `b` is written over. -/
theorem extractAll_independent_definitions :
    definitions.WellFormed ∧ definitions.LinkFree ∧
      exists (r : Report) (s' : Session) (written unwritten : List Name),
        outcome (inPlace.extractAll ⟨[46]⟩ ⟨"*"⟩ .keepGoing (fun _ => pure ()))
          (Session.ofTree definitions (Journal.Filter.ofDirectives [])) = (.ok r, s') ∧
        r.extracted = [inPlace.pairOf ⟨[46]⟩ [98]] ∧
        (written ++ unwritten).Nodup ∧
        r.extracted = written.map (inPlace.pairOf ⟨[46]⟩) ∧
        r.failures.map (fun f => f.path.fileName?) = unwritten.map some := by
  have hwell : definitions.WellFormed := by decide
  have hlinks : definitions.LinkFree := by decide
  rcases exists_run_definitions (Journal.Filter.ofDirectives []) with ⟨r, s', hrun, hextracted, -⟩
  rcases extractAll_independent inPlace ⟨[46]⟩ ⟨"*"⟩
    (Session.ofTree definitions (Journal.Filter.ofDirectives [])) s' r hwell hlinks hrun with
    ⟨a, b, written, unwritten, -, hnodup, -, hpairs, hfailures, -⟩
  exact ⟨hwell, hlinks, r, s', written, unwritten, hrun, hextracted, hnodup, hpairs, hfailures⟩

/-- That a file is a definition and that no directory stands in the way is not enough for it to be
extracted. -/
theorem extractAll_skips_mappingKey :
    exists r s', outcome (inPlace.extractAll ⟨[46]⟩ ⟨"*"⟩ .keepGoing (fun _ => pure ()))
        (Session.ofTree definitions (Journal.Filter.ofDirectives [])) = (.ok r, s') ∧
      definitions.WellFormed ∧ definitions.LinkFree ∧
      Matching ⟨[46]⟩ ⟨"*"⟩ [] definitions [97] mappingKey ∧
      ¬ (inPlace.pairOf ⟨[46]⟩ [97] ∈ r.extracted <->
        (exists d, Document.ofOctets mappingKey (Path.join ⟨[46]⟩ ⟨[97]⟩) = .ok d) ∧
          s'.files.isDirectory (Path.join ⟨[46]⟩ ⟨[97]⟩) = false) := by
  rcases exists_run_definitions (Journal.Filter.ofDirectives []) with
    ⟨r, s', hrun, hextracted, hfree⟩
  have hmatching : Matching ⟨[46]⟩ ⟨"*"⟩ [] definitions [97] mappingKey := by
    constructor
    · rfl
    · exists "a"
      constructor <;> cbv
    · decide
  refine ⟨r, s', hrun, by decide, by decide, hmatching, ?_⟩
  rw [hextracted]
  intro h
  have hmem := h.mpr ⟨⟨_, ofOctets_mappingKey _⟩, hfree⟩
  revert hmem
  decide

end Extractor
end Clippings
