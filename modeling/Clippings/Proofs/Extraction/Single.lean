import Clippings.Proofs.Storage.Directories

/-!
# Extracting from one file

An extraction makes up its whole text before it changes anything.  So a file that cannot be read as
a definition leaves no trace, and what changes otherwise is one file and directories on the way to
the output directory.
-/

namespace Clippings
namespace Extractor

open Host (outcome)
open Storage (Tree)

/-!
## The text, before anything is written
-/

def textOf (e : Extractor) (input : Path) (octets : List UInt8) : Except Failure String :=
  match Document.ofOctets octets input with
  | .error f => .error f
  | .ok d =>
    match (d.takeSnippet e.key).toText with
    | .error f => .error (.unwritable input f)
    | .ok text => .ok text

def plan (e : Extractor) (t : Tree) (input : Path) : Except Failure (Path × String) :=
  match e.outputPath input with
  | .error f => .error f
  | .ok output =>
    match t.read input with
    | .error f => .error (.storage input f)
    | .ok octets => (e.textOf input octets).map (output, ·)

theorem textOf_eq_ok {e : Extractor} {input : Path} {octets : List UInt8} {text : String} :
    e.textOf input octets = .ok text <->
      exists d, Document.ofOctets octets input = .ok d ∧
        (d.takeSnippet e.key).toText = .ok text := by
  unfold textOf
  cases Document.ofOctets octets input with
  | error f => simp
  | ok d => cases h : (d.takeSnippet e.key).toText <;> simp [h]

theorem path_of_parse {text : String} {path : Path} {f : Failure}
    (h : Document.parse text path = .error f) :
    f.path = path := by
  unfold Document.parse at h
  split at h
  · cases h
  · split at h <;> cases h <;> rfl

theorem path_of_textOf {e : Extractor} {input : Path} {octets : List UInt8} {f : Failure}
    (h : e.textOf input octets = .error f) :
    f.path = input := by
  unfold textOf at h
  split at h
  · rename_i f' hd
    cases h
    unfold Document.ofOctets at hd
    split at hd
    · cases hd
      rfl
    · exact path_of_parse hd
  · split at h <;> cases h
    rfl

theorem outcome_load (t : Tree) (path : Path) :
    outcome (Document.load path) t =
      (match t.read path with
        | .error f => .error (.storage path f)
        | .ok octets => Document.ofOctets octets path, t) := by
  unfold Document.load
  rw [Host.outcome_bind]
  change outcome (match t.read path with
    | .error f => pure (Except.error (Failure.storage path f))
    | .ok octets => pure (Document.ofOctets octets path)) t = _
  cases t.read path <;> rfl

theorem outcome_writeSnippet (e : Extractor) (input output : Path) (d : Document) (t : Tree) :
    outcome (e.writeSnippet input output d) t =
      match (d.takeSnippet e.key).toText with
      | .error f => (.error (.unwritable input f), t)
      | .ok text => outcome (e.writeText output text) t := by
  have hrest : outcome (e.writeSnippet input output d) t =
      outcome (match (d.takeSnippet e.key).toText with
        | .error f => pure (Except.error (Failure.unwritable input f))
        | .ok text => e.writeText output text) t := by
    unfold writeSnippet
    rw [Host.outcome_bind]
    cases hempty : (d.takeSnippet e.key).isEmpty with
    | true =>
        simp only [hempty, if_true]
        rfl
    | false =>
        simp only [hempty]
        rfl
  rw [hrest]
  cases (d.takeSnippet e.key).toText <;> rfl

theorem outcome_extract (e : Extractor) (t : Tree) (input : Path) :
    outcome (e.extract input) t =
      match e.plan t input with
      | .error f => (.error f, t)
      | .ok (output, text) =>
        match outcome (e.writeText output text) t with
        | (.error f, t') => (.error f, t')
        | (.ok (), t') => (.ok output, t') := by
  unfold extract plan
  cases e.outputPath input with
  | error f => rfl
  | ok output =>
      simp only
      rw [Host.outcome_bind, outcome_load]
      cases t.read input with
      | error f => rfl
      | ok octets =>
          simp only [textOf]
          cases Document.ofOctets octets input with
          | error f => rfl
          | ok d =>
              simp only
              rw [Host.outcome_bind, outcome_writeSnippet]
              cases (d.takeSnippet e.key).toText with
              | error f => rfl
              | ok text =>
                  simp only [Except.map]
                  cases outcome (e.writeText output text) t with
                  | mk r t' => cases r <;> rfl

theorem plan_eq_ok {e : Extractor} {t : Tree} {input output : Path} {text : String}
    (h : e.plan t input = .ok (output, text)) :
    e.outputPath input = .ok output ∧
      exists octets, t.read input = .ok octets ∧ e.textOf input octets = .ok text := by
  unfold plan at h
  split at h
  · cases h
  rename_i output' hout
  split at h
  · cases h
  rename_i octets hread
  cases htext : e.textOf input octets with
  | error f =>
      rw [htext] at h
      cases h
  | ok text' =>
      rw [htext] at h
      cases h
      exact ⟨hout, octets, hread, htext⟩

/-!
## What is written
-/

theorem outcome_writeText (e : Extractor) (output : Path) (text : String) (t : Tree) :
    outcome (e.writeText output text) t =
      match outcome (Host.makeDirectories e.outputDirectory) t with
      | (.error f, t') => (.error (.storage e.outputDirectory f), t')
      | (.ok (), t') =>
        match t'.write output (Text.Utf8.encode text.toList) with
        | .error f => (.error (.storage output f), t')
        | .ok t'' => (.ok (), t'') := by
  unfold writeText
  rw [Host.outcome_bind]
  cases outcome (Host.makeDirectories e.outputDirectory) t with
  | mk r t' =>
      cases r with
      | error f => rfl
      | ok _ =>
          simp only
          rw [Host.outcome_bind]
          cases hwrite : t'.write output (Text.Utf8.encode text.toList) with
          | error f =>
              rw [Tree.outcome_write_error hwrite]
              rfl
          | ok t'' =>
              rw [Tree.outcome_write_ok hwrite]
              rfl

/-- Directories are made, and then one file is written or none. -/
inductive Written (e : Extractor) (output : Path) (text : String) (t : Tree) :
    Except Failure Unit × Tree -> Prop where
  | none {t' : Tree} (p : Path) (cause : Storage.Fault) :
      Tree.Grows e.outputDirectory.ancestors t t' ->
      Written e output text t (.error (.storage p cause), t')
  | file {t' : Tree} {a : Storage.Address} :
      Tree.Grows e.outputDirectory.ancestors t t' ->
      a ≠ [] ->
      t'.at? a = Option.none ∨ (exists old, t'.at? a = some (.file old)) ->
      (t'.set a (.file (Text.Utf8.encode text.toList))).find false output = .ok a ->
      Written e output text t (.ok (), t'.set a (.file (Text.Utf8.encode text.toList)))

theorem keeps_set {t : Tree} {a : Storage.Address} (content : List UInt8)
    (hold : t.at? a = none ∨ exists old, t.at? a = some (.file old)) :
    Tree.Keeps t (t.set a (.file content)) := by
  rcases hold with hnone | ⟨old, hfile⟩
  · exact Tree.Keeps.set_fresh _ hnone
  · exact Tree.Keeps.set_file content hfile

theorem Written.of_closed (e : Extractor) (output : Path) (text : String) {t : Tree}
    (ht : t.Closed) :
    Written e output text t (outcome (e.writeText output text) t) ∧
      (outcome (e.writeText output text) t).2.Closed := by
  rcases Tree.grows_makeDirectories e.outputDirectory t with ⟨hgrows, hclosed⟩
  rw [outcome_writeText]
  cases hmake : outcome (Host.makeDirectories e.outputDirectory) t with
  | mk r t' =>
      rw [hmake] at hgrows hclosed
      cases r with
      | error f => exact ⟨Written.none _ f hgrows, hclosed ht⟩
      | ok _ =>
          simp only
          cases hwrite : t'.write output (Text.Utf8.encode text.toList) with
          | error f => exact ⟨Written.none _ f hgrows, hclosed ht⟩
          | ok t'' =>
              rcases Tree.write_cases (hclosed ht) hwrite with ⟨a, ha, rfl, hold, hparent, hfind⟩
              constructor
              · exact Written.file hgrows ha hold hfind
              · exact (hclosed ht).set (keeps_set _ hold) hparent

theorem written_writeText (e : Extractor) (output : Path) (text : String) {t : Tree}
    (ht : t.WellFormed) :
    Written e output text t (outcome (e.writeText output text) t) :=
  (Written.of_closed e output text ht.closed).1

/-!
## Nothing else changes
-/

def SameFilesBut (a : Option Storage.Address) (t t' : Tree) : Prop :=
  forall b, a ≠ some b -> forall content,
    t'.at? b = some (.file content) <-> t.at? b = some (.file content)

/-- Every directory was there before, or one of the paths leads to it. -/
def OldOrNamed (ps : List Path) (t t' : Tree) : Prop :=
  forall b, t'.at? b = some .directory ->
    t.at? b = some .directory ∨ exists p, p ∈ ps ∧ t'.find false p = .ok b

theorem sameFilesBut_of_grows {ps : List Path} {t t' : Tree} (h : Tree.Grows ps t t') :
    SameFilesBut none t t' := by
  intro b _ content
  exact h.at?_file

theorem oldOrNamed_of_grows {ps : List Path} {t t' : Tree} (h : Tree.Grows ps t t') :
    OldOrNamed ps t t' := by
  intro b hb
  rcases h.at? b with hsame | ⟨-, -, hp⟩
  · exact Or.inl (hsame ▸ hb)
  · exact Or.inr hp

theorem sameFilesBut_set {ps : List Path} {t t' : Tree} (h : Tree.Grows ps t t')
    (a : Storage.Address) (content : List UInt8) :
    SameFilesBut (some a) t (t'.set a (.file content)) := by
  intro b hb old
  rw [t'.at?_set_of_ne _ (fun heq => hb (congrArg some heq.symm))]
  exact h.at?_file

theorem oldOrNamed_set {ps : List Path} {t t' : Tree} (h : Tree.Grows ps t t')
    {a : Storage.Address} (ha : a ≠ []) {content : List UInt8}
    (hold : t'.at? a = none ∨ exists old, t'.at? a = some (.file old)) :
    OldOrNamed ps t (t'.set a (.file content)) := by
  intro b hb
  by_cases hba : b = a
  · rw [hba, t'.at?_set_self _ ha] at hb
    cases hb
  · rw [t'.at?_set_of_ne _ hba] at hb
    rcases oldOrNamed_of_grows h b hb with hold' | ⟨p, hp, hfind⟩
    · exact Or.inl hold'
    · exact Or.inr ⟨p, hp, (keeps_set content hold).find hfind⟩

/-- An extraction that succeeds writes the snippet of what the input held, and changes no other
file; one that fails changes no file, and nothing at all before the text is there.  Only directories
that lead to the output directory may appear. -/
theorem extract_changes_output_only (e : Extractor) (input : Path) (s : Session)
    (hs : s.files.WellFormed) :
    exists result s', outcome (e.extract input) s = (result, s') ∧
      (forall o, result = .ok o -> e.outputPath input = .ok o ∧
        exists octets d text a, s.files.read input = .ok octets ∧
          Document.ofOctets octets input = .ok d ∧
          (d.takeSnippet e.key).toText = .ok text ∧
          s'.files.find false o = .ok a ∧
          s'.files.at? a = some (.file (Text.Utf8.encode text.toList)) ∧
          SameFilesBut (some a) s.files s'.files) ∧
      (forall f, result = .error f -> SameFilesBut none s.files s'.files ∧
        ((forall p cause, f ≠ .storage p cause) ∨
            (exists cause, s.files.read input = .error cause) ->
          s'.files = s.files)) ∧
      OldOrNamed e.outputDirectory.ancestors s.files s'.files ∧
      Tree.Keeps s.files s'.files := by
  have hseen := Session.view_files.extract e input s
  cases hout : outcome (e.extract input) s with
  | mk result s' =>
      rw [hout] at hseen
      refine ⟨result, s', rfl, ?_⟩
      cases hplan : e.plan s.files input with
      | error f =>
          rw [outcome_extract, hplan] at hseen
          injection hseen with hresult hfiles
          subst hresult
          rw [← hfiles]
          refine ⟨by simp, ?_, ?_, Tree.Keeps.refl _⟩
          · intro _ _
            exact ⟨sameFilesBut_of_grows (Tree.Grows.refl [] _), fun _ => rfl⟩
          · exact oldOrNamed_of_grows (Tree.Grows.refl _ _)
      | ok planned =>
          rcases planned with ⟨output, text⟩
          rcases plan_eq_ok hplan with ⟨houtput, octets, hread, htext⟩
          rcases textOf_eq_ok.mp htext with ⟨d, hd, htext⟩
          rw [outcome_extract, hplan] at hseen
          simp only at hseen
          have hwritten := written_writeText e output text hs
          generalize outcome (e.writeText output text) s.files = w at hseen hwritten
          cases hwritten with
          | none p cause hgrows =>
              injection hseen with hresult hfiles
              subst hresult
              rw [← hfiles]
              refine ⟨by simp, ?_, oldOrNamed_of_grows hgrows, hgrows.keeps⟩
              intro f hf
              cases hf
              constructor
              · exact sameFilesBut_of_grows hgrows
              · rintro (hstorage | ⟨cause', hcause⟩)
                · exact absurd rfl (hstorage p cause)
                · rw [hread] at hcause
                  cases hcause
          | file hgrows ha hold hfind =>
              rename_i t' a
              injection hseen with hresult hfiles
              subst hresult
              rw [← hfiles]
              have hthere := t'.at?_set_self (.file (Text.Utf8.encode text.toList)) ha
              have hsame := sameFilesBut_set hgrows a (Text.Utf8.encode text.toList)
              constructor
              · intro o ho
                cases ho
                exact ⟨houtput, octets, d, text, a, hread, hd, htext, hfind, hthere, hsame⟩
              constructor
              · simp
              constructor
              · exact oldOrNamed_set hgrows ha hold
              · exact hgrows.keeps.trans (keeps_set _ hold)

def linkedFiles : Tree :=
  ⟨[([[97]], .file [97, 58, 32, 49, 10]), ([[98]], .directory), ([[111]], .link ⟨[98]⟩)], []⟩

theorem extract_changes_output_only_linked :
    linkedFiles.WellFormed ∧
      exists result s', outcome (Extractor.extract ⟨⟨[111]⟩, "a"⟩ ⟨[97]⟩)
          (Session.ofTree linkedFiles (Journal.Filter.ofDirectives [])) = (result, s') ∧
        OldOrNamed (Path.ancestors ⟨[111]⟩) linkedFiles s'.files ∧
        Tree.Keeps linkedFiles s'.files := by
  have hwell : linkedFiles.WellFormed := by decide
  rcases extract_changes_output_only ⟨⟨[111]⟩, "a"⟩ ⟨[97]⟩
    (Session.ofTree linkedFiles (Journal.Filter.ofDirectives [])) hwell with
    ⟨result, s', h, -, -, hnamed, hkeeps⟩
  exact ⟨hwell, result, s', h, hnamed, hkeeps⟩

end Extractor
end Clippings
