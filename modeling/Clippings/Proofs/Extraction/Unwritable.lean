import Clippings.Proofs.Extraction.Directory
import Clippings.Proofs.Sections

/-!
# Sections that cannot be written

The values of a document have no tag in front of another, so the writer has only one fault to find
in a section: an end without a start, where a key takes the start of a mapping of one entry.  An
extraction fails for that reason exactly if the section of its input is of that kind.
-/

namespace Clippings

namespace Document

theorem sayable_section {text : String} {path : Path} {d : Document}
    (h : Document.parse text path = .ok d) (key : String) :
    (d.snippet key).value.Sayable := by
  have hsayable := (fits_snippet h key).sayable
  cases hsayable with
  | map _ hvalues _ => exact hvalues _ (List.mem_singleton_self _)

theorem losesStart_entries_iff {text : String} {path : Path} {d : Document}
    (h : Document.parse text path = .ok d) (key : String) :
    (Yaml.Value.map (d.snippet key).entries).LosesStart <-> (d.snippet key).value.LosesStart := by
  rw [← not_iff_not, ← (fits_snippet h key).sayable.strayEnds_eq_zero_iff,
    ← (sayable_section h key).strayEnds_eq_zero_iff]
  exact Eq.congr_left (Yaml.Value.strayEnds_single key _)

theorem toText_snippet_cases {text : String} {path : Path} {d : Document}
    (h : Document.parse text path = .ok d) (key : String) :
    ((exists out, (d.snippet key).toText = .ok out) ∧ ¬ (d.snippet key).value.LosesStart) ∨
      ((d.snippet key).toText = .error .strayEnd ∧ (d.snippet key).value.LosesStart) := by
  rw [← losesStart_entries_iff h key]
  exact (fits_snippet h key).sayable.toText_cases

theorem toText_snippet_eq_error_iff {text : String} {path : Path} {d : Document}
    (h : Document.parse text path = .ok d) (key : String) {cause : Yaml.WriteFault} :
    (d.snippet key).toText = .error cause <->
      cause = .strayEnd ∧ (d.snippet key).value.LosesStart := by
  rcases toText_snippet_cases h key with ⟨⟨out, hout⟩, hkeeps⟩ | ⟨herror, hloses⟩
  · simp [hout, hkeeps]
  · simp [herror, hloses, eq_comm]

theorem toText_snippet_eq_ok_iff {text : String} {path : Path} {d : Document}
    (h : Document.parse text path = .ok d) (key : String) :
    (exists out, (d.snippet key).toText = .ok out) <-> ¬ (d.snippet key).value.LosesStart := by
  rcases toText_snippet_cases h key with ⟨hout, hkeeps⟩ | ⟨herror, hloses⟩
  · simp [hout, hkeeps]
  · simp [herror, hloses]

theorem exists_parse_of_ofOctets {octets : List UInt8} {path : Path} {d : Document}
    (h : Document.ofOctets octets path = .ok d) :
    exists text, Document.parse text path = .ok d := by
  unfold Document.ofOctets at h
  split at h
  · cases h
  · exact ⟨_, h⟩

end Document

namespace Extractor

open Host (outcome)

theorem ofOctets_ne_unwritable {octets : List UInt8} {path p : Path} {cause : Yaml.WriteFault} :
    Document.ofOctets octets path ≠ .error (.unwritable p cause) := by
  unfold Document.ofOctets Document.parse
  repeat' split
  all_goals simp

theorem textOf_eq_unwritable_iff {e : Extractor} {input p : Path} {octets : List UInt8}
    {cause : Yaml.WriteFault} :
    e.textOf input octets = .error (.unwritable p cause) <->
      p = input ∧ exists d, Document.ofOctets octets input = .ok d ∧
        (d.takeSnippet e.key).toText = .error cause := by
  unfold textOf
  cases hd : Document.ofOctets octets input with
  | error f =>
      have hf : f ≠ .unwritable p cause := fun hf => ofOctets_ne_unwritable (hf ▸ hd)
      simp [hf]
  | ok d => cases htext : (d.takeSnippet e.key).toText <;> simp [htext, eq_comm]

theorem plan_eq_unwritable_iff {e : Extractor} {t : Storage.Tree} {input p : Path}
    {cause : Yaml.WriteFault} :
    e.plan t input = .error (.unwritable p cause) <->
      p = input ∧ (exists o, e.outputPath input = .ok o) ∧ exists octets d,
        t.read input = .ok octets ∧ Document.ofOctets octets input = .ok d ∧
          (d.takeSnippet e.key).toText = .error cause := by
  unfold plan
  cases hout : e.outputPath input with
  | error f =>
      have hf : f = .noFileName input := by
        unfold outputPath at hout
        split at hout <;> cases hout
        rfl
      simp [hf]
  | ok output =>
      cases t.read input with
      | error f => simp
      | ok octets =>
          have hmap : (e.textOf input octets).map (output, ·) = .error (.unwritable p cause) <->
              e.textOf input octets = .error (.unwritable p cause) := by
            cases e.textOf input octets <;> simp [Except.map]
          simp [hmap, textOf_eq_unwritable_iff]

/-- Once the text is there, an extraction can only fail at its files. -/
theorem fst_outcome_extract_eq_unwritable_iff {e : Extractor} {s : Session} {input p : Path}
    {cause : Yaml.WriteFault} :
    (outcome (e.extract input) s).1 = .error (.unwritable p cause) <->
      e.plan s.files input = .error (.unwritable p cause) := by
  have hseen : (outcome (e.extract input) s.files).1 = (outcome (e.extract input) s).1 :=
    congrArg Prod.fst (Session.view_files.extract e input s)
  rw [← hseen, outcome_extract]
  cases e.plan s.files input with
  | error f => simp
  | ok planned =>
      rcases planned with ⟨output, text⟩
      simp only [outcome_writeText]
      cases outcome (Host.makeDirectories e.outputDirectory) s.files with
      | mk r t' =>
          cases r with
          | error f => simp
          | ok _ =>
              simp only
              cases t'.write output (Text.Utf8.encode text.toList) <;> simp

/-- No value of a document has a tag in front of another, and a section is written unless it loses a
start.  An extraction that comes to such a section fails for that, and no other does. -/
theorem extract_unwritable_iff (e : Extractor) (input : Path) (s : Session) :
    (forall text path d, Document.parse text path = .ok d ->
      (forall t u, Yaml.Value.Occurs (.tagged t u) (.map d.entries) -> u.isTagged = false) ∧
        forall key,
          ((exists out, (d.snippet key).toText = .ok out) <->
            ¬ (d.snippet key).value.LosesStart) ∧
          forall cause, (d.snippet key).toText = .error cause <->
            cause = .strayEnd ∧ (d.snippet key).value.LosesStart) ∧
      forall p cause, (outcome (e.extract input) s).1 = .error (.unwritable p cause) <->
        p = input ∧ cause = .strayEnd ∧ (exists o, e.outputPath input = .ok o) ∧
          exists octets d, s.files.read input = .ok octets ∧
            Document.ofOctets octets input = .ok d ∧ (d.snippet e.key).value.LosesStart := by
  constructor
  · intro text path d hparse
    constructor
    · intro t u hoccurs
      exact ((Document.fits_of_parse hparse).sayable.of_occurs hoccurs).untagged_inner
    · intro key
      constructor
      · exact Document.toText_snippet_eq_ok_iff hparse key
      · intro cause
        exact Document.toText_snippet_eq_error_iff hparse key
  · intro p cause
    rw [fst_outcome_extract_eq_unwritable_iff, plan_eq_unwritable_iff]
    constructor
    · rintro ⟨hp, hout, octets, d, hread, hd, htext⟩
      rcases Document.exists_parse_of_ofOctets hd with ⟨text, hparse⟩
      rw [Document.takeSnippet_eq, Document.toText_snippet_eq_error_iff hparse] at htext
      exact ⟨hp, htext.1, hout, octets, d, hread, hd, htext.2⟩
    · rintro ⟨hp, rfl, hout, octets, d, hread, hd, hloses⟩
      rcases Document.exists_parse_of_ofOctets hd with ⟨text, hparse⟩
      refine ⟨hp, hout, octets, d, hread, hd, ?_⟩
      rw [Document.takeSnippet_eq, Document.toText_snippet_eq_error_iff hparse]
      exact ⟨rfl, hloses⟩

theorem extract_unwritable_iff_mappingKey :
    (outcome (inPlace.extract ⟨[97]⟩)
        (Session.ofTree definitions (Journal.Filter.ofDirectives []))).1 =
      .error (.unwritable ⟨[97]⟩ .strayEnd) := by
  have hread : definitions.read ⟨[97]⟩ = .ok mappingKey := by
    cbv
  have hloses : (Yaml.Value.map [(.map [(.str "b", .null)], .null)]).LosesStart :=
    ⟨_, _, .here, Or.inl rfl⟩
  apply ((extract_unwritable_iff inPlace ⟨[97]⟩ _).2 ⟨[97]⟩ .strayEnd).mpr
  have houtput : exists o, inPlace.outputPath ⟨[97]⟩ = .ok o := ⟨_, rfl⟩
  exact ⟨rfl, rfl, houtput, mappingKey, _, hread, ofOctets_mappingKey _, hloses⟩

def taggedKey : Storage.Tree :=
  ⟨[([[97]], .file (Text.Utf8.encode "pipelines: \x7b!a b: c\x7d".toList))], []⟩

theorem extract_taggedKey :
    (outcome (Extractor.extract ⟨⟨[111]⟩, "pipelines"⟩ ⟨[97]⟩)
        (Session.ofTree taggedKey (Journal.Filter.ofDirectives []))).1 =
      .error (.unwritable ⟨[97]⟩ .strayEnd) := by
  have hread : taggedKey.read ⟨[97]⟩ =
      .ok (Text.Utf8.encode "pipelines: \x7b!a b: c\x7d".toList) := by
    cbv
  have hd : Document.ofOctets (Text.Utf8.encode "pipelines: \x7b!a b: c\x7d".toList) ⟨[97]⟩ =
      .ok ⟨⟨[97]⟩, [(.str "pipelines", .map [(.tagged ⟨"a"⟩ (.str "b"), .str "c")])]⟩ := by
    rw [Document.ofOctets, Text.Utf8.decode_eq_ok_iff.mpr rfl]
    exact Document.parse_eq_of_ofText (by cbv) _ Document.ofText_taggedKey
  rw [fst_outcome_extract_eq_unwritable_iff, plan_eq_unwritable_iff]
  exact ⟨rfl, ⟨_, rfl⟩, _, _, hread, hd, rfl⟩

end Extractor
end Clippings
