import Clippings.Proofs.Pattern
import Clippings.Proofs.Program.Settings
import Clippings.Proofs.RoundTrip
import Clippings.Proofs.Storage.Directories

/-!
# A settings file that was written

The text of settings chooses every setting, and what is read from it are these settings again.
Whatever their strings look like, they are strings in the file.
-/

namespace Clippings

open Host (outcome)

namespace Settings

variable {s : Settings} {input output : String}

/-!
## The mapping
-/

def entries (s : Settings) (input output : String) : Yaml.Entries :=
  [(.str "input_dir", .str input), (.str "output_dir", .str output),
    (.str "pattern", .str s.pattern), (.str "key", .str s.key),
    (.str "on_error", .str s.policy.name)]

theorem toText_eq (hinput : s.inputDirectory.text? = some input)
    (houtput : s.outputDirectory.text? = some output) :
    s.toText = (Yaml.Value.map (s.entries input output)).toText := by
  unfold toText pathValue
  rw [hinput, houtput]
  rfl

theorem untagged_entries (s : Settings) (input output : String) :
    (Yaml.Value.map (s.entries input output)).Untagged := by
  have hstrings : forall e, e ∈ s.entries input output ->
      (exists k, e.1 = .str k) ∧ exists v, e.2 = .str v := by
    simp [entries]
  refine .map ?_ ?_ ?_
  · intro e he
    rcases (hstrings e he).1 with ⟨k, hk⟩
    rw [hk]
    exact .str k
  · intro e he
    rcases (hstrings e he).2 with ⟨v, hv⟩
    rw [hv]
    exact .str v
  · simp [entries, Yaml.Value.same]

/-!
## Its text
-/

theorem hasContent_entries (s : Settings) (input output : String) :
    hasContent (String.ofList (Yaml.Layout.documentText
      (Yaml.Value.map (s.entries input output)).draft)) = true := by
  rw [entries, Yaml.Value.documentText_mapping, Yaml.Value.entryDrafts, Yaml.Layout.entryTexts]
  exact hasContent_of_first rfl (by decide) (by decide)

theorem ofText_toText (hinput : s.inputDirectory.text? = some input)
    (houtput : s.outputDirectory.text? = some output) :
    exists text, s.toText = .ok text ∧ hasContent text = true ∧
      Yaml.Value.ofText text = .ok (.map (s.entries input output)) := by
  have huntagged := s.untagged_entries input output
  refine ⟨_, ?_, s.hasContent_entries input output, ?_⟩
  · rw [toText_eq hinput houtput]
    exact (Yaml.Value.toText_eq_ok_iff huntagged).mpr ⟨rfl, rfl⟩
  · exact Yaml.Value.ofText_documentText huntagged (Nat.le_of_ble_eq_true rfl)

theorem ofValue_entries (s : Settings) (input output : String) :
    Choices.ofValue (.map (s.entries input output)) =
      .ok ⟨some (Path.ofString input), some (Path.ofString output), some s.pattern, some s.key,
        some s.policy⟩ := by
  rcases s with ⟨_, _, _, _, policy⟩
  cases policy <;> rfl

end Settings

/-!
## Loading
-/

namespace Program

/-- Settings whose directories are text can be written, and a file with their text loads as the same
settings, to the octet. -/
theorem loadSettings_toText (s : Settings) {input output : String}
    (hinput : s.inputDirectory.text? = some input)
    (houtput : s.outputDirectory.text? = some output) :
    exists text, s.toText = .ok text ∧
      (forall (w : Session) (path : Path),
        w.files.read path = .ok (Text.Utf8.encode text.toList) ->
          outcome (loadSettings path) w = (.ok s, w)) ∧
      forall (w w' : Session) (path : Path), w.files.WellFormed ->
        outcome (Host.write path (Text.Utf8.encode text.toList)) w = (.ok (), w') ->
          outcome (loadSettings path) w' = (.ok s, w') := by
  rcases Settings.ofText_toText hinput houtput with ⟨text, htext, hcontent, hread⟩
  have hchoices : forall path, Choices.ofOctets (Text.Utf8.encode text.toList) path =
      .ok ⟨some (Path.ofString input), some (Path.ofString output), some s.pattern, some s.key,
        some s.policy⟩ := by
    intro path
    rw [Choices.ofOctets, Text.Utf8.decode_eq_ok_iff.mpr rfl]
    simp only [String.ofList_toList, Choices.ofText, hcontent, hread, Settings.ofValue_entries]
    rfl
  have hdirectories : Settings.default.choosing ⟨some (Path.ofString input),
      some (Path.ofString output), some s.pattern, some s.key, some s.policy⟩ = s := by
    rcases s with ⟨⟨_⟩, ⟨_⟩, _, _, _⟩
    rw [Path.text?_eq_some_iff] at hinput houtput
    cases hinput
    cases houtput
    rfl
  have hload : forall (w : Session) (path : Path),
      w.files.read path = .ok (Text.Utf8.encode text.toList) ->
        outcome (loadSettings path) w = (.ok s, w) := by
    intro w path h
    rw [outcome_loadSettings h, hchoices, Except.map, hdirectories]
  refine ⟨text, htext, hload, ?_⟩
  intro w w' path hw hwrite
  apply hload
  change w.change (w.files.write path (Text.Utf8.encode text.toList)) = (.ok (), w') at hwrite
  cases hfiles : w.files.write path (Text.Utf8.encode text.toList) with
  | error f =>
      rw [hfiles] at hwrite
      cases hwrite
  | ok t =>
      rw [hfiles] at hwrite
      cases hwrite
      exact Storage.Tree.read_of_write hw.closed hfiles

def disguised : Settings :=
  ⟨Path.ofString "null", Path.ofString " #", "0x1F", "- a: b\n", .keepGoing⟩

def disguisedText : String :=
  "input_dir: 'null'\noutput_dir: ' #'\npattern: '0x1F'\nkey: |\n  - a: b\non_error: continue\n"

theorem loadSettings_toText_disguised :
    disguised.toText = .ok disguisedText ∧
      exists w : Session,
        outcome (Host.write ⟨[99]⟩ (Text.Utf8.encode disguisedText.toList))
          (Session.ofTree ⟨[], []⟩ (Journal.Filter.ofDirectives [])) = (.ok (), w) ∧
        outcome (loadSettings ⟨[99]⟩) w = (.ok disguised, w) := by
  have hinput : disguised.inputDirectory.text? = some "null" := Path.text?_eq_some_iff.mpr rfl
  have houtput : disguised.outputDirectory.text? = some " #" := Path.text?_eq_some_iff.mpr rfl
  have hwritten : disguised.toText = .ok disguisedText :=
    (Settings.toText_eq hinput houtput).trans rfl
  have hstored : exists w, outcome (Host.write ⟨[99]⟩ (Text.Utf8.encode disguisedText.toList))
      (Session.ofTree ⟨[], []⟩ (Journal.Filter.ofDirectives [])) = (.ok (), w) := by
    change exists w, Session.change _ (Storage.Tree.write ⟨[], []⟩ ⟨[99]⟩ _) = (.ok (), w)
    unfold Storage.Tree.write
    rw [show Storage.Tree.find ⟨[], []⟩ true ⟨[99]⟩ = .ok [[99]] by cbv]
    exact ⟨_, rfl⟩
  rcases hstored with ⟨w, hw⟩
  rcases loadSettings_toText disguised hinput houtput with ⟨text, htext, -, hload⟩
  rw [hwritten] at htext
  cases htext
  exact ⟨hwritten, w, hw, hload _ w ⟨[99]⟩ (by decide) hw⟩

end Program
end Clippings
