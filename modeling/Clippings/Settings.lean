import Clippings.Document
import Clippings.Pattern
import Clippings.Policy

/-!
# Settings

Where definition files are, where snippets go, which files and which entry count, and what a failure
does.  Settings can be chosen one by one: choices in a settings file stand over the defaults, and
choices on the command line stand over both.
-/

namespace Clippings

structure Settings where
  inputDirectory : Path
  outputDirectory : Path
  pattern : String
  key : String
  policy : Policy

/-- Settings of which some are chosen. -/
structure Choices where
  inputDirectory : Option Path
  outputDirectory : Option Path
  pattern : Option String
  key : Option String
  policy : Option Policy

namespace Settings

def default : Settings :=
  ⟨Path.ofString "ksml/src/test/resources/pipelines", Path.ofString "docs/_snippets",
    Pattern.default.text, "pipelines", .failFast⟩

/-- The settings with some of them chosen anew. -/
def choosing (s : Settings) (c : Choices) : Settings :=
  ⟨c.inputDirectory.getD s.inputDirectory, c.outputDirectory.getD s.outputDirectory,
    c.pattern.getD s.pattern, c.key.getD s.key, c.policy.getD s.policy⟩

/-- Both directories as seen from `root`. -/
def resolve (s : Settings) (root : Path) : Settings :=
  { s with
    inputDirectory := root.join s.inputDirectory
    outputDirectory := root.join s.outputDirectory }

def filePattern (s : Settings) : Pattern :=
  ⟨s.pattern⟩

/-- The same settings, if paths that name the same place count as the same. -/
def same (s t : Settings) : Bool :=
  s.inputDirectory.same t.inputDirectory && s.outputDirectory.same t.outputDirectory &&
    s.pattern == t.pattern && s.key == t.key && s.policy == t.policy

/-!
## Writing
-/

def pathValue (p : Path) : Except Yaml.WriteFault Yaml.Value :=
  match p.text? with
  | some s => .ok (.str s)
  | none => .error .pathNotText

def toText (s : Settings) : Except Yaml.WriteFault String :=
  match pathValue s.inputDirectory, pathValue s.outputDirectory with
  | .ok input, .ok output =>
    (Yaml.Value.map [(.str "input_dir", input), (.str "output_dir", output),
      (.str "pattern", .str s.pattern), (.str "key", .str s.key),
      (.str "on_error", .str s.policy.name)]).toText
  | .error e, _ => .error e
  | _, .error e => .error e

def policyShown : Policy -> String
  | .failFast => "FailFast"
  | .keepGoing => "Continue"

/-- All settings on one line. -/
def shown (s : Settings) : String :=
  "SnippetConfig \x7b input_dir: " ++ s.inputDirectory.quoted ++
    ", output_dir: " ++ s.outputDirectory.quoted ++
    ", pattern: " ++ Text.Quoted.ofString s.pattern ++
    ", key: " ++ Text.Quoted.ofString s.key ++
    ", on_error: " ++ policyShown s.policy ++ " \x7d"

end Settings

namespace Choices

def empty : Choices :=
  ⟨none, none, none, none, none⟩

/-!
## Reading
-/

inductive Field where
  | inputDirectory
  | outputDirectory
  | pattern
  | key
  | policy
deriving DecidableEq, Repr

namespace Field

def name : Field -> String
  | inputDirectory => "input_dir"
  | outputDirectory => "output_dir"
  | pattern => "pattern"
  | key => "key"
  | policy => "on_error"

def all : List Field :=
  [inputDirectory, outputDirectory, pattern, key, policy]

def ofName? (name : String) : Option Field :=
  all.find? (·.name == name)

end Field

def has (c : Choices) : Field -> Bool
  | .inputDirectory => c.inputDirectory.isSome
  | .outputDirectory => c.outputDirectory.isSome
  | .pattern => c.pattern.isSome
  | .key => c.key.isSome
  | .policy => c.policy.isSome

/-- The string that a value is, whatever its tags. -/
def stringOf (expected : String) (v : Yaml.Value) : Except Yaml.Complaint String :=
  match v.untag with
  | .str s => .ok s
  | other => .error (.wrongType (Yaml.Found.ofValue other) expected)

def pathOf (v : Yaml.Value) : Except Yaml.Complaint Path :=
  (stringOf "path string" v).map Path.ofString

/-- Makes the choice that a value says. -/
def choose (c : Choices) (field : Field) (v : Yaml.Value) : Except Yaml.Complaint Choices :=
  match field with
  | .inputDirectory => (pathOf v).map fun p => { c with inputDirectory := some p }
  | .outputDirectory => (pathOf v).map fun p => { c with outputDirectory := some p }
  | .pattern => (stringOf "a string" v).map fun s => { c with pattern := some s }
  | .key => (stringOf "a string" v).map fun s => { c with key := some s }
  | .policy => (Policy.ofValue v).map fun p => { c with policy := some p }

/-- Makes the choices of a mapping in order.  No setting is chosen twice, and names that are no
setting's are passed over. -/
def ofEntries (c : Choices) : Yaml.Entries -> Except Yaml.Complaint Choices
  | [] => .ok c
  | (k, v) :: rest =>
    match stringOf "field identifier" k with
    | .error e => .error e
    | .ok name =>
      match Field.ofName? name with
      | none => ofEntries c rest
      | some field =>
        if c.has field then .error (.duplicateField name)
        else
          match c.choose field v with
          | .error e => .error e
          | .ok c => ofEntries c rest

def ofValue (v : Yaml.Value) : Except Yaml.Complaint Choices :=
  match v.untag with
  | .map entries => ofEntries empty entries
  | other => .error (.wrongType (Yaml.Found.ofValue other) "struct SnippetConfig")

/-- The choices of a settings file with this text.  One without content makes none. -/
def ofText (text : String) (path : Path) : Except Failure Choices :=
  if !hasContent text then .ok empty
  else
    match Yaml.Value.ofText text with
    | .error e => .error (.settings path e)
    | .ok v =>
      if v.isNull then .ok empty
      else
        match ofValue v with
        | .error e => .error (.settings path (.plainContent e))
        | .ok c => .ok c

def ofOctets (octets : List UInt8) (path : Path) : Except Failure Choices :=
  match Text.Utf8.decode octets with
  | .error _ => .error (.storage path .notText)
  | .ok text => ofText (String.ofList text) path

end Choices
end Clippings
