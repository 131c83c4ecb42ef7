import Clippings.Yaml.Layout
import Clippings.Yaml.Value.Reader

/-!
# What a failure does to a run

A run over many files either ends with the first failure or goes on with the next file.  A policy is
written as its name, with or without quotes, or as a tag of that name on nothing.
-/

namespace Clippings

inductive Policy where
  | failFast
  | keepGoing
deriving DecidableEq, Repr

namespace Policy

def name : Policy -> String
  | failFast => "fail-fast"
  | keepGoing => "continue"

def all : List Policy :=
  [failFast, keepGoing]

def ofName (name : String) : Except Yaml.Complaint Policy :=
  match all.find? (·.name == name) with
  | some p => .ok p
  | none => .error (.unknownVariant name (all.map Policy.name))

/-!
## Values
-/

def ofValue : Yaml.Value -> Except Yaml.Complaint Policy
  | .str s => ofName s
  | .tagged tag v =>
    match ofName tag.name with
    | .error e => .error e
    | .ok p =>
      match v with
      | .null => .ok p
      | v => .error (.wrongType (Yaml.Found.ofValue v) "unit")
  | v => .error (.wrongType (Yaml.Found.ofValue v) "a Value::Tagged enum")

/-!
## Texts
-/

def foundShape : Yaml.Shape -> Yaml.Found
  | .sequence => .seq
  | .mapping => .map

/-- What a text's only node says, by its tag or else by its text. -/
def ofRoot (t : Yaml.Tree) : Yaml.Node -> Except Yaml.Fault Policy
  | .scalar mark tag _ text =>
    match Yaml.Tree.localName? tag with
    | some name =>
      match ofName name with
      | .error e => .error (.plainContent e)
      | .ok p =>
        if text.isEmpty || Yaml.Meaning.isNullWord text then .ok p
        else .error (.content (.wrongValue (.str (String.ofList text)) "null") .root mark)
    | none =>
      match ofName (String.ofList text) with
      | .error e => .error (.content e .root mark)
      | .ok p => .ok p
  | .collection shape mark tag _ _ =>
    match Yaml.Tree.localName? tag with
    | some name =>
      match ofName name with
      | .error e => .error (.plainContent e)
      | .ok _ => .error (.content (.wrongType (foundShape shape) "unit") .root mark)
    | none =>
      .error (.content (.wrongType (foundShape shape) "a YAML tag starting with '!'") .root mark)
  | .alias _ => .error t.breakFault

/-- Reads a text that holds a policy and nothing else. -/
def ofText (text : String) : Except Yaml.Fault Policy :=
  match Yaml.Tree.ofText text.toList with
  | .error e => .error e
  | .ok t =>
    match t.root with
    | none => .error t.breakFault
    | some node =>
      match ofRoot t node with
      | .error e => .error e
      | .ok p => t.finish p

def toText (p : Policy) : Except Yaml.WriteFault String :=
  (Yaml.Value.str p.name).toText

end Policy
end Clippings
