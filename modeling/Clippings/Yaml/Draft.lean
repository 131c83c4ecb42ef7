import Clippings.Yaml.Event
import Clippings.Yaml.Resolution
import Clippings.Yaml.Value

/-!
# Documents about to be written

A value is announced as a walk through its nodes, and the walk is gathered into a draft: a tree that
the layout turns into text.

A tagged value has the shape of a mapping of one entry, whose key is the tag.  So the start of a
mapping of one entry is announced only once its key shows that it is not a tag.  A key that is
itself such a mapping, or a tagged value, takes that start for its own, and the end of the mapping
then has nothing to match.
-/

namespace Clippings
namespace Yaml

inductive Draft where
  | scalar (tag : Option Octets) (style : ScalarStyle) (text : List Char)
  /-- The children of a mapping are keys and values in turn. -/
  | collection (shape : Shape) (tag : Option Octets) (children : List Draft)
deriving Repr

inductive WriteFault where
  /-- A tag on a tagged value. -/
  | nestedTag
  /-- A mapping ends where a node is missing. -/
  | strayEnd
  /-- A path that is no text. -/
  | pathNotText
deriving DecidableEq, Repr

namespace WriteFault

def message : WriteFault -> String
  | nestedTag => "serializing nested enums in YAML is not supported yet"
  | strayEnd => "expected SCALAR, SEQUENCE-START, MAPPING-START, or ALIAS"
  | pathNotText => "path contains invalid UTF-8 characters"

end WriteFault

/-!
## The walk
-/

/-- What is still to be announced when a node starts. -/
inductive Pending where
  | nothing
  /-- The start of a mapping of one entry, before its key. -/
  | mapping
  /-- As `mapping`, where the start was announced with a tag. -/
  | taggedMapping
  /-- A tag for the node. -/
  | tag (t : Tag)
deriving DecidableEq, Repr

namespace Pending

def starts : Pending -> List Event
  | mapping => [.collectionStart .mapping Properties.none]
  | _ => []

/-- The spelling of a tag starts with an exclamation mark. -/
def spelling (t : Tag) : Octets :=
  let name := t.name.toList
  (if name.head? == some '!' then name else '!' :: name).flatMap String.utf8EncodeChar

def properties : Pending -> Properties
  | tag t => ⟨none, some (spelling t)⟩
  | _ => Properties.none

def isTag : Pending -> Bool
  | tag _ => true
  | _ => false

end Pending

namespace Value

/-- Words that need no quotes are left plain; texts with line breaks are written as blocks; strings
that would read back as something else are quoted. -/
def stringStyle (s : List Char) : ScalarStyle :=
  if s.contains '\n' then .literal
  else if Meaning.ofPlain s == .str && !Meaning.isZeroPadded s then .plain
  else .singleQuoted

/-- The text of a scalar and how it would like to be written. -/
def scalarText : Value -> ScalarStyle × List Char
  | bool b => (.plain, (toString b).toList)
  | int i => (.plain, (toString i).toList)
  | float x => (.plain, x.text.toList)
  | str s => (stringStyle s.toList, s.toList)
  | _ => (.plain, "null".toList)

mutual
/-- The walk through a value, up to the first thing that cannot be announced. -/
def walk (p : Pending) : Value -> List (Except WriteFault Event)
  | seq items =>
    p.starts.map .ok ++ .ok (.collectionStart .sequence p.properties) ::
      (walkItems items ++ [.ok (.collectionEnd .sequence)])
  | map [(k, v)] =>
    (if p.isTag then
      .ok (.collectionStart .mapping p.properties) :: (walk .taggedMapping k ++ walk .nothing v)
    else walk .mapping k ++ walk .nothing v) ++ [.ok (.collectionEnd .mapping)]
  | map entries =>
    p.starts.map .ok ++ .ok (.collectionStart .mapping p.properties) ::
      (walkEntries entries ++ [.ok (.collectionEnd .mapping)])
  | tagged t v => if p.isTag then [.error .nestedTag] else walk (.tag t) v
  | v =>
    let (style, text) := scalarText v
    p.starts.map .ok ++ [.ok (.scalar p.properties style text)]
def walkItems : List Value -> List (Except WriteFault Event)
  | [] => []
  | v :: rest => walk .nothing v ++ walkItems rest
def walkEntries : List (Value × Value) -> List (Except WriteFault Event)
  | [] => []
  | (k, v) :: rest => walk .nothing k ++ (walk .nothing v ++ walkEntries rest)
end

end Value

/-!
## Gathering
-/

namespace Draft

/-- A collection whose end has not come yet, its children last one first. -/
structure Frame where
  shape : Shape
  tag : Option Octets
  children : List Draft

/-- A mapping may end only after a value, a sequence anywhere. -/
def Frame.mayEnd (f : Frame) (shape : Shape) : Bool :=
  f.shape == shape && (shape == .sequence || f.children.length % 2 == 0)

def Frame.draft (f : Frame) : Draft :=
  .collection f.shape f.tag f.children.reverse

/-- Adds a finished node; gives it back where no collection is open. -/
def add (d : Draft) : List Frame -> Option Draft × List Frame
  | [] => (some d, [])
  | f :: frames => (none, { f with children := d :: f.children } :: frames)

/-- Gathers a walk, given the collections that are open and the document if it is complete. -/
def gather (frames : List Frame) (document : Option Draft) :
    List (Except WriteFault Event) -> Except WriteFault Draft
  | [] =>
    match document with
    | some d => .ok d
    | none => .error .strayEnd
  | .error e :: _ => .error e
  | .ok event :: rest =>
    match event with
    | .scalar properties style text =>
      let (complete, frames) := add (.scalar properties.tag style text) frames
      gather frames (document <|> complete) rest
    | .collectionStart shape properties =>
      gather (⟨shape, properties.tag, []⟩ :: frames) document rest
    | .collectionEnd shape =>
      match frames with
      | f :: frames =>
        if f.mayEnd shape then
          let (complete, frames) := add f.draft frames
          gather frames (document <|> complete) rest
        else .error .strayEnd
      | [] => .error .strayEnd
    | _ => gather frames document rest

def ofValue (v : Value) : Except WriteFault Draft :=
  gather [] none (v.walk .nothing)

end Draft
end Yaml
end Clippings
