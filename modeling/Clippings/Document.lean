import Clippings.Failure
import Clippings.Text.Blank
import Clippings.Yaml.Layout
import Clippings.Yaml.Value.Reader

/-!
# Definition files

The top level of a definition file is a mapping, whose entries are kept as they are.  A file that
holds nothing but blank lines and comments has no entries, and so has one that says null.
-/

namespace Clippings

structure Document where
  path : Path
  entries : Yaml.Entries

/-- One entry of a document by itself. -/
structure Snippet where
  key : String
  value : Yaml.Value

namespace Snippet

def isEmpty (s : Snippet) : Bool :=
  s.value.isNull

def entries (s : Snippet) : Yaml.Entries :=
  [(.str s.key, s.value)]

def toText (s : Snippet) : Except Yaml.WriteFault String :=
  (Yaml.Value.map s.entries).toText

end Snippet

/-!
## Texts without content
-/

namespace Line

/-- Neither blank nor a comment. -/
def hasContent (line : List Char) : Bool :=
  match line.dropWhile Text.isBlank with
  | [] => false
  | c :: _ => c != '#'

end Line

/-- Some line is neither blank nor a comment. -/
def hasContent (text : String) : Bool :=
  (Text.splitAt '\n' text.toList).any Line.hasContent

namespace Document

/-!
## Reading
-/

def parse (text : String) (path : Path) : Except Failure Document :=
  if !hasContent text then .ok ⟨path, []⟩
  else
    match Yaml.Value.ofText text with
    | .error e => .error (.unreadable path e)
    | .ok (.map entries) => .ok ⟨path, entries⟩
    | .ok .null => .ok ⟨path, []⟩
    | .ok _ => .error (.notMapping path)

def ofOctets (octets : List UInt8) (path : Path) : Except Failure Document :=
  match Text.Utf8.decode octets with
  | .error e => .error (.notText path e)
  | .ok text => parse (String.ofList text) path

/-!
## Entries
-/

def get? (d : Document) (key : String) : Option Yaml.Value :=
  d.entries.get? key

def keys (d : Document) : List Yaml.Value :=
  d.entries.map (·.1)

/-- The entry under a key; a missing one has the value null. -/
def snippet (d : Document) (key : String) : Snippet :=
  ⟨key, (d.get? key).getD .null⟩

/-- As `snippet`, by taking the entry out of the document. -/
def takeSnippet (d : Document) (key : String) : Snippet :=
  ⟨key, (d.entries.remove key).1.getD .null⟩

end Document
end Clippings
