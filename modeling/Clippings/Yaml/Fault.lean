import Clippings.Text.Quoted
import Clippings.Yaml.SyntaxFault
import Clippings.Yaml.Value

/-!
# Why a document cannot be read

Beside faults of form there are faults of content: a value of the wrong kind, a key given twice, an
alias to nowhere, nesting or repetition beyond the limits.  Faults of content that come from a text
say where in the document they are and where in the text.
-/

namespace Clippings
namespace Yaml

/-- What was found where something else was expected. -/
inductive Found where
  | unit
  | bool (b : Bool)
  | int (i : Int)
  /-- An integer beyond 64 bits. -/
  | wide (i : Int)
  | float (x : Binary64)
  | str (s : String)
  | seq
  | map
deriving DecidableEq, Repr

namespace Found

def codeQuoted (s : String) : String :=
  "\x60" ++ s ++ "\x60"

def message : Found -> String
  | unit => "unit value"
  | bool b => "boolean " ++ codeQuoted (toString b)
  | int i => "integer " ++ codeQuoted (toString i)
  | wide i => "integer " ++ codeQuoted (toString i) ++ (if i < 0 then " as i128" else " as u128")
  | float x => "floating point " ++ codeQuoted x.message
  | str s => "string " ++ Text.Quoted.ofString s
  | seq => "sequence"
  | map => "map"

/-- What a value counts as, apart from its tags. -/
def ofValue : Value -> Found
  | .null => unit
  | .bool b => bool b
  | .int i => int i
  | .float x => float x
  | .str s => str s
  | .seq _ => seq
  | .map _ => map
  | .tagged _ v => ofValue v

end Found

/-- What is wrong with the content of a document. -/
inductive Complaint where
  | wrongType (found : Found) (expected : String)
  | wrongValue (found : Found) (expected : String)
  | unknownVariant (name : String) (choices : List String)
  | duplicateField (name : String)
  | duplicateKey (key : Value)

namespace Complaint

def keyMessage : Value -> String
  | .null => "with null key"
  | .bool b => "with key " ++ Found.codeQuoted (toString b)
  | .int i => "with key " ++ toString i
  | .float x => "with key " ++ x.text
  | .str s => "with key " ++ Text.Quoted.ofString s
  | .seq _ | .map _ | .tagged _ _ => "in YAML map"

def message : Complaint -> String
  | wrongType found expected => "invalid type: " ++ found.message ++ ", expected " ++ expected
  | wrongValue found expected => "invalid value: " ++ found.message ++ ", expected " ++ expected
  | unknownVariant name choices =>
    "unknown variant " ++ Found.codeQuoted name ++ ", expected " ++
      " or ".intercalate (choices.map Found.codeQuoted)
  | duplicateField name => "duplicate field " ++ Found.codeQuoted name
  | duplicateKey key => "duplicate entry " ++ keyMessage key

end Complaint

/-- Where in a document a value stands. -/
inductive Place where
  | root
  | item (parent : Place) (index : Nat)
  | entry (parent : Place) (key : String)
  /-- An entry whose key has no text. -/
  | unnamed (parent : Place)
  | alias (parent : Place)
deriving DecidableEq, Repr

namespace Place

def isRoot : Place -> Bool
  | root => true
  | _ => false

def message : Place -> String
  | root => "."
  | item parent index => message parent ++ "[" ++ toString index ++ "]"
  | entry parent key => (if parent.isRoot then "" else message parent ++ ".") ++ key
  | unnamed parent => (if parent.isRoot then "" else message parent ++ ".") ++ "?"
  | .alias parent => message parent

end Place

inductive Fault where
  | form (f : SyntaxFault)
  /-- The text holds a character that may not stand in it, after so many octets. -/
  | controlCharacter (offset : Nat)
  | unknownAnchor (place : Mark)
  | noDocument
  | severalDocuments
  | tooDeep (place : Mark)
  | tooManyRepetitions
  | content (complaint : Complaint) (place : Place) (mark : Mark)
  /-- As `content`, for a value that did not come from a text. -/
  | plainContent (complaint : Complaint)

namespace Fault

def atMark (m : Mark) : String :=
  if m.isOrigin then "" else " at " ++ m.message

def message : Fault -> String
  | form f => f.message
  | controlCharacter offset =>
    "control characters are not allowed" ++
      (if offset == 0 then "" else " at position " ++ toString offset)
  | unknownAnchor m => "unknown anchor" ++ atMark m
  | noDocument => "EOF while parsing a value"
  | severalDocuments =>
    "deserializing from YAML containing more than one document is not supported"
  | tooDeep m => "recursion limit exceeded" ++ atMark m
  | tooManyRepetitions => "repetition limit exceeded"
  | content complaint place m =>
    (if place.message == "." then "" else place.message ++ ": ") ++ complaint.message ++ atMark m
  | plainContent complaint => complaint.message

end Fault
end Yaml
end Clippings
