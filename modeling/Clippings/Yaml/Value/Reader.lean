import Clippings.Yaml.Event.Grammar
import Clippings.Yaml.Fault
import Clippings.Yaml.Node
import Clippings.Yaml.Resolution
import Clippings.Yaml.Token.Lexer

/-!
# Reading values

A text holds one document.  Its nodes become values in the order of the text, every alias standing
for a fresh copy of its anchored node.  Nesting is limited, and so is the number of aliases
followed.  Keys of one mapping have to differ.

A fault of content in front of a fault of form is the one that is reported.
-/

namespace Clippings
namespace Yaml

/-- The first character that a text may not hold, by how many octets come before it. -/
def forbiddenOffset? (offset : Nat) : List Char -> Option Nat
  | [] => none
  | c :: rest =>
    if Character.isAllowed c then forbiddenOffset? (offset + c.utf8Size) rest else some offset

def Tree.ofText (text : List Char) : Except Fault Tree :=
  match forbiddenOffset? 0 text with
  | some offset => .error (.controlCharacter offset)
  | none =>
    let (tokens, tokenFault) := Token.ofText text
    let (events, fault) := Event.ofTokens tokens tokenFault
    .ok (Tree.ofEvents events fault)

namespace Tree

def maxDepth : Nat :=
  128

/-- How many aliases may be followed for every node of the tree. -/
def repetitions : Nat :=
  100

/-- The fault at the place where the tree breaks off. -/
def breakFault (t : Tree) : Fault :=
  match t.fault with
  | some (.form f) => .form f
  | some (.unknownAnchor m) => .unknownAnchor m
  | none => .noDocument

/-!
## Tags
-/

def standardTag (name : String) : Octets :=
  Handles.octets ("tag:yaml.org,2002:" ++ name).toList

/-- What a local tag says.  Such a tag starts with an exclamation mark, which stands for itself only
if nothing follows. -/
def localName? (tag : Option Octets) : Option String :=
  match tag with
  | some (b :: rest) =>
    if b == 33 then String.fromUTF8? (ByteArray.mk (if rest.isEmpty then [b] else rest).toArray)
    else none
  | _ => none

def localTag? (tag : Option Octets) : Option Tag :=
  (localName? tag).map Tag.ofText

/-- The spelling of a tag starts with an exclamation mark. -/
def isLocal (tag : Octets) : Bool :=
  tag.head? == some 33

/-!
## Scalars
-/

def ofMeaning (text : List Char) : Meaning -> Except Complaint Value
  | .null => .ok .null
  | .bool b => .ok (.bool b)
  | .int i => .ok (.int i)
  | .wide i => .error (.wrongType (.wide i) "any YAML value")
  | .float x => .ok (.float x)
  | .str => .ok (.str (String.ofList text))

/-- A scalar whose tag asks for a kind of value. -/
def ofStandardTag? (tag : Octets) (text : List Char) : Option (Except Complaint Value) :=
  let wrong (expected : String) : Except Complaint Value :=
    .error (.wrongValue (.str (String.ofList text)) expected)
  if tag == standardTag "bool" then
    some (match Meaning.bool? text with
      | some b => .ok (.bool b)
      | none => wrong "a boolean")
  else if tag == standardTag "int" then
    some (match Meaning.int? text with
      | some m => ofMeaning text m
      | none => wrong "an integer")
  else if tag == standardTag "float" then
    some (match Meaning.float? text with
      | some x => .ok (.float x)
      | none => wrong "a float")
  else if tag == standardTag "null" then
    some (if Meaning.isNullWord text then .ok .null else wrong "null")
  else none

/-- The value of a scalar.  `tagged` says that its tag is already accounted for. -/
def scalar (tagged : Bool) (tag : Option Octets) (style : ScalarStyle) (text : List Char) :
    Except Complaint Value :=
  let plain := if style == .plain then ofMeaning text (Meaning.ofPlain text)
    else .ok (.str (String.ofList text))
  match if tagged then none else tag with
  | none => plain
  | some tag =>
    match ofStandardTag? tag text with
    | some v => v
    | none => if isLocal tag then plain else .ok (.str (String.ofList text))

/-!
## Nodes
-/

/-- Reads a node at a place, after so many aliases were followed; gives the value and how many have
been followed then. -/
abbrev ReadNode :=
  Place -> Node -> Nat -> Except Fault (Value × Nat)

/-- Where an entry's value stands. -/
def entryPlace (place : Place) : Node -> Place
  | .scalar _ _ _ text => .entry place (String.ofList text)
  | _ => .unnamed place

def readItems (read : ReadNode) (place : Place) (index : Nat) (done : List Value) :
    List Node -> Nat -> Except Fault (List Value × Nat)
  | [], jumps => .ok (done.reverse, jumps)
  | node :: rest, jumps =>
    match read (.item place index) node jumps with
    | .error e => .error e
    | .ok (v, jumps) => readItems read place (index + 1) (v :: done) rest jumps

/-- Reads keys and values in turn.  The key of an entry that breaks off is read as well. -/
def readEntries (read : ReadNode) (place : Place) (mark : Mark) (breakFault : Fault)
    (done : Entries) : List Node -> Nat -> Except Fault (Entries × Nat)
  | [], jumps => .ok (done.reverse, jumps)
  | key :: rest, jumps =>
    match read place key jumps with
    | .error e => .error e
    | .ok (k, jumps) =>
      if done.has k then .error (.content (.duplicateKey k) place mark)
      else
        match rest with
        | [] => .error breakFault
        | value :: rest =>
          match read (entryPlace place key) value jumps with
          | .error e => .error e
          | .ok (v, jumps) =>
            readEntries read place mark breakFault ((k, v) :: done) rest jumps

def follow (t : Tree) (place : Place) (node : Node) (jumps : Nat) :
    Except Fault (Place × Node × Nat) :=
  match node with
  | .alias number =>
    if t.size * repetitions < jumps + 1 then .error .tooManyRepetitions
    else
      match t.anchored.lookup number with
      | some node => .ok (.alias place, node, jumps + 1)
      | none => .error t.breakFault
  | node => .ok (place, node, jumps)

def withTag (tag : Option Octets) (v : Value) : Value :=
  match localTag? tag with
  | some name => .tagged name v
  | none => v

/-- Reads the children of a collection, which `read` reads one by one. -/
def readChildren (t : Tree) (read : ReadNode) (place : Place) (shape : Shape) (mark : Mark)
    (children : List Node) (complete : Bool) (jumps : Nat) : Except Fault (Value × Nat) :=
  let result : Except Fault (Value × Nat) :=
    match shape with
    | .sequence =>
      (readItems read place 0 [] children jumps).map fun (vs, n) => (Value.seq vs, n)
    | .mapping =>
      (readEntries read place mark t.breakFault [] children jumps).map fun (es, n) =>
        (Value.map es, n)
  match result with
  | .error e => .error e
  | .ok r => if complete then .ok r else .error t.breakFault

/-- Reads a node inside which collections may nest so many levels deep. -/
def readNode (t : Tree) : Nat -> ReadNode
  | depth, place, node, jumps =>
    match t.follow place node jumps with
    | .error e => .error e
    | .ok (place, node, jumps) =>
      match node with
      | .alias _ => .error t.breakFault
      | .scalar mark tag style text =>
        match scalar (localTag? tag).isSome tag style text with
        | .ok v => .ok (withTag tag v, jumps)
        | .error complaint => .error (.content complaint place mark)
      | .collection shape mark tag children complete =>
        match depth with
        | 0 => .error (.tooDeep mark)
        | depth + 1 =>
          (t.readChildren (t.readNode depth) place shape mark children complete jumps).map
            fun (v, n) => (withTag tag v, n)

/-- What has to hold besides: the text is well formed to its end and holds nothing further. -/
def finish {α : Type} (t : Tree) (result : α) : Except Fault α :=
  if t.fault.isSome then .error t.breakFault
  else if t.followed then .error .severalDocuments
  else .ok result

/-- The value of the whole document; a text without one says null. -/
def value (t : Tree) : Except Fault Value :=
  match t.root with
  | none => if t.fault.isSome then .error t.breakFault else t.finish .null
  | some node =>
    match t.readNode maxDepth .root node 0 with
    | .error e => .error e
    | .ok (v, _) => t.finish v

end Tree

def Value.ofText (text : String) : Except Fault Value :=
  match Tree.ofText text.toList with
  | .error e => .error e
  | .ok t => t.value

end Yaml
end Clippings
