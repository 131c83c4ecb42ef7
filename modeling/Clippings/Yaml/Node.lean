import Clippings.Yaml.Event
import Clippings.Yaml.SyntaxFault

/-!
# Nodes

The first document of a text as a tree.  A text that goes wrong part of the way still has a tree,
whose last nodes are incomplete: what is amiss in the part before the fault counts as found first.

Anchors are numbered by how many names were known before them.  A name given a second time adds
none, so a later anchor can have the number of an earlier one, and then takes its place.
-/

namespace Clippings
namespace Yaml

inductive Node where
  | scalar (place : Mark) (tag : Option Octets) (style : ScalarStyle) (text : List Char)
  /-- The children of a mapping are keys and values in turn. -/
  | collection (shape : Shape) (place : Mark) (tag : Option Octets) (children : List Node)
      (complete : Bool)
  | alias (number : Nat)

inductive TreeFault where
  | form (f : SyntaxFault)
  | unknownAnchor (place : Mark)

/-- The first document of a text. -/
structure Tree where
  /-- Absent where the text holds no document, or goes wrong before its first node. -/
  root : Option Node
  /-- Anchored nodes by number. -/
  anchored : List (Nat × Node)
  /-- How many nodes and ends of collections the tree was made from, at least one. -/
  size : Nat
  fault : Option TreeFault
  /-- Something follows the document. -/
  followed : Bool

namespace Tree

/-!
## Anchors
-/

structure Anchors where
  /-- Names with their numbers. -/
  names : List (List Char × Nat)
  /-- Numbers with the position of the event they stand for; the front one counts. -/
  targets : List (Nat × Nat)

namespace Anchors

def empty : Anchors :=
  ⟨[], []⟩

def add (a : Anchors) (name : List Char) (position : Nat) : Anchors :=
  let number := a.names.length
  ⟨(name, number) :: a.names.filter (·.1 != name), (number, position) :: a.targets⟩

def note (a : Anchors) (properties : Properties) (position : Nat) : Anchors :=
  match properties.anchor with
  | none => a
  | some name => a.add name position

end Anchors

/-!
## Building
-/

/-- A collection that is still open, its children last one first. -/
structure Frame where
  shape : Shape
  place : Mark
  tag : Option Octets
  position : Nat
  children : List Node

structure Builder where
  position : Nat
  anchors : Anchors
  frames : List Frame
  /-- Complete nodes outside every open collection, the last one first. -/
  roots : List Node
  /-- Every finished node by the position of its first event. -/
  finished : List (Nat × Node)

namespace Builder

def empty : Builder :=
  ⟨0, Anchors.empty, [], [], []⟩

def add (b : Builder) (position : Nat) (node : Node) : Builder :=
  let finished := (position, node) :: b.finished
  match b.frames with
  | [] => { b with roots := node :: b.roots, finished := finished }
  | f :: frames =>
    { b with frames := { f with children := node :: f.children } :: frames, finished := finished }

def close (complete : Bool) (b : Builder) : Builder :=
  match b.frames with
  | [] => b
  | f :: frames =>
    { b with frames := frames }.add f.position
      (.collection f.shape f.place f.tag f.children.reverse complete)

def closeAll (b : Builder) : Builder :=
  b.frames.foldl (fun b _ => b.close false) b

def step (b : Builder) : Builder :=
  { b with position := b.position + 1 }

/-- The tree of what was built, with every number's last anchored node. -/
def tree (b : Builder) (fault : Option TreeFault) (followed : Bool) : Tree :=
  let done := b.closeAll
  ⟨done.roots.getLast?,
    b.anchors.targets.filterMap fun (number, position) =>
      (done.finished.lookup position).map (number, ·),
    max b.position 1, fault, followed⟩

/-- Takes events up to the end of the first document.  `fault` says why the events end. -/
def run (fault : Option TreeFault) (b : Builder) : List (Mark × Event) -> Tree
  | [] => b.tree fault false
  | (place, event) :: rest =>
    match event with
    | .documentStart => run fault b rest
    | .streamEnd => b.tree none false
    | .documentEnd => b.tree none (rest.head?.map (·.2) != some .streamEnd)
    | .alias name =>
      match b.anchors.names.lookup name with
      | none => b.tree (some (.unknownAnchor place)) false
      | some number => run fault ((b.add b.position (.alias number)).step) rest
    | .scalar properties style text =>
      let b := { b with anchors := b.anchors.note properties b.position }
      run fault (b.add b.position (.scalar place properties.tag style text)).step rest
    | .collectionStart shape properties =>
      let b := { b with
        anchors := b.anchors.note properties b.position
        frames := ⟨shape, place, properties.tag, b.position, []⟩ :: b.frames }
      run fault b.step rest
    | .collectionEnd _ => run fault (b.close true).step rest

end Builder

def ofEvents (events : List (Mark × Event)) (fault : Option SyntaxFault) : Tree :=
  Builder.run (fault.map .form) Builder.empty events

end Tree
end Yaml
end Clippings
