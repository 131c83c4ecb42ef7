import Clippings.Yaml.Token

/-!
# Events

A document as a walk through its nodes: every collection has a start and an end, and of a mapping
keys and values take turns.
-/

namespace Clippings
namespace Yaml

structure Properties where
  anchor : Option (List Char)
  tag : Option Octets
deriving DecidableEq, Repr

namespace Properties

def none : Properties :=
  ⟨Option.none, Option.none⟩

def isNone (p : Properties) : Bool :=
  p.anchor.isNone && p.tag.isNone

end Properties

inductive Shape where
  | sequence
  | mapping
deriving DecidableEq, Repr

inductive Event where
  | documentStart
  | documentEnd
  | streamEnd
  | alias (name : List Char)
  | scalar (properties : Properties) (style : ScalarStyle) (text : List Char)
  | collectionStart (shape : Shape) (properties : Properties)
  | collectionEnd (shape : Shape)
deriving DecidableEq, Repr

namespace Event

/-- What stands where a node is left out. -/
def empty : Event :=
  scalar Properties.none .plain []

end Event
end Yaml
end Clippings
