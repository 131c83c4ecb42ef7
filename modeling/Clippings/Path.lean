import Clippings.Text.Quoted

/-!
# Paths

A path is any string of octets.  It is read as a list of components: the root, names, and the two
names that mean the directory itself and the one above.  Repeated and trailing slashes do not count,
and neither does `.` except at the front of a relative path.
-/

namespace Clippings

structure Path where
  octets : List UInt8
deriving DecidableEq, Repr

namespace Path

def slash : UInt8 :=
  47

def ofString (s : String) : Path :=
  ⟨Text.Utf8.encode s.toList⟩

def text? (p : Path) : Option String :=
  match Text.Utf8.decode p.octets with
  | .ok cs => some (String.ofList cs)
  | .error _ => none

/-- The path as text, with a replacement character for what is none. -/
def display (p : Path) : String :=
  Text.Utf8.lossy p.octets

def quoted (p : Path) : String :=
  Text.Quoted.ofOctets p.octets

/-!
## Components
-/

def parts : List UInt8 -> List (List UInt8)
  | [] => [[]]
  | b :: rest =>
    if b == slash then [] :: parts rest
    else
      match parts rest with
      | [] => [[b]]
      | part :: more => (b :: part) :: more

def dot : List UInt8 :=
  [46]

def dotDot : List UInt8 :=
  [46, 46]

inductive Component where
  | root
  /-- The directory itself, at the front of a relative path. -/
  | here
  | above
  | name (octets : List UInt8)
deriving DecidableEq, Repr

def isAbsolute (p : Path) : Bool :=
  p.octets.head? == some slash

def componentOf (part : List UInt8) : Component :=
  if part == dotDot then .above else .name part

/-- The components of a list of parts, apart from what stands at the front. -/
def inner (parts : List (List UInt8)) : List Component :=
  (parts.filter fun part => !part.isEmpty && part != dot).map componentOf

def components (p : Path) : List Component :=
  if p.isAbsolute then .root :: inner (parts p.octets)
  else
    match parts p.octets with
    | first :: rest => (if first == dot then [.here] else inner [first]) ++ inner rest
    | [] => []

/-- Equality of paths as names of places. -/
def same (p q : Path) : Bool :=
  p.components == q.components

/-- The last component, if it is a name. -/
def fileName? (p : Path) : Option (List UInt8) :=
  match p.components.getLast? with
  | some (.name octets) => some octets
  | _ => none

/-!
## Joining
-/

/-- A slash between two parts, unless the first is empty or has one. -/
def withSlash (octets : List UInt8) : List UInt8 :=
  if octets.isEmpty || octets.getLast? == some slash then octets else octets ++ [slash]

/-- `q` as seen from `p`: an absolute path stays as it is. -/
def join (p q : Path) : Path :=
  if q.isAbsolute then q else ⟨withSlash p.octets ++ q.octets⟩

/-!
## The path above
-/

/-- Without slashes and parts `.` at the end. -/
def dropTrailing (reversed : List (List UInt8)) : List (List UInt8) :=
  reversed.dropWhile fun part => part.isEmpty || part == dot

def unparts (parts : List (List UInt8)) : List UInt8 :=
  [slash].intercalate parts

/-- The path without its last component; nothing lies above the root and the empty path. -/
def parent? (p : Path) : Option Path :=
  match p.components with
  | [] | [.root] => none
  | [.here] => some ⟨[]⟩
  | _ =>
    let kept := dropTrailing ((dropTrailing (parts p.octets).reverse).drop 1)
    let kept := kept.reverse
    if kept.isEmpty then
      some ⟨if p.isAbsolute then [slash]
        else if (parts p.octets).length > 1 && (parts p.octets).head? == some dot then dot
        else []⟩
    else some ⟨unparts kept⟩

/-- The path and up to `n` paths above it. -/
def ancestorsUpTo : Nat -> Path -> List Path
  | 0, p => [p]
  | n + 1, p =>
    match p.parent? with
    | none => [p]
    | some q => p :: ancestorsUpTo n q

def ancestors (p : Path) : List Path :=
  ancestorsUpTo p.octets.length p

end Path
end Clippings
