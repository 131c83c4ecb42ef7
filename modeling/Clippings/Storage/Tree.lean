import Clippings.Path
import Clippings.Storage.Fault

/-!
# File trees

A tree of files is a list of entries by address, the root being a directory at all times.  A path is
looked up part by part from the root or from the working directory; links on the way are followed,
but not more than forty of them.

An entry whose directory is missing, or is no directory, cannot be reached by any path.
-/

namespace Clippings
namespace Storage

abbrev Name :=
  List UInt8

/-- Names from the innermost one outwards; the root has none. -/
abbrev Address :=
  List Name

inductive Entry where
  | file (content : List UInt8)
  | directory
  | link (target : Path)
deriving DecidableEq, Repr

structure Tree where
  entries : List (Address × Entry)
  /-- The working directory. -/
  here : Address
deriving DecidableEq, Repr

namespace Tree

def at? (t : Tree) (a : Address) : Option Entry :=
  if a.isEmpty then some .directory else t.entries.lookup a

/-- Puts an entry at an address, in the place of what is there. -/
def set (t : Tree) (a : Address) (e : Entry) : Tree :=
  { t with entries := (a, e) :: t.entries.filter (·.1 != a) }

/-!
## Looking up
-/

def maxLinks : Nat :=
  40

def maxNameLength : Nat :=
  255

def maxPathLength : Nat :=
  4095

/-- Goes on from an address along the parts of a path, following so many links at most.  With `new`,
the last part may name nothing yet. -/
def walk (t : Tree) (new : Bool) (links : Nat) (a : Address) (parts : List Name) :
    Except Fault Address :=
  match parts with
  | [] => .ok a
  | part :: rest =>
    if t.at? a != some .directory then .error .notDirectory
    else if part.isEmpty || part == Path.dot then walk t new links a rest
    else if part == Path.dotDot then walk t new links a.tail rest
    else if maxNameLength < part.length then .error .nameTooLong
    else if new && !rest.isEmpty && rest.all List.isEmpty then .error .isDirectory
    else
      match t.at? (part :: a) with
      | none => if new && rest.isEmpty then .ok (part :: a) else .error .notFound
      | some (.link target) =>
        match links with
        | 0 => .error .tooManyLinks
        | links + 1 =>
          walk t new links (if target.isAbsolute then [] else a) (Path.parts target.octets ++ rest)
      | some _ => walk t new links (part :: a) rest
termination_by (links, parts.length)

/-- What no path may be. -/
def pathFault? (p : Path) : Option Fault :=
  if p.octets.contains 0 then some .zeroInPath
  else if p.octets.isEmpty then some .notFound
  else if maxPathLength < p.octets.length then some .nameTooLong
  else none

def origin (t : Tree) (p : Path) : Address :=
  if p.isAbsolute then [] else t.here

def find (t : Tree) (new : Bool) (p : Path) : Except Fault Address :=
  match pathFault? p with
  | some f => .error f
  | none => walk t new maxLinks (t.origin p) (Path.parts p.octets)

def entryOf? (t : Tree) (p : Path) : Option Entry :=
  match t.find false p with
  | .ok a => t.at? a
  | .error _ => none

def isFile (t : Tree) (p : Path) : Bool :=
  match t.entryOf? p with
  | some (.file _) => true
  | _ => false

def isDirectory (t : Tree) (p : Path) : Bool :=
  t.entryOf? p == some .directory

def pathTo : Address -> Path
  | [] => ⟨[Path.slash]⟩
  | a => ⟨a.reverse.flatMap (Path.slash :: ·)⟩

/-- The path of the working directory, as long as the directory is there. -/
def workingDirectory (t : Tree) : Except Fault Path :=
  if t.at? t.here == some .directory then .ok (pathTo t.here) else .error .notFound

/-!
## Reading and writing
-/

def read (t : Tree) (p : Path) : Except Fault (List UInt8) :=
  match t.find false p with
  | .error f => .error f
  | .ok a =>
    match t.at? a with
    | some (.file content) => .ok content
    | some .directory => .error .isDirectory
    | _ => .error .notFound

/-- The names of the entries of a directory, in no order that counts. -/
def names (t : Tree) (p : Path) : Except Fault (List Name) :=
  match t.find false p with
  | .error f => .error f
  | .ok a =>
    if t.at? a == some .directory then
      .ok (t.entries.filterMap fun (b, _) =>
        match b with
        | name :: parent => if parent == a then some name else none
        | [] => none)
    else .error .notDirectory

/-- Gives a file this content, or makes a new file with it. -/
def write (t : Tree) (p : Path) (content : List UInt8) : Except Fault Tree :=
  match t.find true p with
  | .error f => .error f
  | .ok a =>
    if t.at? a == some .directory then .error .isDirectory else .ok (t.set a (.file content))

/-- The parts of a path without slashes at its end, the last part first. -/
def reversedParts (p : Path) : List Name :=
  (Path.parts p.octets).reverse.dropWhile List.isEmpty

/-- Makes a new directory inside one that is there. -/
def makeDirectory (t : Tree) (p : Path) : Except Fault Tree :=
  match pathFault? p with
  | some f => .error f
  | none =>
    match reversedParts p with
    | [] => .error .alreadyExists
    | name :: parents =>
      match walk t false maxLinks (t.origin p) parents.reverse with
      | .error f => .error f
      | .ok a =>
        if t.at? a != some .directory then .error .notDirectory
        else if name == Path.dot || name == Path.dotDot then .error .alreadyExists
        else if maxNameLength < name.length then .error .nameTooLong
        else if (t.at? (name :: a)).isSome then .error .alreadyExists
        else .ok (t.set (name :: a) .directory)

end Tree
end Storage
end Clippings
