import Clippings.Storage.Tree

/-!
# Changes of a file tree

Trees are set up by placing entries in them, and two trees are compared by the files and directories
below the working directory.
-/

namespace Clippings
namespace Storage
namespace Tree

/-!
## Setting up
-/

/-- Goes one name further from a directory, making a directory if nothing is there. -/
def enter (t : Tree) (a : Address) (name : Name) : Tree × Address :=
  match walk t false maxLinks a [name] with
  | .ok b => (t, b)
  | .error _ => (t.set (name :: a) .directory, name :: a)

/-- Places an entry under a name in a directory.  A file's content goes where links lead. -/
def placeAt (t : Tree) (a : Address) (name : Name) (e : Entry) : Tree :=
  match e with
  | .link _ => t.set (name :: a) e
  | .directory => (t.enter a name).1
  | .file _ =>
    match walk t true maxLinks a [name] with
    | .ok b => t.set b e
    | .error _ => t

/-- Places an entry at the end of a way of names, with the directories on the way. -/
def placeAlong (t : Tree) (a : Address) (e : Entry) : List Name -> Tree
  | [] => t
  | [name] => t.placeAt a name e
  | name :: rest =>
    let (t, b) := t.enter a name
    placeAlong t b e rest

def place (t : Tree) (p : Path) (e : Entry) : Tree :=
  t.placeAlong (t.origin p) e ((Path.parts p.octets).filter fun part => !part.isEmpty)

def remove (t : Tree) (p : Path) : Tree :=
  match reversedParts p with
  | [] => t
  | name :: parents =>
    match walk t false maxLinks (t.origin p) parents.reverse with
    | .error _ => t
    | .ok a => { t with entries := t.entries.filter fun (b, _) => !(name :: a).isSuffixOf b }

/-!
## Comparing
-/

/-- What became of the entry at a path. -/
inductive Change where
  | file (path : Path) (content : List UInt8)
  | directory (path : Path)
  | gone (path : Path)
deriving DecidableEq, Repr

/-- The path from the working directory down to an address below it. -/
def below? (t : Tree) (a : Address) : Option Path :=
  if a.length ≤ t.here.length || !t.here.isSuffixOf a then none
  else some ⟨[Path.slash].intercalate (a.take (a.length - t.here.length)).reverse⟩

/-- Files and directories below the working directory by path, in the order of the paths. -/
def contents (t : Tree) : List (Path × Entry) :=
  let shown := t.entries.filterMap fun (a, e) =>
    match e with
    | .link _ => none
    | e => (t.below? a).map (·, e)
  shown.mergeSort fun x y => !(y.1.octets < x.1.octets)

/-- What is new or different after a change, and then what has gone. -/
def changes (before after : Tree) : List Change :=
  let old := before.contents
  let new := after.contents
  let changed := new.filterMap fun (p, e) =>
    if old.lookup p == some e then none
    else
      match e with
      | .file content => some (.file p content)
      | _ => some (.directory p)
  changed ++ old.filterMap fun (p, _) => if (new.lookup p).isSome then none else some (.gone p)

end Tree
end Storage
end Clippings
