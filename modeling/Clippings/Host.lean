import Clippings.Journal.Filter
import Clippings.Path
import Clippings.Storage.Fault

/-!
# Hosts

What a run asks of its surroundings: files and directories, a journal, and two streams of lines.
The program is written over any host, so that the same text runs on a machine and on a file tree.
-/

namespace Clippings

class Host (m : Type -> Type) where
  workingDirectory : m (Except Storage.Fault Path)
  read : Path -> m (Except Storage.Fault (List UInt8))
  write : Path -> List UInt8 -> m (Except Storage.Fault Unit)
  /-- Makes one directory, inside one that is there. -/
  makeDirectory : Path -> m (Except Storage.Fault Unit)
  /-- The names of a directory's entries, in any order. -/
  names : Path -> m (Except Storage.Fault (List (List UInt8)))
  isFile : Path -> m Bool
  isDirectory : Path -> m Bool
  /-- Shows a record, if the filter in force admits it. -/
  record : Journal.Record -> m Unit
  /-- Puts a filter in force. -/
  filter : Journal.Filter -> m Unit
  /-- A line for the output. -/
  print : String -> m Unit
  /-- A line for the complaints. -/
  complain : String -> m Unit

namespace Host

variable {m : Type -> Type} [Monad m] [Host m]

/-- A directory that could not be made does no harm if it is there. -/
def settle (p : Path) : Except Storage.Fault Unit -> m (Except Storage.Fault Unit)
  | .ok () => pure (.ok ())
  | .error f => do
    if ← isDirectory p then pure (.ok ()) else pure (.error f)

/-- Makes the first of some directories, each of which lies in the next one.  The others are made
only where they are missing. -/
def makeInnermost : List Path -> m (Except Storage.Fault Unit)
  | [] => pure (.ok ())
  | p :: outer => do
    match ← makeDirectory p with
    | .error .notFound =>
      match ← makeInnermost outer with
      | .error f => pure (.error f)
      | .ok () => settle p (← makeDirectory p)
    | r => settle p r

/-- Makes a directory and those around it, as far as they are missing. -/
def makeDirectories (p : Path) : m (Except Storage.Fault Unit) :=
  makeInnermost (p.ancestors.filter fun q => !q.octets.isEmpty)

end Host
end Clippings
