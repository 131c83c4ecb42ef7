import Clippings.Host
import Clippings.Storage.Tree

/-!
# Sessions

A host made of a file tree.  It keeps what was shown, in order: lines of output, complaints, and the
records that the filter in force admitted.
-/

namespace Clippings

inductive Line where
  | output (text : String)
  | complaint (text : String)
  | record (r : Journal.Record)
deriving DecidableEq, Repr

structure Session where
  files : Storage.Tree
  filter : Journal.Filter
  shown : List Line

namespace Session

/-- A session in which nothing has been shown yet. -/
def ofTree (files : Storage.Tree) (filter : Journal.Filter) : Session :=
  ⟨files, filter, []⟩

def add (s : Session) (line : Line) : Session :=
  { s with shown := s.shown ++ [line] }

def record (s : Session) (r : Journal.Record) : Session :=
  if s.filter.admits r then s.add (.record r) else s

/-- The tree after a change, if the change was possible. -/
def change (s : Session) : Except Storage.Fault Storage.Tree -> Except Storage.Fault Unit × Session
  | .ok files => (.ok (), { s with files := files })
  | .error f => (.error f, s)

end Session

abbrev SessionM :=
  StateM Session

instance : Host SessionM where
  workingDirectory s := (s.files.workingDirectory, s)
  read p s := (s.files.read p, s)
  write p content s := s.change (s.files.write p content)
  makeDirectory p s := s.change (s.files.makeDirectory p)
  names p s := (s.files.names p, s)
  isFile p s := (s.files.isFile p, s)
  isDirectory p s := (s.files.isDirectory p, s)
  record r s := ((), s.record r)
  filter f s := ((), { s with filter := f })
  print text s := ((), s.add (.output text))
  complain text s := ((), s.add (.complaint text))

namespace Session

/-- The text of some lines, each with a break at its end. -/
def text (lines : List String) : String :=
  String.join (lines.map (· ++ "\n"))

def output (s : Session) : List String :=
  s.shown.filterMap fun line =>
    match line with
    | .output text => some text
    | _ => none

def complaints (s : Session) : List String :=
  s.shown.filterMap fun line =>
    match line with
    | .complaint text => some text
    | _ => none

def records (s : Session) : List Journal.Record :=
  s.shown.filterMap fun line =>
    match line with
    | .record r => some r
    | _ => none

end Session
end Clippings
