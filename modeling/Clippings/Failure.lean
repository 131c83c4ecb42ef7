import Clippings.Path
import Clippings.Storage.Fault
import Clippings.Yaml.Draft
import Clippings.Yaml.Fault

/-!
# Failures

What can go wrong with one file.  Every failure names the file, and most have a cause.
-/

namespace Clippings

inductive Failure where
  | storage (path : Path) (cause : Storage.Fault)
  | unreadable (path : Path) (cause : Yaml.Fault)
  | notText (path : Path) (cause : Text.Utf8.Fault)
  | notMapping (path : Path)
  | unwritable (path : Path) (cause : Yaml.WriteFault)
  | noFileName (path : Path)
  | settings (path : Path) (cause : Yaml.Fault)

namespace Failure

def path : Failure -> Path
  | storage p _ | unreadable p _ | notText p _ | notMapping p | unwritable p _ | noFileName p
  | settings p _ => p

/-- What is wrong is the content of a definition file. -/
def isContent : Failure -> Bool
  | unreadable _ _ | notText _ _ | notMapping _ => true
  | _ => false

def message : Failure -> String
  | storage p _ => "I/O error for " ++ p.quoted
  | unreadable p _ => "failed to parse YAML in " ++ p.quoted
  | notText p _ => p.quoted ++ " is not valid UTF-8"
  | notMapping p => "top level of " ++ p.quoted ++ " is not a mapping"
  | unwritable p _ => "failed to serialize snippet for " ++ p.quoted
  | noFileName p => p.quoted ++ " has no file name"
  | settings p _ => "invalid config file " ++ p.quoted

def cause? : Failure -> Option String
  | storage _ e => some e.message
  | unreadable _ e | settings _ e => some e.message
  | notText _ e => some e.message
  | unwritable _ e => some e.message
  | notMapping _ | noFileName _ => none

/-- The message and its cause on one line. -/
def line (f : Failure) : String :=
  ": ".intercalate (f.message :: f.cause?.toList)

end Failure
end Clippings
