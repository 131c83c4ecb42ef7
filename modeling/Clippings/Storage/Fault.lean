/-!
# Faults of storage

Why a file or a directory cannot be read or written, with the numbers that systems give to these
faults.
-/

namespace Clippings
namespace Storage

inductive Fault where
  | notFound
  | alreadyExists
  | notDirectory
  | isDirectory
  | nameTooLong
  | tooManyLinks
  /-- Any other fault of the system, by its description and number. -/
  | other (description : String) (number : Nat)
  /-- A path holds the octet zero. -/
  | zeroInPath
  /-- A file that has to be text is none. -/
  | notText
deriving DecidableEq, Repr

namespace Fault

def numbered (description : String) (number : Nat) : String :=
  description ++ " (os error " ++ toString number ++ ")"

def message : Fault -> String
  | notFound => numbered "No such file or directory" 2
  | alreadyExists => numbered "File exists" 17
  | notDirectory => numbered "Not a directory" 20
  | isDirectory => numbered "Is a directory" 21
  | nameTooLong => numbered "File name too long" 36
  | tooManyLinks => numbered "Too many levels of symbolic links" 40
  | other description number => numbered description number
  | zeroInPath => "file name contained an unexpected NUL byte"
  | notText => "stream did not contain valid UTF-8"

end Fault
end Storage
end Clippings
