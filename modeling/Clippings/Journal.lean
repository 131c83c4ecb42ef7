/-!
# The journal

What a program notes down while it runs: how important it is, which part of the program it comes
from, what happened, and some facts by name.
-/

namespace Clippings
namespace Journal

/-- From the least to the most talkative. -/
inductive Level where
  | error
  | warn
  | info
  | debug
  | trace
deriving DecidableEq, Repr

namespace Level

def rank : Level -> Nat
  | error => 1
  | warn => 2
  | info => 3
  | debug => 4
  | trace => 5

/-- The name, in five columns. -/
def label : Level -> String
  | error => "ERROR"
  | warn => " WARN"
  | info => " INFO"
  | debug => "DEBUG"
  | trace => "TRACE"

def name : Level -> String
  | error => "error"
  | warn => "warn"
  | info => "info"
  | debug => "debug"
  | trace => "trace"

def all : List Level :=
  [error, warn, info, debug, trace]

end Level

structure Record where
  level : Level
  /-- The part of the program. -/
  target : String
  message : String
  /-- Names with the text of their values. -/
  facts : List (String × String)
deriving DecidableEq, Repr

namespace Record

def factText : String × String -> String
  | (name, value) => " " ++ name ++ "=" ++ value

/-- The record on one line, unless its texts have breaks. -/
def line (r : Record) : String :=
  r.level.label ++ " " ++ r.target ++ ": " ++ r.message ++ String.join (r.facts.map factText)

end Record
end Journal
end Clippings
