import Clippings.Arguments
import Clippings.Extractor

/-!
# The program

Reads its arguments and settings, extracts from the files given or from those in the input
directory, and says what became of each.  It fails if any file fails.
-/

namespace Clippings

inductive Abort where
  | workingDirectory (cause : Storage.Fault)
  | settings (path : Path) (cause : Failure)
  | directory (path : Path) (cause : Failure)
  | files (cause : Failure)
  | someFailed (failed total : Nat)

namespace Abort

def message : Abort -> String
  | workingDirectory _ => "failed to determine current directory"
  | settings p _ => "failed to load config " ++ p.display
  | directory p _ => "failed to extract snippets from " ++ p.display
  | files _ => "failed to extract snippets"
  | someFailed failed total => toString failed ++ " of " ++ toString total ++ " files failed"

/-- Causes, from the nearest one on. -/
def causes : Abort -> List String
  | workingDirectory f => [f.message]
  | settings _ f | directory _ f | files f => f.message :: f.cause?.toList
  | someFailed _ _ => []

def indented (spaces first text : String) : String :=
  first ++ ("\n" ++ spaces).intercalate (text.splitOn "\n")

/-- Several causes are numbered from zero. -/
def causeText : List String -> String
  | [] => ""
  | [c] => "\n\nCaused by:\n" ++ indented "    " "    " c
  | cs =>
    "\n\nCaused by:" ++ String.join ((cs.zip (List.range cs.length)).map fun (c, i) =>
      "\n" ++ indented "       " ("    " ++ toString i ++ ": ") c)

def text (a : Abort) : String :=
  "Error: " ++ a.message ++ causeText a.causes

end Abort

namespace Program

def target : String :=
  "docs_snippets_cli"

def recordSettings (s : Settings) : Journal.Record :=
  ⟨.debug, target, "resolved configuration", [("config", s.shown)]⟩

def recordScan (s : Settings) : Journal.Record :=
  ⟨.debug, target, "scanning input directory", [("pattern", Text.Quoted.ofString s.pattern)]⟩

/-!
## Messages
-/

def red (s : String) : String :=
  "\x1b[31m" ++ s ++ "\x1b[39m"

def green (s : String) : String :=
  "\x1b[32m" ++ s ++ "\x1b[39m"

def extractedLine (x : Extracted) : String :=
  "extracted " ++ x.input.display ++ " to " ++ x.output.display

def failedLine (f : Failure) : String :=
  red "failed:" ++ " " ++ f.line

def doneLine (e : Extractor) (r : Report) : String :=
  green "done:" ++ " " ++ toString r.count ++ " snippet(s) written to " ++
    e.outputDirectory.display ++ " (key: " ++ e.key ++ ")"

/-!
## Running
-/

variable {m : Type -> Type} [Monad m] [Host m]

def loadChoices (path : Path) : m (Except Failure Choices) := do
  match ← Host.read path with
  | .error f => pure (.error (.storage path f))
  | .ok octets => pure (Choices.ofOctets octets path)

def loadSettings (path : Path) : m (Except Failure Settings) := do
  match ← loadChoices path with
  | .error f => pure (.error f)
  | .ok c => pure (.ok (Settings.default.choosing c))

/-- The settings for some arguments, with paths as seen from `root`. -/
def buildSettings (a : Arguments) (root : Path) : m (Except Abort Settings) := do
  match a.config with
  | none => pure (.ok ((Settings.default.choosing a.choices).resolve root))
  | some file =>
    match ← loadSettings (root.join file) with
    | .error f => pure (.error (.settings (root.join file) f))
    | .ok s => pure (.ok ((s.choosing a.choices).resolve root))

def announce (x : Extracted) : m Unit :=
  Host.print (extractedLine x)

/-- Extracts from the files given, or else from those in the input directory. -/
def extract (a : Arguments) (root : Path) (s : Settings) (e : Extractor) :
    m (Except Abort Report) := do
  if a.files.isEmpty then
    Host.record (recordScan s)
    match ← e.extractAll s.inputDirectory s.filePattern s.policy announce with
    | .error f => pure (.error (.directory s.inputDirectory f))
    | .ok r => pure (.ok r)
  else
    match ← e.extractFiles (a.files.map root.join) s.policy announce with
    | .error f => pure (.error (.files f))
    | .ok r => pure (.ok r)

def complainAll : List Failure -> m Unit
  | [] => pure ()
  | f :: rest => do
    Host.complain (failedLine f)
    complainAll rest

/-- Says what became of the files. -/
def summarize (e : Extractor) (r : Report) : m (Except Abort Unit) := do
  complainAll r.failures
  Host.print (doneLine e r)
  if r.isSuccess then pure (.ok ())
  else pure (.error (.someFailed r.failures.length (r.failures.length + r.count)))

/-- The directory that relative paths are seen from. -/
def rootOf (a : Arguments) : m (Except Abort Path) :=
  match a.root with
  | some root => pure (.ok root)
  | none => do
    match ← Host.workingDirectory with
    | .error f => pure (.error (.workingDirectory f))
    | .ok root => pure (.ok root)

def runFrom (a : Arguments) (root : Path) : m (Except Abort Unit) := do
  match ← buildSettings a root with
  | .error f => pure (.error f)
  | .ok s => do
    Host.record (recordSettings s)
    let e : Extractor := ⟨s.outputDirectory, s.key⟩
    match ← extract a root s e with
    | .error f => pure (.error f)
    | .ok r => summarize e r

def run (a : Arguments) : m (Except Abort Unit) := do
  match ← rootOf a with
  | .error f => pure (.error f)
  | .ok root => runFrom a root

/-!
## From arguments to a status
-/

def targetStart : String :=
  "docs_snippets"

/-- The filter that the environment asks for, or else one that depends on the arguments. -/
def filterFor (a : Arguments) (wish : Option String) : Journal.Filter :=
  (wish.bind Journal.Filter.ofText?).getD
    (Journal.Filter.upTo targetStart (if a.verbose then .debug else .info))

/-- Puts the filter of a run in force.  Without a run the one before it stays. -/
def prepare (read : Except Arguments.Refusal Arguments) (wish : Option String) : m Unit :=
  match read with
  | .error _ => pure ()
  | .ok a => Host.filter (filterFor a wish)

/-- Does what arguments ask for as they were read.  `advice` is said below the error of arguments
that were refused. -/
def follow (read : Except Arguments.Refusal Arguments) (advice : String) : m Nat := do
  match read with
  | .error r => do
    if r.status == 0 then Host.print r.message
    else Host.complain (r.complaint advice)
    pure r.status
  | .ok a => do
    match ← run a with
    | .ok () => pure 0
    | .error f => do
      Host.complain f.text
      pure 1

/-- Runs the program on a command line.  `wish` is what the environment says about the journal.

What helps with a line that is refused is up to `advice`: tips, or a usage made of the options that
were read so far. -/
def execute (arguments : List (List UInt8)) (wish : Option String)
    (advice : List (List UInt8) -> String := fun _ => Arguments.adviceText) : m Nat := do
  let read := Arguments.parse arguments
  prepare read wish
  follow read (advice arguments)

end Program
end Clippings
