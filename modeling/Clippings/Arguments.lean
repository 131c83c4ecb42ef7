import Clippings.Settings

/-!
# Command-line arguments

Options are read from left to right.  An option's value follows an equals sign, or the letter of the
option, or is the next argument; that one is only looked at when the option is settled, which is
when another option or a file comes or the arguments end.  After two hyphens everything is a file.
-/

namespace Clippings

structure Arguments where
  files : List Path
  config : Option Path
  root : Option Path
  inputDirectory : Option Path
  outputDirectory : Option Path
  pattern : Option String
  key : Option String
  keepGoing : Bool
  verbose : Bool
deriving DecidableEq, Repr

namespace Arguments

def empty : Arguments :=
  ⟨[], none, none, none, none, none, none, false, false⟩

/-!
## Options
-/

/-- Options that take a value. -/
inductive Valued where
  | config
  | root
  | inputDirectory
  | outputDirectory
  | pattern
  | key
deriving DecidableEq, Repr

/-- Options that take none. -/
inductive Switch where
  | keepGoing
  | verbose
  | help
  | version
deriving DecidableEq, Repr

inductive Name where
  | valued (v : Valued)
  | switch (s : Switch)
deriving DecidableEq, Repr

namespace Name

/-- Every option with its long name and its letter, if it has one. -/
def all : List (Name × String × Option Char) :=
  [(valued .config, "config", some 'c'), (valued .root, "root", none),
    (valued .inputDirectory, "input-dir", some 'i'),
    (valued .outputDirectory, "output-dir", some 'o'), (valued .pattern, "pattern", some 'p'),
    (valued .key, "key", none), (switch .keepGoing, "keep-going", none),
    (switch .verbose, "verbose", some 'v'), (switch .help, "help", some 'h'),
    (switch .version, "version", some 'V')]

def ofLong? (name : String) : Option Name :=
  (all.find? (·.2.1 == name)).map (·.1)

def ofLetter? (c : Char) : Option Name :=
  (all.find? (·.2.2 == some c)).map (·.1)

end Name

/-- How messages call an option with a value. -/
def Valued.shown : Valued -> String
  | config => "--config <FILE>"
  | root => "--root <DIR>"
  | inputDirectory => "--input-dir <DIR>"
  | outputDirectory => "--output-dir <DIR>"
  | pattern => "--pattern <GLOB>"
  | key => "--key <KEY>"

def Switch.shown : Switch -> String
  | keepGoing => "--keep-going"
  | verbose => "--verbose"
  | help => "--help"
  | version => "--version"

def filesShown : String :=
  "[FILES]..."

/-- Why arguments lead to no run. -/
inductive Refusal where
  | unknown (argument : String)
  | missingValue (option : String)
  | repeated (option : String)
  | unexpectedValue (value option : String)
  | notText
  /-- The help text was asked for. -/
  | help
  /-- The version was asked for. -/
  | version
deriving DecidableEq, Repr

/-!
## Settling
-/

inductive Pending where
  | nothing
  /-- An option, with its value if that was already there. -/
  | option (v : Valued) (value : Option (List UInt8))
  | files (paths : List Path)
deriving DecidableEq, Repr

structure Reading where
  done : Arguments
  pending : Pending
deriving DecidableEq, Repr

def isGiven (a : Arguments) : Valued -> Bool
  | .config => a.config.isSome
  | .root => a.root.isSome
  | .inputDirectory => a.inputDirectory.isSome
  | .outputDirectory => a.outputDirectory.isSome
  | .pattern => a.pattern.isSome
  | .key => a.key.isSome

def pathOf (shown : String) (value : List UInt8) : Except Refusal Path :=
  if value.isEmpty then .error (.missingValue shown) else .ok ⟨value⟩

def textOf (value : List UInt8) : Except Refusal String :=
  match (Path.mk value).text? with
  | some s => .ok s
  | none => .error .notText

/-- Sets an option, which may be done once. -/
def set (a : Arguments) (v : Valued) (value : List UInt8) : Except Refusal Arguments :=
  if a.isGiven v then .error (.repeated v.shown)
  else
    match v with
    | .config => (pathOf v.shown value).map fun p => { a with config := some p }
    | .root => (pathOf v.shown value).map fun p => { a with root := some p }
    | .inputDirectory => (pathOf v.shown value).map fun p => { a with inputDirectory := some p }
    | .outputDirectory => (pathOf v.shown value).map fun p => { a with outputDirectory := some p }
    | .pattern => (textOf value).map fun s => { a with pattern := some s }
    | .key => (textOf value).map fun s => { a with key := some s }

def addFiles (a : Arguments) (paths : List Path) : Except Refusal Arguments :=
  if paths.any (·.octets.isEmpty) then .error (.missingValue filesShown)
  else .ok { a with files := a.files ++ paths }

def turnOn (a : Arguments) (s : Switch) : Except Refusal Arguments :=
  match s with
  | .keepGoing =>
    if a.keepGoing then .error (.repeated s.shown) else .ok { a with keepGoing := true }
  | .verbose => if a.verbose then .error (.repeated s.shown) else .ok { a with verbose := true }
  | .help => .error .help
  | .version => .error .version

namespace Reading

def settle (r : Reading) : Except Refusal Arguments :=
  match r.pending with
  | .nothing => .ok r.done
  | .option v none => .error (.missingValue v.shown)
  | .option v (some value) => r.done.set v value
  | .files paths => r.done.addFiles paths

def settleWith (r : Reading) (f : Arguments -> Except Refusal Arguments) :
    Except Refusal Reading :=
  match r.settle with
  | .error e => .error e
  | .ok a => (f a).map fun a => ⟨a, .nothing⟩

/-- An option whose value is still to come. -/
def await (r : Reading) (v : Valued) : Except Refusal Reading :=
  r.settle.map fun a => ⟨a, .option v none⟩

def addFile (r : Reading) (p : Path) : Except Refusal Reading :=
  match r.pending with
  | .files paths => .ok { r with pending := .files (paths ++ [p]) }
  | _ => r.settle.map fun a => ⟨a, .files [p]⟩

/-!
## Reading
-/

def hyphen : UInt8 :=
  45

def equals : UInt8 :=
  61

/-- An option by its long name, with what follows an equals sign. -/
def readLong (r : Reading) (body : List UInt8) : Except Refusal Reading :=
  let name := body.takeWhile (· != equals)
  let value := match body.drop name.length with
    | [] => none
    | _ :: value => some value
  match (Path.mk name).text?.bind Name.ofLong? with
  | none => .error (.unknown ("--" ++ Text.Utf8.lossy name))
  | some (.valued v) =>
    match value with
    | none => r.await v
    | some value => r.settleWith (·.set v value)
  | some (.switch s) =>
    match value with
    | none => r.settleWith (·.turnOn s)
    | some value => .error (.unexpectedValue (Text.Utf8.lossy value) s.shown)

/-- The value that follows the letter of an option. -/
def attached : List UInt8 -> List UInt8
  | b :: rest => if b == equals then rest else b :: rest
  | [] => []

/-- Options by their letters, the last of which may have its value behind it. -/
def readLetters (r : Reading) (octets : List UInt8) : Except Refusal Reading :=
  match octets with
  | [] => .ok r
  | b :: rest =>
    match Text.Utf8.head b rest with
    | .char c width =>
      let rest := rest.drop (width - 1)
      match Name.ofLetter? c with
      | none => .error (.unknown (String.ofList ['-', c]))
      | some (.valued v) =>
        if rest.isEmpty then r.await v else r.settleWith (·.set v (attached rest))
      | some (.switch s) =>
        match r.settleWith (·.turnOn s) with
        | .error e => .error e
        | .ok r => readLetters r rest
    | _ => .error (.unknown ("-" ++ Text.Utf8.lossy (b :: rest)))
termination_by octets.length
decreasing_by
  simp only [List.length_drop, List.length_cons]
  omega

/-- What is no option is the value of one that waits for it, or a file. -/
def readOther (r : Reading) (argument : List UInt8) : Except Refusal Reading :=
  match r.pending with
  | .option v none => .ok { r with pending := .option v (some argument) }
  | _ => r.addFile ⟨argument⟩

def readFiles (r : Reading) : List (List UInt8) -> Except Refusal Reading
  | [] => .ok r
  | argument :: rest =>
    match r.addFile ⟨argument⟩ with
    | .error e => .error e
    | .ok r => readFiles r rest

def readOne (r : Reading) (argument : List UInt8) : Except Refusal Reading :=
  match argument with
  | a :: b :: rest =>
    if a == hyphen && b == hyphen then r.readLong rest
    else if a == hyphen then r.readLetters (b :: rest)
    else r.readOther argument
  | _ => r.readOther argument

def readAll (r : Reading) : List (List UInt8) -> Except Refusal Reading
  | [] => .ok r
  | argument :: rest =>
    if argument == [hyphen, hyphen] then r.readFiles rest
    else
      match r.readOne argument with
      | .error e => .error e
      | .ok r => readAll r rest

end Reading

def parse (arguments : List (List UInt8)) : Except Refusal Arguments :=
  match Reading.readAll ⟨empty, .nothing⟩ arguments with
  | .error e => .error e
  | .ok r => r.settle

/-!
## Texts
-/

def versionText : String :=
  "extract-snippets 0.1.0"

def usageText : String :=
  "Usage: extract-snippets [OPTIONS] [FILES]..."

def helpLines : List String :=
  ["Extract the \x60pipelines\x60 section of pipeline definitions into documentation snippets",
    "",
    usageText,
    "",
    "Arguments:",
    "  [FILES]...  Files to extract. When omitted, every file in the input directory matching " ++
      "the pattern is extracted",
    "",
    "Options:",
    "  -c, --config <FILE>     YAML config file",
    "      --root <DIR>        Directory that relative paths resolve against. Defaults to " ++
      "the current directory",
    "  -i, --input-dir <DIR>   Directory holding the pipeline definitions",
    "  -o, --output-dir <DIR>  Directory the snippets are written to",
    "  -p, --pattern <GLOB>    File name pattern, e.g. \x60*.yaml\x60",
    "      --key <KEY>         Top-level key to keep",
    "      --keep-going        Keep extracting after a file fails",
    "  -v, --verbose           Enable debug logging",
    "  -h, --help              Print help",
    "  -V, --version           Print version"]

def Refusal.message : Refusal -> String
  | unknown argument => "unexpected argument '" ++ argument ++ "' found"
  | missingValue option => "a value is required for '" ++ option ++ "' but none was supplied"
  | repeated option => "the argument '" ++ option ++ "' cannot be used multiple times"
  | unexpectedValue value option =>
    "unexpected value '" ++ value ++ "' for '" ++ option ++ "' found; no more were expected"
  | notText => "invalid UTF-8 was detected in one or more arguments"
  | help => "\n".intercalate helpLines
  | version => versionText

/-- What every refusal is followed by at least. -/
def adviceText : String :=
  "\nFor more information, try '--help'."

/-- The complaint about arguments that were refused: the error, and below it some advice. -/
def Refusal.complaint (r : Refusal) (advice : String) : String :=
  "error: " ++ r.message ++ "\n" ++ advice

def Refusal.status : Refusal -> Nat
  | help | version => 0
  | _ => 2

/-!
## Choices
-/

/-- The settings that the arguments choose. -/
def choices (a : Arguments) : Choices :=
  ⟨a.inputDirectory, a.outputDirectory, a.pattern, a.key,
    if a.keepGoing then some .keepGoing else none⟩

end Arguments
end Clippings
