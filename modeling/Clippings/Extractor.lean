import Clippings.Document
import Clippings.Host
import Clippings.Pattern
import Clippings.Policy

/-!
# Extraction

An extractor keeps one entry of every definition file it is given, and writes it to a file of the
same name in its output directory.

Nothing is written before the whole text is there, so a file that is no definition leaves no trace.
-/

namespace Clippings

structure Extractor where
  outputDirectory : Path
  key : String

/-- A file that was written, and the one it was made from. -/
structure Extracted where
  input : Path
  output : Path
deriving DecidableEq, Repr

structure Report where
  extracted : List Extracted
  failures : List Failure

namespace Report

def empty : Report :=
  ⟨[], []⟩

def count (r : Report) : Nat :=
  r.extracted.length

def isSuccess (r : Report) : Bool :=
  r.failures.isEmpty

def addExtracted (r : Report) (x : Extracted) : Report :=
  { r with extracted := r.extracted ++ [x] }

def addFailure (r : Report) (f : Failure) : Report :=
  { r with failures := r.failures ++ [f] }

end Report

def Document.load {m : Type -> Type} [Monad m] [Host m] (path : Path) :
    m (Except Failure Document) := do
  match ← Host.read path with
  | .error f => pure (.error (.storage path f))
  | .ok octets => pure (Document.ofOctets octets path)

namespace Extractor

/-- An extractor for the usual key. -/
def usual (outputDirectory : Path) : Extractor :=
  ⟨outputDirectory, "pipelines"⟩

/-!
## Records
-/

def target : String :=
  "docs_snippets::extractor"

def recordParsed (d : Document) : Journal.Record :=
  ⟨.debug, target, "parsed pipeline definition",
    [("input", d.path.display), ("keys", toString d.keys.length)]⟩

def recordAbsent (input : Path) (key : String) : Journal.Record :=
  ⟨.debug, target, "key absent, writing null snippet", [("input", input.display), ("key", key)]⟩

def recordExtracted (x : Extracted) : Journal.Record :=
  ⟨.info, target, "extracted snippet",
    [("input", x.input.display), ("output", x.output.display)]⟩

def recordDiscovered (directory : Path) (pattern : Pattern) (inputs : List Path) :
    Journal.Record :=
  ⟨.debug, target, "discovered pipeline definitions",
    [("dir", directory.display), ("pattern", Text.Quoted.ofString pattern.text),
      ("matched", toString inputs.length)]⟩

def recordSkipped (input : Path) (f : Failure) : Journal.Record :=
  ⟨.warn, target, "skipping: " ++ f.message, [("input", input.display)]⟩

/-!
## One file
-/

/-- Where the snippet of a file goes. -/
def outputPath (e : Extractor) (input : Path) : Except Failure Path :=
  match input.fileName? with
  | none => .error (.noFileName input)
  | some name => .ok (e.outputDirectory.join ⟨name⟩)

variable {m : Type -> Type} [Monad m] [Host m]

/-- Writes a text to the output directory, which is made if it is missing. -/
def writeText (e : Extractor) (output : Path) (text : String) : m (Except Failure Unit) := do
  match ← Host.makeDirectories e.outputDirectory with
  | .error f => pure (.error (.storage e.outputDirectory f))
  | .ok () =>
    match ← Host.write output (Text.Utf8.encode text.toList) with
    | .error f => pure (.error (.storage output f))
    | .ok () => pure (.ok ())

/-- Takes the entry of the extractor's key out of a document and writes it. -/
def writeSnippet (e : Extractor) (input output : Path) (d : Document) :
    m (Except Failure Unit) := do
  Host.record (recordParsed d)
  let s := d.takeSnippet e.key
  if s.isEmpty then Host.record (recordAbsent input e.key)
  match s.toText with
  | .error f => pure (.error (.unwritable input f))
  | .ok text => e.writeText output text

/-- Extracts from one file, and says which file was written. -/
def extract (e : Extractor) (input : Path) : m (Except Failure Path) := do
  match e.outputPath input with
  | .error f => pure (.error f)
  | .ok output =>
    match ← Document.load input with
    | .error f => pure (.error f)
    | .ok d =>
      match ← e.writeSnippet input output d with
      | .error f => pure (.error f)
      | .ok () => do
        Host.record (recordExtracted ⟨input, output⟩)
        pure (.ok output)

/-!
## Many files
-/

/-- Goes on with a report.  Every file that was written is announced at once. -/
def extractOnto (e : Extractor) (policy : Policy) (announce : Extracted -> m Unit) (r : Report) :
    List Path -> m (Except Failure Report)
  | [] => pure (.ok r)
  | input :: rest => do
    match ← e.extract input with
    | .ok output => do
      announce ⟨input, output⟩
      extractOnto e policy announce (r.addExtracted ⟨input, output⟩) rest
    | .error f =>
      match policy with
      | .failFast => pure (.error f)
      | .keepGoing => do
        Host.record (recordSkipped input f)
        extractOnto e policy announce (r.addFailure f) rest

def extractFiles (e : Extractor) (inputs : List Path) (policy : Policy)
    (announce : Extracted -> m Unit) : m (Except Failure Report) :=
  e.extractOnto policy announce Report.empty inputs

def keepFiles : List Path -> m (List Path)
  | [] => pure []
  | p :: rest => do
    let found ← Host.isFile p
    let kept ← keepFiles rest
    pure (if found then p :: kept else kept)

/-- The files of a directory whose names match a pattern, by name. -/
def matchingFiles (directory : Path) (pattern : Pattern) : m (Except Failure (List Path)) := do
  match ← Host.names directory with
  | .error f => pure (.error (.storage directory f))
  | .ok names => do
    let sorted := names.mergeSort fun a b => !(b < a)
    let files ← keepFiles (sorted.map fun name => directory.join ⟨name⟩)
    pure (.ok (files.filter pattern.matchesPath))

/-- Extracts from the files of a directory.  The output directory is made in any case. -/
def extractAll (e : Extractor) (directory : Path) (pattern : Pattern) (policy : Policy)
    (announce : Extracted -> m Unit) : m (Except Failure Report) := do
  match ← Host.makeDirectories e.outputDirectory with
  | .error f => pure (.error (.storage e.outputDirectory f))
  | .ok () =>
    match ← matchingFiles directory pattern with
    | .error f => pure (.error f)
    | .ok inputs => do
      Host.record (recordDiscovered directory pattern inputs)
      e.extractFiles inputs policy announce

end Extractor
end Clippings
