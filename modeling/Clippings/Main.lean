import Clippings.Program

/-!
# The command line

The program on a machine: files are files, output and complaints go to the standard streams.
-/

namespace Clippings

/-- Programs on a machine, with the filter in force at hand. -/
abbrev Machine :=
  ReaderT (IO.Ref Journal.Filter) IO

namespace Machine

def fault (e : IO.Error) : Storage.Fault :=
  match e with
  | .noFileOrDirectory .. => .notFound
  | .alreadyExists .. => .alreadyExists
  | .inappropriateType _ number _ => if number == 20 then .notDirectory else .isDirectory
  | e => .other e.toString 0

/-- Does something with a path, unless no path can be like it. -/
def attempt {α : Type} (p : Path) (action : IO α) : Machine (Except Storage.Fault α) := do
  if p.octets.contains 0 then pure (.error .zeroInPath)
  else
    try
      pure (.ok (← action))
    catch e => pure (.error (fault e))

def succeeds {α : Type} (p : Path) (action : IO α) (test : α -> Bool) : Machine Bool := do
  match ← attempt p action with
  | .ok a => pure (test a)
  | .error _ => pure false

instance : Host Machine where
  workingDirectory := do
    try
      pure (.ok (Path.ofString (← IO.currentDir).toString))
    catch e => pure (.error (fault e))
  read p := attempt p do pure (← IO.FS.readBinFile p.display).data.toList
  write p content := attempt p (IO.FS.writeBinFile p.display ⟨content.toArray⟩)
  makeDirectory p := attempt p (IO.FS.createDir p.display)
  names p := attempt p do
    let entries ← ((← IO.currentDir) / p.display).readDir
    pure (entries.toList.map fun entry => (Path.ofString entry.fileName).octets)
  isFile p := succeeds p (do ((← IO.currentDir) / p.display).metadata) (·.type == .file)
  isDirectory p := succeeds p (do ((← IO.currentDir) / p.display).metadata) (·.type == .dir)
  record r := do
    if (← (← read).get).admits r then IO.eprintln r.line
  filter f := do (← read).set f
  print text := IO.println text
  complain text := IO.eprintln text

end Machine
end Clippings

def main (arguments : List String) : IO UInt32 := do
  let filter ← IO.mkRef (Clippings.Journal.Filter.ofDirectives [])
  let wish ← IO.getEnv "RUST_LOG"
  let octets := arguments.map fun argument => (Clippings.Path.ofString argument).octets
  let status ← (Clippings.Program.execute octets wish : Clippings.Machine Nat).run filter
  pure status.toUInt32
