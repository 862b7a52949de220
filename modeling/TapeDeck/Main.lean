import TapeDeck.Command.Launch

/-!
# The program

The program runs `Command.launch` on its arguments against the files they
name.  Before the run, each argument (and the part after `=` of a flag) that
names a file is read into the file store, and the directories above it are
noted; after the run, every such path whose file the run created or changed
is written out.  The standard input counts as a terminal with no keys typed
when it is one.
-/

namespace TapeDeck.Program

/-- The paths an argument may name: itself, and the value of a flag. -/
def candidates (arg : String) : List String :=
  match arg.splitOn "=" with
  | [_] => [arg]
  | _ :: rest => [arg, "=".intercalate rest]
  | [] => [arg]

/-- The directories above a path, outermost first. -/
def parents (path : String) : List String :=
  let ps := path.splitOn "/"
  (List.range (ps.length - 1)).filterMap fun i =>
    let d := "/".intercalate (ps.take (i + 1))
    if d.isEmpty then none else some d

/-- What a path names on disk: a file with its bytes, a directory, or
nothing. -/
def probe (path : String) : IO (Option Node) := do
  try
    let bytes ← IO.FS.readBinFile path
    return some (.file bytes)
  catch e =>
    match e with
    | .inappropriateType _ _ _ => return some .dir
    | _ => return none

/-- The file store of the paths the arguments name. -/
def gather (args : List String) : IO FileStore := do
  let mut fs : FileStore := {}
  for arg in args do
    for p in candidates arg do
      for d in parents p do
        if let some .dir ← probe d then fs := fs.addDir d
      match ← probe p with
      | some (.file b) => fs := fs.put p b
      | some .dir => fs := fs.addDir p
      | _ => pure ()
  return fs

/-- Whether two stores hold the same file at a path. -/
def sameFile (a b : FileStore) (path : String) : Bool :=
  match a.find? path, b.find? path with
  | some (.file x), some (.file y) => x.data == y.data
  | none, none => true
  | some .dir, some .dir => true
  | _, _ => false

/-- Runs the program. -/
def run (args : List String) : IO UInt32 := do
  let before ← gather args
  let stdin ← IO.getStdin
  let input : StandardInput := if ← stdin.isTty then .terminal [] false else .other
  let r := Command.launch args { files := before, input }
  for arg in args do
    for p in candidates arg do
      if !sameFile before r.files p then
        if let some (.file b) := r.files.find? p then IO.FS.writeBinFile p b
  let out ← IO.getStdout
  out.putStr r.output
  out.flush
  return r.status.toUInt32

end TapeDeck.Program

/-- Runs the program on the command line. -/
def main (args : List String) : IO UInt32 := TapeDeck.Program.run args
