import TapeDeck.Message.Fault

/-!
# The file store

A `FileStore` is the directory the player works in: files by path, and
directories.  A directory also exists when some file lies under it.  Paths
are relative to the store and taken apart at `/`; `.` parts and empty parts
are dropped and `..` goes one part up.  The device `/dev/full` takes any
file name but refuses every write, as a full disk does.

Errors are failures of kind `*fs.PathError`: the operation, the path as
given, and the reason, as in `open t.wav: no such file or directory`.
-/

namespace TapeDeck

/-- What a path names. -/
inductive Node where
  /-- A file and its bytes. -/
  | file (bytes : ByteArray)
  /-- A directory. -/
  | dir
  /-- A device that refuses writes, reading as empty. -/
  | fullDevice

/-- A working directory: files and directories by path. -/
structure FileStore where
  /-- Files and directories, by path in normal form. -/
  nodes : List (String × Node) := []

namespace FileStore

open Message

/-- The path of the device that refuses writes. -/
def fullDevicePath : String := "/dev/full"

/-- The parts of a path in normal form: no empty or `.` parts, and `..`
taking back the part before it. -/
def parts (path : String) : List String :=
  ((path.splitOn "/").foldl (fun acc p =>
    if p = "" ∨ p = "." then acc
    else if p = ".." then acc.drop 1
    else p :: acc) []).reverse

/-- A path in normal form. -/
def normal (path : String) : String :=
  if path = fullDevicePath then path else "/".intercalate (parts path)

/-- The failure of an operation on a path. -/
def pathError (op path reason : String) : Value := .failure "*fs.PathError" (op ++ " " ++ path ++ ": " ++ reason)

/-- What a path names, if anything. -/
def find? (fs : FileStore) (path : String) : Option Node :=
  if path = fullDevicePath then some .fullDevice
  else
    let n := normal path
    if n = "" then some .dir
    else match fs.nodes.find? (·.1 = n) with
      | some (_, node) => some node
      | none =>
        if fs.nodes.any (fun (p, _) => (n ++ "/").isPrefixOf p) then some .dir else none

/-- Why a path names nothing: a missing part, or a part that is a file. -/
def missingReason (fs : FileStore) (path : String) : String :=
  let ps := parts path
  let blocked := (List.range ps.length).any fun i =>
    match fs.find? ("/".intercalate (ps.take (i + 1))) with
    | some (.file _) => i + 1 < ps.length
    | _ => false
  if blocked then "not a directory" else "no such file or directory"

/-- The store with a directory added. -/
def addDir (fs : FileStore) (path : String) : FileStore :=
  { nodes := fs.nodes ++ [(normal path, .dir)] }

/-- The store with a file written, replacing what was there. -/
def put (fs : FileStore) (path : String) (bytes : ByteArray) : FileStore :=
  let n := normal path
  { nodes := fs.nodes.filter (·.1 ≠ n) ++ [(n, .file bytes)] }

/-- The bytes of a file, or why they cannot be read. -/
def read (fs : FileStore) (path : String) : Except Value ByteArray :=
  match fs.find? path with
  | some (.file b) => .ok b
  | some .dir => .error (pathError "read" path "is a directory")
  | some .fullDevice => .ok ByteArray.empty
  | none => .error (pathError "open" path (fs.missingReason path))

/-- Whether a path can be opened for reading, and if so whether it is a directory. -/
def openable (fs : FileStore) (path : String) : Except Value Bool :=
  match fs.find? path with
  | some .dir => .ok true
  | some _ => .ok false
  | none => .error (pathError "open" path (fs.missingReason path))

/-- The store with a file created and written, or why that fails. -/
def create (fs : FileStore) (path : String) (bytes : ByteArray) : Except Value FileStore :=
  match fs.find? path with
  | some .fullDevice =>
    if bytes.size = 0 then .ok fs else .error (pathError "write" path "no space left on device")
  | some .dir => .error (pathError "open" path "is a directory")
  | some (.file _) => .ok (fs.put path bytes)
  | none =>
    let ps := parts path
    let parent := "/".intercalate ps.dropLast
    match fs.find? parent with
    | some .dir => .ok (fs.put path bytes)
    | some _ => .error (pathError "open" path "not a directory")
    | none => .error (pathError "open" path (fs.missingReason parent))

end FileStore

end TapeDeck
