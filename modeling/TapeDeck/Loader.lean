import TapeDeck.Block.Format
import TapeDeck.Digest.Sha1
import TapeDeck.FileStore
import TapeDeck.Log
import TapeDeck.Source
import TapeDeck.Text.Location

/-!
# Loading tape files

A `Loader` stands for one tape file named by a path or URL.  Its name must
end in `.tap` or `.tzx`, in any case; the extension fixes the format.

Loading reads the whole file into memory, from the file store for a local
name (scheme `file` or none).  The bytes are named by their SHA-1 digest;
when the loader was given a digest, a different one is refused.  A loaded
file is logged with its short name, size and digest.  A loader that already
holds bytes does not load again.

Opening gives a `Source`: over the loaded bytes when there are some, else
over the local file.  A directory is no tape.

Every error is a fault `tapeloader: ...`.
-/

namespace TapeDeck

open Message

/-- One tape file, by name, and its bytes once loaded. -/
structure Loader where
  /-- The path or URL. -/
  filename : String
  /-- The format its extension names. -/
  format : Format
  /-- The SHA-1 digest of its bytes in hex, or a digest they must have. -/
  hash : String := ""
  /-- The bytes, once loaded. -/
  data : ByteArray := ByteArray.empty
  /-- Whether loading may be logged. -/
  permission : Permission := .allow

namespace Loader

/-- The tag of the loader's log entries. -/
def logTag : String := "tapeloader"

/-- A loader for a name whose extension is `.tap` or `.tzx`, in any case. -/
def ofName (filename : String) : Except Value Loader :=
  let ext := Case.upperText (Location.extension filename)
  if ext = ".TAP" then .ok { filename, format := .tap }
  else if ext = ".TZX" then .ok { filename, format := .tzx }
  else .error (.fault "tapeloader: unsupported file extension (%s)" [.text ext])

/-- The last part of the name without its extension. -/
def shortName (l : Loader) : String :=
  let b := Location.base l.filename
  let e := Location.extension l.filename
  if e.isEmpty then b
  else if (e.toList.isSuffixOf b.toList) then String.ofList (b.toList.take (b.length - e.length))
  else b

/-- Whether the loader holds bytes. -/
def hasLoaded (l : Loader) : Bool := l.data.size > 0

/-- The scheme of the name. -/
def scheme (l : Loader) : String := Location.scheme l.filename

/-- Whether the name is a web address. -/
def isRemote (l : Loader) : Bool := l.scheme = "http" || l.scheme = "https"

/-- The fault of a scheme this loader cannot read. -/
def badScheme (s : String) : Value := .fault "tapeloader: unsupported URL scheme (%s)" [.text s]

/-- The loader with its file's bytes, the log, and an error if loading failed. -/
def load (l : Loader) (fs : FileStore) (log : Log) : Loader × Log × Option Value :=
  if l.hasLoaded then (l, log, none)
  else
    let s := l.scheme
    let fetched : Except Value ByteArray :=
      if s = "file" ∨ s = "" then
        match fs.read l.filename with
        | .ok b => .ok b
        | .error e => .error (.fault "tapeloader: %v" [e])
      else if s = "http" ∨ s = "https" then
        .error (.fault "tapeloader: %v" [.failure "*errors.errorString" "network unavailable"])
      else .error (badScheme s)
    match fetched with
    | .error e => (l, log, some e)
    | .ok bytes =>
      let l := { l with data := bytes }
      let h := Sha1.hex bytes
      if l.hash ≠ "" ∧ l.hash ≠ h then
        (l, log, some (.fault "tapeloader: unexpected hash value (%s)" [.text h]))
      else
        let l := { l with hash := h }
        let detail := l.shortName ++ ": " ++ toString bytes.size ++ " bytes (sha1 " ++ h ++ ")"
        let (log, _) := log.record l.permission logTag detail
        (l, log, none)

/-- A source over the tape, the loader, and the log; or why it cannot be opened. -/
def openSource (l : Loader) (fs : FileStore) (log : Log) : Loader × Log × Except Value Source :=
  if l.hasLoaded || l.isRemote then
    match l.load fs log with
    | (l, log, some e) => (l, log, .error e)
    | (l, log, none) => (l, log, .ok (Source.ofBytes l.filename .memory l.data))
  else
    let s := l.scheme
    if s ≠ "file" ∧ s ≠ "" then (l, log, .error (badScheme s))
    else
      match fs.openable l.filename with
      | .error e => (l, log, .error (.fault "tapeloader: %v" [e]))
      | .ok true => (l, log, .error (.fault "tapeloader: %v" [.text (l.filename ++ " is a directory")]))
      | .ok false =>
        match fs.read l.filename with
        | .ok b => (l, log, .ok (Source.ofBytes l.filename .file b))
        | .error e => (l, log, .error (.fault "tapeloader: %v" [e]))

end Loader

end TapeDeck
