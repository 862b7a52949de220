import TapeDeck.Loader

/-!
# The tape shelf

A session opens its tapes from a `Shelf`.  A shelf holds tape images in
memory by name, or reaches the file store through a `Loader`, which checks
the extension and reads local files.

A shelf in memory may be told to misbehave, to try a session against
faulty sources: its sources may report a size off by some bytes, every seek
after a number of successful ones may fail, and closing may report an
error.  The seeks are counted over all sources of the shelf.

The shelf counts the sources it opened and closed.
-/

namespace TapeDeck

open Message

/-- Where a shelf finds its tapes. -/
inductive Rack where
  /-- Tape images held in memory, by name. -/
  | memory (tapes : List (String × ByteArray))
  /-- Tape files of a file store, opened through a loader. -/
  | disk (store : FileStore)

/-- How the sources of a shelf in memory misbehave. -/
structure Misbehaviour where
  /-- Added to the size each source reports. -/
  sizeDelta : Int := 0
  /-- The number of seeks that succeed before every later one fails. -/
  seekLimit : Option Nat := none
  /-- The error each close reports. -/
  closeError : Option String := none

/-- Where a session opens its tapes, with counts of what it did. -/
structure Shelf where
  /-- Where the tapes are. -/
  rack : Rack
  /-- How sources in memory misbehave. -/
  faults : Misbehaviour := {}
  /-- Whether the loader may log. -/
  permission : Permission := .allow
  /-- Sources opened. -/
  opened : Nat := 0
  /-- Sources closed. -/
  closed : Nat := 0
  /-- Seeks that succeeded. -/
  seeks : Nat := 0

namespace Shelf

/-- A source for a name, the shelf, and the log; or why none can be had. -/
def openTape (sh : Shelf) (name : String) (log : Log) : Shelf × Log × Except Value Source :=
  match sh.rack with
  | .memory tapes =>
    match tapes.find? (·.1 = name) with
    | some (_, bytes) =>
      let src := Source.ofBytes name .memory bytes
      ({ sh with opened := sh.opened + 1 }, log, .ok { src with size := src.size + sh.faults.sizeDelta })
    | none => (sh, log, .error (.failure "*errors.errorString" ("open " ++ name ++ ": file not found")))
  | .disk store =>
    match Loader.ofName name with
    | .error e => (sh, log, .error e)
    | .ok l =>
      let (_, log, r) := { l with permission := sh.permission }.openSource store log
      match r with
      | .ok src => ({ sh with opened := sh.opened + 1 }, log, .ok src)
      | .error e => (sh, log, .error e)

/-- A seek of a source, and the shelf that counted it. -/
def seek (sh : Shelf) (src : Source) (offset : Int) : Shelf × Except Value Source :=
  match sh.rack, sh.faults.seekLimit with
  | .memory _, some n =>
    if n ≤ sh.seeks then (sh, .error (.failure "*errors.errorString" "seek failed"))
    else match src.seek offset with
      | .ok s => ({ sh with seeks := sh.seeks + 1 }, .ok s)
      | .error e => (sh, .error e)
  | _, _ =>
    match src.seek offset with
    | .ok s => ({ sh with seeks := sh.seeks + 1 }, .ok s)
    | .error e => (sh, .error e)

/-- Closing a source: the shelf that counted it, and the error the close reports. -/
def close (sh : Shelf) (_src : Source) : Shelf × Option Value :=
  let sh := { sh with closed := sh.closed + 1 }
  match sh.rack, sh.faults.closeError with
  | .memory _, some msg => (sh, some (.failure "*errors.errorString" msg))
  | _, _ => (sh, none)

end Shelf

end TapeDeck
