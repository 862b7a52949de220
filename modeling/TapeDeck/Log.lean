/-!
# The log

A `Log` keeps the most recent diagnostics of the player, each a *tag* naming
its source and a *detail*.  Line breaks are taken out of both.  A diagnostic
equal to the newest entry is not added again: the entry counts one more
repeat instead.  When the log holds more entries than its capacity, the
oldest go.

An entry reads `tag: detail`, with ` (repeat xN)` when it stands for `N`
equal diagnostics, and a line break.

Whoever logs says whether it may: a `deny` permission makes a diagnostic
leave no trace.
-/

namespace TapeDeck

/-- Whether a diagnostic may be logged. -/
inductive Permission where
  /-- It is logged. -/
  | allow
  /-- It is dropped. -/
  | deny
deriving DecidableEq, Repr, Inhabited

/-- One entry of a log. -/
structure LogEntry where
  /-- The source of the diagnostic. -/
  tag : String
  /-- What it says. -/
  detail : String
  /-- Equal diagnostics merged into this entry after the first. -/
  repeated : Nat := 0
deriving DecidableEq, Repr, Inhabited

namespace LogEntry

/-- The line of an entry. -/
def text (e : LogEntry) : String :=
  e.tag ++ ": " ++ e.detail ++
    (if e.repeated > 0 then " (repeat x" ++ toString (e.repeated + 1) ++ ")" else "") ++ "\n"

end LogEntry

/-- A bounded log of diagnostics, oldest first. -/
structure Log where
  /-- The most entries kept. -/
  capacity : Nat
  /-- The entries, oldest first. -/
  entries : List LogEntry := []
  /-- Whether each diagnostic is also written out as it is logged. -/
  echo : Bool := false
deriving Inhabited

namespace Log

/-- The capacity of the player's own log. -/
def mainCapacity : Nat := 256

/-- An empty log of a capacity. -/
def ofCapacity (n : Nat) : Log := { capacity := n }

/-- A text with its line breaks taken out. -/
def oneLine (s : String) : String := String.ofList (s.toList.filter (· ≠ '\n'))

/-- The entries after a diagnostic: merged into the newest entry when equal to it. -/
def merge (es : List LogEntry) (tag detail : String) : List LogEntry :=
  match es.getLast? with
  | some e =>
    if e.tag = tag ∧ e.detail = detail then es.dropLast ++ [{ e with repeated := e.repeated + 1 }]
    else es ++ [{ tag, detail }]
  | none => [{ tag, detail }]

/-- The log with a diagnostic added, and the line of the entry it went to. -/
def add (l : Log) (tag detail : String) : Log × String :=
  let es := merge l.entries (oneLine tag) (oneLine detail)
  let line := (es.getLast?.map LogEntry.text).getD ""
  ({ l with entries := es.drop (es.length - l.capacity) }, line)

/-- The log with a diagnostic added if the permission allows, and what is echoed. -/
def record (l : Log) (perm : Permission) (tag detail : String) : Log × String :=
  match perm with
  | .deny => (l, "")
  | .allow =>
    let (l, line) := l.add tag detail
    (l, if l.echo then line else "")

/-- The log emptied. -/
def clear (l : Log) : Log := { l with entries := [] }

/-- The lines of all entries. -/
def write (l : Log) : String := String.join (l.entries.map LogEntry.text)

/-- The lines of the newest `n` entries; none when `n` is not positive. -/
def tail (l : Log) (n : Int) : String :=
  String.join ((l.entries.drop (l.entries.length - n.toNat)).map LogEntry.text)

end Log

end TapeDeck
