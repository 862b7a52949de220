import TapeDeck.Catalogue
import TapeDeck.Text.BoxTable

/-!
# Catalogue listings

The listing of a catalogue is a summary line, a table with a row per block,
and a warning line when the image is truncated.

The summary gives the format (with the TZX version), the size, the number
of blocks and the length of the tape.  A row gives the offset in six hex
digits, the TZX ID in two, the kind of block, its data length, its duration
when it makes a sound, and its description, or its repeat count for a loop.
Durations are rounded to the millisecond.
-/

namespace TapeDeck.Catalogue

/-- A duration rounded to the millisecond, as text. -/
def shortDuration (nanos : Int) : String :=
  Duration.text (Duration.roundTo nanos Duration.milli)

/-- The summary line. -/
def summary (c : Catalogue) : String :=
  let rest := toString c.size ++ " bytes, " ++ toString c.entries.length ++ " blocks, " ++
    shortDuration c.nanos
  match c.format with
  | .tzx => "TZX v" ++ c.version ++ ", " ++ rest
  | .tap => "TAP, " ++ rest

/-- The headings of the table. -/
def headings : List String := ["offset", "id", "block", "length", "duration", "description"]

/-- The row of an entry. -/
def row (f : Format) (e : CatalogueEntry) : List String :=
  [Hex.marked 6 e.offset,
    (match f with
     | .tzx => Hex.marked 2 e.id.toNat
     | .tap => ""),
    e.name, toString e.length,
    (if e.audible then shortDuration (nanosOfTicks e.ticks) else ""),
    (if 0 < e.repeats then "repeat x" ++ toString e.repeats else e.text)]

/-- The listing, each line ended by a line break. -/
def listing (c : Catalogue) : String :=
  c.summary ++ "\n" ++ BoxTable.render headings (c.entries.map (row c.format)) ++ "\n" ++
    (if c.truncated then "the tape file is truncated\n" else "")

end TapeDeck.Catalogue
