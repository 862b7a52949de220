/-!
# Tape formats and data categories

A tape file is in one of two formats.  A TAP file is a run of blocks, each a
two-byte length and that many bytes.  A TZX file starts with a ten-byte
signature, and each of its blocks starts with an ID byte that says how long
its header is and what the header means.

The data of a block is played in one of three ways.  *Audio* data is a run of
bytes whose bits become pulse pairs, *sequence* data is a run of pulse widths,
and *metadata* makes no sound at all.

Both enumerations have numeric codes.  The name of a code that names no value
is `unknown format` or `unknown category`.
-/

namespace TapeDeck

/-- The two container formats of a tape file. -/
inductive Format where
  /-- Length-prefixed blocks with no signature. -/
  | tap
  /-- A signature, then blocks tagged by an ID byte. -/
  | tzx
deriving DecidableEq, Repr, Inhabited

namespace Format

/-- The name of a format, as listings and log lines show it. -/
def name : Format → String
  | .tap => "TAP"
  | .tzx => "TZX"

/-- The format with a numeric code: TAP is 0 and TZX is 1. -/
def ofCode? : Int → Option Format
  | 0 => some .tap
  | 1 => some .tzx
  | _ => none

/-- The name of a numeric code, `unknown format` when it names no format. -/
def codeName (n : Int) : String :=
  ((ofCode? n).map name).getD "unknown format"

end Format

/-- How the data bytes of a block are played. -/
inductive Category where
  /-- Each byte gives sixteen pulses, two per bit. -/
  | audio
  /-- Each pair of bytes gives the width of one pulse. -/
  | sequence
  /-- The bytes are skipped in silence. -/
  | metadata
deriving DecidableEq, Repr, Inhabited

namespace Category

/-- The lowercase name of a category. -/
def name : Category → String
  | .audio => "audio"
  | .sequence => "sequence"
  | .metadata => "metadata"

/-- The category with a numeric code: audio 0, sequence 1, metadata 2. -/
def ofCode? : Int → Option Category
  | 0 => some .audio
  | 1 => some .sequence
  | 2 => some .metadata
  | _ => none

/-- The name of a numeric code, `unknown category` when it names no category. -/
def codeName (n : Int) : String :=
  ((ofCode? n).map name).getD "unknown category"

end Category

end TapeDeck
