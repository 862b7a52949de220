import TapeDeck.Block.Timing
import TapeDeck.Message.Fault
import TapeDeck.Pulse.Generator
import TapeDeck.Source
import TapeDeck.Text.Duration

/-!
# Catalogues

A `Catalogue` lists the blocks of a tape image without playing it.  A TZX
image starts after its ten-byte signature, and its version is read from the
two bytes after the signature; a TAP image starts at its first byte.  Each
*entry* is a block: its offset, header size, timing and data.  The entries
follow each other with no gap: each starts where the data of the one before
ends.

A header that does not fit in the image ends the listing, and the catalogue
is *truncated*.  So is an entry whose data runs past the end: it keeps the
bytes there are.  A TAP block with data has its timing decoded with the
flag byte after its length, which picks the pilot.

An audible entry's *ticks* are the clock ticks its pulses take: pilot and
sync pulses, two pulses per data bit (bits a TZX block leaves unused in its
last byte do not count), one pulse per width of sequence data, and 3500 per
millisecond of pause.  Durations are ticks at 3.885 MHz in nanoseconds,
rounded down, in 64-bit words.

Entries carry a short description: the text of TZX text, group, message and
archive blocks, the repeat count of loops, and for TAP the kind of block and
the name in a ROM header.  Bytes outside printable ASCII show as dots.
-/

namespace TapeDeck

open Message

/-- One block of a tape image. -/
structure CatalogueEntry where
  /-- Offset of the block. -/
  offset : Nat
  /-- ID of a TZX block; 0 for TAP. -/
  id : BlockId := 0
  /-- What the block is. -/
  name : String := ""
  /-- Bytes of its header. -/
  headerSize : Nat
  /-- Its timing. -/
  timing : Timing
  /-- Whether it makes a sound. -/
  audible : Bool
  /-- Its data bytes present in the image. -/
  length : Nat
  /-- The repeat count of a loop start, else 0. -/
  repeats : Nat := 0
  /-- A short description. -/
  text : String := ""
  /-- Clock ticks its pulses take; 0 when silent. -/
  ticks : Nat := 0
  /-- Whether its data runs past the end of the image. -/
  truncated : Bool := false
deriving Inhabited

/-- The listing of a tape image. -/
structure Catalogue where
  /-- The format of the image. -/
  format : Format
  /-- The TZX version, as major.minor; empty for TAP. -/
  version : String
  /-- Bytes of the image. -/
  size : Nat
  /-- The blocks, in file order. -/
  entries : List CatalogueEntry
  /-- Whether the image ends inside a block. -/
  truncated : Bool

namespace Catalogue

/-- The fault of an empty image. -/
def noData : Value := .fault "catalogue: no data" []

/-- The pulse clock of durations, in ticks per second. -/
def clock : Nat := 3885000

/-- Nanoseconds of a number of clock ticks, rounded down, in 64-bit words. -/
def nanosOfTicks (ticks : Nat) : Int :=
  ((ticks.toInt64 * 1000000000) / (clock.toInt64)).toInt

/-- Bytes as text: printable ASCII as it is, other bytes as dots, blanks at
either end dropped. -/
def printable (bs : List UInt8) : String :=
  let cs := bs.map fun b => if b < 0x20 ∨ 0x7e < b then '.' else Char.ofNat b.toNat
  String.ofList ((cs.dropWhile (· = ' ')).reverse.dropWhile (· = ' ')).reverse

/-- Names of the fields of an archive info block. -/
def archiveField (tag : UInt8) : String :=
  match tag.toNat with
  | 0x00 => "title"
  | 0x01 => "publisher"
  | 0x02 => "author"
  | 0x03 => "year"
  | 0x04 => "language"
  | 0x05 => "type"
  | 0x06 => "price"
  | 0x07 => "protection"
  | 0x08 => "origin"
  | 0xff => "comment"
  | _ => Hex.marked 2 tag.toNat

/-- The fields of an archive info block: up to `n` of them, each a tag, a
length and that many bytes, stopping at the first that does not fit. -/
def archiveFields : Nat → List UInt8 → List String
  | 0, _ => []
  | n + 1, tag :: len :: rest =>
    if rest.length < len.toNat then []
    else (archiveField tag ++ ": " ++ printable (rest.take len.toNat)) ::
      archiveFields n (rest.drop len.toNat)
  | _ + 1, _ => []

/-- The description of a TZX block. -/
def tzxText (id : BlockId) (payload : List UInt8) : String :=
  if id = BlockId.groupStart ∨ id = BlockId.textDescription ∨ id = BlockId.message then
    printable payload
  else if id = BlockId.archiveInfo then
    match payload with
    | [] => ""
    | n :: rest => "; ".intercalate (archiveFields n.toNat rest)
  else ""

/-- The kinds of file a ROM header names. -/
def romFileTypes : List String := ["program", "number array", "character array", "bytes"]

/-- The name and description of a TAP block, from its data: empty, data
(flag of `0x80` or more), or a header, with the file type and name of a
well-formed ROM header. -/
def tapDescription (payload : List UInt8) : String × String :=
  match payload with
  | [] => ("empty block", "")
  | flag :: rest =>
    if 0x80 ≤ flag then ("data block", "")
    else if payload.length = 19 then
      match rest.head?.bind fun ty => romFileTypes[ty.toNat]? with
      | some ty => ("header block", ty ++ ": " ++ printable ((payload.drop 2).take 10))
      | none => ("header block", "")
    else ("header block", "")

/-- Ticks of the bits of one audio byte, the `bits` most significant. -/
def byteTicks (t : Timing) (b : UInt8) (bits : Nat) : Nat :=
  ((List.range bits).map fun i =>
    if (b >>> (7 - i).toUInt8) &&& 1 = 1 then 2 * t.one.toNat else 2 * t.zero.toNat).foldr (· + ·) 0

/-- Ticks of sequence data: one pulse per little-endian pair. -/
def sequenceTicks : List UInt8 → Nat
  | lo :: hi :: rest => (stretch (lo.toUInt32 ||| (hi.toUInt32 <<< 8))).toNat + sequenceTicks rest
  | _ => 0

/-- Clock ticks of a block's pulses. -/
def blockTicks (t : Timing) (payload : List UInt8) : Nat :=
  let lead := t.pilotCount * t.pilot.toNat +
    (if 2 ≤ t.syncPhase then t.sync1.toNat else 0) + (if 1 ≤ t.syncPhase then t.sync2.toNat else 0)
  let data := match t.category with
    | .audio =>
      (payload.zipIdx.map fun (b, i) =>
        let bits := if i + 1 = payload.length ∧ 0 < t.lastBit then 8 - t.lastBit / 2 else 8
        byteTicks t b bits).foldr (· + ·) 0
    | .sequence => sequenceTicks payload
    | .metadata => 0
  lead + data + t.pause * pauseWidth.toNat

/-- The timing of the block at `pos`, whose header has `size` bytes. -/
def entryTiming (data : ByteArray) (f : Format) (pos size : Nat) : Timing :=
  let hdr := (data.extract pos (pos + size)).toList
  let t := Timing.decode hdr f
  if h : f = .tap ∧ 0 < t.length ∧ pos + size < data.size then
    Timing.decode (hdr ++ [data[pos + size]]) f
  else t

/-- Where the data of the block at `pos` ends: after its length, or at the
end of the image. -/
def entryStop (data : ByteArray) (f : Format) (pos size : Nat) : Nat :=
  min (pos + size + (entryTiming data f pos size).length) data.size

/-- The entry of the block at `pos`, whose header has `size` bytes. -/
def entryAt (data : ByteArray) (f : Format) (pos size : Nat) : CatalogueEntry :=
  let hdr := (data.extract pos (pos + size)).toList
  let start := pos + size
  let t := entryTiming data f pos size
  let stop := entryStop data f pos size
  let payload := (data.extract start stop).toList
  let e : CatalogueEntry :=
    { offset := pos, headerSize := size, timing := t, audible := t.isAudible,
      length := payload.length, truncated := data.size < start + t.length,
      ticks := if t.isAudible then blockTicks t payload else 0 }
  match f with
  | .tzx =>
    let id := hdr.headD 0
    { e with id, name := BlockId.name id,
             repeats := if id = BlockId.loopStart then Timing.loopCount hdr else 0,
             text := tzxText id payload }
  | .tap =>
    let (name, text) := tapDescription payload
    { e with name, text }

/-- The entries from `pos` on, and whether a header did not fit. -/
def entriesFrom (data : ByteArray) (f : Format) (pos : Nat) : List CatalogueEntry × Bool :=
  if h : pos < data.size then
    let size := headerSize data[pos] f
    if _hs : data.size < pos + size then ([], true)
    else
      let (rest, cut) := entriesFrom data f (entryStop data f pos size)
      (entryAt data f pos size :: rest, cut)
  else ([], false)
termination_by data.size - pos
decreasing_by
  have h1 := headerSize_pos data[pos] f
  have h2 : entryStop data f pos (headerSize data[pos] f) ≤ data.size := by
    rw [entryStop]
    omega
  have h3 : pos < entryStop data f pos (headerSize data[pos] f) := by
    rw [entryStop]
    omega
  omega

/-- An image with the TZX signature has the whole preamble, its version
bytes included. -/
theorem size_of_isTzx {data : ByteArray} (h : isTzx data.toList = true) : 10 ≤ data.size := by
  simp only [isTzx, Bool.and_eq_true, decide_eq_true_eq, byteArray_toList] at h
  simpa [tzxPreambleSize] using h.1

/-- A version number as major.minor, the minor in two digits. -/
def versionText (major minor : UInt8) : String :=
  toString major.toNat ++ "." ++ (if minor.toNat < 10 then "0" else "") ++ toString minor.toNat

/-- The catalogue of a tape image; an empty image has none. -/
def ofBytes (data : ByteArray) : Except Value Catalogue :=
  if data.size = 0 then .error noData
  else
    let (f, version, start) :=
      if h : isTzx data.toList then
        have h10 := size_of_isTzx h
        (Format.tzx, versionText data[8] data[9], tzxPreambleSize)
      else (Format.tap, "", 0)
    let (entries, cut) := entriesFrom data f start
    .ok { format := f, version, size := data.size, entries,
          truncated := cut || entries.any (·.truncated) }

/-- Clock ticks of the whole tape. -/
def ticks (c : Catalogue) : Nat := (c.entries.map (·.ticks)).foldr (· + ·) 0

/-- Nanoseconds of the whole tape. -/
def nanos (c : Catalogue) : Int := nanosOfTicks c.ticks

end Catalogue

end TapeDeck
