import TapeDeck.Block.Format
import TapeDeck.Text.Hex

/-!
# Block IDs and header sizes

Every TZX block starts with an ID byte.  The ID fixes the size of the block's
header, the ID byte included, and the meaning of the fields in it.  A TAP
block has no ID: its header is the two-byte length.

The twenty IDs that a player acts on are *known*.  The names table holds a
few more IDs of the TZX standard that are only ever skipped, and every other
ID is named `unknown (0x..)`.

A TZX file starts with the eight signature bytes `ZXTape!` and `0x1a`,
followed by two version bytes.  `isTzx` asks for the whole ten bytes, so a
file of nine bytes is never TZX.

`headerSize_pos` says every header has at least one byte and
`headerSize_le` that none is longer than 21 bytes.
-/

namespace TapeDeck

/-- The ID byte of a TZX block. -/
abbrev BlockId := UInt8

namespace BlockId

/-- Standard speed data: a ROM-timed block. -/
def standardSpeed : BlockId := 0x10
/-- Turbo speed data: a block with its own pulse widths. -/
def turboSpeed : BlockId := 0x11
/-- A run of equal pulses. -/
def pureTone : BlockId := 0x12
/-- A list of pulse widths. -/
def pulseSequence : BlockId := 0x13
/-- Data without pilot or sync. -/
def pureData : BlockId := 0x14
/-- Sampled signal, skipped by this player. -/
def directRecording : BlockId := 0x15
/-- Silence, or a stop of the tape. -/
def pause : BlockId := 0x20
/-- Start of a named group of blocks. -/
def groupStart : BlockId := 0x21
/-- End of a group. -/
def groupEnd : BlockId := 0x22
/-- A jump to another block. -/
def jump : BlockId := 0x23
/-- Start of a repeated run of blocks, with its repeat count. -/
def loopStart : BlockId := 0x24
/-- End of a repeated run. -/
def loopEnd : BlockId := 0x25
/-- A line of text. -/
def textDescription : BlockId := 0x30
/-- A message to show for a while. -/
def message : BlockId := 0x31
/-- Title, author and other facts of the tape. -/
def archiveInfo : BlockId := 0x32
/-- The machines the tape runs on. -/
def hardwareType : BlockId := 0x33
/-- Settings for an emulator. -/
def emulationInfo : BlockId := 0x34
/-- Custom data with a sixteen-byte tag. -/
def customInfo : BlockId := 0x35
/-- A memory snapshot. -/
def snapshot : BlockId := 0x40
/-- The signature of a second TZX file joined to the first. -/
def glue : BlockId := 0x5a

/-- The IDs this player acts on. -/
def knownIds : List BlockId :=
  [standardSpeed, turboSpeed, pureTone, pulseSequence, pureData, directRecording, pause,
    groupStart, groupEnd, jump, loopStart, loopEnd, textDescription, message, archiveInfo,
    hardwareType, emulationInfo, customInfo, snapshot, glue]

/-- Whether the player acts on a block with this ID. -/
def known (id : BlockId) : Bool := knownIds.contains id

/-- The names of the IDs that have one, the known IDs and some only skipped. -/
def nameTable : List (BlockId × String) :=
  [(standardSpeed, "standard speed data"), (turboSpeed, "turbo speed data"),
    (pureTone, "pure tone"), (pulseSequence, "pulse sequence"), (pureData, "pure data"),
    (directRecording, "direct recording"), (0x18, "CSW recording"),
    (0x19, "generalized data"), (pause, "pause"), (groupStart, "group start"),
    (groupEnd, "group end"), (jump, "jump to block"), (loopStart, "loop start"),
    (loopEnd, "loop end"), (0x26, "call sequence"), (0x27, "return from sequence"),
    (0x28, "select block"), (0x2a, "stop the tape if in 48K mode"),
    (0x2b, "set signal level"), (textDescription, "text description"),
    (message, "message"), (archiveInfo, "archive info"), (hardwareType, "hardware type"),
    (emulationInfo, "emulation info"), (customInfo, "custom info"), (snapshot, "snapshot"),
    (glue, "glue")]

/-- The name of a block ID; an ID without one is `unknown (0x..)`. -/
def name (id : BlockId) : String :=
  match nameTable.lookup id with
  | some n => n
  | none => "unknown (" ++ Hex.marked 2 id.toNat ++ ")"

/-- Header sizes of the IDs `0x10` to `0x35`, the ID byte included. -/
def headerSizeTable : List Nat :=
  [5, 19, 5, 2, 11, 9, 5, 5, 5, 5, 5, 5, 5, 5, 5, 5,
    3, 2, 1, 3, 3, 1, 5, 5, 5, 5, 5, 5, 5, 5, 5, 5,
    2, 3, 3, 2, 9, 0x15]

end BlockId

/-- The size of a block header.  A TAP header is its two-byte length.  A TZX
header's size comes from its ID; an ID outside the table counts five bytes,
an ID byte and a four-byte length. -/
def headerSize (id : BlockId) : Format → Nat
  | .tap => 2
  | .tzx =>
    if id = BlockId.glue then 10
    else if id = BlockId.snapshot then 5
    else (BlockId.headerSizeTable[id.toNat - 0x10]?.filter fun _ => 0x10 ≤ id.toNat).getD 5

/-- No header size exceeds this many bytes. -/
def maxHeaderSize : Nat := 0x20

/-- The eight bytes a TZX file starts with. -/
def tzxSignature : List UInt8 := [0x5a, 0x58, 0x54, 0x61, 0x70, 0x65, 0x21, 0x1a]

/-- The signature and the two version bytes. -/
def tzxPreambleSize : Nat := 10

/-- Whether a byte string is long enough for the signature and its version and
starts with the signature. -/
def isTzx (probe : List UInt8) : Bool :=
  decide (tzxPreambleSize ≤ probe.length) && tzxSignature.isPrefixOf probe

theorem headerSize_mem (id : BlockId) (f : Format) :
    headerSize id f ∈ 2 :: 10 :: 5 :: BlockId.headerSizeTable := by
  cases f with
  | tap => simp [headerSize]
  | tzx =>
    simp only [headerSize]
    split
    · simp
    · split
      · simp
      · cases h : (BlockId.headerSizeTable[id.toNat - 0x10]?.filter fun _ => 0x10 ≤ id.toNat) with
        | none => simp
        | some v =>
          simp only [Option.filter_eq_some_iff] at h
          exact List.mem_cons_of_mem _ (List.mem_cons_of_mem _ (List.mem_cons_of_mem _
            (List.mem_of_getElem? h.1)))

theorem headerSize_pos (id : BlockId) (f : Format) : 0 < headerSize id f := by
  have h := headerSize_mem id f
  generalize headerSize id f = n at h
  revert n
  decide

theorem headerSize_le (id : BlockId) (f : Format) : headerSize id f ≤ 21 := by
  have h := headerSize_mem id f
  generalize headerSize id f = n at h
  revert n
  decide

end TapeDeck
