import TapeDeck.Block.Id

/-!
# Block timings

A *timing* says how a block sounds: the widths of its pilot, sync, zero and
one pulses, how many pilot pulses and sync pulses it has, how many
milliseconds of pause follow it, how many bits of its last byte go unused,
and how many data bytes it carries and how they are played.

`decode` reads a timing off a block header.  Fields are little-endian, and a
byte past the end of the header reads as 0, so any byte string decodes.
Widths are given in ticks of a 3.5 MHz clock and stretched by 111/100 to the
3.885 MHz clock of the pulse queue (`stretch`).  The stretch is done in
32-bit words, so a width above `0xffffffff / 111` wraps before the division;
no 16-bit field is that wide.

A timing is *empty* when nothing is left to play of it, and *audible* when
some pulse or some sound-bearing data remains.  `clear` drops what remains
and keeps the widths.

-/

namespace TapeDeck

/-! ## Header fields

Fields are little-endian, and a byte past the end of the header reads as 0. -/

namespace Header

/-- The byte at an index, 0 past the end. -/
def byteAt (h : List UInt8) (i : Nat) : Nat := (h.getD i 0).toNat

/-- The 16-bit field at an index. -/
def word (h : List UInt8) (i : Nat) : Nat := byteAt h i + byteAt h (i + 1) * 0x100

/-- The 24-bit field at an index. -/
def word3 (h : List UInt8) (i : Nat) : Nat := word h i + byteAt h (i + 2) * 0x10000

/-- The 32-bit field at an index. -/
def dword (h : List UInt8) (i : Nat) : Nat := word3 h i + byteAt h (i + 3) * 0x1000000

end Header

/-- A width in 3.5 MHz ticks as a width in 3.885 MHz ticks, `w * 111 / 100` in
32-bit words. -/
def stretch (w : UInt32) : UInt32 := w * 111 / 100

/-- How a block sounds, and how much of it is left to play. -/
structure Timing where
  /-- Width of a pilot pulse. -/
  pilot : UInt32
  /-- Width of the first sync pulse. -/
  sync1 : UInt32
  /-- Width of the second sync pulse. -/
  sync2 : UInt32
  /-- Width of each pulse of a zero bit. -/
  zero : UInt32
  /-- Width of each pulse of a one bit. -/
  one : UInt32
  /-- Pilot pulses left. -/
  pilotCount : Nat := 0
  /-- Sync pulses left: 2 before the first, 1 before the second. -/
  syncPhase : Nat := 0
  /-- Milliseconds of pause left. -/
  pause : Nat := 0
  /-- Pulses left out at the end of the last byte: twice its unused bits. -/
  lastBit : Nat := 0
  /-- Data bytes left. -/
  length : Nat := 0
  /-- How the data is played. -/
  category : Category := .audio
deriving DecidableEq, Repr, Inhabited

namespace Timing

/-- All widths zero and nothing to play: the timing before any header. -/
def blank : Timing := { pilot := 0, sync1 := 0, sync2 := 0, zero := 0, one := 0 }

/-- The ROM's widths, with nothing to play. -/
def standard : Timing :=
  { pilot := stretch 2168, sync1 := stretch 667, sync2 := stretch 735,
    zero := stretch 855, one := stretch 1710 }

/-- Pilot pulses before a header block. -/
def headerPilots : Nat := 6000

/-- Pilot pulses before a data block, one whose flag byte is at least `0x80`. -/
def dataPilots : Nat := 3000

/-- The pause after a TAP block, in milliseconds. -/
def tapPause : Nat := 2000

/-- Pulses left out for a last byte with `used` bits in use; 0 when all eight
are, or when the count makes no sense. -/
def unusedPulses (used : Nat) : Nat :=
  if used = 0 ∨ 8 < used then 0 else (8 - used) * 2

/-- The timing a TZX header gives, by its ID byte. -/
def ofTzxHeader (h : List UInt8) : Timing :=
  let s := standard
  let w (i : Nat) : UInt32 := stretch (Header.word h i).toUInt32
  match Header.byteAt h 0 with
  | 0x10 =>
    { s with pilotCount := headerPilots, syncPhase := 2, pause := Header.word h 1,
             length := Header.word h 3 }
  | 0x11 =>
    { s with pilot := w 1, sync1 := w 3, sync2 := w 5, zero := w 7, one := w 9,
             pilotCount := Header.word h 11, syncPhase := 2,
             lastBit := unusedPulses (Header.byteAt h 13), pause := Header.word h 14,
             length := Header.word3 h 16 }
  | 0x12 => { s with pilot := w 1, pilotCount := Header.word h 3 }
  | 0x13 => { s with length := Header.byteAt h 1 * 2, category := .sequence }
  | 0x14 =>
    { s with zero := w 1, one := w 3, lastBit := unusedPulses (Header.byteAt h 5),
             pause := Header.word h 6, length := Header.word3 h 8 }
  | 0x15 => { s with length := Header.word3 h 6, category := .metadata }
  | 0x20 => { s with pause := Header.word h 1 }
  | 0x21 | 0x30 => { s with length := Header.byteAt h 1, category := .metadata }
  | 0x22 | 0x23 | 0x24 | 0x25 | 0x34 | 0x5a => s
  | 0x31 => { s with length := Header.byteAt h 2, category := .metadata }
  | 0x32 => { s with length := Header.word h 1, category := .metadata }
  | 0x33 => { s with length := Header.byteAt h 1 * 3, category := .metadata }
  | 0x35 => { s with length := Header.dword h 0x11, category := .metadata }
  | 0x40 => { s with length := Header.word3 h 2, category := .metadata }
  | _ => { s with length := Header.dword h 1, category := .metadata }

/-- The timing a TAP header gives.  The header is the block length, and the
flag byte after it, when present, picks the shorter pilot of a data block. -/
def ofTapHeader (h : List UInt8) : Timing :=
  { standard with
    pilotCount := if 2 < h.length ∧ 0x80 ≤ Header.byteAt h 2 then dataPilots else headerPilots,
    syncPhase := 2, pause := tapPause, length := Header.word h 0 }

/-- The timing a block header gives in a format. -/
def decode (h : List UInt8) : Format → Timing
  | .tap => ofTapHeader h
  | .tzx => ofTzxHeader h

/-- The repeat count of a loop-start header. -/
def loopCount (h : List UInt8) : Nat := Header.word h 1

/-- Nothing is left to play. -/
def isEmpty (t : Timing) : Bool :=
  t.pilotCount == 0 && t.syncPhase == 0 && t.pause == 0 && t.length == 0

/-- Some pulse, some pause or some data that makes a sound is left. -/
def isAudible (t : Timing) : Bool :=
  0 < t.pilotCount || 0 < t.syncPhase || 0 < t.pause ||
    (0 < t.length && t.category != .metadata)

/-- The timing with nothing left to play and the same widths. -/
def clear (t : Timing) : Timing :=
  { t with pilotCount := 0, syncPhase := 0, pause := 0, length := 0 }

/-- A one-line account of a timing, as diagnostics show it. -/
def text (t : Timing) : String :=
  s!"pilot {t.pilotCount} x {t.pilot.toNat}, sync {t.sync1.toNat}/{t.sync2.toNat} ({t.syncPhase}), zero {t.zero.toNat}, one {t.one.toNat}, pause {t.pause}ms, length {t.length} ({t.category.name})"

end Timing

end TapeDeck
