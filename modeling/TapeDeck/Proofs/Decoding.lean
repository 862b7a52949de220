import Mathlib
import TapeDeck.Proofs.Blocks

/-!
# What decoding a header reads

A header is decoded by reading fields at fixed offsets, and a byte past the
end of the header reads as 0.  Two tables decide whether that stays inside
the block: the header sizes, by which the catalogue, the session and the
generator cut a block's header off the tape, and the offsets of the fields
each layout reads.  They are kept apart in the code and must agree.

*Reach.*  `layoutReach` gives, for each ID, one past the last byte that its
layout reads; an ID with no layout of its own is read as an ID and a
four-byte length.  Two headers that read alike below the reach of their ID
decode alike (`Timing.ofTzxHeader_congr`), and every reach fits in the
header size of its ID (`layoutReach_le_headerSize`, one comparison per ID).
A TAP header is read in its two length bytes and, when there, the flag byte
after them (`Timing.ofTapHeader_congr`).

*Ranges.*  Every decoded width is a 16-bit field, or a ROM width, stretched
to the pulse clock, and the 32-bit product does not wrap; the sync counter
starts at 0 or 2 and the unused end of the last byte is an even number of
pulses, at most fourteen (`Timing.decoded_decode`).

`Timing.decode_reads_within_header` gathers both.
-/

namespace TapeDeck

namespace Header

/-- Two headers read alike in their first `n` bytes, a byte past the end
reading as 0. -/
def Agree (n : Nat) (h h' : List UInt8) : Prop := ∀ i < n, h.getD i 0 = h'.getD i 0

instance (n : Nat) (h h' : List UInt8) : Decidable (Agree n h h') :=
  inferInstanceAs (Decidable (∀ i < n, h.getD i 0 = h'.getD i 0))

variable {n i : Nat} {h h' : List UInt8}

theorem Agree.byteAt (hA : Agree n h h') (hi : i < n) : byteAt h i = byteAt h' i := by
  simp only [Header.byteAt, hA i hi]

theorem Agree.word (hA : Agree n h h') (hi : i + 2 ≤ n) : word h i = word h' i := by
  simp only [Header.word, hA.byteAt (by omega : i < n), hA.byteAt (by omega : i + 1 < n)]

theorem Agree.word3 (hA : Agree n h h') (hi : i + 3 ≤ n) : word3 h i = word3 h' i := by
  simp only [Header.word3, hA.word (by omega : i + 2 ≤ n), hA.byteAt (by omega : i + 2 < n)]

theorem Agree.dword (hA : Agree n h h') (hi : i + 4 ≤ n) : dword h i = dword h' i := by
  simp only [Header.dword, hA.word3 (by omega : i + 3 ≤ n), hA.byteAt (by omega : i + 3 < n)]

theorem Agree.mono {m : Nat} (hA : Agree n h h') (hm : m ≤ n) : Agree m h h' :=
  fun i hi => hA i (by omega)

theorem byteAt_lt (h : List UInt8) (i : Nat) : byteAt h i < 0x100 :=
  UInt8.toNat_lt _

theorem byteAt_of_length_le (hl : h.length ≤ i) : byteAt h i = 0 := by
  simp [Header.byteAt, List.getD_eq_getElem?_getD, List.getElem?_eq_none hl]

theorem word_lt (h : List UInt8) (i : Nat) : word h i < 0x10000 := by
  have h0 := byteAt_lt h i
  have h1 := byteAt_lt h (i + 1)
  simp only [Header.word]
  omega

end Header

/-! ## Reach -/

/-- One past the last byte the layout of a TZX block reads, by its ID.  An
ID with no layout of its own is read as an ID and a four-byte length. -/
def layoutReach : Nat → Nat
  | 0x11 => 19
  | 0x13 | 0x21 | 0x30 | 0x33 => 2
  | 0x14 => 11
  | 0x15 => 9
  | 0x20 | 0x31 | 0x32 => 3
  | 0x22 | 0x23 | 0x24 | 0x25 | 0x34 | 0x5a => 1
  | 0x35 => 21
  | _ => 5

theorem layoutReach_pos (k : Nat) : 0 < layoutReach k := by
  unfold layoutReach
  split <;> omega

/-- The two tables agree: no layout reads past the header size of its ID. -/
theorem layoutReach_le_headerSize : ∀ b : BlockId, layoutReach b.toNat ≤ headerSize b .tzx := by
  decide +kernel

namespace Timing

variable {h h' : List UInt8}

/-- A TZX header is decoded from the bytes below the reach of its ID. -/
theorem ofTzxHeader_congr (hA : Header.Agree (layoutReach (Header.byteAt h 0)) h h') :
    ofTzxHeader h = ofTzxHeader h' := by
  have h0 : Header.byteAt h 0 = Header.byteAt h' 0 := hA.byteAt (layoutReach_pos _)
  unfold ofTzxHeader
  rw [← h0]
  clear h0
  split <;> simp (disch := simp [layoutReach, *]) only [hA.byteAt, hA.word, hA.word3, hA.dword]

/-- The flag test of a TAP header needs no length check: a flag byte past
the end reads as 0, below `0x80`. -/
theorem flag_iff (h : List UInt8) :
    (2 < h.length ∧ 0x80 ≤ Header.byteAt h 2) ↔ 0x80 ≤ Header.byteAt h 2 := by
  refine ⟨fun hf => hf.2, fun hb => ⟨?_, hb⟩⟩
  by_contra hl
  rw [Header.byteAt_of_length_le (by omega)] at hb
  omega

/-- A TAP header is decoded from its two length bytes and the flag byte
after them. -/
theorem ofTapHeader_congr (hA : Header.Agree 3 h h') : ofTapHeader h = ofTapHeader h' := by
  simp only [ofTapHeader, flag_iff]
  rw [hA.byteAt (by omega : 2 < 3), hA.word (by omega : 0 + 2 ≤ 3)]

/-- A loop count is read inside the loop-start header. -/
theorem loopCount_congr (hA : Header.Agree (headerSize BlockId.loopStart .tzx) h h') :
    loopCount h = loopCount h' :=
  hA.word (by decide)

end Timing

/-! ## Ranges -/

/-- A width read off a header: a 16-bit word `w` stretched to the pulse
clock, `⌊111 w / 100⌋` exactly, so the 32-bit product did not wrap. -/
def Stretched (x : UInt32) : Prop := ∃ w < 0x10000, x.toNat = 111 * w / 100

@[simp] theorem stretched_stretch {w : UInt32} (hw : w.toNat < 0x10000) : Stretched (stretch w) := by
  refine ⟨w.toNat, hw, ?_⟩
  have h111 : (111 : UInt32).toNat = 111 := rfl
  have h100 : (100 : UInt32).toNat = 100 := rfl
  rw [stretch, UInt32.toNat_div, UInt32.toNat_mul, h111, h100, Nat.mod_eq_of_lt (by omega),
    Nat.mul_comm]

/-- A 16-bit field, stretched. -/
@[simp] theorem stretched_word (h : List UInt8) (i : Nat) :
    Stretched (stretch (UInt32.ofNat (Header.word h i))) := by
  have hw := Header.word_lt h i
  apply stretched_stretch
  simp only [UInt32.toNat_ofNat', Nat.reducePow]
  omega

namespace Timing

/-- What every timing a header decodes to satisfies. -/
structure Decoded (t : Timing) : Prop where
  pilot : Stretched t.pilot
  sync1 : Stretched t.sync1
  sync2 : Stretched t.sync2
  zero : Stretched t.zero
  one : Stretched t.one
  syncPhase : t.syncPhase = 0 ∨ t.syncPhase = 2
  lastBit_even : t.lastBit % 2 = 0
  lastBit_le : t.lastBit ≤ 14

theorem decoded_decode (h : List UInt8) : ∀ f, (decode h f).Decoded
  | .tap => by constructor <;> simp [decode, ofTapHeader, standard]
  | .tzx => by
    show (ofTzxHeader h).Decoded
    unfold ofTzxHeader
    split <;> constructor <;> simp [standard, unusedPulses_even, unusedPulses_le]

/-- Decoding reads a TZX header only below the size its ID gives, a TAP
header only in its length and flag bytes, and a loop count only inside the
loop-start header; and every timing it gives has stretched 16-bit widths, a
sync counter of 0 or 2, and an even unused end of at most fourteen pulses. -/
theorem decode_reads_within_header :
    (∀ h h' : List UInt8, Header.Agree (headerSize (h.getD 0 0) .tzx) h h' →
      decode h .tzx = decode h' .tzx) ∧
    (∀ h h' : List UInt8, Header.Agree 3 h h' → decode h .tap = decode h' .tap) ∧
    (∀ h h' : List UInt8, Header.Agree (headerSize BlockId.loopStart .tzx) h h' →
      loopCount h = loopCount h') ∧
    ∀ h f, (decode h f).Decoded :=
  ⟨fun _ _ hA => ofTzxHeader_congr (hA.mono (layoutReach_le_headerSize _)),
    fun _ _ hA => ofTapHeader_congr hA, fun _ _ hA => loopCount_congr hA, decoded_decode⟩

/-- A standard-speed header decodes alike with the first bytes of its data
after it. -/
theorem standardHeader_ignores_data :
    Header.Agree (headerSize 0x10 .tzx) [0x10, 0xe8, 0x03, 0x13, 0x00]
        [0x10, 0xe8, 0x03, 0x13, 0x00, 0xff, 0x2a] ∧
      decode [0x10, 0xe8, 0x03, 0x13, 0x00] .tzx = decode [0x10, 0xe8, 0x03, 0x13, 0x00, 0xff, 0x2a] .tzx :=
  ⟨by decide, decode_reads_within_header.1 _ _ (by decide)⟩

end Timing

end TapeDeck
