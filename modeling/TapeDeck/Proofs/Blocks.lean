import Mathlib
import TapeDeck.Proofs.Stream

/-!
# Whole blocks

A block of a tape sounds as its timing sets out: its pilot pulses, its sync
pulses, its data, and a low pulse for every millisecond of pause
(`Timing.train`).  Audio data gives two pulses per bit, most significant bit
first, and of its last byte only the bits in use; sequence data gives one
pulse per little-endian pair of bytes; metadata gives none.

*Regular timings.*  Every timing a header decodes to has at most two sync
pulses, leaves out an even number of pulses, at most fourteen, at the end of
its last byte, and has sequence data in whole pairs (`Timing.regular_decode`).
Of such a timing the generator plays exactly its train.

*Blocks.*  `Generator.playAll_block` takes one whole block, a header and the
data bytes its timing says, off the front of a stream and gives its train;
the generator is then between blocks again and goes on with the rest of the
stream.  `Generator.playAll_blocks` strings whole blocks together.
-/

namespace TapeDeck

namespace Timing

/-- The two pulses of each of the `bits` most significant bits of a byte,
most significant first. -/
def bitPulses (t : Timing) (b : UInt8) (bits : Nat) : List Pulse :=
  (List.range bits).flatMap fun i =>
    let p : Pulse := ⟨if (b >>> (7 - i).toUInt8) &&& 1 = 1 then t.one else t.zero, true⟩
    [p, p]

/-- The pulses of audio data: all eight bits of every byte but the last, and
of the last byte the bits in use. -/
def audioPulses (t : Timing) : List UInt8 → List Pulse
  | [] => []
  | [b] => t.bitPulses b (if 0 < t.lastBit then 8 - t.lastBit / 2 else 8)
  | b :: bs => t.bitPulses b 8 ++ t.audioPulses bs

/-- The pulses of sequence data: one per little-endian pair of bytes, its
width stretched to the pulse clock. -/
def sequencePulses : List UInt8 → List Pulse
  | lo :: hi :: rest => ⟨stretch (lo.toUInt32 ||| (hi.toUInt32 <<< 8)), true⟩ :: sequencePulses rest
  | _ => []

/-- The pulses a block's data gives. -/
def dataPulses (t : Timing) (payload : List UInt8) : List Pulse :=
  match t.category with
  | .audio => t.audioPulses payload
  | .sequence => sequencePulses payload
  | .metadata => []

/-- The pulses of a block: its pilot pulses, its sync pulses, its data, and a
low pulse per millisecond of pause. -/
def train (t : Timing) (payload : List UInt8) : List Pulse :=
  List.replicate t.pilotCount ⟨t.pilot, true⟩ ++
    (if 2 ≤ t.syncPhase then [⟨t.sync1, true⟩] else []) ++
    (if 1 ≤ t.syncPhase then [⟨t.sync2, true⟩] else []) ++
    t.dataPulses payload ++ List.replicate t.pause ⟨pauseWidth, false⟩

/-- What every decoded timing satisfies, and what playing it to its train
needs. -/
structure Regular (t : Timing) : Prop where
  syncPhase_le : t.syncPhase ≤ 2
  lastBit_even : t.lastBit % 2 = 0
  lastBit_le : t.lastBit ≤ 14
  sequence_even : t.category = .sequence → t.length % 2 = 0

theorem unusedPulses_even (used : Nat) : unusedPulses used % 2 = 0 := by
  unfold unusedPulses
  split <;> omega

theorem unusedPulses_le (used : Nat) : unusedPulses used ≤ 14 := by
  unfold unusedPulses
  split <;> omega

theorem regular_decode (h : List UInt8) (f : Format) : (decode h f).Regular := by
  cases f with
  | tap => exact ⟨by simp [decode, ofTapHeader], by simp [decode, ofTapHeader, standard],
      by simp [decode, ofTapHeader, standard], by simp [decode, ofTapHeader, standard]⟩
  | tzx =>
    simp only [decode, ofTzxHeader]
    split <;>
      exact ⟨by simp [standard], by simp [standard, unusedPulses_even],
        by simp [standard, unusedPulses_le], by simp [standard]⟩

theorem isEmpty_eq_false {t : Timing} :
    t.isEmpty = false ↔ 0 < t.pilotCount ∨ 0 < t.syncPhase ∨ 0 < t.pause ∨ 0 < t.length := by
  simp only [isEmpty, Bool.and_eq_false_iff, beq_eq_false_iff_ne]
  omega

/-- The bits of a byte read off the top as it is shifted left are its bits
from the most significant down. -/
theorem shift_bit_iff : ∀ (b : UInt8), ∀ i < 8,
    ((fun x : UInt8 => x <<< 1)^[i] b &&& 0x80 = 0x80) ↔ ((b >>> (7 - i).toUInt8) &&& 1 = 1) := by
  decide +kernel

/-- Audio data sounds the same under timings with the same data widths and
the same unused end. -/
theorem audioPulses_congr {t u : Timing} (h1 : t.one = u.one) (h0 : t.zero = u.zero)
    (hl : t.lastBit = u.lastBit) : ∀ l, t.audioPulses l = u.audioPulses l
  | [] => rfl
  | [b] => by simp [audioPulses, bitPulses, h1, h0, hl]
  | b :: b' :: bs => by
    show t.bitPulses b 8 ++ t.audioPulses (b' :: bs) = u.bitPulses b 8 ++ u.audioPulses (b' :: bs)
    rw [audioPulses_congr h1 h0 hl (b' :: bs)]
    simp [bitPulses, h1, h0]

theorem dataPulses_congr {t u : Timing} (hc : t.category = u.category) (h1 : t.one = u.one)
    (h0 : t.zero = u.zero) (hl : t.lastBit = u.lastBit) (l : List UInt8) :
    t.dataPulses l = u.dataPulses l := by
  simp only [dataPulses, hc, audioPulses_congr h1 h0 hl l]

end Timing

namespace Generator

variable {g : Generator} {bytes : List UInt8}

/-! ## Lead and pause -/

theorem playAll_pilot (h : 0 < g.timing.pilotCount) (bytes : List UInt8) :
    g.playAll bytes = ⟨g.timing.pilot, true⟩ ::
      { g with timing := { g.timing with pilotCount := g.timing.pilotCount - 1 } }.playAll bytes := by
  rw [playAll_of_isEmpty_false (Timing.isEmpty_eq_false.2 (.inl h)),
    play_pilot (Phase.ofTiming_eq_pilot_iff.2 h)]
  simp [pulsed]

theorem playAll_pilots (n : Nat) (h : g.timing.pilotCount = n) (bytes : List UInt8) :
    g.playAll bytes = List.replicate n ⟨g.timing.pilot, true⟩ ++
      { g with timing := { g.timing with pilotCount := 0 } }.playAll bytes := by
  induction n generalizing g with
  | zero =>
    have hg : ({ g with timing := { g.timing with pilotCount := 0 } } : Generator) = g := by rw [← h]
    rw [hg]
    rfl
  | succ n ih =>
    rw [playAll_pilot (by omega) bytes, ih (by simp [h])]
    rfl

theorem playAll_sync1 (hp : g.timing.pilotCount = 0) (hs : 2 ≤ g.timing.syncPhase) (bytes : List UInt8) :
    g.playAll bytes = ⟨g.timing.sync1, true⟩ ::
      { g with timing := { g.timing with syncPhase := g.timing.syncPhase - 1 } }.playAll bytes := by
  rw [playAll_of_isEmpty_false (Timing.isEmpty_eq_false.2 (by omega)),
    play_sync1 (Phase.ofTiming_eq_sync1_iff.2 ⟨hp, hs⟩)]
  simp [pulsed]

theorem playAll_sync2 (hp : g.timing.pilotCount = 0) (hs : g.timing.syncPhase = 1) (bytes : List UInt8) :
    g.playAll bytes = ⟨g.timing.sync2, true⟩ ::
      { g with timing := { g.timing with syncPhase := 0 } }.playAll bytes := by
  rw [playAll_of_isEmpty_false (Timing.isEmpty_eq_false.2 (by omega)),
    play_sync2 (Phase.ofTiming_eq_sync2_iff.2 ⟨hp, hs⟩)]
  simp [pulsed, hs]

/-- The sync pulses a timing has left, at most two, are played in order. -/
theorem playAll_syncs (hp : g.timing.pilotCount = 0) (hs : g.timing.syncPhase ≤ 2) (bytes : List UInt8) :
    g.playAll bytes =
      (if 2 ≤ g.timing.syncPhase then [⟨g.timing.sync1, true⟩] else []) ++
        (if 1 ≤ g.timing.syncPhase then [⟨g.timing.sync2, true⟩] else []) ++
        { g with timing := { g.timing with syncPhase := 0 } }.playAll bytes := by
  rcases (by omega : g.timing.syncPhase = 0 ∨ g.timing.syncPhase = 1 ∨ g.timing.syncPhase = 2) with
    h0 | h1 | h2
  · have hg : ({ g with timing := { g.timing with syncPhase := 0 } } : Generator) = g := by rw [← h0]
    simp [h0, hg]
  · rw [playAll_sync2 hp h1]
    simp [h1]
  · rw [playAll_sync1 hp (by omega), playAll_sync2 (by simp [hp]) (by simp [h2])]
    simp [h2]

theorem playAll_pause (hp : g.timing.pilotCount = 0) (hs : g.timing.syncPhase = 0)
    (hl : g.timing.length = 0) (h : 0 < g.timing.pause) (bytes : List UInt8) :
    g.playAll bytes = ⟨pauseWidth, false⟩ ::
      { g with timing := { g.timing with pause := g.timing.pause - 1 } }.playAll bytes := by
  rw [playAll_of_isEmpty_false (Timing.isEmpty_eq_false.2 (by omega)),
    play_pause (Phase.ofTiming_eq_pause_iff.2 ⟨hp, hs, hl, h⟩)]
  simp [pulsed]

theorem playAll_pauses (hp : g.timing.pilotCount = 0) (hs : g.timing.syncPhase = 0)
    (hl : g.timing.length = 0) (n : Nat) (h : g.timing.pause = n) (bytes : List UInt8) :
    g.playAll bytes = List.replicate n ⟨pauseWidth, false⟩ ++
      { g with timing := { g.timing with pause := 0 } }.playAll bytes := by
  induction n generalizing g with
  | zero =>
    have hg : ({ g with timing := { g.timing with pause := 0 } } : Generator) = g := by rw [← h]
    rw [hg]
    rfl
  | succ n ih =>
    rw [playAll_pause hp hs hl (by omega) bytes,
      ih (g := { g with timing := { g.timing with pause := g.timing.pause - 1 } }) hp hs hl (by simp [h])]
    rfl

/-! ## Audio data -/

/-- The pulses of the byte in hand with `n` bits of it left to play: two per
bit, read off the top as the byte is shifted left. -/
def heldPulses (t : Timing) (d : UInt8) : Nat → List Pulse
  | 0 => []
  | n + 1 =>
    let p : Pulse := ⟨if d &&& 0x80 = 0x80 then t.one else t.zero, true⟩
    p :: p :: heldPulses t (d <<< 1) n

theorem heldPulses_eq (t : Timing) (d : UInt8) (n : Nat) :
    heldPulses t d n = (List.range n).flatMap fun i =>
      let p : Pulse := ⟨if (fun x : UInt8 => x <<< 1)^[i] d &&& 0x80 = 0x80 then t.one else t.zero, true⟩
      [p, p] := by
  induction n generalizing d with
  | zero => rfl
  | succ n ih =>
    rw [heldPulses, ih, List.range_succ_eq_map, List.flatMap_cons, List.flatMap_map]
    simp only [Function.iterate_zero, id, Function.iterate_succ_apply]
    rfl

/-- Up to a whole byte, the generator plays the bits of the byte in hand as
`Timing.bitPulses` sets them out. -/
theorem heldPulses_eq_bitPulses (t : Timing) (b : UInt8) {n : Nat} (hn : n ≤ 8) :
    heldPulses t b n = t.bitPulses b n := by
  rw [heldPulses_eq, Timing.bitPulses]
  apply List.flatMap_congr
  intro i hi
  have hi8 : i < 8 := by
    simp only [List.mem_range] at hi
    omega
  simp only [Timing.shift_bit_iff b i hi8]

/-- The bits left unplayed at the end of the byte in hand: the unused bits of
the last byte. -/
def unusedBits (t : Timing) : Nat := if t.length = 1 then t.lastBit / 2 else 0

section Audio

variable (hp : g.timing.pilotCount = 0) (hs : g.timing.syncPhase = 0) (hc : g.timing.category = .audio)
include hp hs hc

theorem playAll_bitPulse (hl : 0 < g.timing.length) (h0 : g.dataBit ≠ 0) (bytes : List UInt8) :
    g.playAll bytes = g.bitPulse :: g.afterBitPulse.playAll bytes := by
  have hd : g.phase = .data := Phase.ofTiming_eq_data_iff.2 ⟨hp, hs, hl⟩
  rw [playAll_of_isEmpty_false (Timing.isEmpty_eq_false.2 (by omega)), play_audio hd hc,
    audioStep_of_dataBit_ne_zero h0]
  simp [pulsed]

/-- With no byte in hand, the next byte of the stream is taken up whole. -/
theorem playAll_load (hl : 0 < g.timing.length) (h0 : g.dataBit = 0) (b : UInt8) (rest : List UInt8) :
    g.playAll (b :: rest) = { g with data := b, dataBit := 16 }.playAll rest := by
  have hd : g.phase = .data := Phase.ofTiming_eq_data_iff.2 ⟨hp, hs, hl⟩
  obtain ⟨r', hr', hl', -⟩ := ByteRing.pull?_of_toList_eq_cons (r := ByteRing.ofList (b :: rest))
    (ByteRing.toList_ofList _)
  rw [playAll_of_isEmpty_false (Timing.isEmpty_eq_false.2 (by omega)), play_audio hd hc,
    audioStep_of_pull? h0 hr',
    playAll_bitPulse (g := { g with data := b, dataBit := 16 }) hp hs hc hl (by simp)]
  simp [pulsed, hl']

end Audio

theorem afterBitPulse_mid {k : Nat} (hb : g.dataBit = k + 1) (hk : k ≠ 0)
    (hcut : ¬(g.timing.length = 1 ∧ k = g.timing.lastBit)) :
    g.afterBitPulse =
      { g with
        data := if (k + 1) % 2 = 1 then g.data <<< 1 else g.data, dataBit := k } := by
  simp only [afterBitPulse, hb, Nat.add_sub_cancel, hk, if_false, hcut]

theorem afterBitPulse_end {k : Nat} (hb : g.dataBit = k + 1)
    (hend : k = 0 ∨ (g.timing.length = 1 ∧ k = g.timing.lastBit)) :
    g.afterBitPulse =
      { g with
        data := if (k + 1) % 2 = 1 then g.data <<< 1 else g.data, dataBit := 0,
        timing := { g.timing with length := g.timing.length - 1 } } := by
  by_cases hk : k = 0
  · simp only [afterBitPulse, hb, Nat.add_sub_cancel, hk, if_true]
  · obtain ⟨hl1, rfl⟩ := hend.resolve_left hk
    simp only [afterBitPulse, hb, Nat.add_sub_cancel, hk, if_false, hl1, and_self, if_true]

section Bits

variable (hp : g.timing.pilotCount = 0) (hs : g.timing.syncPhase = 0) (hc : g.timing.category = .audio)
  (hl : 0 < g.timing.length) (he : g.timing.lastBit % 2 = 0)
include hp hs hc hl he

/-- A bit of the byte in hand that is not its last gives two pulses, and the
byte is shifted on to the next bit. -/
theorem playAll_bit {n : Nat} (hb : g.dataBit = n + 2) (hn : n % 2 = 0) (hmid : n ≠ 0)
    (hcut : ¬(g.timing.length = 1 ∧ n = g.timing.lastBit)) (bytes : List UInt8) :
    g.playAll bytes = g.bitPulse :: g.bitPulse ::
      { g with data := g.data <<< 1, dataBit := n }.playAll bytes := by
  rw [playAll_bitPulse hp hs hc hl (by omega), afterBitPulse_mid (k := n + 1) hb (by omega) (by omega),
    if_neg (by omega)]
  rw [playAll_bitPulse (g := { g with data := g.data, dataBit := n + 1 }) hp hs hc hl (by simp),
    afterBitPulse_mid (g := { g with data := g.data, dataBit := n + 1 }) (k := n) rfl hmid hcut,
    if_pos (by omega)]
  rfl

/-- The last bit of the byte in hand gives two pulses, and the byte is used
up: the block loses a byte, or, at the unused bits of its last byte, all that
is left of its data. -/
theorem playAll_lastBit {n : Nat} (hb : g.dataBit = n + 2) (hn : n % 2 = 0)
    (hend : n = 0 ∨ (g.timing.length = 1 ∧ n = g.timing.lastBit)) (bytes : List UInt8) :
    g.playAll bytes = g.bitPulse :: g.bitPulse ::
      { g with
        data := g.data <<< 1, dataBit := 0,
        timing := { g.timing with length := g.timing.length - 1 } }.playAll bytes := by
  rw [playAll_bitPulse hp hs hc hl (by omega), afterBitPulse_mid (k := n + 1) hb (by omega) (by omega),
    if_neg (by omega)]
  rw [playAll_bitPulse (g := { g with data := g.data, dataBit := n + 1 }) hp hs hc hl (by simp),
    afterBitPulse_end (g := { g with data := g.data, dataBit := n + 1 }) (k := n) rfl hend,
    if_pos (by omega)]
  rfl

end Bits

/-- The byte in hand, with `m + 1` bits left to play before its end or the
unused bits of the block's last byte, gives `heldPulses`, and then the block
goes on without it. -/
theorem playAll_held (bytes : List UInt8) (m : Nat) : ∀ g : Generator,
    g.timing.pilotCount = 0 → g.timing.syncPhase = 0 → g.timing.category = .audio →
    0 < g.timing.length → g.timing.lastBit % 2 = 0 →
    g.dataBit = 2 * m + 2 + 2 * unusedBits g.timing →
    g.playAll bytes = heldPulses g.timing g.data (m + 1) ++
      { g with
        data := (fun x : UInt8 => x <<< 1)^[m + 1] g.data, dataBit := 0,
        timing := { g.timing with length := g.timing.length - 1 } }.playAll bytes := by
  induction m with
  | zero =>
    intro g hp hs hc hl he hb
    have hend : 2 * unusedBits g.timing = 0 ∨
        (g.timing.length = 1 ∧ 2 * unusedBits g.timing = g.timing.lastBit) := by
      unfold unusedBits
      split <;> omega
    rw [playAll_lastBit hp hs hc hl he (n := 2 * unusedBits g.timing) (by omega) (by omega) hend]
    rfl
  | succ m ih =>
    intro g hp hs hc hl he hb
    have hcut : ¬(g.timing.length = 1 ∧ 2 * m + 2 + 2 * unusedBits g.timing = g.timing.lastBit) := by
      unfold unusedBits
      split <;> omega
    rw [playAll_bit hp hs hc hl he (n := 2 * m + 2 + 2 * unusedBits g.timing) (by omega) (by omega)
      (by omega) hcut,
      ih { g with data := g.data <<< 1, dataBit := 2 * m + 2 + 2 * unusedBits g.timing } hp hs hc hl he rfl]
    simp only [heldPulses, Function.iterate_succ_apply]
    rfl

theorem with_self (h0 : g.dataBit = 0) (hl : g.timing.length = 0) :
    ({ g with data := g.data, dataBit := 0, timing := { g.timing with length := 0 } } : Generator) = g := by
  obtain ⟨f, hd, ⟨p, s1, s2, z, o, pc, sp, pa, lb, len, cat⟩, d, db⟩ := g
  simp only at h0 hl
  subst h0 hl
  rfl

/-- Audio data plays as `Timing.audioPulses`: byte after byte, each taken up
whole and played bit by bit, the last one only as far as its bits are in use. -/
theorem playAll_audio (rest : List UInt8) : ∀ (payload : List UInt8) (g : Generator),
    g.timing.pilotCount = 0 → g.timing.syncPhase = 0 → g.timing.category = .audio →
    g.timing.Regular → g.dataBit = 0 → g.timing.length = payload.length →
    ∃ d, g.playAll (payload ++ rest) = g.timing.audioPulses payload ++
      { g with data := d, dataBit := 0, timing := { g.timing with length := 0 } }.playAll rest
  | [], g, _, _, _, _, h0, hl => ⟨g.data, by rw [with_self h0 hl]; rfl⟩
  | [b], g, hp, hs, hc, hr, h0, hl => by
    simp only [List.length_singleton] at hl
    have hu : unusedBits g.timing = g.timing.lastBit / 2 := by simp [unusedBits, hl]
    have hlb := hr.lastBit_le
    have hev := hr.lastBit_even
    rw [List.singleton_append, playAll_load hp hs hc (by omega) h0 b rest,
      playAll_held rest (7 - g.timing.lastBit / 2) { g with data := b, dataBit := 16 } hp hs hc
        (by simp [hl]) hev (by simp only [hu]; omega),
      heldPulses_eq_bitPulses _ _ (by omega)]
    refine ⟨(fun x : UInt8 => x <<< 1)^[7 - g.timing.lastBit / 2 + 1] b, ?_⟩
    have hbits : 7 - g.timing.lastBit / 2 + 1 = if 0 < g.timing.lastBit then 8 - g.timing.lastBit / 2 else 8 := by
      split <;> omega
    simp only [Timing.audioPulses, hbits, hl]
  | b :: b' :: bs, g, hp, hs, hc, hr, h0, hl => by
    simp only [List.length_cons] at hl
    have hu : unusedBits g.timing = 0 := by simp [unusedBits, hl]
    rw [List.cons_append, playAll_load hp hs hc (by omega) h0 b _,
      playAll_held _ 7 { g with data := b, dataBit := 16 } hp hs hc (by simp [hl]) hr.lastBit_even
        (by simp only [hu]),
      heldPulses_eq_bitPulses _ _ le_rfl]
    obtain ⟨d, hd⟩ := playAll_audio rest (b' :: bs)
      { g with
        data := (fun x : UInt8 => x <<< 1)^[7 + 1] b, dataBit := 0,
        timing := { g.timing with length := g.timing.length - 1 } } hp hs hc
      ⟨hr.syncPhase_le, hr.lastBit_even, hr.lastBit_le, fun h => absurd (h.symm.trans hc) (by simp)⟩ rfl
      (by simp [hl])
    refine ⟨d, ?_⟩
    rw [hd, ← List.append_assoc]
    congr 1
    exact congrArg₂ (· ++ ·) rfl (Timing.audioPulses_congr (by rfl) (by rfl) (by rfl) (b' :: bs))

theorem with_dataBit (h0 : g.dataBit = 0) (t : Timing) :
    ({ g with data := g.data, dataBit := 0, timing := t } : Generator) = { g with timing := t } := by
  obtain ⟨f, hd, tm, d, db⟩ := g
  simp only at h0
  subst h0
  rfl

/-! ## Sequence data and metadata -/

/-- Sequence data plays as `Timing.sequencePulses`: a pulse per pair. -/
theorem playAll_sequence (rest : List UInt8) : ∀ (payload : List UInt8) (g : Generator),
    g.timing.pilotCount = 0 → g.timing.syncPhase = 0 → g.timing.category = .sequence →
    g.timing.length = payload.length → payload.length % 2 = 0 →
    g.playAll (payload ++ rest) = Timing.sequencePulses payload ++
      { g with timing := { g.timing with length := 0 } }.playAll rest
  | [], g, _, _, _, hl, _ => by
    simp only [List.length_nil] at hl
    have hg : ({ g with timing := { g.timing with length := 0 } } : Generator) = g := by rw [← hl]
    rw [hg]
    rfl
  | [_], _, _, _, _, _, he => by simp at he
  | lo :: hi :: bs, g, hp, hs, hc, hl, he => by
    simp only [List.length_cons] at hl he
    have hd : g.phase = .data := Phase.ofTiming_eq_data_iff.2 ⟨hp, hs, by omega⟩
    rw [List.cons_append, List.cons_append, playAll_of_isEmpty_false (Timing.isEmpty_eq_false.2 (by omega)),
      play_sequence hd hc, sequenceStep_of_le (by simp)]
    simp only [pulsed, Option.getD_some, Option.toList_some, ByteRing.toList_ofList,
      ByteRing.toList_pullMany_snd, List.getD_cons_zero, List.getD_cons_succ, List.drop_succ_cons,
      List.drop_zero, List.singleton_append]
    rw [playAll_sequence rest bs { g with timing := { g.timing with length := g.timing.length - 2 } }
      hp hs hc (by simp [hl]) (by omega)]
    rfl

/-- Metadata is dropped in silence. -/
theorem playAll_metadata_all (hp : g.timing.pilotCount = 0) (hs : g.timing.syncPhase = 0)
    (hc : g.timing.category = .metadata) {payload : List UInt8} (hl : g.timing.length = payload.length)
    (rest : List UInt8) :
    g.playAll (payload ++ rest) = { g with timing := { g.timing with length := 0 } }.playAll rest := by
  by_cases h0 : payload.length = 0
  · rw [List.length_eq_zero_iff.1 h0]
    have hg : ({ g with timing := { g.timing with length := 0 } } : Generator) = g := by rw [← h0, ← hl]
    rw [hg]
    rfl
  · rw [playAll_metadata (Phase.ofTiming_eq_data_iff.2 ⟨hp, hs, by omega⟩) hc,
      if_pos (by simp [hl]), hl, List.drop_left]

/-! ## Whole timings -/

theorem playAll_data (hp : g.timing.pilotCount = 0) (hs : g.timing.syncPhase = 0)
    (hr : g.timing.Regular) (h0 : g.dataBit = 0) {payload : List UInt8}
    (hl : g.timing.length = payload.length) (rest : List UInt8) :
    ∃ d, g.playAll (payload ++ rest) = g.timing.dataPulses payload ++
      { g with data := d, dataBit := 0, timing := { g.timing with length := 0 } }.playAll rest := by
  cases hc : g.timing.category with
  | audio =>
    obtain ⟨d, hd⟩ := playAll_audio rest payload g hp hs hc hr h0 hl
    exact ⟨d, by rw [hd, Timing.dataPulses, hc]⟩
  | sequence =>
    refine ⟨g.data, ?_⟩
    rw [playAll_sequence rest payload g hp hs hc hl (hl ▸ hr.sequence_even hc), with_dataBit h0,
      Timing.dataPulses, hc]
  | metadata =>
    refine ⟨g.data, ?_⟩
    rw [playAll_metadata_all hp hs hc hl, with_dataBit h0, Timing.dataPulses, hc, List.nil_append]

/-- A regular timing, with its data next in the stream, plays its train and
leaves the generator between blocks. -/
theorem playAll_timing (hr : g.timing.Regular) (h0 : g.dataBit = 0) {payload : List UInt8}
    (hl : g.timing.length = payload.length) (rest : List UInt8) :
    ∃ d, g.playAll (payload ++ rest) = g.timing.train payload ++
      { g with data := d, dataBit := 0, timing := g.timing.clear }.playAll rest := by
  rw [playAll_pilots _ rfl,
    playAll_syncs (g := { g with timing := { g.timing with pilotCount := 0 } }) rfl hr.syncPhase_le]
  obtain ⟨d, hd⟩ := playAll_data
    (g := { g with timing := { g.timing with pilotCount := 0, syncPhase := 0 } }) rfl rfl
    ⟨by simp, hr.lastBit_even, hr.lastBit_le, hr.sequence_even⟩ h0 hl rest
  refine ⟨d, ?_⟩
  rw [hd, playAll_pauses (g := { g with
    data := d, dataBit := 0,
    timing := { g.timing with pilotCount := 0, syncPhase := 0, length := 0 } }) rfl rfl rfl _ rfl]
  simp only [Timing.train, List.append_assoc,
    Timing.dataPulses_congr (t := { g.timing with pilotCount := 0, syncPhase := 0 }) (u := g.timing)
      rfl rfl rfl rfl]
  rfl

/-! ## Blocks -/

/-- The timing of a block with a header and data: decoded from the header,
and for a TAP block with data from its flag byte too. -/
def blockTiming (fmt : Format) (hdr payload : List UInt8) : Timing :=
  Timing.decode ((decodable fmt hdr payload.head?).getD hdr) fmt

/-- A whole block: a header of the size its first byte gives, that decodes,
and as many data bytes as its timing says. -/
structure WholeBlock (fmt : Format) (hdr payload : List UInt8) : Prop where
  size : ∃ c cs, hdr = c :: cs ∧ headerSize c fmt = cs.length + 1
  decodes : (decodable fmt hdr payload.head?).isSome
  length : payload.length = (blockTiming fmt hdr payload).length

theorem decodable_append {fmt : Format} {hdr payload h : List UInt8}
    (hd : decodable fmt hdr payload.head? = some h) (rest : List UInt8) :
    decodable fmt hdr (payload ++ rest).head? = some h := by
  cases payload with
  | nil =>
    unfold decodable at hd ⊢
    split at hd
    · simp at hd
    · next hc => rwa [if_neg hc]
  | cons x xs => simpa using hd

/-- One whole block off the front of the stream plays as its train, and the
generator is between blocks again for the rest. -/
theorem playAll_block (hh : g.header = []) (he : g.timing.isEmpty = true) {hdr payload : List UInt8}
    (hb : WholeBlock g.format hdr payload) (rest : List UInt8) :
    ∃ g' : Generator, g'.header = [] ∧ g'.timing.isEmpty = true ∧ g'.format = g.format ∧
      g.playAll (hdr ++ payload ++ rest) = (blockTiming g.format hdr payload).train payload ++
        g'.playAll rest := by
  obtain ⟨c, cs, rfl, hs⟩ := hb.size
  obtain ⟨h, hd⟩ := Option.isSome_iff_exists.1 hb.decodes
  have hbt : blockTiming g.format (c :: cs) payload = Timing.decode h g.format := by
    simp [blockTiming, hd]
  have hg : gather g.format g.header (c :: cs ++ payload ++ rest) = (c :: cs, payload ++ rest) := by
    rw [hh]
    simp [gather, headerNeed, hs]
  have hin : headerIn g.format g.header (c :: cs ++ payload ++ rest) = some h := by
    unfold headerIn
    rw [hg]
    simp only [isWhole, hs, le_refl, decide_true, if_true]
    exact decodable_append hd rest
  rw [playAll_of_isEmpty he, hin, hg]
  obtain ⟨d, hd'⟩ := playAll_timing (g := g.begin h) (Timing.regular_decode h g.format) rfl
    (hb.length.trans (congrArg Timing.length hbt)).symm rest
  refine ⟨{ g.begin h with data := d, dataBit := 0, timing := (g.begin h).timing.clear }, rfl,
    by simp [Timing.clear, Timing.isEmpty], rfl, ?_⟩
  rw [hbt]
  exact hd'

/-- Whole blocks strung together play as their trains, one after another. -/
theorem playAll_blocks (fmt : Format) : ∀ (l : List (List UInt8 × List UInt8)) (g : Generator),
    g.format = fmt → g.header = [] → g.timing.isEmpty = true → (∀ b ∈ l, WholeBlock fmt b.1 b.2) →
    g.playAll (l.flatMap fun b => b.1 ++ b.2) = l.flatMap fun b => (blockTiming fmt b.1 b.2).train b.2
  | [], g, _, hh, he, _ => by
    rw [List.flatMap_nil, playAll_of_isEmpty he, hh]
    simp [headerIn, gather, headerNeed, isWhole]
  | (hdr, payload) :: l, g, hf, hh, he, hl => by
    have hb : WholeBlock g.format hdr payload := hf ▸ hl _ List.mem_cons_self
    obtain ⟨g', hh', he', hf', hplay⟩ := playAll_block hh he hb (l.flatMap fun b => b.1 ++ b.2)
    simp only [List.flatMap_cons]
    rw [hplay, hf,
      playAll_blocks fmt l g' (hf'.trans hf) hh' he' (fun b hb => hl b (List.mem_cons_of_mem _ hb))]

end Generator

end TapeDeck
