import Mathlib
import TapeDeck.Proofs.Blocks

/-!
# What holds of the generator between steps

The generator keeps what is left of the block in hand as counters, and each
step lowers one of them under a guard of its own: the pilot, sync and pause
counts by the phase, the data length by the byte in hand, by pairs, or by
what the ring holds, and all of them at once when a finished stream runs
dry.  Which part of the block is played is read off the counters, so the
counters must stay in the ranges the phases expect.

*The invariant.*  `Generator.Sound` says that the timing is regular (at most
two sync pulses, an even unused end of at most fourteen pulses, sequence data
in whole pairs), that at most sixteen pulses are left of the byte in hand and
only while audio data is played, and that the header being collected is no
longer than the size its first byte gives (`Generator.headerTarget`).

*Steps.*  A decoded header begins a block with a regular timing and no byte
in hand (`sound_begin`).  A part of a block keeps the invariant
(`Sound.play`), the byte in hand through `Sound.afterBitPulse`; collecting a
header keeps it within its size (`length_gather_le`); so every step does
(`Sound.step`).

*Counting down.*  The counters are naturals, and each decrement of a step
runs only where its count holds what it takes off: the lead parts under
their phase (`play_lead_counts_down`), audio data from a byte in hand of a
block in its data (`audioStep_counts_down`), sequence data down to zero and
no further (`sequenceStep_counts_down`), metadata by no more than is left
(`metadataStep_counts_down`).  So no subtraction is cut off at zero.

*Runs.*  Every generator reached from the start of a stream by steps, over
any ring and with either flag, is sound (`Reachable.sound`), and
`reachable_state_bounds` reads the ranges off: among them that the bytes a
header is decoded from, the TAP flag byte included, never exceed
`maxHeaderSize`.
-/

namespace TapeDeck

namespace Timing

variable {t : Timing}

theorem Regular.clear (hr : t.Regular) : t.clear.Regular :=
  ⟨Nat.zero_le 2, hr.lastBit_even, hr.lastBit_le, fun _ => rfl⟩

/-- A regular timing stays regular when its pilot, sync and pause counts are
lowered. -/
theorem Regular.lowerLead (hr : t.Regular) {p s q : Nat} (hs : s ≤ t.syncPhase) :
    ({ t with pilotCount := p, syncPhase := s, pause := q } : Timing).Regular :=
  ⟨by have := hr.syncPhase_le; show s ≤ 2; omega, hr.lastBit_even, hr.lastBit_le, hr.sequence_even⟩

end Timing

namespace Generator

variable {g : Generator} {r : ByteRing} {f : Bool} {b : StepResult}

/-! ## The invariant -/

/-- The size of the header being collected, as its first byte gives it; 0
before the first byte. -/
def headerTarget (fmt : Format) : List UInt8 → Nat
  | [] => 0
  | c :: _ => headerSize c fmt

theorem headerTarget_le (fmt : Format) : ∀ p, headerTarget fmt p ≤ 21
  | [] => Nat.zero_le 21
  | c :: _ => headerSize_le c fmt

/-- What holds of the generator between any two steps. -/
structure Sound (g : Generator) : Prop where
  regular : g.timing.Regular
  dataBit_le : g.dataBit ≤ 16
  inByte : 0 < g.dataBit → g.phase = .data ∧ g.timing.category = .audio
  header_le : g.header.length ≤ headerTarget g.format g.header

theorem Sound.dataBit_eq_zero (hs : g.Sound) (h : g.phase ≠ .data ∨ g.timing.category ≠ .audio) :
    g.dataBit = 0 := by
  by_contra h0
  obtain ⟨hp, hc⟩ := hs.inByte (Nat.pos_of_ne_zero h0)
  rcases h with h | h <;> contradiction

/-- A step that leaves no byte in hand keeps the invariant when the timing it
leaves is regular. -/
theorem Sound.quiet (hs : g.Sound) {t : Timing} (ht : t.Regular) {x : UInt8} {d : Nat} (hd : d = 0) :
    ({ g with timing := t, data := x, dataBit := d } : Generator).Sound :=
  ⟨ht, by show d ≤ 16; omega, fun h => absurd hd (Nat.pos_iff_ne_zero.1 h), hs.header_le⟩

/-- Outside audio data no byte is in hand, so a step that sets a regular
timing keeps the invariant. -/
theorem Sound.retime (hs : g.Sound) (hp : g.phase ≠ .data) {t : Timing} (ht : t.Regular) :
    ({ g with timing := t } : Generator).Sound :=
  hs.quiet ht (hs.dataBit_eq_zero (.inl hp))

theorem sound_start (fmt : Format) : (start fmt).Sound :=
  ⟨⟨Nat.zero_le 2, rfl, Nat.zero_le 14, fun _ => rfl⟩, Nat.zero_le 16, fun h => absurd h (Nat.lt_irrefl 0),
    Nat.zero_le _⟩

theorem sound_begin (g : Generator) (h : List UInt8) : (g.begin h).Sound :=
  ⟨Timing.regular_decode h g.format, Nat.zero_le 16, fun h0 => absurd h0 (Nat.lt_irrefl 0), Nat.zero_le _⟩

@[simp] theorem pulsed_gen (g : Generator) (r : ByteRing) (p : Pulse) : (pulsed g r p).gen = g := rfl

/-! ## The byte in hand -/

/-- A byte taken off the ring to be played has sixteen pulses left. -/
theorem Sound.load (hs : g.Sound) (hp : g.phase = .data) (hc : g.timing.category = .audio)
    (c : UInt8) : ({ g with data := c, dataBit := 16 } : Generator).Sound :=
  ⟨hs.regular, le_refl 16, fun _ => ⟨hp, hc⟩, hs.header_le⟩

/-- A pulse of the byte in hand leaves fewer pulses of it, and none once the
byte, or the block, is done. -/
theorem Sound.afterBitPulse (hs : g.Sound) (h0 : 0 < g.dataBit) : g.afterBitPulse.Sound := by
  obtain ⟨hp, hc⟩ := hs.inByte h0
  have hr := hs.regular
  have hseq : g.timing.category = .sequence → False := fun h => by rw [hc] at h; cases h
  by_cases h1 : g.dataBit - 1 = 0
  · simp only [Generator.afterBitPulse, h1, if_true]
    refine hs.quiet ?_ rfl
    exact ⟨hr.syncPhase_le, hr.lastBit_even, hr.lastBit_le, fun h => (hseq h).elim⟩
  · by_cases h2 : g.timing.length = 1 ∧ g.dataBit - 1 = g.timing.lastBit
    · simp only [Generator.afterBitPulse]
      rw [if_neg h1, if_pos h2]
      refine hs.quiet ?_ rfl
      exact ⟨hr.syncPhase_le, hr.lastBit_even, hr.lastBit_le, fun _ => rfl⟩
    · simp only [Generator.afterBitPulse]
      rw [if_neg h1, if_neg h2]
      exact ⟨hr, by have := hs.dataBit_le; show g.dataBit - 1 ≤ 16; omega, fun _ => ⟨hp, hc⟩,
        hs.header_le⟩

/-! ## A part of a block -/

theorem Sound.starved (hs : g.Sound) :
    ((g.starved r f).getD ⟨b, none, g, r⟩).gen.Sound := by
  cases f with
  | false => exact hs
  | true => exact hs.quiet hs.regular.clear rfl

/-- Every part of a block keeps the invariant. -/
theorem Sound.play (hs : g.Sound) (r : ByteRing) (f : Bool) (b : StepResult) :
    (g.play r f b).gen.Sound := by
  have hr := hs.regular
  cases hp : g.phase with
  | header =>
    rw [play_header hp]
    exact hs
  | pilot =>
    rw [play_pilot hp, pulsed_gen]
    exact hs.retime (by rw [hp]; decide) (hr.lowerLead le_rfl)
  | sync1 =>
    rw [play_sync1 hp, pulsed_gen]
    exact hs.retime (by rw [hp]; decide) (hr.lowerLead (Nat.sub_le _ _))
  | sync2 =>
    rw [play_sync2 hp, pulsed_gen]
    exact hs.retime (by rw [hp]; decide) (hr.lowerLead (Nat.sub_le _ _))
  | pause =>
    rw [play_pause hp, pulsed_gen]
    exact hs.retime (by rw [hp]; decide) (hr.lowerLead le_rfl)
  | data =>
    cases hc : g.timing.category with
    | audio =>
      rw [play_audio hp hc]
      by_cases h0 : g.dataBit = 0
      · cases hpl : r.pull? with
        | none =>
          rw [audioStep_of_pull?_none h0 hpl]
          exact hs.starved
        | some q =>
          obtain ⟨c, r'⟩ := q
          rw [audioStep_of_pull? h0 hpl, Option.getD_some, pulsed_gen]
          exact (hs.load hp hc c).afterBitPulse (Nat.succ_pos 15)
      · rw [audioStep_of_dataBit_ne_zero h0, Option.getD_some, pulsed_gen]
        exact hs.afterBitPulse (Nat.pos_of_ne_zero h0)
    | sequence =>
      rw [play_sequence hp hc]
      have h0 := hs.dataBit_eq_zero (.inr (by rw [hc]; decide))
      by_cases h2 : r.toList.length < 2
      · rw [sequenceStep_of_lt h2]
        exact hs.starved
      · rw [sequenceStep_of_le (Nat.le_of_not_lt h2), Option.getD_some, pulsed_gen]
        refine hs.quiet ?_ h0
        exact ⟨hr.syncPhase_le, hr.lastBit_even, hr.lastBit_le,
          fun h => by have := hr.sequence_even h; simp only; omega⟩
    | metadata =>
      rw [play_metadata hp hc]
      have h0 := hs.dataBit_eq_zero (.inr (by rw [hc]; decide))
      by_cases hn : r.toList = []
      · rw [metadataStep_of_nil hn]
        exact hs.starved
      · rw [metadataStep_of_ne_nil hn, Option.getD_some]
        refine hs.quiet ?_ h0
        exact ⟨hr.syncPhase_le, hr.lastBit_even, hr.lastBit_le, fun h => by rw [hc] at h; cases h⟩

/-! ## Collecting a header -/

/-- A header gathered from the bytes after it stops at the size its first
byte gives. -/
theorem length_gather_le {fmt : Format} {p : List UInt8} (hp : p.length ≤ headerTarget fmt p)
    (bytes : List UInt8) : (gather fmt p bytes).1.length ≤ headerTarget fmt (gather fmt p bytes).1 := by
  cases p with
  | nil =>
    cases bytes with
    | nil => simp [gather, headerNeed, headerTarget]
    | cons c l =>
      obtain ⟨k, hk⟩ : ∃ k, headerSize c fmt = k + 1 :=
        ⟨_, (Nat.succ_pred_eq_of_pos (headerSize_pos c fmt)).symm⟩
      simp only [gather, headerNeed, hk, List.nil_append, List.take_succ_cons, headerTarget,
        List.length_cons, List.length_take]
      omega
  | cons c ps =>
    simp only [headerTarget, List.length_cons] at hp
    simp only [gather, headerNeed, List.cons_append, headerTarget, List.length_cons,
      List.length_append, List.length_take]
    omega

/-- The bytes a block is decoded from, its header and for a TAP block with
data the flag byte after it, are at most one more than the header size. -/
theorem length_headerIn_le {fmt : Format} {p bytes h : List UInt8}
    (hp : p.length ≤ headerTarget fmt p) (hh : headerIn fmt p bytes = some h) :
    h.length ≤ headerTarget fmt (gather fmt p bytes).1 + 1 := by
  have hg := length_gather_le hp bytes
  unfold headerIn at hh
  split at hh
  · unfold decodable at hh
    split at hh
    · obtain ⟨c, -, rfl⟩ := Option.map_eq_some_iff.1 hh
      simpa using hg
    · cases hh
      omega
  · cases hh

/-! ## Counting down

A step lowers the counts of its block by subtraction on naturals, which
stops at zero.  Each subtraction runs only where its count holds what it
takes off, as the phase or the test before it requires, so none stops
there: read as integers, each count falls by exactly what the step takes. -/

/-- A part starved of data gives no pulse. -/
theorem starved_result {o : Outcome} (h : g.starved r f = some o) : o.result = .progress := by
  unfold starved at h
  split at h
  · cases h
    rfl
  · cases h

/-- The pilot, sync and pause parts lower their count by one, and run only
while it is positive. -/
theorem play_lead_counts_down :
    (g.phase = .pilot → ((g.play r f b).gen.timing.pilotCount : Int) = g.timing.pilotCount - 1) ∧
    (g.phase = .sync1 → ((g.play r f b).gen.timing.syncPhase : Int) = g.timing.syncPhase - 1) ∧
    (g.phase = .sync2 → ((g.play r f b).gen.timing.syncPhase : Int) = g.timing.syncPhase - 1) ∧
    (g.phase = .pause → ((g.play r f b).gen.timing.pause : Int) = g.timing.pause - 1) := by
  refine ⟨fun h => ?_, fun h => ?_, fun h => ?_, fun h => ?_⟩
  · have hp := Phase.ofTiming_eq_pilot_iff.1 h
    rw [play_pilot h]
    show ((g.timing.pilotCount - 1 : Nat) : Int) = _
    omega
  · have hp := Phase.ofTiming_eq_sync1_iff.1 h
    rw [play_sync1 h]
    show ((g.timing.syncPhase - 1 : Nat) : Int) = _
    omega
  · have hp := Phase.ofTiming_eq_sync2_iff.1 h
    rw [play_sync2 h]
    show ((g.timing.syncPhase - 1 : Nat) : Int) = _
    omega
  · have hp := Phase.ofTiming_eq_pause_iff.1 h
    rw [play_pause h]
    show ((g.timing.pause - 1 : Nat) : Int) = _
    omega

/-- A pulse of audio data is played from a byte in hand, of a block in its
data: `afterBitPulse` lowers a positive count of pulses left of the byte,
and, when that reaches zero, a positive count of bytes left of the block. -/
theorem audioStep_counts_down {o : Outcome} (h : g.phase = .data) (hx : g.audioStep r f = some o)
    (hp : o.result = .pulsed) :
    ∃ g₁ : Generator, o.gen = g₁.afterBitPulse ∧ 0 < g₁.dataBit ∧ 0 < g₁.timing.length := by
  have hl := (Phase.ofTiming_eq_data_iff.1 h).2.2
  by_cases hb : g.dataBit = 0
  · cases hpull : r.pull? with
    | none =>
      rw [audioStep_of_pull?_none hb hpull] at hx
      cases hp.symm.trans (starved_result hx)
    | some x =>
      obtain ⟨c, r'⟩ := x
      rw [audioStep_of_pull? hb hpull] at hx
      cases hx
      exact ⟨{ g with data := c, dataBit := 16 }, rfl, by show 0 < 16; omega, hl⟩
  · rw [audioStep_of_dataBit_ne_zero hb] at hx
    cases hx
    exact ⟨g, rfl, Nat.pos_of_ne_zero hb, hl⟩

/-- Sequence data takes two bytes off the block for each pulse, and never
leaves it below zero. -/
theorem sequenceStep_counts_down {o : Outcome} (hx : g.sequenceStep r f = some o)
    (hp : o.result = .pulsed) :
    (o.gen.timing.length : Int) = max ((g.timing.length : Int) - 2) 0 := by
  by_cases hr : 2 ≤ r.toList.length
  · rw [sequenceStep_of_le hr] at hx
    cases hx
    show ((g.timing.length - 2 : Nat) : Int) = _
    omega
  · rw [sequenceStep_of_lt (by omega)] at hx
    cases hp.symm.trans (starved_result hx)

/-- Metadata takes off the block as many bytes as the ring holds, and no
more than the block has left. -/
theorem metadataStep_counts_down {o : Outcome} (hr : r.toList ≠ []) (hx : g.metadataStep r f = some o) :
    min r.toList.length g.timing.length ≤ g.timing.length ∧
      (o.gen.timing.length : Int) = g.timing.length - min r.toList.length g.timing.length := by
  rw [metadataStep_of_ne_nil hr] at hx
  cases hx
  refine ⟨Nat.min_le_right _ _, ?_⟩
  show ((g.timing.length - min r.toList.length g.timing.length : Nat) : Int) = _
  omega

/-! ## Steps and runs -/

/-- Every step keeps the invariant. -/
theorem Sound.step (hs : g.Sound) (r : ByteRing) (f : Bool) : (g.step r f).gen.Sound := by
  cases he : g.timing.isEmpty with
  | false =>
    rw [step_of_isEmpty_false he]
    exact hs.play r f .idle
  | true =>
    rw [step_of_isEmpty he]
    cases hd : headerIn g.format g.header r.toList with
    | some h => exact (sound_begin g h).play _ f .progress
    | none =>
      simp only
      have hc : (collect g.format g.header r).1.length ≤
          headerTarget g.format (collect g.format g.header r).1 := by
        have := length_gather_le hs.header_le r.toList
        rwa [← collect_eq_gather] at this
      split
      · exact ⟨hs.regular, hs.dataBit_le, hs.inByte, Nat.zero_le _⟩
      · exact ⟨hs.regular, hs.dataBit_le, hs.inByte, hc⟩

/-- With the stream finished a step never waits: it gives a pulse, moves on,
or ends the tape. -/
theorem step_finished_ne_idle (g : Generator) (r : ByteRing) : (g.step r true).result ≠ .idle := by
  cases he : g.timing.isEmpty with
  | false =>
    rw [step_of_isEmpty_false he]
    rcases play_wait_or_load_lt (f := true) (b := .idle) (r := r) he with ⟨hf, -⟩ | ⟨hres, -⟩
    · cases hf
    · rcases hres with h | h <;> rw [h] <;> decide
  | true =>
    rw [step_of_isEmpty he]
    cases hd : headerIn g.format g.header r.toList with
    | some h =>
      obtain ⟨-, -, -, -, -, hres⟩ := play_shape (g.begin h) (collect g.format g.header r).2 true .progress
      simp only
      rcases hres with e | e | e <;> rw [e] <;> decide
    | none =>
      have hC : (collect g.format g.header r).2.toList = [] := by
        simpa [gather] using gather_snd_of_headerIn_none hd
      have hE : (collect g.format g.header r).2.isEmpty = true := by
        rw [ByteRing.isEmpty_eq, hC]
        rfl
      simp only [hE, Bool.true_and, if_true]
      decide

/-- The states a generator reaches: from the start of a stream in either
format, by steps over any ring with either flag. -/
inductive Reachable : Generator → Prop where
  | start (fmt : Format) : Reachable (start fmt)
  | step {g : Generator} (r : ByteRing) (f : Bool) : Reachable g → Reachable (g.step r f).gen

theorem Reachable.sound (hg : g.Reachable) : g.Sound := by
  induction hg with
  | start fmt => exact sound_start fmt
  | step r f _ ih => exact ih.step r f

/-- Between any two steps of any run: at most two sync pulses are left; the
unused end of the last byte is an even number of pulses, at most fourteen;
at most sixteen pulses are left of the byte in hand, and some only while
audio data is played; the header being collected is no longer than the size
its first byte gives, at most 21 bytes, and the bytes the next block is
decoded from, the TAP flag byte included, fit in `maxHeaderSize`; the phase
is the header exactly when nothing is left of the block; and once the
stream is finished no step waits. -/
theorem reachable_state_bounds (hg : g.Reachable) :
    g.timing.syncPhase ≤ 2 ∧ g.timing.lastBit % 2 = 0 ∧ g.timing.lastBit ≤ 14 ∧
      g.dataBit ≤ 16 ∧ (0 < g.dataBit → g.phase = .data ∧ g.timing.category = .audio) ∧
      g.header.length ≤ headerTarget g.format g.header ∧ headerTarget g.format g.header ≤ 21 ∧
      (∀ bytes h, headerIn g.format g.header bytes = some h → h.length ≤ maxHeaderSize) ∧
      (g.phase = .header ↔ g.timing.isEmpty = true) ∧ (∀ r, (g.step r true).result ≠ .idle) := by
  have hs := hg.sound
  refine ⟨hs.regular.syncPhase_le, hs.regular.lastBit_even, hs.regular.lastBit_le, hs.dataBit_le,
    hs.inByte, hs.header_le, headerTarget_le _ _, fun bytes h hh => ?_, Phase.ofTiming_eq_header_iff,
    step_finished_ne_idle g⟩
  have h1 := length_headerIn_le hs.header_le hh
  have h2 := headerTarget_le g.format (gather g.format g.header bytes).1
  simp only [maxHeaderSize]
  omega

/-- One step into a pure-data block of one byte: the generator plays the
data with fifteen pulses left of the byte in hand, and the bounds hold. -/
theorem pureData_midByte_bounds :
    let g := ((start .tzx).step
      (ByteRing.ofList [0x14, 0x57, 0x03, 0xae, 0x06, 0x08, 0x00, 0x00, 0x01, 0x00, 0x00, 0xa5]) true).gen
    g.Reachable ∧ g.dataBit = 15 ∧
      (g.timing.syncPhase ≤ 2 ∧ g.timing.lastBit % 2 = 0 ∧ g.timing.lastBit ≤ 14 ∧
        g.dataBit ≤ 16 ∧ (0 < g.dataBit → g.phase = .data ∧ g.timing.category = .audio) ∧
        g.header.length ≤ headerTarget g.format g.header ∧ headerTarget g.format g.header ≤ 21 ∧
        (∀ bytes h, headerIn g.format g.header bytes = some h → h.length ≤ maxHeaderSize) ∧
        (g.phase = .header ↔ g.timing.isEmpty = true) ∧ (∀ r, (g.step r true).result ≠ .idle)) := by
  intro g
  have hg : g.Reachable := .step _ _ (.start .tzx)
  exact ⟨hg, by decide, reachable_state_bounds hg⟩

end Generator

end TapeDeck
