import TapeDeck.Proofs.Ring
import TapeDeck.Pulse.Generator

/-!
# The generator on a stream that is all there

The generator sees a tape through a ring that holds a few bytes at a time,
and through a flag that says whether more may come.  `Generator.playAll`
plays a whole stream instead: every step sees all the bytes left and the
flag set, and the run goes to the end of the tape.

Steps of `playAll` are counted lexicographically (`Generator.load`): first
the bytes still to be taken, a byte in the ring counting twice and a byte of
a half-collected header once, then the steps left of the block in hand.
With the flag set every step lowers the count, so `playAll` is a function.

This module holds the facts about single steps that the rest is built on:
what each phase of `play` does, how `collect` splits the ring, and that a
step with the flag set lowers the count.
-/

namespace TapeDeck

/-! ## Phases -/

namespace Phase

variable {t : Timing}

theorem ofTiming_eq_pilot_iff : ofTiming t = .pilot ↔ 0 < t.pilotCount := by
  unfold ofTiming
  grind

theorem ofTiming_eq_sync1_iff : ofTiming t = .sync1 ↔ t.pilotCount = 0 ∧ 2 ≤ t.syncPhase := by
  unfold ofTiming
  grind

theorem ofTiming_eq_sync2_iff : ofTiming t = .sync2 ↔ t.pilotCount = 0 ∧ t.syncPhase = 1 := by
  unfold ofTiming
  grind

theorem ofTiming_eq_data_iff :
    ofTiming t = .data ↔ t.pilotCount = 0 ∧ t.syncPhase = 0 ∧ 0 < t.length := by
  unfold ofTiming
  grind

theorem ofTiming_eq_pause_iff :
    ofTiming t = .pause ↔ t.pilotCount = 0 ∧ t.syncPhase = 0 ∧ t.length = 0 ∧ 0 < t.pause := by
  unfold ofTiming
  grind

theorem ofTiming_eq_header_iff : ofTiming t = .header ↔ t.isEmpty = true := by
  unfold ofTiming Timing.isEmpty
  grind

end Phase

namespace Generator

variable {g : Generator} {r : ByteRing} {f : Bool} {b : StepResult}

/-! ## What each phase plays -/

theorem play_pilot (h : g.phase = .pilot) :
    g.play r f b = pulsed { g with timing := { g.timing with pilotCount := g.timing.pilotCount - 1 } }
      r ⟨g.timing.pilot, true⟩ := by
  simp only [play, h]

theorem play_sync1 (h : g.phase = .sync1) :
    g.play r f b = pulsed { g with timing := { g.timing with syncPhase := g.timing.syncPhase - 1 } }
      r ⟨g.timing.sync1, true⟩ := by
  simp only [play, h]

theorem play_sync2 (h : g.phase = .sync2) :
    g.play r f b = pulsed { g with timing := { g.timing with syncPhase := g.timing.syncPhase - 1 } }
      r ⟨g.timing.sync2, true⟩ := by
  simp only [play, h]

theorem play_pause (h : g.phase = .pause) :
    g.play r f b = pulsed { g with timing := { g.timing with pause := g.timing.pause - 1 } }
      r ⟨pauseWidth, false⟩ := by
  simp only [play, h]

theorem play_header (h : g.phase = .header) : g.play r f b = ⟨b, none, g, r⟩ := by
  simp only [play, h]

theorem play_audio (h : g.phase = .data) (hc : g.timing.category = .audio) :
    g.play r f b = (g.audioStep r f).getD ⟨b, none, g, r⟩ := by
  simp only [play, h, hc]

theorem play_sequence (h : g.phase = .data) (hc : g.timing.category = .sequence) :
    g.play r f b = (g.sequenceStep r f).getD ⟨b, none, g, r⟩ := by
  simp only [play, h, hc]

theorem play_metadata (h : g.phase = .data) (hc : g.timing.category = .metadata) :
    g.play r f b = (g.metadataStep r f).getD ⟨b, none, g, r⟩ := by
  simp only [play, h, hc]

/-- A part of the lead (pilot, syncs, pause) plays one pulse that the
generator alone decides, takes nothing from the ring, and leaves the block
a step shorter. -/
theorem play_lead (hh : g.phase ≠ .header) (hd : g.phase ≠ .data) :
    ∃ g' p, (∀ r f b, g.play r f b = pulsed g' r p) ∧ g'.header = g.header ∧
      g'.format = g.format ∧ g'.blockSteps < g.blockSteps := by
  cases hp : g.phase with
  | pilot =>
    have := Phase.ofTiming_eq_pilot_iff.1 hp
    exact ⟨_, _, fun r f b => play_pilot hp, rfl, rfl, by simp only [blockSteps]; omega⟩
  | sync1 =>
    have := Phase.ofTiming_eq_sync1_iff.1 hp
    exact ⟨_, _, fun r f b => play_sync1 hp, rfl, rfl, by simp only [blockSteps]; omega⟩
  | sync2 =>
    have := Phase.ofTiming_eq_sync2_iff.1 hp
    exact ⟨_, _, fun r f b => play_sync2 hp, rfl, rfl, by simp only [blockSteps]; omega⟩
  | pause =>
    have := Phase.ofTiming_eq_pause_iff.1 hp
    exact ⟨_, _, fun r f b => play_pause hp, rfl, rfl, by simp only [blockSteps]; omega⟩
  | header => exact absurd hp hh
  | data => exact absurd hp hd

/-! ## Data steps -/

@[simp] theorem starved_true (g : Generator) (r : ByteRing) :
    g.starved r true = some ⟨.progress, none, { g with timing := g.timing.clear, dataBit := 0 }, r⟩ :=
  rfl

@[simp] theorem starved_false (g : Generator) (r : ByteRing) : g.starved r false = none := rfl

theorem audioStep_of_dataBit_ne_zero (h : g.dataBit ≠ 0) :
    g.audioStep r f = some (pulsed g.afterBitPulse r g.bitPulse) := by
  simp [audioStep, h]

theorem audioStep_of_pull? {b : UInt8} {r' : ByteRing} (h : g.dataBit = 0)
    (hp : r.pull? = some (b, r')) :
    g.audioStep r f =
      some (pulsed { g with data := b, dataBit := 16 }.afterBitPulse r'
        { g with data := b, dataBit := 16 }.bitPulse) := by
  simp [audioStep, h, hp]

theorem audioStep_of_pull?_none (h : g.dataBit = 0) (hp : r.pull? = none) :
    g.audioStep r f = g.starved r f := by
  simp [audioStep, h, hp]

theorem sequenceStep_of_lt (h : r.toList.length < 2) : g.sequenceStep r f = g.starved r f := by
  simp [sequenceStep, h]

theorem sequenceStep_of_le (h : 2 ≤ r.toList.length) :
    g.sequenceStep r f =
      some (pulsed { g with timing := { g.timing with length := g.timing.length - 2 } }
        (r.pullMany 2).2
        ⟨stretch ((r.toList.getD 0 0).toUInt32 ||| ((r.toList.getD 1 0).toUInt32 <<< 8)), true⟩) := by
  have hn : ¬ r.toList.length < 2 := by omega
  simp [sequenceStep, hn]

theorem metadataStep_of_nil (h : r.toList = []) : g.metadataStep r f = g.starved r f := by
  simp [metadataStep, h]

theorem metadataStep_of_ne_nil (h : r.toList ≠ []) :
    g.metadataStep r f =
      some ⟨.progress, none,
        { g with timing := { g.timing with
            length := g.timing.length - min r.toList.length g.timing.length } },
        (r.pullMany (min r.toList.length g.timing.length)).2⟩ := by
  have hn : ¬ r.toList.length = 0 := by simpa using h
  simp [metadataStep, hn]

/-! ## Collecting a header -/

/-- Bytes that a header collected so far still takes from the bytes after
it: the size its first byte gives, less what it has. -/
def headerNeed (fmt : Format) (pending bytes : List UInt8) : Nat :=
  match pending, bytes with
  | [], [] => 0
  | [], c :: _ => headerSize c fmt
  | c :: _, _ => headerSize c fmt - pending.length

theorem collect_eq (fmt : Format) (p : List UInt8) (r : ByteRing) :
    (collect fmt p r).1 = p ++ r.toList.take (headerNeed fmt p r.toList) ∧
      (collect fmt p r).2.toList = r.toList.drop (headerNeed fmt p r.toList) := by
  cases p with
  | nil =>
    cases hp : r.pull? with
    | none =>
      have hr := ByteRing.pull?_eq_none_iff.1 hp
      simp [collect, hp, hr, headerNeed]
    | some q =>
      obtain ⟨c, r'⟩ := q
      have hr := ByteRing.toList_of_pull? hp
      obtain ⟨k, hk⟩ : ∃ k, headerSize c fmt = k + 1 :=
        ⟨_, (Nat.succ_pred_eq_of_pos (headerSize_pos c fmt)).symm⟩
      simp [collect, hp, hr, headerNeed, hk]
  | cons c rest => simp [collect, headerNeed]

@[simp] theorem collect_fst (fmt : Format) (p : List UInt8) (r : ByteRing) :
    (collect fmt p r).1 = p ++ r.toList.take (headerNeed fmt p r.toList) :=
  (collect_eq fmt p r).1

@[simp] theorem toList_collect_snd (fmt : Format) (p : List UInt8) (r : ByteRing) :
    (collect fmt p r).2.toList = r.toList.drop (headerNeed fmt p r.toList) :=
  (collect_eq fmt p r).2

/-- A header collected from the ring is whole, or else the ring was emptied
into it. -/
theorem isWhole_or_drained (fmt : Format) (p bytes : List UInt8) :
    isWhole fmt (p ++ bytes.take (headerNeed fmt p bytes)) = true ∨
      bytes.drop (headerNeed fmt p bytes) = [] := by
  by_cases hl : bytes.length ≤ headerNeed fmt p bytes
  · exact .inr (List.drop_eq_nil_of_le hl)
  · left
    have ht : (bytes.take (headerNeed fmt p bytes)).length = headerNeed fmt p bytes := by
      simp only [List.length_take]
      omega
    cases p with
    | nil =>
      cases bytes with
      | nil => simp [headerNeed] at hl
      | cons c l =>
        simp only [headerNeed] at ht ⊢
        have := headerSize_pos c fmt
        obtain ⟨k, hk⟩ : ∃ k, headerSize c fmt = k + 1 := ⟨_, (Nat.succ_pred_eq_of_pos this).symm⟩
        simp only [hk, List.take_succ_cons, List.nil_append, isWhole, List.length_take] at ht ⊢
        simp only [List.length_cons] at hl
        simp only [headerNeed, hk] at hl
        simp only [decide_eq_true_eq]
        omega
    | cons c ps =>
      have hk : headerNeed fmt (c :: ps) bytes = headerSize c fmt - (ps.length + 1) := rfl
      rw [hk] at ht ⊢
      simp only [List.cons_append, isWhole, List.length_append, ht, decide_eq_true_eq]
      omega

/-- A header collected so far, completed from the bytes after it as far as
they go, and the bytes left over. -/
def gather (fmt : Format) (p bytes : List UInt8) : List UInt8 × List UInt8 :=
  (p ++ bytes.take (headerNeed fmt p bytes), bytes.drop (headerNeed fmt p bytes))

theorem collect_eq_gather (fmt : Format) (p : List UInt8) (r : ByteRing) :
    ((collect fmt p r).1, (collect fmt p r).2.toList) = gather fmt p r.toList := by
  simp [gather]

/-- Gathering a header from two runs of bytes is gathering from the first,
then going on from the second. -/
theorem gather_append (fmt : Format) (p ρ τ : List UInt8) :
    gather fmt p (ρ ++ τ) = gather fmt (gather fmt p ρ).1 ((gather fmt p ρ).2 ++ τ) := by
  cases p with
  | nil =>
    cases ρ with
    | nil => simp [gather, headerNeed]
    | cons c l =>
      have hs := headerSize_pos c fmt
      by_cases hl : headerSize c fmt ≤ l.length + 1
      · -- the first run completes the header
        have hw : headerNeed fmt ((c :: l).take (headerSize c fmt))
            ((c :: l).drop (headerSize c fmt) ++ τ) = 0 := by
          obtain ⟨k, hk⟩ : ∃ k, headerSize c fmt = k + 1 := ⟨_, (Nat.succ_pred_eq_of_pos hs).symm⟩
          simp only [hk, List.take_succ_cons, headerNeed, List.length_cons, List.length_take]
          omega
        simp only [gather, headerNeed, List.nil_append, List.cons_append] at hw ⊢
        rw [hw]
        simp only [List.take_zero, List.append_nil, List.drop_zero, Prod.mk.injEq]
        constructor
        · rw [← List.cons_append, List.take_append_of_le_length (by simpa using hl)]
        · rw [← List.cons_append, List.drop_append_of_le_length (by simpa using hl)]
      · -- the first run is all taken, and the header goes on into the second
        have hlt : l.length + 1 < headerSize c fmt := by omega
        simp only [gather, headerNeed, List.nil_append, List.cons_append,
          List.take_of_length_le (by simp; omega : (c :: l).length ≤ headerSize c fmt),
          List.drop_of_length_le (by simp; omega : (c :: l).length ≤ headerSize c fmt)]
        rw [← List.cons_append, List.take_append, List.drop_append]
        simp only [List.length_cons, List.take_of_length_le (by simp; omega : (c :: l).length ≤ headerSize c fmt),
          List.drop_of_length_le (by simp; omega : (c :: l).length ≤ headerSize c fmt),
          List.nil_append, List.cons_append, List.length_cons]
  | cons c ps =>
    simp only [gather, headerNeed, List.length_cons, List.cons_append, List.length_append,
      List.length_take]
    generalize hk : headerSize c fmt - (ps.length + 1) = k
    have hn : headerSize c fmt - (ps.length + min k ρ.length + 1) = k - min k ρ.length := by omega
    rw [hn]
    by_cases hl : k ≤ ρ.length
    · rw [Nat.min_eq_left hl, Nat.sub_self, List.take_append_of_le_length hl,
        List.drop_append_of_le_length hl]
      simp
    · rw [Nat.min_eq_right (by omega), List.take_append, List.drop_append,
        List.drop_of_length_le (by omega : ρ.length ≤ k), List.take_of_length_le (by omega : ρ.length ≤ k)]
      simp

theorem headerNeed_of_isWhole {fmt : Format} {p : List UInt8} (h : isWhole fmt p = true)
    (bytes : List UInt8) : headerNeed fmt p bytes = 0 := by
  cases p with
  | nil => cases h
  | cons c ps =>
    simp only [isWhole, decide_eq_true_eq] at h
    simp only [headerNeed, List.length_cons]
    omega

/-- The bytes the next header decodes from, when the header collected so far
and the bytes after it complete one, with its flag byte for a TAP block with
data. -/
def headerIn (fmt : Format) (p bytes : List UInt8) : Option (List UInt8) :=
  if isWhole fmt (gather fmt p bytes).1 then
    decodable fmt (gather fmt p bytes).1 (gather fmt p bytes).2.head?
  else none

/-- When no header can be decoded yet, every byte went into the header. -/
theorem gather_snd_of_headerIn_none {fmt : Format} {p bytes : List UInt8}
    (h : headerIn fmt p bytes = none) : (gather fmt p bytes).2 = [] := by
  unfold headerIn at h
  split at h
  · unfold decodable at h
    split at h
    · simpa using h
    · cases h
  · next hw =>
    rcases isWhole_or_drained fmt p bytes with hw' | hd
    · exact absurd hw' hw
    · exact hd

/-- A header decoded from the start of a stream is decoded from the whole of it. -/
theorem headerIn_append_of_some {fmt : Format} {p ρ h : List UInt8} (τ : List UInt8)
    (hs : headerIn fmt p ρ = some h) :
    headerIn fmt p (ρ ++ τ) = some h ∧ (gather fmt p (ρ ++ τ)).2 = (gather fmt p ρ).2 ++ τ := by
  unfold headerIn at hs
  split at hs
  · next hw =>
    have hg : gather fmt p (ρ ++ τ) = ((gather fmt p ρ).1, (gather fmt p ρ).2 ++ τ) := by
      rw [gather_append]
      generalize gather fmt p ρ = q at hw ⊢
      simp [gather, headerNeed_of_isWhole hw]
    refine ⟨?_, by rw [hg]⟩
    unfold headerIn
    rw [hg, if_pos hw]
    unfold decodable at hs ⊢
    split
    · next ht =>
      rw [if_pos ht] at hs
      cases hr : (gather fmt p ρ).2 with
      | nil => rw [hr] at hs; cases hs
      | cons c l => rw [hr] at hs; simpa using hs
    · next ht => rwa [if_neg ht] at hs
  · cases hs

/-- A header not yet decodable from the start of a stream is gathered on
from the rest. -/
theorem gather_append_of_headerIn_none {fmt : Format} {p ρ : List UInt8} (τ : List UInt8)
    (hn : headerIn fmt p ρ = none) : gather fmt p (ρ ++ τ) = gather fmt (gather fmt p ρ).1 τ := by
  rw [gather_append, gather_snd_of_headerIn_none hn, List.nil_append]

/-! ## A step between blocks -/

@[simp] theorem begin_header (g : Generator) (h : List UInt8) : (g.begin h).header = [] := rfl

/-- Between blocks a step collects the next header; when it is whole (with
its flag byte for TAP) the block begins and its first part is played, else
the step waits, or ends the tape when nothing more will come. -/
theorem step_of_isEmpty (h : g.timing.isEmpty = true) :
    g.step r f =
      match headerIn g.format g.header r.toList with
      | some h => (g.begin h).play (collect g.format g.header r).2 f .progress
      | none =>
        if f && (collect g.format g.header r).2.isEmpty then
          ⟨.endOfTape, none, { g with header := [] }, (collect g.format g.header r).2⟩
        else ⟨.idle, none, { g with header := (collect g.format g.header r).1 }, (collect g.format g.header r).2⟩ := by
  have hi : headerIn g.format g.header r.toList =
      if isWhole g.format (collect g.format g.header r).1 then
        decodable g.format (collect g.format g.header r).1 (collect g.format g.header r).2.front?
      else none := by
    simp [headerIn, gather]
  rw [hi]
  simp only [step, h, if_true, nextHeader]
  by_cases hw : isWhole g.format (collect g.format g.header r).1 = true
  · simp only [hw, Bool.not_true, if_true]
    cases decodable g.format (collect g.format g.header r).1 (collect g.format g.header r).2.front? with
    | none => rfl
    | some h => rfl
  · simp only [hw, Bool.not_false]
    rfl

theorem step_of_isEmpty_false (h : g.timing.isEmpty = false) : g.step r f = g.play r f .idle := by
  simp [step, h]

/-! ## Counting what is left -/

theorem blockSteps_afterBitPulse (h : 0 < g.dataBit) : g.afterBitPulse.blockSteps < g.blockSteps := by
  by_cases h1 : g.dataBit - 1 = 0
  · simp only [afterBitPulse, h1, if_true, blockSteps]
    omega
  · by_cases h2 : g.timing.length = 1 ∧ g.dataBit - 1 = g.timing.lastBit
    · simp only [afterBitPulse]
      rw [if_neg h1, if_pos h2]
      simp only [blockSteps]
      omega
    · simp only [afterBitPulse]
      rw [if_neg h1, if_neg h2]
      simp only [blockSteps]
      omega

@[simp] theorem afterBitPulse_header (g : Generator) : g.afterBitPulse.header = g.header := by
  unfold afterBitPulse
  grind

@[simp] theorem afterBitPulse_format (g : Generator) : g.afterBitPulse.format = g.format := by
  unfold afterBitPulse
  grind

/-- A part of a block takes bytes off the front of the ring, if any, and
keeps the header, the format and the ring's capacity. -/
theorem play_shape (g : Generator) (r : ByteRing) (f : Bool) (b : StepResult) :
    ∃ k, (g.play r f b).ring.toList = r.toList.drop k ∧ (g.play r f b).ring.capacity = r.capacity ∧
      (g.play r f b).gen.header = g.header ∧ (g.play r f b).gen.format = g.format ∧
      ((g.play r f b).result = b ∨ (g.play r f b).result = .pulsed ∨
        (g.play r f b).result = .progress) := by
  cases hp : g.phase with
  | header => exact ⟨0, by simp [play_header hp]⟩
  | pilot | sync1 | sync2 | pause =>
    obtain ⟨g', p, hplay, hh, hf, -⟩ := play_lead (g := g) (by simp [hp]) (by simp [hp])
    exact ⟨0, by simp [hplay, pulsed, hh, hf]⟩
  | data =>
    cases hc : g.timing.category with
    | audio =>
      rw [play_audio hp hc]
      by_cases h0 : g.dataBit = 0
      · cases hr : r.pull? with
        | none => cases f <;> exact ⟨0, by simp [audioStep_of_pull?_none h0 hr]⟩
        | some q =>
          obtain ⟨c, r'⟩ := q
          exact ⟨1, by simp [audioStep_of_pull? h0 hr, pulsed, ByteRing.toList_of_pull? hr,
            ByteRing.capacity_of_pull? hr]⟩
      · exact ⟨0, by simp [audioStep_of_dataBit_ne_zero h0, pulsed]⟩
    | sequence =>
      rw [play_sequence hp hc]
      by_cases hl : r.toList.length < 2
      · cases f <;> exact ⟨0, by simp [sequenceStep_of_lt hl]⟩
      · exact ⟨2, by simp [sequenceStep_of_le (Nat.le_of_not_lt hl), pulsed]⟩
    | metadata =>
      rw [play_metadata hp hc]
      by_cases hl : r.toList = []
      · cases f <;> exact ⟨0, by simp [metadataStep_of_nil hl]⟩
      · exact ⟨min r.toList.length g.timing.length, by simp [metadataStep_of_ne_nil hl]⟩

/-- A part of a block either gives a pulse or makes progress, lowering the
count, or waits, unchanged, for a byte the ring lacks while more may come: a
pulse lowers the steps left, a byte taken lowers the bytes, and a block that
runs dry for good is dropped. -/
theorem play_wait_or_load_lt (hne : g.timing.isEmpty = false) :
    (f = false ∧ g.play r f b = ⟨b, none, g, r⟩ ∧ r.toList.length < 2) ∨
      (((g.play r f b).result = .pulsed ∨ (g.play r f b).result = .progress) ∧
        Prod.Lex (· < ·) (· < ·) ((g.play r f b).gen.load (g.play r f b).ring.toList)
          (g.load r.toList)) := by
  have hstarve : 0 < g.timing.length → r.toList.length < 2 →
      (f = false ∧ (g.starved r f).getD ⟨b, none, g, r⟩ = ⟨b, none, g, r⟩ ∧ r.toList.length < 2) ∨
        ((((g.starved r f).getD ⟨b, none, g, r⟩).result = .pulsed ∨
            ((g.starved r f).getD ⟨b, none, g, r⟩).result = .progress) ∧
          Prod.Lex (· < ·) (· < ·)
            (((g.starved r f).getD ⟨b, none, g, r⟩).gen.load
              ((g.starved r f).getD ⟨b, none, g, r⟩).ring.toList)
            (g.load r.toList)) := by
    intro hl hr
    cases f with
    | false => exact .inl ⟨rfl, rfl, hr⟩
    | true =>
      refine .inr ⟨.inr rfl, ?_⟩
      simp only [starved_true, Option.getD_some, load, blockSteps, Timing.clear, Prod.lex_def, true_and]
      omega
  cases hp : g.phase with
  | header =>
    rw [Phase.ofTiming_eq_header_iff.1 hp] at hne
    cases hne
  | pilot | sync1 | sync2 | pause =>
    obtain ⟨g', p, hplay, hh, -, hlt⟩ := play_lead (g := g) (by simp [hp]) (by simp [hp])
    refine .inr ⟨.inl (by rw [hplay]; rfl), ?_⟩
    simp only [hplay, pulsed, load, hh, Prod.lex_def, true_and]
    omega
  | data =>
    obtain ⟨-, -, hl⟩ := Phase.ofTiming_eq_data_iff.1 hp
    cases hc : g.timing.category with
    | audio =>
      rw [play_audio hp hc]
      by_cases h0 : g.dataBit = 0
      · cases hr : r.pull? with
        | none =>
          rw [audioStep_of_pull?_none h0 hr]
          exact hstarve hl (by simp [ByteRing.pull?_eq_none_iff.1 hr])
        | some q =>
          obtain ⟨c, r'⟩ := q
          have hr' := ByteRing.toList_of_pull? hr
          refine .inr ⟨.inl (by rw [audioStep_of_pull? h0 hr]; rfl), ?_⟩
          simp only [audioStep_of_pull? h0 hr, Option.getD_some, pulsed, load,
            afterBitPulse_header, hr', List.length_cons, Prod.lex_def]
          omega
      · have := blockSteps_afterBitPulse (g := g) (by omega)
        refine .inr ⟨.inl (by rw [audioStep_of_dataBit_ne_zero h0]; rfl), ?_⟩
        simp only [audioStep_of_dataBit_ne_zero h0, Option.getD_some, pulsed, load,
          afterBitPulse_header, Prod.lex_def, true_and]
        omega
    | sequence =>
      rw [play_sequence hp hc]
      by_cases h2 : r.toList.length < 2
      · rw [sequenceStep_of_lt h2]
        exact hstarve hl h2
      · refine .inr ⟨.inl (by rw [sequenceStep_of_le (Nat.le_of_not_lt h2)]; rfl), ?_⟩
        simp only [sequenceStep_of_le (Nat.le_of_not_lt h2), Option.getD_some, pulsed, load,
          ByteRing.toList_pullMany_snd, List.length_drop, Prod.lex_def]
        omega
    | metadata =>
      rw [play_metadata hp hc]
      by_cases h0 : r.toList = []
      · rw [metadataStep_of_nil h0]
        exact hstarve hl (by simp [h0])
      · have : 0 < r.toList.length := List.length_pos_iff.2 h0
        refine .inr ⟨.inr (by rw [metadataStep_of_ne_nil h0]; rfl), ?_⟩
        simp only [metadataStep_of_ne_nil h0, Option.getD_some, load,
          ByteRing.toList_pullMany_snd, List.length_drop, Prod.lex_def]
        omega

/-- A step ends the tape, lowers the count, or waits, unchanged, for a byte
the ring lacks while more may come.  So a step never waits with two bytes
in the ring, and with the flag set it never waits at all. -/
theorem step_load (g : Generator) (r : ByteRing) (f : Bool) :
    (g.step r f).result = .endOfTape ∨
      Prod.Lex (· < ·) (· < ·) ((g.step r f).gen.load (g.step r f).ring.toList) (g.load r.toList) ∨
      (f = false ∧ (g.step r f).result = .idle ∧
        (g.step r f).gen.load (g.step r f).ring.toList = g.load r.toList ∧ r.toList.length < 2) := by
  cases he : g.timing.isEmpty with
  | false =>
    rw [step_of_isEmpty_false he]
    rcases play_wait_or_load_lt (f := f) (b := .idle) (r := r) he with ⟨hf, hw, hl⟩ | ⟨-, hlt⟩
    · rw [hw]
      exact .inr (.inr ⟨hf, rfl, rfl, hl⟩)
    · exact .inr (.inl hlt)
  | true =>
    rw [step_of_isEmpty he]
    cases hd : headerIn g.format g.header r.toList with
    | some hdr =>
      right
      left
      have hw : isWhole g.format (gather g.format g.header r.toList).1 = true := by
        unfold headerIn at hd
        split at hd
        · assumption
        · cases hd
      obtain ⟨k, hk, -, hh, -⟩ :=
        play_shape (g.begin hdr) (collect g.format g.header r).2 f .progress
      simp only [load, Prod.lex_def]
      rw [hk, hh]
      simp only [gather] at hw
      have hne : g.header ++ r.toList.take (headerNeed g.format g.header r.toList) ≠ [] := by
        intro hnil
        rw [hnil] at hw
        cases hw
      have hlen := List.length_pos_iff.2 hne
      simp only [List.length_append, List.length_take] at hlen
      simp only [begin_header, List.length_nil, toList_collect_snd, List.length_drop]
      omega
    | none =>
      have hC : (collect g.format g.header r).2.toList = [] := by
        simpa [gather] using gather_snd_of_headerIn_none hd
      have hC' : r.toList.drop (headerNeed g.format g.header r.toList) = [] := by simpa using hC
      have htake : r.toList.take (headerNeed g.format g.header r.toList) = r.toList := by
        rw [List.take_of_length_le]
        simpa using hC'
      by_cases hfe : (f && (collect g.format g.header r).2.isEmpty) = true
      · left
        simp only [hfe, if_true]
      · have hf : f = false := by simpa [hC] using hfe
        simp only [hfe, Bool.false_eq_true, if_false]
        by_cases hr0 : r.toList = []
        · right
          right
          refine ⟨hf, by simp, ?_, by simp [hr0]⟩
          simp [load, hC, hr0]
        · right
          left
          have := List.length_pos_iff.2 hr0
          simp only [load, hC, collect_fst, htake, List.length_append, Prod.lex_def]
          simp
          omega

@[simp] theorem capacity_collect (fmt : Format) (p : List UInt8) (r : ByteRing) :
    (collect fmt p r).2.capacity = r.capacity := by
  unfold collect
  split
  · split
    · rfl
    · next b r' hp => simp [ByteRing.capacity_of_pull? hp]
  · simp

/-- A step keeps the ring's capacity. -/
@[simp] theorem capacity_step (g : Generator) (r : ByteRing) (f : Bool) :
    (g.step r f).ring.capacity = r.capacity := by
  cases he : g.timing.isEmpty with
  | false =>
    rw [step_of_isEmpty_false he]
    obtain ⟨-, -, hc, -⟩ := play_shape g r f .idle
    exact hc
  | true =>
    rw [step_of_isEmpty he]
    split
    · next hdr _ =>
      obtain ⟨-, -, hc, -⟩ := play_shape (g.begin hdr) (collect g.format g.header r).2 f .progress
      rw [hc, capacity_collect]
    · split <;> simp

/-- A step that waits has emptied the ring into a header, or found it
holding less than two bytes and changed nothing. -/
theorem step_idle (h : (g.step r f).result = .idle) :
    (g.step r f).ring.toList = [] ∨ (g.step r f = ⟨.idle, none, g, r⟩ ∧ r.toList.length < 2) := by
  cases he : g.timing.isEmpty with
  | false =>
    rw [step_of_isEmpty_false he] at h ⊢
    rcases play_wait_or_load_lt (f := f) (b := .idle) (r := r) he with ⟨-, hw, hl⟩ | ⟨hres, -⟩
    · exact .inr ⟨hw, hl⟩
    · rcases hres with hres | hres <;> rw [hres] at h <;> cases h
  | true =>
    rw [step_of_isEmpty he] at h ⊢
    cases hd : headerIn g.format g.header r.toList with
    | some hdr =>
      simp only [hd] at h
      obtain ⟨-, -, -, -, -, hres⟩ := play_shape (g.begin hdr) (collect g.format g.header r).2 f .progress
      rcases hres with hres | hres | hres <;> rw [hres] at h <;> cases h
    | none =>
      left
      simp only [hd] at h ⊢
      have hC : (collect g.format g.header r).2.toList = [] := by
        simpa [gather] using gather_snd_of_headerIn_none hd
      split <;> exact hC

/-- With the flag set, every step short of the end of the tape lowers the
count. -/
theorem step_load_lt (h : (g.step r true).result ≠ .endOfTape) :
    Prod.Lex (· < ·) (· < ·) ((g.step r true).gen.load (g.step r true).ring.toList)
      (g.load r.toList) := by
  rcases step_load g r true with he | hlt | ⟨hf, -⟩
  · exact absurd he h
  · exact hlt
  · cases hf

/-- The pulses a generator gives for a stream that is all there: every step
sees the rest of the stream in the ring and the flag set, up to the end of
the tape. -/
def playAll (g : Generator) (bytes : List UInt8) : List Pulse :=
  let o := g.step (ByteRing.ofList bytes) true
  if o.result = .endOfTape then [] else o.pulse.toList ++ playAll o.gen o.ring.toList
termination_by g.load bytes
decreasing_by
  simpa using step_load_lt (g := g) (r := ByteRing.ofList bytes) ‹_›

theorem play_result_ne_endOfTape (hb : b ≠ .endOfTape) : (g.play r f b).result ≠ .endOfTape := by
  obtain ⟨-, -, -, -, -, hres⟩ := play_shape g r f b
  rcases hres with h | h | h <;> rw [h] <;> simp [hb]

/-- The end of the tape is reported only when nothing more will come, and
with no pulse. -/
theorem step_endOfTape (h : (g.step r f).result = .endOfTape) :
    f = true ∧ (g.step r f).pulse = none := by
  cases he : g.timing.isEmpty with
  | false =>
    rw [step_of_isEmpty_false he] at h
    exact absurd h (play_result_ne_endOfTape (by simp))
  | true =>
    rw [step_of_isEmpty he] at h ⊢
    cases hd : headerIn g.format g.header r.toList with
    | some hdr =>
      simp only [hd] at h
      exact absurd h (play_result_ne_endOfTape (by simp))
    | none =>
      simp only [hd] at h ⊢
      by_cases hfe : (f && (collect g.format g.header r).2.isEmpty) = true
      · rw [if_pos hfe]
        exact ⟨(Bool.and_eq_true_iff.1 hfe).1, rfl⟩
      · rw [if_neg hfe] at h
        cases h

/-! ## Unfolding `playAll` -/

theorem playAll_eq (g : Generator) (bytes : List UInt8) :
    g.playAll bytes =
      if (g.step (ByteRing.ofList bytes) true).result = .endOfTape then []
      else (g.step (ByteRing.ofList bytes) true).pulse.toList ++
        (g.step (ByteRing.ofList bytes) true).gen.playAll
          (g.step (ByteRing.ofList bytes) true).ring.toList := by
  rw [playAll]

/-- In the middle of a block, `playAll` plays the next part of it. -/
theorem playAll_of_isEmpty_false (hne : g.timing.isEmpty = false) (bytes : List UInt8) :
    g.playAll bytes =
      (g.play (ByteRing.ofList bytes) true .idle).pulse.toList ++
        (g.play (ByteRing.ofList bytes) true .idle).gen.playAll
          (g.play (ByteRing.ofList bytes) true .idle).ring.toList := by
  rw [playAll_eq, step_of_isEmpty_false hne,
    if_neg (play_result_ne_endOfTape (by simp))]

/-- The data of a metadata block is dropped: as much of it as the stream
holds, and when the stream ends first, the rest of the block with it. -/
theorem playAll_metadata (hp : g.phase = .data) (hc : g.timing.category = .metadata)
    (bytes : List UInt8) :
    g.playAll bytes =
      if g.timing.length ≤ bytes.length then
        { g with timing := { g.timing with length := 0 } }.playAll (bytes.drop g.timing.length)
      else { g with timing := g.timing.clear, dataBit := 0 }.playAll [] := by
  obtain ⟨hp0, hs0, hl⟩ := Phase.ofTiming_eq_data_iff.1 hp
  have hne : g.timing.isEmpty = false := by simp [Timing.isEmpty]; omega
  rw [playAll_of_isEmpty_false hne, play_metadata hp hc]
  by_cases hb : bytes = []
  · subst hb
    have : ¬ g.timing.length ≤ 0 := by omega
    simp [metadataStep_of_nil, this]
  · have hb' : (ByteRing.ofList bytes).toList ≠ [] := by simpa using hb
    rw [metadataStep_of_ne_nil hb']
    simp only [ByteRing.toList_ofList, Option.getD_some, Option.toList_none, List.nil_append,
      ByteRing.toList_pullMany_snd]
    split
    · next hle =>
      rw [Nat.min_eq_right hle, Nat.sub_self]
    · next hlt =>
      have hmin : min bytes.length g.timing.length = bytes.length := by omega
      rw [hmin, List.drop_length]
      have hp1 : ({ g with timing := { g.timing with length := g.timing.length - bytes.length } } :
          Generator).phase = .data := by
        apply Phase.ofTiming_eq_data_iff.2
        simp only
        omega
      have hne1 : ({ g with timing := { g.timing with length := g.timing.length - bytes.length } } :
          Generator).timing.isEmpty = false := by
        simp [Timing.isEmpty]
        omega
      rw [playAll_of_isEmpty_false hne1, play_metadata hp1 hc, metadataStep_of_nil (by simp)]
      simp [Timing.clear]

/-! ## A step on part of the stream -/

section Prefix

variable {τ : List UInt8}

/-- A part of a block played from a ring that holds only the start of the
stream, the flag set only when nothing more will come, gives what `playAll`
gives on the whole stream: its pulse, then `playAll` from where it stopped.
When the ring runs dry early the step waits and nothing changes; metadata
dropped in pieces is dropped all the same. -/
theorem playAll_play (hne : g.timing.isEmpty = false) (hf : f = true → τ = []) :
    g.playAll (r.toList ++ τ) =
      (g.play r f b).pulse.toList ++ (g.play r f b).gen.playAll ((g.play r f b).ring.toList ++ τ) := by
  have hwait : g.play r f b = ⟨b, none, g, r⟩ →
      g.playAll (r.toList ++ τ) =
        (g.play r f b).pulse.toList ++ (g.play r f b).gen.playAll ((g.play r f b).ring.toList ++ τ) := by
    intro h
    rw [h]
    rfl
  have hfull : (ByteRing.ofList (r.toList ++ τ)).toList = r.toList ++ τ := by simp
  cases hp : g.phase with
  | header =>
    rw [Phase.ofTiming_eq_header_iff.1 hp] at hne
    cases hne
  | pilot | sync1 | sync2 | pause =>
    obtain ⟨g', p, hplay, -⟩ := play_lead (g := g) (by simp [hp]) (by simp [hp])
    simp [playAll_of_isEmpty_false hne, hplay, pulsed]
  | data =>
    cases hc : g.timing.category with
    | audio =>
      by_cases h0 : g.dataBit = 0
      · by_cases hr : r.toList = []
        · have hn : r.pull? = none := ByteRing.pull?_eq_none_iff.2 hr
          cases f with
          | false => exact hwait (by simp [play_audio hp hc, audioStep_of_pull?_none h0 hn])
          | true =>
            have hτ := hf rfl
            subst hτ
            have hN : (ByteRing.ofList (r.toList ++ [])).pull? = none :=
              ByteRing.pull?_eq_none_iff.2 (by simp [hr])
            rw [playAll_of_isEmpty_false hne, play_audio hp hc, play_audio hp hc,
              audioStep_of_pull?_none h0 hn, audioStep_of_pull?_none h0 hN]
            simp [hr]
        · obtain ⟨c, l, hcl⟩ := List.exists_cons_of_ne_nil hr
          obtain ⟨r', hr', hl, -⟩ := ByteRing.pull?_of_toList_eq_cons hcl
          obtain ⟨R', hR', hL, -⟩ := ByteRing.pull?_of_toList_eq_cons (b := c) (l := l ++ τ)
            (hfull.trans (by simp [hcl]))
          rw [playAll_of_isEmpty_false hne, play_audio hp hc, play_audio hp hc,
            audioStep_of_pull? h0 hr', audioStep_of_pull? h0 hR']
          simp [pulsed, hl, hL]
      · simp [playAll_of_isEmpty_false hne, play_audio hp hc, audioStep_of_dataBit_ne_zero h0,
          pulsed]
    | sequence =>
      by_cases h2 : r.toList.length < 2
      · cases f with
        | false => exact hwait (by simp [play_sequence hp hc, sequenceStep_of_lt h2])
        | true =>
          have hτ := hf rfl
          subst hτ
          have h2' : (ByteRing.ofList (r.toList ++ [])).toList.length < 2 := by simpa using h2
          rw [playAll_of_isEmpty_false hne, play_sequence hp hc, play_sequence hp hc,
            sequenceStep_of_lt h2, sequenceStep_of_lt h2']
          simp
      · have h2' : 2 ≤ r.toList.length := by omega
        have hL : 2 ≤ (ByteRing.ofList (r.toList ++ τ)).toList.length := by simp; omega
        have hg0 : (r.toList ++ τ)[0]? = r.toList[0]? := List.getElem?_append_left (by omega)
        have hg1 : (r.toList ++ τ)[1]? = r.toList[1]? := List.getElem?_append_left (by omega)
        rw [playAll_of_isEmpty_false hne, play_sequence hp hc, play_sequence hp hc,
          sequenceStep_of_le h2', sequenceStep_of_le hL]
        simp [pulsed, hg0, hg1, List.drop_append_of_le_length h2']
    | metadata =>
      by_cases h0 : r.toList = []
      · cases f with
        | false => exact hwait (by simp [play_metadata hp hc, metadataStep_of_nil h0])
        | true =>
          have hτ := hf rfl
          subst hτ
          have h0' : (ByteRing.ofList (r.toList ++ [])).toList = [] := by simpa using h0
          rw [playAll_of_isEmpty_false hne, play_metadata hp hc, play_metadata hp hc,
            metadataStep_of_nil h0, metadataStep_of_nil h0']
          simp [h0]
      · have hpos : 0 < r.toList.length := List.length_pos_iff.2 h0
        rw [play_metadata hp hc, metadataStep_of_ne_nil h0, playAll_metadata hp hc]
        simp only [Option.getD_some, Option.toList_none, List.nil_append,
          ByteRing.toList_pullMany_snd, List.length_append]
        by_cases hle : g.timing.length ≤ r.toList.length
        · rw [if_pos (by omega), Nat.min_eq_right hle, Nat.sub_self,
            List.drop_append_of_le_length hle]
        · -- the ring holds less than the block: the rest comes from the stream
          have hmin : min r.toList.length g.timing.length = r.toList.length := by omega
          rw [hmin, List.drop_length, List.nil_append]
          have hp1 : ({ g with timing := { g.timing with length := g.timing.length - r.toList.length } } :
              Generator).phase = .data := by
            obtain ⟨hp0, hs0, hl⟩ := Phase.ofTiming_eq_data_iff.1 hp
            apply Phase.ofTiming_eq_data_iff.2
            simp only
            omega
          rw [playAll_metadata hp1 hc]
          simp only [List.drop_append, List.drop_eq_nil_of_le (Nat.le_of_lt (Nat.lt_of_not_le hle)),
            List.nil_append]
          by_cases hτl : g.timing.length ≤ r.toList.length + τ.length
          · rw [if_pos hτl, if_pos (by omega)]
          · rw [if_neg hτl, if_neg (by omega)]
            simp [Timing.clear]

/-- Between blocks, `playAll` gathers the next header from the stream and
plays its block from the bytes after it; with no header left, it ends. -/
theorem playAll_of_isEmpty (he : g.timing.isEmpty = true) (bytes : List UInt8) :
    g.playAll bytes =
      match headerIn g.format g.header bytes with
      | some h => (g.begin h).playAll (gather g.format g.header bytes).2
      | none => [] := by
  rw [playAll_eq, step_of_isEmpty he]
  simp only [ByteRing.toList_ofList]
  have hC : (collect g.format g.header (ByteRing.ofList bytes)).2.toList =
      (gather g.format g.header bytes).2 := by
    simp [gather]
  split
  · next hdr hd =>
    rw [if_neg (play_result_ne_endOfTape (by simp)), ← hC]
    by_cases hb : (g.begin hdr).timing.isEmpty = true
    · rw [play_header (Phase.ofTiming_eq_header_iff.2 hb)]
      rfl
    · have hpl := playAll_play (τ := []) (r := (collect g.format g.header (ByteRing.ofList bytes)).2)
        (f := true) (b := .progress) (Bool.eq_false_iff.2 hb) (fun _ => rfl)
      simpa using hpl.symm
  · next hd =>
    have hC0 := gather_snd_of_headerIn_none hd
    rw [← hC] at hC0
    simp [hC0]

theorem headerIn_append_of_none {fmt : Format} {p ρ : List UInt8} (τ : List UInt8)
    (hn : headerIn fmt p ρ = none) : headerIn fmt p (ρ ++ τ) = headerIn fmt (gather fmt p ρ).1 τ := by
  unfold headerIn
  rw [gather_append_of_headerIn_none τ hn]

/-- Any step short of the end of the tape, from a ring that holds the start
of the stream and with the flag set only when nothing more will come, gives
what `playAll` gives on the whole stream: its pulse, then `playAll` from
where it stopped. -/
theorem playAll_step (hf : f = true → τ = []) (h : (g.step r f).result ≠ .endOfTape) :
    g.playAll (r.toList ++ τ) =
      (g.step r f).pulse.toList ++ (g.step r f).gen.playAll ((g.step r f).ring.toList ++ τ) := by
  cases he : g.timing.isEmpty with
  | false =>
    rw [step_of_isEmpty_false he]
    exact playAll_play he hf
  | true =>
    rw [step_of_isEmpty he] at h ⊢
    rw [playAll_of_isEmpty he]
    cases hd : headerIn g.format g.header r.toList with
    | some hdr =>
      obtain ⟨hs, hg⟩ := headerIn_append_of_some τ hd
      have hC : (collect g.format g.header r).2.toList = (gather g.format g.header r.toList).2 := by
        simp [gather]
      simp only [hs, hg, ← hC]
      by_cases hb : (g.begin hdr).timing.isEmpty = true
      · rw [play_header (Phase.ofTiming_eq_header_iff.2 hb)]
        rfl
      · exact playAll_play (Bool.eq_false_iff.2 hb) hf
    | none =>
      simp only [hd] at h
      have hC : (collect g.format g.header r).2.toList = [] := by
        simpa [gather] using gather_snd_of_headerIn_none hd
      have hwait : ¬ (f && (collect g.format g.header r).2.isEmpty) = true := by
        intro hfe
        rw [if_pos hfe] at h
        exact h rfl
      have hhe : ({ g with header := (collect g.format g.header r).1 } : Generator).timing.isEmpty = true := he
      have hg : (collect g.format g.header r).1 = (gather g.format g.header r.toList).1 := by
        simp [gather]
      rw [if_neg hwait, headerIn_append_of_none τ hd, gather_append_of_headerIn_none τ hd]
      simp only [Option.toList_none, List.nil_append, hC]
      rw [playAll_of_isEmpty hhe, hg]
      rfl

/-- The end of the tape, reached with nothing more to come, ends `playAll`. -/
theorem playAll_of_endOfTape (hf : f = true → τ = []) (h : (g.step r f).result = .endOfTape) :
    g.playAll (r.toList ++ τ) = [] := by
  cases he : g.timing.isEmpty with
  | false =>
    rw [step_of_isEmpty_false he] at h
    exact absurd h (play_result_ne_endOfTape (by simp))
  | true =>
    rw [step_of_isEmpty he] at h
    rw [playAll_of_isEmpty he]
    cases hd : headerIn g.format g.header r.toList with
    | some hdr =>
      simp only [hd] at h
      exact absurd h (play_result_ne_endOfTape (by simp))
    | none =>
      simp only [hd] at h
      have hft : f = true := by
        cases f
        · simp at h
        · rfl
      rw [hf hft, List.append_nil, hd]

end Prefix

end Generator

end TapeDeck
