import Mathlib
import TapeDeck.Proofs.Durations

/-!
# Rendering runs of pulses

A renderer keeps the ticks times the rate that it has not yet given out as
samples, its *carry*.  So pulses of `T` ticks in all, rendered from new at
clock `C` and rate `R`, have given exactly `T * R / C` samples however `T` is
split into pulses: each pulse gives the samples its ticks complete.

*One pulse.*  `Renderer.At C R T h r` says that `r` stands where pulses of
`T` ticks leave a new renderer when the last `h` of them are high after a low
one: its carry is `T * R % C`, its count of samples `T * R / C`, and its level
high exactly when `h` is odd.  A pulse of `w` ticks moves it on to `T + w`
ticks and gives `(T + w) * R / C - T * R / C` samples (`At.pulse`), provided
the carry plus `w * R`, and the count after the pulse, fit in a signed 64-bit
word.  That proviso over a whole run is `Renderer.Fits`.

*Runs.*  Pulses that fit move a new renderer on by their ticks
(`At.pulses`), and a WAV writer buffers, pulse after pulse, the samples each
pulse gives, each the sample of its level (`Renderer.wave`,
`Command.render_wave`).

Main statement: `renderer_counts_samples_exactly`.
-/

namespace TapeDeck

namespace Renderer

variable {r : Renderer} {width : UInt32} {high : Bool}

theorem samples_pulse : (r.pulse width high).1.samples = r.samples + (r.pulse width high).2.2 := rfl

theorem level_pulse : (r.pulse width high).1.level = if high then !r.level else false := rfl

theorem level_pulse_snd : (r.pulse width high).2.1 = (r.pulse width high).1.level := rfl

/-! ## The level -/

/-- The number of high pulses since the last low one, or since the start. -/
def highRun (ps : List Pulse) : Nat := (ps.reverse.takeWhile (·.high)).length

@[simp] theorem highRun_nil : highRun [] = 0 := rfl

theorem highRun_concat (ps : List Pulse) (p : Pulse) :
    highRun (ps ++ [p]) = if p.high then highRun ps + 1 else 0 := by
  cases h : p.high <;> simp [highRun, h]

/-- A high pulse flips the level and a low one pulls it low, so the level is
high exactly when the high pulses since the last low one are odd in number. -/
theorem level_pulse_iff {h : Nat} (hl : r.level = true ↔ Odd h) :
    (r.pulse width high).1.level = true ↔ Odd (if high then h + 1 else 0) := by
  rw [level_pulse]
  cases high with
  | true => simp [Nat.odd_add_one, ← hl]
  | false => simp

/-! ## Runs that fit -/

/-- Every sum a renderer forms over pulses, from `T` ticks on at clock `C` and
rate `R`, fits in a signed 64-bit word: before each pulse of `w` ticks the
carry `T * R % C` plus `w * R`, and after it the count of samples. -/
def Fits (C R : Nat) : Nat → List Pulse → Prop
  | _, [] => True
  | T, p :: ps =>
    T * R % C + p.width.toNat * R < 2 ^ 63 ∧ (T + p.width.toNat) * R / C < 2 ^ 63 ∧
      Fits C R (T + p.width.toNat) ps

instance decFits (C R : Nat) : (T : Nat) → (ps : List Pulse) → Decidable (Fits C R T ps)
  | _, [] => isTrue trivial
  | T, p :: ps =>
    have := decFits C R (T + p.width.toNat) ps
    inferInstanceAs (Decidable (_ ∧ _ ∧ _))

@[simp] theorem span_nil : span [] = 0 := rfl

@[simp] theorem span_singleton (p : Pulse) : span [p] = p.width.toNat := by
  simp [span]

theorem span_append (ps qs : List Pulse) : span (ps ++ qs) = span ps + span qs := by
  simp [span]

@[simp] theorem span_concat (ps : List Pulse) (p : Pulse) :
    span (ps ++ [p]) = span ps + p.width.toNat := by
  simp [span_append]

/-- More ticks complete no fewer samples. -/
theorem samples_le_add (T w R C : Nat) : T * R / C ≤ (T + w) * R / C :=
  Nat.div_le_div_right (Nat.mul_le_mul_right _ (Nat.le_add_right _ _))

theorem fits_append {C R T : Nat} {ps qs : List Pulse} :
    Fits C R T (ps ++ qs) ↔ Fits C R T ps ∧ Fits C R (T + span ps) qs := by
  induction ps generalizing T with
  | nil => simp [Fits]
  | cons p ps ih => simp [Fits, ih, span, and_assoc, Nat.add_assoc]

theorem fits_concat {C R : Nat} {ps : List Pulse} {p : Pulse} :
    Fits C R 0 (ps ++ [p]) ↔ Fits C R 0 ps ∧ span ps * R % C + p.width.toNat * R < 2 ^ 63 ∧
      (span ps + p.width.toNat) * R / C < 2 ^ 63 := by
  simp [fits_append, Fits]

/-! ## A renderer standing at a tick -/

/-- A renderer at clock `C` and rate `R` that stands where pulses of `T` ticks,
the last `h` of them high after a low one, leave a new renderer. -/
structure At (C R T h : Nat) (r : Renderer) : Prop where
  clock : r.clock.toInt = C
  rate : r.rate.toInt = R
  carry : r.carry.toInt = (T * R % C : Nat)
  samples : r.samples.toInt = (T * R / C : Nat)
  level : r.level = true ↔ Odd h

/-- A new renderer whose clock and rate fit in a signed word stands at no
tick, at its clock and rate, each zero or less meaning its default. -/
theorem at_create {clock rate : Int} (hclock : clock < 2 ^ 63) (hrate : rate < 2 ^ 63) :
    At (if clock ≤ 0 then defaultClock else clock.toNat) (if rate ≤ 0 then defaultRate else rate.toNat)
      0 0 (create clock rate) where
  clock := toInt_setting clock defaultClock (by decide) hclock
  rate := toInt_setting rate defaultRate (by decide) hrate
  carry := by simp [create]
  samples := by simp [create]
  level := by simp [create]

/-- A pulse of `w` ticks moves a renderer standing at `T` ticks on to `T + w`,
and gives the samples those ticks complete, at the level it leaves. -/
theorem At.pulse {C R T h : Nat} (hr : At C R T h r) (high : Bool) (hC : 0 < C)
    (hc : T * R % C + width.toNat * R < 2 ^ 63) (hs : (T + width.toNat) * R / C < 2 ^ 63) :
    At C R (T + width.toNat) (if high then h + 1 else 0) (r.pulse width high).1 ∧
      (r.pulse width high).2.2.toInt = (((T + width.toNat) * R / C - T * R / C : Nat) : Int) := by
  obtain ⟨hn, hcarry⟩ := @pulse_count r width high _ _ _ hr.clock hr.rate hr.carry hC hc
  have hdiv := div_add_mod_add (T * R) (width.toNat * R) C hC
  rw [← Nat.add_mul] at hdiv
  have hle := samples_le_add T width.toNat R C
  refine ⟨⟨hr.clock, hr.rate, ?_, ?_, level_pulse_iff hr.level⟩, ?_⟩
  · rw [hcarry, Nat.mod_add_mod, Nat.add_mul]
  · rw [samples_pulse, Int64.toInt_add, hr.samples, hn, ← Nat.cast_add, hdiv]
    exact_mod_cast bmod_of_lt (by positivity) (by exact_mod_cast hs)
  · rw [hn]
    omega

theorem pulses_concat (ps : List Pulse) (p : Pulse) :
    r.pulses (ps ++ [p]) = ((r.pulses ps).pulse p.width p.high).1 := by
  simp [Renderer.pulses]

/-- Pulses that fit move a new renderer on by their ticks. -/
theorem At.pulses {C R : Nat} (hr : At C R 0 0 r) (hC : 0 < C) (ps : List Pulse)
    (hfit : Fits C R 0 ps) : At C R (span ps) (highRun ps) (r.pulses ps) := by
  induction ps using List.reverseRecOn with
  | nil => exact hr
  | append_singleton ps p ih =>
    obtain ⟨hps, hc, hs⟩ := fits_concat.1 hfit
    rw [pulses_concat, span_concat, highRun_concat]
    exact ((ih hps).pulse p.high hC hc hs).1

/-! ## The samples of a run -/

/-- The samples that pulses give a new renderer at clock `C` and rate `R`, in
order: the `j`-th pulse gives `T_j * R / C - T_(j-1) * R / C` samples, `T_j`
being the ticks of the first `j` pulses, each the sample of the level it
leaves. -/
def wave (C R : Nat) (ps : List Pulse) : List Int :=
  (List.range ps.length).flatMap fun j =>
    List.replicate (span (ps.take (j + 1)) * R / C - span (ps.take j) * R / C)
      (sample (decide (Odd (highRun (ps.take (j + 1))))))

theorem wave_concat (C R : Nat) (ps : List Pulse) (p : Pulse) :
    wave C R (ps ++ [p]) = wave C R ps ++
      List.replicate (span (ps ++ [p]) * R / C - span ps * R / C)
        (sample (decide (Odd (highRun (ps ++ [p]))))) := by
  simp only [wave, List.length_append, List.length_singleton, List.range_succ, List.flatMap_append]
  congr 1
  · -- the pulses before the last see only the prefix
    refine List.flatMap_congr fun j hj => ?_
    rw [List.mem_range] at hj
    rw [List.take_append_of_le_length (by omega), List.take_append_of_le_length (by omega)]
  · simp only [List.flatMap_cons, List.flatMap_nil, List.append_nil]
    rw [List.take_of_length_le (by simp), List.take_left' rfl]

theorem length_wave (C R : Nat) (ps : List Pulse) : (wave C R ps).length = span ps * R / C := by
  induction ps using List.reverseRecOn with
  | nil => simp [wave]
  | append_singleton ps p ih =>
    have hle := samples_le_add (span ps) p.width.toNat R C
    rw [wave_concat, List.length_append, ih, List.length_replicate, span_concat]
    omega

end Renderer

namespace Command

open Renderer

/-- A writer with no sample and a new renderer buffers, for pulses that fit,
the samples the pulses give, its renderer moved on by their ticks. -/
theorem render_wave {C R : Nat} (w : WavWriter) (hw : w.levels = []) (hr : At C R 0 0 w.renderer)
    (hC : 0 < C) (ps : List Pulse) (hfit : Fits C R 0 ps) :
    At C R (span ps) (highRun ps) (render w ps).renderer ∧
      (render w ps).levels.reverse.map sample = wave C R ps := by
  induction ps using List.reverseRecOn with
  | nil => exact ⟨hr, by simp [render_nil, hw, wave]⟩
  | append_singleton ps p ih =>
    obtain ⟨hps, hc, hs⟩ := fits_concat.1 hfit
    obtain ⟨hat, hbuf⟩ := ih hps
    obtain ⟨hat', hn⟩ := hat.pulse p.high hC hc hs
    have hlevel : (render w ps).renderer.pulse p.width p.high |>.1.level =
        decide (Odd (highRun (ps ++ [p]))) := by
      rw [highRun_concat]
      exact Bool.eq_iff_iff.2 (by simpa using hat'.level)
    rw [render_append, render_cons, render_nil, wave_concat, ← hbuf, span_concat, highRun_concat]
    refine ⟨hat', ?_⟩
    simp only [WavWriter.pulse, List.reverse_append, List.reverse_replicate, List.map_append,
      List.map_replicate, hn, Int.toNat_natCast, level_pulse_snd, hlevel, highRun_concat]

end Command

/-- A renderer made with any clock and rate that fit in a signed word, each
zero or less meaning its default `C` or `R`, counts samples without drift.
For any pulses rendered from new, the call that renders one more pulse
returns `T' * R / C - T * R / C` samples, where `T` and `T'` are the ticks
before and after it, leaves the count of samples at `T' * R / C`, and returns
a level that is high exactly when the high pulses since the last low one are
odd in number; all while no sum the renderer forms wraps round.  A reset
brings it back to new.  And a WAV writer with no sample and a new renderer,
as made or reset, buffers for any pulses exactly `T * R / C` samples of their
`T` ticks: the samples each pulse gives, each the sample of its level. -/
theorem renderer_counts_samples_exactly (clock rate : Int) (hclock : clock < 2 ^ 63)
    (hrate : rate < 2 ^ 63) :
    let C := if clock ≤ 0 then Renderer.defaultClock else clock.toNat
    let R := if rate ≤ 0 then Renderer.defaultRate else rate.toNat
    (∀ (pre : List Pulse) (p : Pulse), Renderer.Fits C R 0 (pre ++ [p]) →
      let call := ((Renderer.create clock rate).pulses pre).pulse p.width p.high
      call.2.2.toInt =
          ((Renderer.span (pre ++ [p]) * R / C - Renderer.span pre * R / C : Nat) : Int) ∧
        call.1.samples.toInt = ((Renderer.span (pre ++ [p]) * R / C : Nat) : Int) ∧
        (call.2.1 = true ↔ Odd (Renderer.highRun (pre ++ [p])))) ∧
      (∀ r : Renderer, r.clock = (Renderer.create clock rate).clock →
        r.rate = (Renderer.create clock rate).rate → r.reset = Renderer.create clock rate) ∧
      (∀ w : WavWriter, w.levels = [] → w.renderer = Renderer.create clock rate →
        ∀ ps : List Pulse, Renderer.Fits C R 0 ps →
          (Command.render w ps).levels.length = Renderer.span ps * R / C ∧
            (Command.render w ps).levels.reverse.map Renderer.sample = Renderer.wave C R ps) := by
  intro C R
  have hnew := Renderer.at_create hclock hrate
  have hC : 0 < C := by simp only [C, Renderer.defaultClock]; split <;> omega
  refine ⟨fun pre p hfit => ?_, fun r hc hr => ?_, fun w hw hrend ps hfit => ?_⟩
  · -- the renderer after the prefix stands at its ticks; the call is one more pulse
    obtain ⟨hpre, hc, hs⟩ := Renderer.fits_concat.1 hfit
    have hat := hnew.pulses hC pre hpre
    dsimp only
    rw [Renderer.span_concat]
    obtain ⟨hat', hn⟩ := hat.pulse p.high hC hc hs
    rw [Renderer.highRun_concat, Renderer.level_pulse_snd]
    exact ⟨hn, hat'.samples, hat'.level⟩
  · simp only [Renderer.reset, hc, hr]
    rfl
  · obtain ⟨hat, hbuf⟩ := Command.render_wave w hw (hrend ▸ hnew) hC ps hfit
    refine ⟨?_, hbuf⟩
    rw [← List.length_reverse, ← List.length_map (f := Renderer.sample), hbuf,
      Renderer.length_wave]

/-- At the default clock and rate, both fitting in a signed word. -/
theorem defaultRenderer_counts_samples_exactly :
    (0 : Int) < 2 ^ 63 ∧ (0 : Int) < 2 ^ 63 ∧
      let C := if (0 : Int) ≤ 0 then Renderer.defaultClock else (0 : Int).toNat
      let R := if (0 : Int) ≤ 0 then Renderer.defaultRate else (0 : Int).toNat
      (∀ (pre : List Pulse) (p : Pulse), Renderer.Fits C R 0 (pre ++ [p]) →
        let call := ((Renderer.create 0 0).pulses pre).pulse p.width p.high
        call.2.2.toInt =
            ((Renderer.span (pre ++ [p]) * R / C - Renderer.span pre * R / C : Nat) : Int) ∧
          call.1.samples.toInt = ((Renderer.span (pre ++ [p]) * R / C : Nat) : Int) ∧
          (call.2.1 = true ↔ Odd (Renderer.highRun (pre ++ [p])))) ∧
        (∀ r : Renderer, r.clock = (Renderer.create 0 0).clock →
          r.rate = (Renderer.create 0 0).rate → r.reset = Renderer.create 0 0) ∧
        (∀ w : WavWriter, w.levels = [] → w.renderer = Renderer.create 0 0 →
          ∀ ps : List Pulse, Renderer.Fits C R 0 ps →
            (Command.render w ps).levels.length = Renderer.span ps * R / C ∧
              (Command.render w ps).levels.reverse.map Renderer.sample = Renderer.wave C R ps) :=
  ⟨by decide, by decide, renderer_counts_samples_exactly 0 0 (by decide) (by decide)⟩

end TapeDeck
