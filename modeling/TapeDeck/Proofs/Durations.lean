import Mathlib
import TapeDeck.Proofs.Catalogue
import TapeDeck.Proofs.Recording

/-!
# Durations

A catalogue gives each entry and the whole tape a duration, and a renderer
the pulses it has rendered: `T * 10 ^ 9 / clock` nanoseconds of `T` clock
ticks, rounded down, at the pulse clock of 3.885 MHz for catalogues and at
the renderer's own clock for renderers.  The product is taken in a signed
64-bit word.

*Exact durations.*  While `T * 10 ^ 9` fits in a signed 64-bit word the
duration is exact and not negative (`Catalogue.nanosOfTicks_eq`,
`Renderer.nanos_eq`).  A renderer counts the ticks of every pulse it renders
(`Renderer.ticks_pulses`), so its duration is that of the widths it has
been given.

*Long tapes.*  Past `2 ^ 63 / 10 ^ 9` ticks, some 39.6 minutes at the pulse
clock, the product wraps round: two pure tones of 65535 pulses of the widest
pilot last over forty minutes, and the catalogue gives them a negative
duration (`Catalogue.longTones_duration_wraps`).
-/

namespace TapeDeck

/-! ## Exact durations -/

namespace Catalogue

/-- Ticks at the pulse clock whose nanoseconds fit in a signed 64-bit word
last `T * 10 ^ 9 / 3885000` nanoseconds, rounded down. -/
theorem nanosOfTicks_eq {T : Nat} (h : T * 10 ^ 9 < 2 ^ 63) :
    nanosOfTicks T = ((T * 10 ^ 9 / clock : Nat) : Int) := by
  have hT : T.toInt64.toInt = T := Int64.toInt_ofNat_of_lt (by omega)
  have hmul : (T.toInt64 * 1000000000).toInt = ((T * 10 ^ 9 : Nat) : Int) := by
    rw [Int64.toInt_mul, hT, show (1000000000 : Int64).toInt = 10 ^ 9 from rfl]
    exact Renderer.bmod_of_lt (by positivity) (by push_cast at h ⊢; omega)
  have hq : T * 10 ^ 9 / clock ≤ T * 10 ^ 9 := Nat.div_le_self _ _
  rw [nanosOfTicks, Int64.toInt_div, hmul, show (clock.toInt64).toInt = (clock : Int) from rfl,
    Int.tdiv_eq_ediv_of_nonneg (by positivity), ← Int.natCast_div]
  exact Renderer.bmod_of_lt (by positivity) (by have := lt_of_le_of_lt hq h; omega)

end Catalogue

namespace Renderer

/-- The renderer after pulses rendered in turn. -/
def pulses (r : Renderer) (ps : List Pulse) : Renderer := ps.foldl (fun r p => (r.pulse p.width p.high).1) r

/-- The widths of pulses, added up. -/
def span (ps : List Pulse) : Nat := (ps.map (·.width.toNat)).sum

@[simp] theorem clock_pulses (r : Renderer) (ps : List Pulse) : (r.pulses ps).clock = r.clock := by
  induction ps generalizing r with
  | nil => rfl
  | cons p ps ih => exact (ih _).trans (clock_pulse)

/-- A renderer counts the ticks of every pulse it renders, while the count
fits in a signed 64-bit word. -/
theorem ticks_pulses (ps : List Pulse) : ∀ (r : Renderer) (t : Nat), r.ticks.toInt = t →
    t + span ps < 2 ^ 63 → (r.pulses ps).ticks.toInt = t + span ps := by
  induction ps with
  | nil => intro r t ht _; simpa [pulses, span] using ht
  | cons p ps ih =>
    intro r t ht hfit
    have hspan : span (p :: ps) = p.width.toNat + span ps := by simp [span]
    rw [hspan] at hfit ⊢
    have hstep : (r.pulse p.width p.high).1.ticks.toInt = t + p.width.toNat := by
      show (r.ticks + p.width.toUInt64.toInt64).toInt = _
      rw [Int64.toInt_add, ht, toInt_width]
      exact_mod_cast bmod_of_lt (by positivity) (by push_cast; omega)
    have := ih _ _ hstep (by omega)
    simp only [pulses, List.foldl_cons] at this ⊢
    rw [this]
    omega

/-- The duration of ticks that fit is exact. -/
theorem nanos_eq {r : Renderer} {T C : Nat} (hT : r.ticks.toInt = T) (hC : r.clock.toInt = C)
    (h : T * 10 ^ 9 < 2 ^ 63) : r.nanos = ((T * 10 ^ 9 / C : Nat) : Int) := by
  have hmul : (r.ticks * 1000000000).toInt = ((T * 10 ^ 9 : Nat) : Int) := by
    rw [Int64.toInt_mul, hT, show (1000000000 : Int64).toInt = 10 ^ 9 from rfl]
    exact bmod_of_lt (by positivity) (by push_cast at h ⊢; omega)
  have hq : T * 10 ^ 9 / C ≤ T * 10 ^ 9 := Nat.div_le_self _ _
  rw [nanos, Int64.toInt_div, hmul, hC, Int.tdiv_eq_ediv_of_nonneg (by positivity), ← Int.natCast_div]
  exact bmod_of_lt (by positivity) (by have := lt_of_le_of_lt hq h; omega)

end Renderer

/-- Durations are `T * 10 ^ 9 / clock` nanoseconds of their tick totals,
rounded down and not negative, whenever `T * 10 ^ 9` fits in a signed 64-bit
word: for each entry of a catalogue and for the whole catalogue at the pulse
clock, and for a renderer made with any clock (zero or less meaning 3.885
MHz) that fits in a signed word, after any pulses, at its clock. -/
theorem durations_are_exact (c : Catalogue) (clock rate : Int) (hclock : clock < 2 ^ 63)
    (ps : List Pulse) :
    (∀ e ∈ c.entries, e.ticks * 10 ^ 9 < 2 ^ 63 →
        Catalogue.nanosOfTicks e.ticks = ((e.ticks * 10 ^ 9 / Catalogue.clock : Nat) : Int)) ∧
      (c.ticks * 10 ^ 9 < 2 ^ 63 → c.nanos = ((c.ticks * 10 ^ 9 / Catalogue.clock : Nat) : Int)) ∧
      (Renderer.span ps * 10 ^ 9 < 2 ^ 63 →
        ((Renderer.create clock rate).pulses ps).nanos =
          ((Renderer.span ps * 10 ^ 9 /
            (if clock ≤ 0 then Renderer.defaultClock else clock.toNat) : Nat) : Int)) := by
  refine ⟨fun e _ h => Catalogue.nanosOfTicks_eq h, fun h => Catalogue.nanosOfTicks_eq h, fun h => ?_⟩
  have hC := Renderer.toInt_setting clock Renderer.defaultClock (by decide) hclock
  have hT := Renderer.ticks_pulses ps (Renderer.create clock rate) 0 rfl (by omega)
  rw [Nat.cast_zero, zero_add] at hT
  exact Renderer.nanos_eq hT (by rw [Renderer.clock_pulses]; exact hC) h

/-- Durations at an image of one pure tone, its catalogue, and a renderer at
the default clock given the tone's two pulses. -/
theorem toneDurations_exact : ∃ c, Catalogue.ofBytes Session.twoPulseTone = .ok c ∧
    (0 : Int) < 2 ^ 63 ∧
      (∀ e ∈ c.entries, e.ticks * 10 ^ 9 < 2 ^ 63 →
        Catalogue.nanosOfTicks e.ticks = ((e.ticks * 10 ^ 9 / Catalogue.clock : Nat) : Int)) ∧
      (c.ticks * 10 ^ 9 < 2 ^ 63 → c.nanos = ((c.ticks * 10 ^ 9 / Catalogue.clock : Nat) : Int)) ∧
      (Renderer.span [⟨1000, true⟩, ⟨1000, true⟩] * 10 ^ 9 < 2 ^ 63 →
        ((Renderer.create 0 0).pulses [⟨1000, true⟩, ⟨1000, true⟩]).nanos =
          ((Renderer.span [⟨1000, true⟩, ⟨1000, true⟩] * 10 ^ 9 /
            (if (0 : Int) ≤ 0 then Renderer.defaultClock else (0 : Int).toNat) : Nat) : Int)) := by
  obtain ⟨c, hc, -⟩ := Catalogue.ok_of_check (D := Session.twoPulseTone) (p := fun _ => true)
    (by decide +kernel)
  exact ⟨c, hc, by decide, durations_are_exact c 0 0 (by decide)
    [⟨1000, true⟩, ⟨1000, true⟩]⟩

namespace Catalogue

/-- Two pure tones of 65535 pulses of the widest pilot. -/
def longTones : ByteArray :=
  ⟨#[0x5A, 0x58, 0x54, 0x61, 0x70, 0x65, 0x21, 0x1A, 0x01, 0x14,
    0x12, 0xFF, 0xFF, 0xFF, 0xFF, 0x12, 0xFF, 0xFF, 0xFF, 0xFF]⟩

/-- The two tones last 9534425010 ticks, some forty minutes, yet the
catalogue gives them a negative duration: `T * 10 ^ 9` has wrapped round. -/
theorem longTones_duration_wraps : ∃ c, ofBytes longTones = .ok c ∧ c.ticks = 9534425010 ∧
    c.ticks * 10 ^ 9 / clock = 2454163451737 ∧ c.nanos = -2294033221032 := by
  have hok : ((ofBytes longTones).toOption.map fun c =>
      c.ticks == 9534425010 && c.nanos == -2294033221032) = some true := by
    decide +kernel
  obtain ⟨c, hc, hok⟩ := ok_of_check hok
  simp only [Bool.and_eq_true, beq_iff_eq] at hok
  exact ⟨c, hc, hok.1, by rw [hok.1]; decide, hok.2⟩

end Catalogue

end TapeDeck
