/-!
# Rendering pulses as samples

A `Renderer` turns pulses into a square wave sampled at a fixed rate.  A
high pulse flips the level of the wave, a low pulse pulls it low.  A pulse
of `w` clock ticks lasts `w * rate / clock` samples; the fraction left over
is carried to the next pulse, so after pulses of `T` ticks in all exactly
`T * rate / clock` samples, rounded down, have been given.  Counts are kept
in 64-bit words.

A sample is `+16383` at a high level and `-16383` at a low one.
-/

namespace TapeDeck

/-- Turns pulses into a sampled square wave. -/
structure Renderer where
  /-- Clock ticks per second. -/
  clock : Int64
  /-- Samples per second. -/
  rate : Int64
  /-- The level of the wave. -/
  level : Bool := false
  /-- Ticks times rate not yet given out as samples. -/
  carry : Int64 := 0
  /-- Ticks rendered. -/
  ticks : Int64 := 0
  /-- Samples given. -/
  samples : Int64 := 0
deriving Repr, Inhabited

namespace Renderer

/-- The clock of the pulse queue, in ticks per second. -/
def defaultClock : Nat := 3885000

/-- The sample rate when none is asked for. -/
def defaultRate : Nat := 44100

/-- The height of a sample. -/
def amplitude : Int := 0x3fff

/-- A renderer; a clock or rate of zero or less is the default. -/
def create (clock rate : Int) : Renderer :=
  { clock := (if clock ≤ 0 then (defaultClock : Int) else clock).toInt64,
    rate := (if rate ≤ 0 then (defaultRate : Int) else rate).toInt64 }

/-- The sample of a level. -/
def sample (level : Bool) : Int := if level then amplitude else -amplitude

/-- The renderer after a pulse, the level of the wave and the number of samples it lasts. -/
def pulse (r : Renderer) (width : UInt32) (high : Bool) : Renderer × Bool × Int64 :=
  let level := if high then !r.level else false
  let w := width.toUInt64.toInt64
  let carry := r.carry + w * r.rate
  let n := carry / r.clock
  ({ r with level, carry := carry - n * r.clock, ticks := r.ticks + w, samples := r.samples + n },
    level, n)

/-- Nanoseconds of the ticks rendered, rounded down. -/
def nanos (r : Renderer) : Int := (r.ticks * 1000000000 / r.clock).toInt

/-- The renderer as new, with the same clock and rate. -/
def reset (r : Renderer) : Renderer := { clock := r.clock, rate := r.rate }

end Renderer

end TapeDeck
