import TapeDeck.Pulse.Queue

/-!
# Consuming pulses in real time

A `Consumer` takes pulses off a queue as time passes.  Each advance by `d`
nanoseconds earns `d * clock / 10^9` ticks of *credit*, in 64-bit signed
words that wrap, the division going toward zero.  While the credit is
positive the consumer pops a pulse and pays its width.  When it finds the
queue empty it drops the credit and is *starved* until the next advance.

The credit is never positive after an advance, so no time is carried forward
as debt the other way: a pulse started in one advance is paid in full then.
-/

namespace TapeDeck

/-- Takes pulses off a queue at the pace of a clock. -/
structure Consumer where
  /-- Ticks per second. -/
  clock : Int64
  /-- Ticks earned and not yet spent. -/
  credit : Int64 := 0
  /-- The last advance found the queue empty. -/
  starved : Bool := false

namespace Consumer

/-- Nanoseconds per second. -/
def nanosPerSecond : Int64 := 1000000000

/-- Pops and pays pulses while the credit is positive.  Each round pops one
pulse or stops, so one more round than pulses held is always enough. -/
def spend : Nat → Consumer → PulseQueue → List Pulse → Consumer × PulseQueue × List Pulse
  | 0, c, q, acc => (c, q, acc.reverse)
  | fuel + 1, c, q, acc =>
    if 0 < c.credit then
      match q.pop with
      | (some p, q) => spend fuel { c with credit := c.credit - p.width.toUInt64.toInt64 } q (p :: acc)
      | (none, q) => ({ c with credit := 0, starved := true }, q, acc.reverse)
    else (c, q, acc.reverse)

/-- The consumer and queue after `d` nanoseconds, and the pulses taken, oldest first. -/
def advance (c : Consumer) (q : PulseQueue) (d : Int64) : Consumer × PulseQueue × List Pulse :=
  let c := { c with credit := c.credit + d * c.clock / nanosPerSecond, starved := false }
  spend (q.length + 1) c q []

/-- The consumer with no credit and not starved. -/
def reset (c : Consumer) : Consumer := { c with credit := 0, starved := false }

end Consumer

end TapeDeck
