import TapeDeck.Circular
import TapeDeck.Pulse.Register

/-!
# The pulse queue

The pulse queue carries pulses from the generator to whatever plays them.  It
keeps them as sixteen data bits each, width and level, in a store of `depth`
entries used circularly: `count` entries are held, the oldest at `head`, and
the next one written goes `count` entries on from it, round the store.

* `write` stores the data bits of a register, its status bits dropped; a
  write to a full queue is lost and raises the *overflow* flag.  `push` writes
  the register of a pulse, whose width is clamped to fifteen bits.
* `pop` takes the entry at `head`, or raises the *underflow* flag when the
  queue is empty; `drain` pops every entry in turn.
* `read` shows the entry at `head` through the register, with the empty and
  full flags and the two sticky flags, and lowers the sticky flags.
* `reset` empties the queue and lowers the flags, and keeps the counts of
  pulses ever written and popped.

The queue is read through `toList`, oldest pulse first.
-/

namespace TapeDeck

/-- A bounded queue of pulses in a circular store, with sticky status flags. -/
structure PulseQueue where
  /-- The most pulses held: the number of entries of the store. -/
  depth : Nat
  /-- The store of data bits. -/
  entries : Vector UInt16 depth
  /-- The entry of the oldest pulse. -/
  head : Nat
  /-- The number of pulses held. -/
  count : Nat
  /-- A pop found the queue empty since the last read. -/
  underflow : Bool
  /-- A write found the queue full since the last read. -/
  overflow : Bool
  /-- Pulses ever written. -/
  written : Nat
  /-- Pulses ever popped. -/
  popped : Nat
  depth_pos : 0 < depth
  head_lt : head < depth
  count_le : count ≤ depth

namespace PulseQueue

/-- The depth of a queue when none is asked for. -/
def defaultDepth : Nat := 64

/-- An empty queue; a depth of zero or less is the default depth. -/
def ofDepth (d : Int) : PulseQueue where
  depth := if d ≤ 0 then defaultDepth else d.toNat
  entries := Vector.replicate _ 0
  head := 0
  count := 0
  underflow := false
  overflow := false
  written := 0
  popped := 0
  depth_pos := by unfold defaultDepth; split <;> omega
  head_lt := by unfold defaultDepth; split <;> omega
  count_le := Nat.zero_le _

/-- The pulses held, oldest first. -/
def toList (q : PulseQueue) : List Pulse :=
  (window q.entries q.depth_pos q.head q.count).map fun d => (Register.ofData d).pulse

/-- The number of pulses held. -/
def length (q : PulseQueue) : Nat := q.count

/-- Whether no further pulse fits. -/
def isFull (q : PulseQueue) : Bool := q.count == q.depth

/-- Whether no pulse is held. -/
def isEmpty (q : PulseQueue) : Bool := q.count == 0

/-- The queue with the data bits of a register stored after the newest entry,
or with the overflow flag raised when full. -/
def write (q : PulseQueue) (r : Register) : PulseQueue :=
  if h : q.count = q.depth then { q with overflow := true }
  else
    { q with
      entries := q.entries.set ((q.head + q.count) % q.depth) r.data (Nat.mod_lt _ q.depth_pos)
      count := q.count + 1
      written := q.written + 1
      count_le := by have := q.count_le; omega }

/-- The queue with a pulse written, its width clamped to fifteen bits. -/
def push (q : PulseQueue) (p : Pulse) : PulseQueue := q.write (Register.ofPulse p)

/-- The register as read now, and the queue with its sticky flags lowered.
The register holds the oldest entry, or the empty flag, and the other flags. -/
def read (q : PulseQueue) : Register × PulseQueue :=
  let r : Register :=
    if q.count = 0 then ⟨Register.emptyMask⟩ else Register.ofData (q.entries.get ⟨q.head, q.head_lt⟩)
  let r := r.setIf (q.count = q.depth) Register.fullMask
  let r := r.setIf q.underflow Register.underflowMask
  let r := r.setIf q.overflow Register.overflowMask
  (r, { q with underflow := false, overflow := false })

/-- The oldest pulse and the queue without it, or nothing and the queue with
its underflow flag raised. -/
def pop (q : PulseQueue) : Option Pulse × PulseQueue :=
  if h : q.count = 0 then (none, { q with underflow := true })
  else
    (some (Register.ofData (q.entries.get ⟨q.head, q.head_lt⟩)).pulse,
      { q with
        head := (q.head + 1) % q.depth
        count := q.count - 1
        popped := q.popped + 1
        head_lt := Nat.mod_lt _ q.depth_pos
        count_le := by have := q.count_le; omega })

/-- The pulses of `n` pops in turn, oldest first, and the queue after them. -/
def popMany : Nat → PulseQueue → List Pulse × PulseQueue
  | 0, q => ([], q)
  | n + 1, q =>
    let (p, q) := q.pop
    let (ps, q) := popMany n q
    (p.toList ++ ps, q)

/-- Every pulse, oldest first, popped while any is held, and the emptied queue. -/
def drain (q : PulseQueue) : List Pulse × PulseQueue := popMany q.count q

/-- The queue emptied, its flags lowered and its counts kept. -/
def reset (q : PulseQueue) : PulseQueue :=
  { q with head := 0, count := 0, underflow := false, overflow := false,
           head_lt := q.depth_pos, count_le := Nat.zero_le _ }

end PulseQueue

end TapeDeck
