import TapeDeck.Audio.Renderer
import TapeDeck.Circular

/-!
# Sample buffers

A `SampleBuffer` holds rendered samples until the sound card asks for them.
Pulses are rendered at 44.1 kHz and their samples queued, a quarter of full
scale up for a high level and down for a low one.  The samples are kept in a
store of `capacity` slots, at least one, used circularly: `count` samples are
held, the oldest in slot `head`, and the next one goes to the slot `count` on
from `head`, counted round the store.  A slot keeps the level of its sample.

* `pulse` queues the samples of a pulse one by one; a sample that finds the
  buffer full is dropped and counted as an *overrun*.
* `fill` takes the oldest samples, as many as are asked for and held, and
  moves `head` on by that many; the rest of the request is silence and counted
  as an *underrun*.
* `reset` empties the buffer and resets the renderer; the counts stay.

A `Monitor` is a sample buffer of a quarter second that a sound card would
play; without a sound card it takes the samples and gives silence.
-/

namespace TapeDeck

/-- Rendered samples waiting to be played, by level, in a circular store. -/
structure SampleBuffer where
  /-- The most samples held: the number of slots of the store. -/
  capacity : Nat
  /-- The renderer of the pulses. -/
  renderer : Renderer
  /-- The store: the level of the sample in each slot. -/
  data : Vector Bool capacity
  /-- The slot of the oldest sample. -/
  head : Nat
  /-- The number of samples held. -/
  count : Nat
  /-- Requested samples that were not there. -/
  underrun : Nat
  /-- Samples dropped for want of room. -/
  overrun : Nat
  capacity_pos : 0 < capacity
  head_lt : head < capacity
  count_le : count ≤ capacity

namespace SampleBuffer

/-- The sample rate of the sound card. -/
def rate : Nat := 44100

/-- A quarter second of samples. -/
def defaultSize : Nat := rate / 4

/-- Every size asked for gives a store of at least one slot. -/
theorem create_capacity_pos (size : Int) : 0 < if size ≤ 0 then defaultSize else size.toNat := by
  unfold defaultSize rate
  split <;> omega

/-- A buffer for a pulse clock; a size of zero or less is a quarter second. -/
def create (clock size : Int) : SampleBuffer where
  capacity := if size ≤ 0 then defaultSize else size.toNat
  renderer := Renderer.create clock rate
  data := Vector.replicate _ false
  head := 0
  count := 0
  underrun := 0
  overrun := 0
  capacity_pos := create_capacity_pos size
  head_lt := create_capacity_pos size
  count_le := Nat.zero_le _

/-- The number of samples held. -/
def length (b : SampleBuffer) : Nat := b.count

/-- The buffer after a sample of a level: written to the slot past the newest,
or dropped and counted when the buffer is full. -/
def put (b : SampleBuffer) (level : Bool) : SampleBuffer :=
  if h : b.count = b.capacity then { b with overrun := b.overrun + 1 }
  else
    { b with
      data := b.data.set ((b.head + b.count) % b.capacity) level (Nat.mod_lt _ b.capacity_pos)
      count := b.count + 1
      count_le := by have := b.count_le; omega }

/-- The buffer after `n` samples of a level, one after another. -/
def putMany (level : Bool) : Nat → SampleBuffer → SampleBuffer
  | 0, b => b
  | n + 1, b => putMany level n (b.put level)

/-- The buffer after a pulse: the samples the renderer gives it, queued in turn. -/
def pulse (b : SampleBuffer) (width : UInt32) (high : Bool) : SampleBuffer :=
  let (r, level, n) := b.renderer.pulse width high
  putMany level n.toInt.toNat { b with renderer := r }

/-- The oldest samples, up to `n`, and the buffer without them; the rest of
the request counts as underrun. -/
def fill (b : SampleBuffer) (n : Nat) : List Bool × SampleBuffer :=
  let k := min n b.count
  (window b.data b.capacity_pos b.head k,
    { b with
      head := (b.head + k) % b.capacity
      count := b.count - k
      underrun := b.underrun + (n - k)
      head_lt := Nat.mod_lt _ b.capacity_pos
      count_le := by have := b.count_le; omega })

/-- The buffer emptied and its renderer reset; the counts stay. -/
def reset (b : SampleBuffer) : SampleBuffer :=
  { b with head := 0, count := 0, renderer := b.renderer.reset, head_lt := b.capacity_pos,
           count_le := Nat.zero_le _ }

end SampleBuffer

/-- A sample buffer as a silent sound card plays it. -/
structure Monitor where
  /-- The samples. -/
  buffer : SampleBuffer
  /-- Whether playing is on. -/
  started : Bool := false

namespace Monitor

/-- A monitor for a pulse clock, with a quarter second of buffer. -/
def create (clock : Int) : Monitor := { buffer := SampleBuffer.create clock 0 }

/-- A read of `n` bytes: a sample per four bytes is taken, and the bytes are
all zero. -/
def read (m : Monitor) (n : Nat) : Monitor := { m with buffer := (m.buffer.fill (n / 4)).2 }

end Monitor

end TapeDeck
