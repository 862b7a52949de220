import TapeDeck.Block.Timing
import TapeDeck.ByteRing
import TapeDeck.Pulse.Queue

/-!
# The pulse generator

The generator turns the bytes of a tape, arriving through a `ByteRing`, into
pulses, one step at a time.  Each step gives at most one pulse.

Between blocks the generator is in its *header* phase: it collects the bytes
of the next header from the ring, and when the header is whole it decodes
the block's timing.  A TAP header is the two-byte length; when that length is
not zero the generator also looks at, without taking, the flag byte after
it, because the flag picks the pilot length.  Then the timing is played
phase by phase:

* *pilot*: pilot pulses, high;
* *sync1*, *sync2*: the two sync pulses, high;
* *data*: audio data gives two pulses per bit, most significant bit first,
  a one bit two `one` pulses and a zero bit two `zero` pulses, and the last
  byte may stop early; sequence data gives one pulse per pair of bytes, a
  little-endian width; metadata is taken off the ring in silence;
* *pause*: one low pulse of 3500 ticks, a millisecond, per millisecond.

When the ring runs dry in the middle of data and the stream is *finished*,
what is left of the block is dropped.  When the ring is empty between blocks
and the stream is finished, the step reports the end of the tape.

The result of a step says whether it waited (`idle`), gave a pulse
(`pulsed`), moved on without a pulse (`progress`) or found the end.

`step_pulse_iff` says a step gives a pulse exactly when it reports `pulsed`.

What a generator has left to do with the bytes it is given is its *load*:
the bytes it has yet to take, then the steps left of the block in hand.
Every step that neither waits nor ends the tape lowers it
(`Generator.step_load`), so a loop of steps comes to an end.
-/

namespace TapeDeck

/-- What one step of the generator did. -/
inductive StepResult where
  /-- Waited for bytes. -/
  | idle
  /-- Gave one pulse. -/
  | pulsed
  /-- Moved on without a pulse. -/
  | progress
  /-- Found the end of a finished stream. -/
  | endOfTape
deriving DecidableEq, Repr, Inhabited

namespace StepResult

/-- The name of a result. -/
def name : StepResult → String
  | .idle => "idle"
  | .pulsed => "pulsed"
  | .progress => "progress"
  | .endOfTape => "end of tape"

/-- The result with a numeric code, in the order idle, pulsed, progress, end. -/
def ofCode? : Int → Option StepResult
  | 0 => some .idle
  | 1 => some .pulsed
  | 2 => some .progress
  | 3 => some .endOfTape
  | _ => none

/-- The name of a numeric code, `unknown result` when it names no result. -/
def codeName (n : Int) : String := ((ofCode? n).map name).getD "unknown result"

end StepResult

/-- The part of a block being played. -/
inductive Phase where
  | header
  | pilot
  | sync1
  | sync2
  | data
  | pause
deriving DecidableEq, Repr, Inhabited

namespace Phase

/-- The name of a phase. -/
def name : Phase → String
  | .header => "header"
  | .pilot => "pilot"
  | .sync1 => "sync1"
  | .sync2 => "sync2"
  | .data => "data"
  | .pause => "pause"

/-- The phase with a numeric code, in the order of play. -/
def ofCode? : Int → Option Phase
  | 0 => some .header
  | 1 => some .pilot
  | 2 => some .sync1
  | 3 => some .sync2
  | 4 => some .data
  | 5 => some .pause
  | _ => none

/-- The name of a numeric code, `unknown phase` when it names no phase. -/
def codeName (n : Int) : String := ((ofCode? n).map name).getD "unknown phase"

/-- The phase a timing is in: the first part of the block with something left. -/
def ofTiming (t : Timing) : Phase :=
  if 0 < t.pilotCount then .pilot
  else if 2 ≤ t.syncPhase then .sync1
  else if t.syncPhase = 1 then .sync2
  else if 0 < t.length then .data
  else if 0 < t.pause then .pause
  else .header

end Phase

/-- The width of one millisecond of pause, in ticks. -/
def pauseWidth : UInt32 := 3500

/-- The state of the generator between steps. -/
structure Generator where
  /-- The format of the stream. -/
  format : Format
  /-- Bytes of the next header collected so far. -/
  header : List UInt8 := []
  /-- What is left of the block being played. -/
  timing : Timing := Timing.blank
  /-- The data byte being played, shifted as its bits are used. -/
  data : UInt8 := 0
  /-- Pulses left of the data byte being played. -/
  dataBit : Nat := 0
deriving Repr, Inhabited

/-- What a step returns: its result, the pulse it gave, and the new state. -/
structure Generator.Outcome where
  /-- What the step did. -/
  result : StepResult
  /-- The pulse given, if any. -/
  pulse : Option Pulse
  /-- The generator after the step. -/
  gen : Generator
  /-- The ring after the step. -/
  ring : ByteRing

namespace Generator

/-- A generator for a stream of a format, before its first header. -/
def start (f : Format) : Generator := { format := f }

/-- The phase of the block being played. -/
def phase (g : Generator) : Phase := Phase.ofTiming g.timing

/-- The header collected so far, completed from the ring as far as the ring
allows.  The first byte fixes the header size. -/
def collect (f : Format) (pending : List UInt8) (ring : ByteRing) : List UInt8 × ByteRing :=
  match pending with
  | [] =>
    match ring.pull? with
    | none => ([], ring)
    | some (b, ring) =>
      let (rest, ring) := ring.pullMany (headerSize b f - 1)
      (b :: rest, ring)
  | b :: _ =>
    let (rest, ring) := ring.pullMany (headerSize b f - pending.length)
    (pending ++ rest, ring)

/-- Whether a collected header is whole. -/
def isWhole (f : Format) : List UInt8 → Bool
  | [] => false
  | b :: rest => headerSize b f ≤ rest.length + 1

/-- The bytes a whole header is decoded from: the header, and for a TAP block
with data also the flag byte after it, once that byte is there. -/
def decodable (f : Format) (hdr : List UInt8) (flag : Option UInt8) : Option (List UInt8) :=
  if f = .tap ∧ 0 < (Timing.decode hdr .tap).length then flag.map fun b => hdr ++ [b]
  else some hdr

/-- The generator about to play the block whose header decodes from `h`. -/
def begin (g : Generator) (h : List UInt8) : Generator :=
  { g with header := [], timing := Timing.decode h g.format, dataBit := 0 }

/-- Collects the next header and decodes it.  Gives `none` while the header
is not whole, or while a TAP block with data waits for its flag byte. -/
def nextHeader (g : Generator) (ring : ByteRing) : Option Generator × Generator × ByteRing :=
  let (hdr, ring) := collect g.format g.header ring
  let g := { g with header := hdr }
  if !isWhole g.format hdr then (none, g, ring)
  else
    match decodable g.format hdr ring.front? with
    | none => (none, g, ring)
    | some h => (some (g.begin h), g, ring)

/-- A step that gives a pulse. -/
def pulsed (g : Generator) (ring : ByteRing) (p : Pulse) : Outcome := ⟨.pulsed, some p, g, ring⟩

/-- The ring ran dry in the middle of data: a finished stream drops the rest
of the block, an unfinished one waits. -/
def starved (g : Generator) (ring : ByteRing) (finished : Bool) : Option Outcome :=
  if finished then some ⟨.progress, none, { g with timing := g.timing.clear, dataBit := 0 }, ring⟩
  else none

/-- The pulse of the data bit in hand: a `one` pulse for a set bit, a `zero`
pulse otherwise. -/
def bitPulse (g : Generator) : Pulse :=
  ⟨if g.data &&& 0x80 = 0x80 then g.timing.one else g.timing.zero, true⟩

/-- The generator after one pulse of the data byte in hand.  The byte moves
to its next bit after every second pulse.  The block loses a byte when the
byte's last pulse is played, or all of its bytes when the unused bits at the
end of its last byte are reached. -/
def afterBitPulse (g : Generator) : Generator :=
  let t := g.timing
  let data := if g.dataBit % 2 = 1 then g.data <<< 1 else g.data
  let bit := g.dataBit - 1
  if bit = 0 then { g with data, dataBit := bit, timing := { t with length := t.length - 1 } }
  else if t.length = 1 ∧ bit = t.lastBit then
    { g with data, dataBit := 0, timing := { t with length := 0 } }
  else { g with data, dataBit := bit }

/-- One pulse of audio data: half of a bit of the current byte, taking a new
byte off the ring when the last one is used up. -/
def audioStep (g : Generator) (ring : ByteRing) (finished : Bool) : Option Outcome :=
  let loaded : Option (Generator × ByteRing) :=
    if g.dataBit = 0 then
      ring.pull?.map fun (b, ring) => ({ g with data := b, dataBit := 16 }, ring)
    else some (g, ring)
  match loaded with
  | none => starved g ring finished
  | some (g, ring) => some (pulsed g.afterBitPulse ring g.bitPulse)

/-- One pulse of sequence data: the next two bytes are its width. -/
def sequenceStep (g : Generator) (ring : ByteRing) (finished : Bool) : Option Outcome :=
  if ring.occupied < 2 then starved g ring finished
  else
    let (bs, ring) := ring.pullMany 2
    let w : UInt32 := (bs.getD 0 0).toUInt32 ||| ((bs.getD 1 0).toUInt32 <<< 8)
    let t := g.timing
    some (pulsed { g with timing := { t with length := t.length - 2 } } ring ⟨stretch w, true⟩)

/-- Metadata: as many of the block's bytes as the ring holds are dropped. -/
def metadataStep (g : Generator) (ring : ByteRing) (finished : Bool) : Option Outcome :=
  if ring.occupied = 0 then starved g ring finished
  else
    let t := g.timing
    let n := min ring.occupied t.length
    let (_, ring) := ring.pullMany n
    some ⟨.progress, none, { g with timing := { t with length := t.length - n } }, ring⟩

/-- Plays the next part of the current block; `base` is the result when the
part gives nothing. -/
def play (g : Generator) (ring : ByteRing) (finished : Bool) (base : StepResult) : Outcome :=
  let t := g.timing
  match g.phase with
  | .pilot => pulsed { g with timing := { t with pilotCount := t.pilotCount - 1 } } ring ⟨t.pilot, true⟩
  | .sync1 => pulsed { g with timing := { t with syncPhase := t.syncPhase - 1 } } ring ⟨t.sync1, true⟩
  | .sync2 => pulsed { g with timing := { t with syncPhase := t.syncPhase - 1 } } ring ⟨t.sync2, true⟩
  | .data =>
    let r := match t.category with
      | .audio => audioStep g ring finished
      | .sequence => sequenceStep g ring finished
      | .metadata => metadataStep g ring finished
    r.getD ⟨base, none, g, ring⟩
  | .pause => pulsed { g with timing := { t with pause := t.pause - 1 } } ring ⟨pauseWidth, false⟩
  | .header => ⟨base, none, g, ring⟩

/-- One step: decode the next header when nothing is left of the current
block, then play the next part of the block. -/
def step (g : Generator) (ring : ByteRing) (finished : Bool) : Outcome :=
  if g.timing.isEmpty then
    match g.nextHeader ring with
    | (some g, _, ring) => g.play ring finished .progress
    | (none, g, ring) =>
      if finished && ring.isEmpty then ⟨.endOfTape, none, { g with header := [] }, ring⟩
      else ⟨.idle, none, g, ring⟩
  else g.play ring finished .idle

/-- Steps left of the block in hand, once its bytes are in the ring. -/
def blockSteps (g : Generator) : Nat :=
  g.timing.pilotCount + g.timing.syncPhase + g.timing.pause + g.timing.length + g.dataBit

/-- What a generator has left to do with some bytes, compared
lexicographically: the bytes it has yet to take, those of the ring counting
twice and those of a half-collected header once, then the steps left of the
block in hand. -/
def load (g : Generator) (bytes : List UInt8) : Nat × Nat :=
  (2 * bytes.length + g.header.length, g.blockSteps)

/-- The load of the bytes of a ring, counted without listing them. -/
def ringLoad (g : Generator) (ring : ByteRing) : Nat × Nat :=
  (2 * ring.occupied + g.header.length, g.blockSteps)

theorem ringLoad_eq (g : Generator) (ring : ByteRing) : g.ringLoad ring = g.load ring.toList := by
  rw [ringLoad, load, ByteRing.length_toList]

/-- Whether load `a` lies below load `b`: fewer bytes to come, or as many and
fewer steps left of the block. -/
def loadLt (a b : Nat × Nat) : Bool := a.1 < b.1 || (a.1 == b.1 && a.2 < b.2)

theorem loadLt_iff {a b : Nat × Nat} : loadLt a b = true ↔ Prod.Lex (· < ·) (· < ·) a b := by
  simp [loadLt, Prod.lex_def]

/-- The state when a run of `step`s stops. -/
structure Run where
  /-- Whether the run stopped at the end of the tape rather than at its limit. -/
  ended : Bool
  /-- Steps taken. -/
  steps : Nat
  /-- Pulses given, oldest first. -/
  pulses : List Pulse
  /-- The generator at the end. -/
  gen : Generator
  /-- The ring at the end. -/
  ring : ByteRing
  /-- The sink at the end, emptied into `pulses`. -/
  sink : PulseQueue

/-- Plays a byte stream through a ring into a sink for at most `limit` steps.
Before each step the ring is topped up from the stream, and a full sink is
emptied into the record.  The stream counts as finished once all of it is in
the ring.  The run stops at the end of the tape, and the sink is emptied into
the record at the stop. -/
def runStream : Nat → Generator → ByteRing → PulseQueue → List UInt8 → Nat → List Pulse → Run
  | 0, g, ring, sink, _, steps, acc =>
    let (ps, sink) := sink.drain
    ⟨false, steps, acc.reverse ++ ps, g, ring, sink⟩
  | limit + 1, g, ring, sink, stream, steps, acc =>
    let room := ring.free
    let ring := ring.pushAll (stream.take room)
    let stream := stream.drop room
    let (acc, sink) :=
      if sink.isFull then
        let (ps, sink) := sink.drain
        (ps.reverse ++ acc, sink)
      else (acc, sink)
    let o := g.step ring stream.isEmpty
    let sink := match o.pulse with
      | some p => sink.push p
      | none => sink
    if o.result = .endOfTape then
      let (ps, sink) := sink.drain
      ⟨true, steps + 1, acc.reverse ++ ps, o.gen, o.ring, sink⟩
    else runStream limit o.gen o.ring sink stream (steps + 1) acc

end Generator

end TapeDeck
