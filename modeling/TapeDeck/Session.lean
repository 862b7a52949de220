import TapeDeck.Pulse.Generator
import TapeDeck.Session.Event
import TapeDeck.Session.Rank
import TapeDeck.Session.Shelf

/-!
# Playback sessions

A `Session` plays one tape file into a pulse sink.  It opens the file from
its shelf, reads it block by block into a byte ring, and lets a pulse
generator turn the ring's bytes into pulses, as many as the sink takes.

Each `tick` first *fills* the ring and then *drains* the generator into the
sink.

* Filling reads the next block header.  A block that makes a sound is
  *queued*: its header and data bytes go to the ring, as the ring has room.
  Any other block is *skipped* by seeking past its data, except TZX loops:
  a loop start is remembered with its repeat count (up to a nesting depth;
  deeper loops are ignored), and a loop end seeks back to the start of the
  innermost loop until its count runs out.  The file is *finished* when
  its end is reached or a read or seek fails.
* Draining steps the generator while the sink has room and the generator
  does not wait for bytes.  When it reports the end of the tape, the
  session stops.

Neither loop need run for ever.  Each round of filling that goes on takes
the tape's standing lower (`Tape.Stand.lowers`): the open loops, how far
each starts from the end of the file and the repeats it has left, then how
far the position lies from the end and the bytes still to hand out.  Each
step of draining that neither waits nor ends the tape lowers the generator's
load (`Generator.ringLoad`).  The loops test this as they go, so that they
are well founded; the test never fails on the sessions a program reaches.

What filling reads and changes is kept apart, as the session's `Tape`: the
open file and the position in it, the block being queued, the loops, and
what the reading reports.  One round of filling, `Tape.round`, is a function
of the tape alone; it says which byte, if any, goes to the ring.  The ring,
the generator and the sink are the session's own.

A session is started, stopped and restarted by its owner.  A start takes
effect at the next tick, which opens the file and looks for the TZX
signature; a stop closes the file.  The key `-` toggles between playing and
stopped.

A session reports to an observer what it did with each block, and logs what
goes wrong under the tag `tape`.  It carries the things it works with: the
shelf, the sink, the log, the text written out by the log's echo and by a
printing observer, and the events a recording observer keeps.  A tick also
says which pulses it handed to the sink, before the sink clamps them.
-/

namespace TapeDeck

open Message

/-- A loop being played: where it starts and how many times it has left. -/
structure LoopFrame where
  /-- File position of the first block of the loop. -/
  offset : Nat
  /-- Repeats left. -/
  counter : Nat
deriving DecidableEq, Repr, Inhabited

/-- What an observer does with events. -/
inductive Observer where
  /-- Nothing: there is no observer. -/
  | none
  /-- Keeps every event. -/
  | record
  /-- Writes out a line for each queued block. -/
  | printQueued
deriving DecidableEq, Repr, Inhabited

/-- The settings of a session. -/
structure Config where
  /-- Bytes of the ring; zero or less means 48, and it is at least 2. -/
  ringDepth : Int := 48
  /-- Loops nested deeper than this are ignored; zero or less means 16. -/
  loopDepth : Int := 16
  /-- Whether the session may log. -/
  permission : Permission := .allow

/-- What a session knows of the tape file it reads: the open file and the
position in it, the block being queued, the loops being played, and what the
reading reports. -/
structure Tape where
  /-- Loops nested deeper than this are ignored. -/
  loopDepth : Nat
  /-- Whether the session may log. -/
  permission : Permission
  /-- Where tapes are opened. -/
  shelf : Shelf
  /-- Where diagnostics go. -/
  log : Log
  /-- Text written out: the log's echo and a printing observer's lines. -/
  console : String := ""
  /-- Events kept by a recording observer, oldest first. -/
  events : Array Event := #[]
  /-- What happens to events. -/
  observer : Observer := .none
  /-- The open file. -/
  source : Option Source := none
  /-- The size the open file reports. -/
  size : Int := 0
  /-- The read position in the file. -/
  pos : Nat := 0
  /-- The format of the open file. -/
  format : Format := .tap
  /-- Whether the file has no more to give. -/
  finished : Bool := false
  /-- The header of the block last read. -/
  header : List UInt8 := []
  /-- Header bytes of a queued block not yet in the ring. -/
  headerPending : List UInt8 := []
  /-- Data bytes of a queued block not yet in the ring. -/
  dataPending : Nat := 0
  /-- The loops being played, innermost first. -/
  loops : List LoopFrame := []

/-- A playback session and the things it works with. -/
structure Session extends Tape where
  /-- Where pulses go. -/
  sink : PulseQueue
  /-- Bytes read and not yet taken by the generator. -/
  ring : ByteRing
  /-- The pulse generator. -/
  gen : Generator
  /-- The selected tape. -/
  path : String := ""
  /-- Whether the session plays. -/
  started : Bool := false
  /-- Whether the next tick opens the file afresh. -/
  restartPending : Bool := false

namespace Tape

/-- The tag of the session's log entries. -/
def logTag : String := "tape"

/-- The tape with a diagnostic logged, and echoed when the log echoes. -/
def note (t : Tape) (detail : String) : Tape :=
  let (log, echoed) := t.log.record t.permission logTag detail
  { t with log, console := t.console ++ echoed }

/-- The tape after telling the observer what was done with a block. -/
def observe (t : Tape) (offset : Nat) (tm : Timing) (a : Action) : Tape :=
  let e : Event :=
    { offset, id := if t.format = .tzx then t.header.headD 0 else 0, format := t.format,
      timing := tm, action := a }
  match t.observer with
  | .none => t
  | .record => { t with events := t.events.push e }
  | .printQueued =>
    if a = .queued then { t with console := t.console ++ "\r" ++ e.text ++ "\n" } else t

/-- The tape with its file closed, logging an error the close reports. -/
def close (t : Tape) : Tape :=
  match t.source with
  | none => t
  | some src =>
    let (shelf, err) := t.shelf.close src
    let t := { t with shelf, source := none }
    match err with
    | some e => t.note e.message
    | none => t

/-- Up to `n` bytes read from the file. -/
def readBytes (t : Tape) (n : Nat) : List UInt8 × Tape :=
  match t.source with
  | none => ([], t)
  | some src =>
    let (bs, src) := src.read n
    (bs, { t with source := some src, pos := t.pos + bs.length })

/-- The tape after a seek of the file, and whether it succeeded; a failed
seek is logged. -/
def seekTo (t : Tape) (offset : Nat) : Tape × Bool :=
  match t.source with
  | none => (t, false)
  | some src =>
    match t.shelf.seek src offset with
    | (shelf, .ok src) => ({ t with shelf, source := some src, pos := src.pos }, true)
    | (shelf, .error e) => ({ t with shelf }.note e.message, false)

/-- The tape with the file at `path` opened afresh, and whether that worked.
A file of at least ten bytes that starts with the TZX signature is TZX, and
reading goes on after the signature; any other file is TAP, read from the
start. -/
def openTape (t : Tape) (path : String) : Tape × Bool :=
  let t := t.close
  match t.shelf.openTape path t.log with
  | (shelf, log, .error e) => ({ t with shelf, log }.note e.message, false)
  | (shelf, log, .ok src) =>
    let t := { t with shelf, log, source := some src, size := src.size, pos := 0, format := .tap }
    let opened : Tape × Bool :=
      if (tzxPreambleSize : Int) ≤ t.size then
        let (probe, t) := t.readBytes tzxPreambleSize
        if isTzx probe then ({ t with format := .tzx, pos := probe.length }, true)
        else t.seekTo 0
      else (t, true)
    match opened with
    | (t, true) => (t.note ("playing " ++ path ++ " (" ++ t.format.name ++ ")"), true)
    | (t, false) => (t, false)

/-- The tape after the block header just read was handled. -/
def handleBlock (t : Tape) (offset : Nat) (tm : Timing) : Tape :=
  let id := t.header.headD 0
  if t.format = .tzx ∧ id = BlockId.loopStart then
    if t.loops.length < t.loopDepth then
      { t with loops := ⟨t.pos, Timing.loopCount t.header⟩ :: t.loops }.observe offset tm .loopStart
    else
      (t.note ("loop at " ++ "0x" ++ Hex.plain offset ++ " ignored: too many nested loops")).observe
        offset tm .loopIgnored
  else if t.format = .tzx ∧ id = BlockId.loopEnd then
    match t.loops with
    | [] => t.observe offset tm .loopEnd
    | top :: outer =>
      let counter := top.counter - 1
      if 0 < counter then
        let t := { t with loops := { top with counter } :: outer }.observe offset tm .loopRepeat
        match t.seekTo top.offset with
        | (t, true) => t
        | (t, false) => { t with finished := true }
      else { t with loops := outer }.observe offset tm .loopEnd
  else
    let t :=
      if t.format = .tzx ∧ !BlockId.known id then
        t.note (BlockId.name id ++ " at " ++ "0x" ++ Hex.plain offset ++ " skipped using a length of " ++
          toString tm.length ++ " bytes")
      else t
    let t := t.observe offset tm .skipped
    match t.seekTo (t.pos + tm.length) with
    | (t, true) => t
    | (t, false) => { t with finished := true }

/-- What one round of filling did. -/
structure Round where
  /-- The tape after the round. -/
  tape : Tape
  /-- The byte the round puts into the ring. -/
  byte : Option UInt8
  /-- Whether filling goes on. -/
  more : Bool

/-- One round of filling: one byte for the ring, or one block header handled. -/
def round (t : Tape) : Round :=
  match t.headerPending with
  | b :: rest => ⟨{ t with headerPending := rest }, some b, true⟩
  | [] =>
    if 0 < t.dataPending then
      match t.readBytes 1 with
      | ([b], t) => ⟨{ t with dataPending := t.dataPending - 1 }, some b, true⟩
      | (_, t) => ⟨{ t with finished := true, dataPending := 0 }, none, false⟩
    else if t.finished then ⟨t, none, false⟩
    else if t.size ≤ (t.pos : Int) then ⟨{ t with finished := true }, none, false⟩
    else
      let offset := t.pos
      match t.readBytes 1 with
      | ([id], t) =>
        let size := headerSize id t.format
        match t.readBytes (size - 1) with
        | (rest, t) =>
          if rest.length + 1 ≠ size then ⟨{ t with finished := true }, none, false⟩
          else
            let t := { t with header := id :: rest }
            let tm := Timing.decode t.header t.format
            if tm.isAudible then
              ⟨{ t with headerPending := t.header, dataPending := tm.length }.observe offset tm .queued,
                none, true⟩
            else ⟨t.handleBlock offset tm, none, true⟩
      | (_, t) => ⟨{ t with finished := true }, none, false⟩

/-! ## How far reading has to go -/

/-- The length of the open file's bytes and one more: no byte is read at or
past it. -/
def span (t : Tape) : Nat :=
  match t.source with
  | some src => src.bytes.size + 1
  | none => 0

/-- The open loops, outermost first: how far each starts from the end of the
file, and the repeats it has left. -/
def loopStanding (t : Tape) : List Nat :=
  t.loops.reverse.flatMap fun f => [t.span - f.offset, f.counter]

/-- Where reading stands, most significant first: the open loops, how far
the position lies from the end of the file, and the bytes of the queued
block still to hand out. -/
def standing (t : Tape) : List Nat :=
  t.loopStanding ++ [t.span - t.pos, t.headerPending.length + t.dataPending]

theorem length_loopStanding (t : Tape) : t.loopStanding.length = 2 * t.loops.length := by
  simp only [loopStanding]
  induction t.loops with
  | nil => simp
  | cons f l ih =>
    simp only [List.reverse_cons, List.flatMap_append, List.length_append, ih]
    simp
    omega

/-- Where reading stands, as far as the rank of a tape reads it: the loop
depth, the open loops outermost first, the span, the position, and the bytes
of the queued block still to hand out. -/
structure Stand where
  /-- Loops nested deeper than this are ignored. -/
  depth : Nat
  /-- The open loops, outermost first. -/
  outer : List LoopFrame
  /-- The span of the open file. -/
  span : Nat
  /-- The read position. -/
  pos : Nat
  /-- Bytes of the queued block still to hand out. -/
  pending : Nat

/-- Where a tape stands. -/
def stand (t : Tape) : Stand :=
  ⟨t.loopDepth, t.loops.reverse, t.span, t.pos, t.headerPending.length + t.dataPending⟩

namespace Stand

/-- The numbers of a stand, most significant first, as in `Tape.standing`. -/
def entries (a : Stand) : List Nat :=
  a.outer.flatMap (fun f => [a.span - f.offset, f.counter]) ++ [a.span - a.pos, a.pending]

/-- The entries padded with zeros to the length that `depth` open loops fill. -/
def rank (a : Stand) : Rank := ⟨Rank.pad (2 * a.depth + 2) a.entries⟩

/-- `Rank.padLt` of the entries of `a` and `b` from the loops `fs` of `a` and
`gs` of `b` on, read off the loops without building the entries. -/
def entriesLt (a b : Stand) : List LoopFrame → List LoopFrame → Bool
  | f :: fs, g :: gs =>
    a.span - f.offset < b.span - g.offset ||
      (a.span - f.offset == b.span - g.offset &&
        (f.counter < g.counter || (f.counter == g.counter && entriesLt a b fs gs)))
  | [], [] => a.span - a.pos < b.span - b.pos || (a.span - a.pos == b.span - b.pos && a.pending < b.pending)
  | f :: _, [] => a.span - f.offset < b.span - b.pos || (a.span - f.offset == b.span - b.pos && f.counter < b.pending)
  | [], g :: gs =>
    a.span - a.pos < b.span - g.offset ||
      (a.span - a.pos == b.span - g.offset &&
        (a.pending < g.counter ||
          (a.pending == g.counter &&
            (gs.any (fun g => 0 < b.span - g.offset || 0 < g.counter) || 0 < b.span - b.pos || 0 < b.pending))))

/-- Whether `a` stands lower than `b`: the same loop depth, neither with more
loops than it allows, and lower entries, padded with zeros. -/
def lowers (a b : Stand) : Bool :=
  a.depth == b.depth && decide (a.outer.length ≤ a.depth) && decide (b.outer.length ≤ b.depth) &&
    entriesLt a b a.outer b.outer

theorem length_entries (a : Stand) : a.entries.length = 2 * a.outer.length + 2 := by
  suffices h : ∀ l : List LoopFrame, (l.flatMap fun f => [a.span - f.offset, f.counter]).length = 2 * l.length by
    simp [entries, h]
  intro l
  induction l with
  | nil => rfl
  | cons f fs ih =>
    rw [List.flatMap_cons, List.length_append, ih]
    simp
    omega

theorem padLt_any (l : List Nat) : Rank.padLt [] l = l.any (0 < ·) := by
  cases l <;> rfl

theorem entriesLt_eq (a b : Stand) : ∀ fs gs : List LoopFrame,
    entriesLt a b fs gs =
      Rank.padLt (fs.flatMap (fun f => [a.span - f.offset, f.counter]) ++ [a.span - a.pos, a.pending])
        (gs.flatMap (fun g => [b.span - g.offset, g.counter]) ++ [b.span - b.pos, b.pending])
  | f :: fs, g :: gs => by simp [entriesLt, Rank.padLt, entriesLt_eq a b fs gs]
  | [], [] => by simp [entriesLt, Rank.padLt]
  | f :: fs, [] => by
    cases h : fs.flatMap (fun f => [a.span - f.offset, f.counter]) ++ [a.span - a.pos, a.pending] with
    | nil => simp at h
    | cons x xs => simp [entriesLt, Rank.padLt, h]
  | [], g :: gs => by simp [entriesLt, Rank.padLt, Bool.or_assoc]

theorem rank_below {a b : Stand} (h : a.lowers b = true) : a.rank.Below b.rank := by
  simp only [lowers, Bool.and_eq_true, beq_iff_eq, decide_eq_true_eq] at h
  obtain ⟨⟨⟨hD, ha⟩, hb⟩, hlt⟩ := h
  rw [entriesLt_eq] at hlt
  simp only [rank, hD]
  exact Rank.below_pad hlt (by rw [length_entries]; omega) (by rw [length_entries]; omega)

end Stand

theorem entries_stand (t : Tape) : t.stand.entries = t.standing := rfl

end Tape

namespace Session

/-- The key that starts and stops playing. -/
def toggleKey : UInt8 := 0x2d

/-- A session that plays from a shelf into a sink, logging to a log. -/
def create (cfg : Config) (shelf : Shelf) (sink : PulseQueue) (log : Log) : Session :=
  let ringDepth := max (if cfg.ringDepth ≤ 0 then 48 else cfg.ringDepth.toNat) 2
  { loopDepth := if cfg.loopDepth ≤ 0 then 16 else cfg.loopDepth.toNat,
    permission := cfg.permission, shelf, sink, log,
    ring := ByteRing.ofCapacity ringDepth, gen := Generator.start .tap }

/-- The part of a block the generator is in. -/
def phase (s : Session) : Phase := s.gen.phase

/-- The session with a diagnostic logged, and echoed when the log echoes. -/
def note (s : Session) (detail : String) : Session := { s with toTape := s.toTape.note detail }

/-- The session with a tape selected. -/
def select (s : Session) (path : String) : Session := { s with path }

/-- The session with its observer set. -/
def observedBy (s : Session) (o : Observer) : Session := { s with observer := o }

/-- The session with its ring, generator, block and loop state cleared. -/
def reset (s : Session) : Session :=
  { s with ring := s.ring.clear, gen := Generator.start s.format, finished := false,
           headerPending := [], dataPending := 0, loops := [] }

/-- The session with its file closed, logging an error the close reports. -/
def close (s : Session) : Session := { s with toTape := s.toTape.close }

/-- The session with the selected tape opened afresh, and whether that worked. -/
def openTape (s : Session) : Session × Bool :=
  let (t, ok) := s.toTape.openTape s.path
  ({ s with toTape := t }, ok)

/-- The session stopped: cleared and its file closed. -/
def stop (s : Session) : Session :=
  if !s.started then s
  else ({ s with started := false, restartPending := false }.reset).close

/-- The session set to play the selected tape from the start at the next tick. -/
def restart (s : Session) : Session :=
  if s.path = "" then s.note "no tape selected"
  else { s.reset with restartPending := true, started := true }

/-- The session set to play, unless it plays already. -/
def start (s : Session) : Session := if s.started then s else s.restart

/-- The session after a key, and whether the key was its own: `-` starts a
stopped session and stops a playing one. -/
def handleKey (s : Session) (key : UInt8) : Session × Bool :=
  if key ≠ toggleKey then (s, false)
  else (if s.started then s.stop else s.start, true)

/-! ## Filling the ring -/

/-- What one round of filling did: go on, or stop filling for this tick. -/
inductive FillStep where
  /-- Fill more. -/
  | more (s : Session)
  /-- Stop filling. -/
  | done (s : Session)

/-- One round of filling: the tape's round, with its byte pushed onto the ring. -/
def fillStep (s : Session) : FillStep :=
  let r := s.toTape.round
  let ring := match r.byte with
    | some b => s.ring.push b
    | none => s.ring
  let s := { s with toTape := r.tape, ring }
  if r.more then .more s else .done s

/-- Rounds of filling from a session whose tape stood at `before`, while the
ring has room and the rounds go on.  A round that goes on takes the tape
lower (`Tape.Stand.lowers`), which bounds the loop; carrying where the tape
stood lets the test read the tape of each round once. -/
def fillFrom (s : Session) (before : Tape.Stand) : Session :=
  if s.ring.free = 0 then s
  else match s.fillStep with
    | .more s' =>
      let now := s'.toTape.stand
      if _ : now.lowers before then fillFrom s' now else s'
    | .done s' => s'
termination_by before.rank
decreasing_by exact Tape.Stand.rank_below ‹_›

/-- The session with its ring filled. -/
def fill (s : Session) : Session := fillFrom s s.toTape.stand

/-! ## Draining the generator -/

/-- Generator steps while the session plays and the sink has room, with the
pulses handed to the sink, oldest first: the drain ends when the generator
waits, and stops the session at the end of the tape.  A step that does
neither lowers the generator's load (`Generator.ringLoad`), which bounds the
loop. -/
def drain (s : Session) : List Pulse × Session :=
  if !s.started || s.sink.isFull then ([], s)
  else
    let o := s.gen.step s.ring s.finished
    let sink := match o.pulse with
      | some p => s.sink.push p
      | none => s.sink
    let s' := { s with gen := o.gen, ring := o.ring, sink }
    let (ps, s') := match o.result with
      | .idle => ([], s')
      | .endOfTape => ([], (s'.note ("end of tape " ++ s'.path)).stop)
      | _ =>
        if _ : Generator.loadLt (o.gen.ringLoad o.ring) (s.gen.ringLoad s.ring) then drain s'
        else ([], s')
    (o.pulse.toList ++ ps, s')
termination_by s.gen.ringLoad s.ring
decreasing_by exact Generator.loadLt_iff.1 ‹_›

/-- One tick, with the pulses it hands to the sink: open the tape when a
start is pending, then fill and drain. -/
def advance (s : Session) : List Pulse × Session :=
  if !s.started then ([], s)
  else
    let opened : Session × Bool :=
      if s.restartPending then
        let s := { s with restartPending := false }.reset
        match s.openTape with
        | (s, true) => ({ s with gen := Generator.start s.format }, true)
        | (s, false) => (s, false)
      else (s, true)
    match opened with
    | (s, true) => s.fill.drain
    | (s, false) => ([], { s with started := false }.close)

/-- One tick. -/
def tick (s : Session) : Session := s.advance.2

/-- The session after `n` ticks. -/
def ticks (s : Session) (n : Nat) : Session := n.repeat tick s

/-- What a run of ticks gave. -/
structure Run where
  /-- Ticks taken. -/
  ticks : Nat
  /-- Pulses taken out of the sink, oldest first. -/
  pulses : List Pulse
  /-- Pulses handed to the sink, oldest first. -/
  pushed : List Pulse
  /-- The session at the end. -/
  session : Session

/-- Ticks until the session stops, at most `limit` and at least one, emptying
the sink after each tick.  The pulses taken out and handed in so far are
kept newest first. -/
def runFor : Nat → Session → Nat → List Pulse → List Pulse → Run
  | 0, s, n, acc, given => ⟨n, acc.reverse, given.reverse, s⟩
  | limit + 1, s, n, acc, given =>
    let (ps₀, s) := s.advance
    let (ps, sink) := s.sink.drain
    let s := { s with sink }
    let acc := ps.reverse ++ acc
    let given := ps₀.reverse ++ given
    if !s.started || limit = 0 then ⟨n + 1, acc.reverse, given.reverse, s⟩
    else runFor limit s (n + 1) acc given

/-- Ticks until the session stops or `limit` ticks have passed, emptying the
sink after each tick. -/
def run (s : Session) (limit : Nat) : Run := runFor (max limit 1) s 0 [] []

/-- How far a session has to go: the standing of its tape, padded with zeros
to the length `loopDepth` open loops fill, then the load of its generator
with the bytes of its ring. -/
def rank (s : Session) : Rank :=
  ⟨(List.range (2 * s.loopDepth + 2)).map (fun i => s.toTape.standing.getD i 0) ++
    [(s.gen.load s.ring.toList).1, (s.gen.load s.ring.toList).2]⟩

/-! ## Calls -/

/-- A call an owner makes, on the session or on its sink. -/
inductive Call where
  /-- Select the tape to play. -/
  | select (path : String)
  /-- Start playing, unless playing already. -/
  | start
  /-- Stop playing. -/
  | stop
  /-- Play the selected tape from its start. -/
  | restart
  /-- Advance by one tick. -/
  | tick
  /-- Hand the session a key. -/
  | key (k : UInt8)
  /-- Set what happens to events. -/
  | watch (o : Observer)
  /-- Take the oldest pulse out of the sink. -/
  | pop
  /-- Take every pulse out of the sink. -/
  | drainSink
  /-- Empty the sink and lower its flags. -/
  | resetSink

/-- The session after a call, and the pulses the call handed to the sink. -/
def perform (s : Session) : Call → List Pulse × Session
  | .select path => ([], s.select path)
  | .start => ([], s.start)
  | .stop => ([], s.stop)
  | .restart => ([], s.restart)
  | .tick => s.advance
  | .key k => ([], (s.handleKey k).1)
  | .watch o => ([], s.observedBy o)
  | .pop => ([], { s with sink := s.sink.pop.2 })
  | .drainSink => ([], { s with sink := s.sink.drain.2 })
  | .resetSink => ([], { s with sink := s.sink.reset })

/-- The session after a list of calls, and the pulses they handed to the
sink, oldest first. -/
def performAll (s : Session) : List Call → List Pulse × Session
  | [] => ([], s)
  | c :: cs => ((s.perform c).1 ++ ((s.perform c).2.performAll cs).1, ((s.perform c).2.performAll cs).2)

@[simp] theorem performAll_nil (s : Session) : s.performAll [] = ([], s) := rfl

theorem performAll_cons (s : Session) (c : Call) (cs : List Call) :
    s.performAll (c :: cs) =
      ((s.perform c).1 ++ ((s.perform c).2.performAll cs).1, ((s.perform c).2.performAll cs).2) := rfl

end Session

end TapeDeck
