import TapeDeck.Command.Modes
import TapeDeck.Command.Stats
import TapeDeck.Session
import TapeDeck.Loader
import TapeDeck.Catalogue.Listing
import TapeDeck.Catalogue.Graph
import TapeDeck.Audio.Wav
import TapeDeck.Pulse.Consumer
import TapeDeck.Terminal
import TapeDeck.Version

/-!
# The command line

The program has four modes, picked by its first argument (in any case;
`PLAY` when the first argument names none):

* `PLAY [-monitor] [-statsview] [-log] [-ring n] [-queue n] [-quit] file`
  plays a tape in real time, reading keys from the terminal: `-` starts and
  stops, `r` restarts, `q` or escape quits.  It prints a line for each block
  queued and ends when the tape has played out (unless `-quit=false`).
* `WAV [-rate n] [-clock n] [-log] [-quiet] file out.wav` writes the tape's
  signal to a WAV file as fast as it can.
* `INFO [-memviz out.dot] file` prints the catalogue of a tape, and can write
  its structure as a graph.
* `VERSION [-revision]` prints the version.

A first argument that cannot be read ends the program with status 10, and an
error in a mode with status 20; the message names the mode.

Everything here is a function of a *world*: the files, and what the standard
input is.  Playing is simulated on a clock of 2 ms ticks: at each tick the
keys typed so far are handled, the session ticks, and the pulse consumer
takes 2 ms worth of pulses.  Keys are typed when the terminal is ready, and an
interrupt arrives before the first tick.
-/

namespace TapeDeck

/-- What the standard input of the program is. -/
inductive StandardInput where
  /-- A terminal, where `keys` are typed as soon as playing can read them,
  and `interrupt` tells whether an interrupt follows them. -/
  | terminal (keys : List UInt8) (interrupt : Bool)
  /-- Not a terminal. -/
  | other

/-- What the program runs against. -/
structure World where
  files : FileStore
  input : StandardInput := .other

/-- What a run of the program came to. -/
structure Outcome where
  /-- Everything written to the standard output. -/
  output : String
  /-- The exit status. -/
  status : Nat
  /-- The files afterwards. -/
  files : FileStore
  /-- Whether playing was cut off by the tick limit. -/
  timedOut : Bool := false

/-- The state of a run: what was written, the files, and whether playing
was cut off. -/
structure Console where
  output : String := ""
  files : FileStore
  timedOut : Bool := false

namespace Console

/-- Writes text out. -/
def say (c : Console) (s : String) : Console := { c with output := c.output ++ s }

end Console

namespace Command

/-- The modes, the first being the default. -/
def modeNames : List String := ["PLAY", "WAV", "INFO", "VERSION"]

/-- The pulse clock the player and the WAV writer assume. -/
def defaultClock : Int := 3885000

/-- The sample rate WAV files are written at unless told otherwise. -/
def defaultRate : Int := 44100

/-- The length of a playing tick, in nanoseconds. -/
def tickNanos : Int64 := 2000000

/-- The length of a playing tick, in milliseconds. -/
def tickMillis : Nat := 2

/-- How many ticks playing may take before it is cut off. -/
def playTickLimit : Nat := 2500

/-- A layer's flags read: the modes with the flags read, and `none` to go on,
or the result of the mode (help printed, or an error). -/
def readLayer (md : Modes) (c : Console) : Modes × Console × Option (Option String) :=
  match md.parse with
  | (md, .proceed) => (md, c, none)
  | (md, .help text) => (md, c.say text, some none)
  | (md, .failure m) => (md, c, some (some m))

/-- The value of a truth flag. -/
def boolFlag (md : Modes) (name : String) : Bool :=
  match md.flags.value? name with
  | some (.bool b) => b
  | _ => false

/-- The value of a number flag. -/
def intFlag (md : Modes) (name : String) : Int :=
  match md.flags.value? name with
  | some (.int n) => n
  | _ => 0

/-- The value of a text flag. -/
def textFlag (md : Modes) (name : String) : String :=
  match md.flags.value? name with
  | some (.text s) => s
  | _ => ""

/-! ## Playing -/

/-- A tape being played: the session, the pulse consumer, the terminal and
whether the tape was stopped by the toggle key. -/
structure Player where
  session : Session
  consumer : Consumer
  terminal : Terminal
  paused : Bool := false

/-- Handles the keys typed so far; `true` when a key asked to quit.  Each
round takes a key or stops, so one round more than the keys held is enough. -/
def Player.keys : Nat → Player → Player × Bool
  | 0, p => (p, false)
  | fuel + 1, p =>
    match p.terminal.key? with
    | none => (p, false)
    | some (k, terminal) =>
      let p := { p with terminal }
      match p.session.handleKey k with
      | (s, true) =>
        let paused := !s.started
        let s := if paused then { s with sink := s.sink.reset } else s
        let consumer := if paused then p.consumer.reset else p.consumer
        Player.keys fuel { p with session := s, consumer, paused }
      | (s, false) =>
        if k == 0x72 || k == 0x52 then
          let s := { s with sink := s.sink.reset }.restart
          Player.keys fuel { p with session := s, consumer := p.consumer.reset, paused := false }
        else if k == 0x71 || k == 0x51 || k == Terminal.keyEsc then ({ p with session := s }, true)
        else Player.keys fuel { p with session := s }

/-- Plays tick by tick, at most `fuel` ticks: `true` when playing ended by
itself, `false` when the ticks ran out. -/
def Player.run (autoQuit : Bool) : Nat → Player → Player × Bool
  | 0, p => (p, false)
  | fuel + 1, p =>
    let p := { p with terminal := p.terminal.advance tickMillis }
    match Player.keys (p.terminal.keys.size + 1) p with
    | (p, true) => (p, true)
    | (p, false) =>
      let s := p.session.tick
      let (consumer, sink, _) := p.consumer.advance s.sink tickNanos
      let p := { p with session := { s with sink }, consumer }
      if autoQuit && !p.paused && !p.session.started && p.session.sink.isEmpty then (p, true)
      else Player.run autoQuit fuel p

/-- The PLAY mode. -/
def play (md : Modes) (w : World) (c : Console) : Console × Option String :=
  let md := md.newMode
    |>.addFlag "monitor" "play the tape signal through the sound card" (.bool true)
    |>.addFlag "statsview" ("run stats server (" ++ Stats.address ++ ")") (.bool false)
    |>.addFlag "log" "echo log to stdout" (.bool false)
    |>.addFlag "ring" "size of the tape ring buffer in bytes" (.int 48)
    |>.addFlag "queue" "size of the pulse queue" (.int PulseQueue.defaultDepth)
    |>.addFlag "quit" "quit when the tape has finished" (.bool true)
    |>.setExtraHelp ("keys: '" ++ String.singleton (Char.ofNat Session.toggleKey.toNat) ++
      "' start/stop, 'r' restart, 'q' quit")
  match readLayer md c with
  | (_, c, some r) => (c, r)
  | (md, c, none) =>
    let c := if boolFlag md "statsview" then
      (if Stats.available then c.say Stats.launch else c.say "* statsview not available in this build\n")
      else c
    if md.remaining.length != 1 then (c, some ("one tape file required for " ++ md.pathText ++ " mode"))
    else match Loader.ofName (md.arg 0) with
    | .error e => (c, some e.message)
    | .ok _ =>
      let log : Log := { Log.ofCapacity Log.mainCapacity with echo := boolFlag md "log" }
      let shelf : Shelf := { rack := .disk c.files }
      let session := Session.create { ringDepth := intFlag md "ring" } shelf
        (PulseQueue.ofDepth (intFlag md "queue")) log |>.select (md.arg 0)
      match w.input with
      | .other => (c, some Terminal.Failure.notTerminal.message)
      | .terminal keys interrupt =>
        let session := { session with observer := .printQueued }.start
        if interrupt then (c.say session.console, none)
        else
          let p : Player := { session, consumer := { clock := Int64.ofInt defaultClock },
                              terminal := ({} : Terminal).type keys }
          let (p, ended) := Player.run (boolFlag md "quit") playTickLimit p
          ({ c.say p.session.console with timedOut := !ended }, none)

/-! ## Writing a WAV file -/

/-- The writer with pulses rendered, oldest first. -/
def render (w : WavWriter) (ps : List Pulse) : WavWriter :=
  ps.foldl (fun w p => w.pulse p.width p.high) w

/-- Drains the session into the writer and ticks it while it plays; `false`
when a tick leaves it playing without lowering its rank, which a session
that plays a tape never does. -/
def feed (s : Session) (w : WavWriter) : Session × WavWriter × Bool :=
  if !s.started then (s, w, true)
  else
    let (ps, sink) := s.sink.drain
    let s' := { s with sink }.tick
    if !s'.started then (s', render w ps, true)
    else if _ : s'.rank.Below s.rank then feed s' (render w ps)
    else (s', render w ps, false)
termination_by s.rank

/-- Plays a started session into a writer until it stops, then renders what
its sink holds: the session, the writer, and whether it stopped. -/
def mix (s : Session) (w : WavWriter) : Session × WavWriter × Bool :=
  let (s, w, ended) := feed s w
  let (ps, sink) := s.sink.drain
  ({ s with sink }, render w ps, ended)

/-- The WAV mode. -/
def wav (md : Modes) (c : Console) : Console × Option String :=
  let md := md.newMode
    |>.addFlag "rate" "sample rate of the WAV file" (.int defaultRate)
    |>.addFlag "clock" "frequency of the pulse clock" (.int defaultClock)
    |>.addFlag "log" "echo log to stdout" (.bool false)
    |>.addFlag "quiet" "do not log tape events" (.bool false)
  match readLayer md c with
  | (_, c, some r) => (c, r)
  | (md, c, none) =>
    let permission : Permission := if boolFlag md "quiet" then .deny else .allow
    if md.remaining.length != 2 then
      (c, some ("tape file and WAV file required for " ++ md.pathText ++ " mode"))
    else match Loader.ofName (md.arg 0) with
    | .error e => (c, some e.message)
    | .ok _ =>
      let log : Log := { Log.ofCapacity Log.mainCapacity with echo := boolFlag md "log" }
      let shelf : Shelf := { rack := .disk c.files, permission }
      let s := Session.create { permission } shelf (PulseQueue.ofDepth 0) log
        |>.select (md.arg 0) |>.start |>.tick
      if !s.started && s.sink.isEmpty then
        (c.say (s.console ++ s.log.tail 1), some ("cannot play " ++ md.arg 0))
      else match WavWriter.create (md.arg 1) (intFlag md "clock") (intFlag md "rate") with
      | .error e => (c.say s.console, some e.message)
      | .ok w =>
        let (s, w, ended) := mix s w
        let c := { c.say s.console with timedOut := !ended }
        match w.endMixing c.files s.log with
        | (.error e, _, echoed) => (c.say echoed, some e.message)
        | (.ok files, _, echoed) => ({ c.say echoed with files }, none)

/-! ## Listing a tape -/

/-- The INFO mode. -/
def info (md : Modes) (c : Console) : Console × Option String :=
  let md := md.newMode
    |>.addFlag "memviz" "write the catalogue structure to a graphviz file" (.text "")
  match readLayer md c with
  | (_, c, some r) => (c, r)
  | (md, c, none) =>
    if md.remaining.length != 1 then (c, some ("one tape file required for " ++ md.pathText ++ " mode"))
    else match Loader.ofName (md.arg 0) with
    | .error e => (c, some e.message)
    | .ok l =>
      match l.load c.files (Log.ofCapacity Log.mainCapacity) with
      | (_, _, some e) => (c, some e.message)
      | (l, _, none) =>
        match Catalogue.ofBytes l.data with
        | .error e => (c, some e.message)
        | .ok cat =>
          let c := c.say (l.shortName ++ " (sha1 " ++ l.hash ++ ")\n" ++ cat.listing)
          let dot := textFlag md "memviz"
          if dot.isEmpty then (c, none)
          else match c.files.create dot ByteArray.empty with
            | .error e => (c, some e.message)
            | .ok files =>
              match files.create dot (CatalogueGraph.render cat).toUTF8 with
              | .ok files => ({ c with files }, none)
              | .error _ => ({ c with files }, none)

/-! ## The version -/

/-- The VERSION mode. -/
def showVersion (md : Modes) (c : Console) : Console × Option String :=
  let md := md.newMode |>.addFlag "revision" "display revision information" (.bool false)
  match readLayer md c with
  | (_, c, some r) => (c, r)
  | (md, c, none) =>
    let (v, r, _) := Version.current
    if boolFlag md "revision" then (c.say (Version.applicationName ++ " " ++ v ++ " (" ++ r ++ ")\n"), none)
    else (c.say (Version.applicationName ++ " " ++ v ++ "\n"), none)

/-! ## The program -/

/-- Runs the program on its arguments (the program name left out). -/
def launch (args : List String) (w : World) : Outcome :=
  let c : Console := { files := w.files }
  let md := (Modes.ofArgs args).addSubModes modeNames
  match md.parse with
  | (_, .help text) => { output := text, status := 0, files := w.files }
  | (_, .failure m) => { output := "* error: " ++ m ++ "\n", status := 10, files := w.files }
  | (md, .proceed) =>
    let (c, err) := match md.mode with
      | "PLAY" => play md w c
      | "WAV" => wav md c
      | "INFO" => info md c
      | _ => showVersion md c
    match err with
    | some m =>
      { output := c.output ++ "* error in " ++ md.pathText ++ " mode: " ++ m ++ "\n", status := 20,
        files := c.files, timedOut := c.timedOut }
    | none => { output := c.output, status := 0, files := c.files, timedOut := c.timedOut }

end Command

end TapeDeck
