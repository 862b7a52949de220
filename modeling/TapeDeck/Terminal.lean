import TapeDeck.Fifo

/-!
# The key terminal

Playback reads single key presses from a terminal.  The terminal is put in
*cbreak* mode (no line editing, no echo) and a key reader takes its input one
byte at a time and queues it for the player, which polls the queue.

This module models that terminal over a clock counted in milliseconds:

* **Line discipline.**  Every typed byte passes the terminal's input rules
  before anything can read it.  Flow-control bytes (`^Q`, `^S`) are taken by
  the terminal; the signal bytes (`^C`, `^\`, `^Z`) are taken too and throw
  away all unread input; a carriage return reads as a line feed.  In canonical
  mode input is read a line at a time, with erase (`DEL`), word erase (`^W`),
  line kill (`^U`), literal next (`^V`), reprint (`^R`) and end of file (`^D`);
  in cbreak mode every other byte can be read at once.
* **Key reader.**  Each read waits at most 100 ms for input when it starts in
  cbreak mode, and without limit in canonical mode.  A read that ends without
  input reads as the end of the input, and the reader stops for good; so does
  a read of an end-of-file mark.  A byte read goes to the key queue, which holds
  16 keys; a byte that finds the queue full is lost.
-/

namespace TapeDeck

/-- How long a read in cbreak mode waits for input, in milliseconds. -/
def keyReadWait : Nat := 100

/-- How the terminal treats input. -/
inductive TermMode where
  /-- Line at a time, with line editing. -/
  | canonical
  /-- Byte at a time, no echo. -/
  | cbreak
  deriving DecidableEq, Repr

/-- One unread item of input: a byte, or the mark an end-of-file key leaves. -/
inductive InputItem where
  | byte (b : UInt8)
  | endMark
  deriving DecidableEq, Repr

/-- The key reader: waiting in a read that ends at a deadline (or never), or
stopped for good. -/
inductive ReaderState where
  | waiting (deadline : Option Nat)
  | stopped
  deriving DecidableEq, Repr

/-- A terminal with a key reader. -/
structure Terminal where
  /-- The time, in milliseconds since the terminal was made. -/
  clock : Nat := 0
  mode : TermMode := .cbreak
  /-- Input a read can take: everything in cbreak mode, whole lines in
  canonical mode. -/
  ready : List InputItem := []
  /-- Canonical mode: the line being typed, not yet readable. -/
  line : List UInt8 := []
  /-- Canonical mode: the next byte is taken literally. -/
  literalNext : Bool := false
  /-- Keys read and not yet taken. -/
  keys : Fifo UInt8 := Fifo.empty
  reader : ReaderState := .waiting (some keyReadWait)
  /-- Everything printed. -/
  output : String := ""

namespace Terminal

/-- How many keys the key queue holds. -/
def keyCapacity : Nat := 16

/-- The escape key. -/
def keyEsc : UInt8 := 27

/-- Where a terminal is needed and the input is not one. -/
inductive Failure where
  | noInput
  | noOutput
  | notTerminal
  deriving DecidableEq, Repr

/-- The message of a failure to make a terminal. -/
def Failure.message : Failure → String
  | .noInput => "easyterm: Terminal requires an input file"
  | .noOutput => "easyterm: Terminal requires an output file"
  | .notTerminal => "easyterm: inappropriate ioctl for device"

/-- The deadline of a read started now. -/
def readDeadline (t : Terminal) : Option Nat :=
  match t.mode with
  | .cbreak => some (t.clock + keyReadWait)
  | .canonical => none

/-- Lets the key reader take everything readable.  Each byte read is queued
(or lost when the queue is full) and starts a new read; an end mark stops the
reader. -/
def serve (t : Terminal) : Terminal :=
  match t.reader with
  | .stopped => t
  | .waiting _ => go t t.ready
where
  go (t : Terminal) : List InputItem → Terminal
    | [] => { t with ready := [] }
    | .endMark :: rest => { t with ready := rest, reader := .stopped }
    | .byte b :: rest =>
      let keys := if t.keys.size < keyCapacity then t.keys.push b else t.keys
      go { t with keys, reader := .waiting t.readDeadline } rest

/-- Moves the clock on; a read that reaches its deadline without input stops
the reader. -/
def advance (t : Terminal) (ms : Nat) : Terminal :=
  let now := t.clock + ms
  match t.reader with
  | .waiting (some d) => if d ≤ now then { t with clock := now, reader := .stopped } else { t with clock := now }
  | _ => { t with clock := now }

/-- Whether a byte is a letter, a digit or an underscore: part of a word for
word erase. -/
def wordByte (c : UInt8) : Bool :=
  (48 ≤ c && c ≤ 57) || (65 ≤ c && c ≤ 90) || (97 ≤ c && c ≤ 122) || c == 95

/-- Word erase on a line held newest byte first: trailing separators, then
the word before them. -/
def eraseWord : List UInt8 → Bool → List UInt8
  | [], _ => []
  | c :: rest, seen =>
    if wordByte c then eraseWord rest true
    else if seen then c :: rest
    else eraseWord rest false

/-- One typed byte through the line discipline. -/
def receive (t : Terminal) (c : UInt8) : Terminal :=
  if t.literalNext then { t with line := t.line ++ [c], literalNext := false }
  else if c == 0x11 || c == 0x13 then t
  else if c == 0x03 || c == 0x1c || c == 0x1a then { t with ready := [], line := [] }
  else
    let c := if c == 0x0d then 0x0a else c
    match t.mode with
    | .cbreak => { t with ready := t.ready ++ [.byte c] }
    | .canonical =>
      if c == 0x7f then { t with line := t.line.dropLast }
      else if c == 0x15 then { t with line := [] }
      else if c == 0x17 then { t with line := (eraseWord t.line.reverse false).reverse }
      else if c == 0x16 then { t with literalNext := true }
      else if c == 0x12 then t
      else if c == 0x0a then { t with ready := t.ready ++ (t.line ++ [c]).map .byte, line := [] }
      else if c == 0x04 then { t with ready := t.ready ++ t.line.map .byte ++ [.endMark], line := [] }
      else { t with line := t.line ++ [c] }

/-- Bytes typed at the keyboard, all at once; the key reader then takes what
it can. -/
def type (t : Terminal) (bytes : List UInt8) : Terminal :=
  serve (bytes.foldl receive t)

/-- Takes the oldest key, if there is one. -/
def key? (t : Terminal) : Option (UInt8 × Terminal) :=
  match t.keys.pop? with
  | some (k, keys) => some (k, { t with keys })
  | none => none

/-- Waits up to `ms` milliseconds for a key. -/
def waitKey (t : Terminal) (ms : Nat) : Option UInt8 × Terminal :=
  match t.key? with
  | some (k, t) => (some k, t)
  | none => (none, t.advance ms)

/-- Prints text. -/
def print (t : Terminal) (s : String) : Terminal := { t with output := t.output ++ s }

/-- Changes how input is treated.  Readable input and the line being typed
are kept: leaving canonical mode makes the line readable, and end marks
become zero bytes; entering it makes what is readable one line. -/
def setMode (t : Terminal) (m : TermMode) : Terminal :=
  if t.mode = m then t
  else
    let items := t.ready.map (fun i => match i with
      | .byte b => InputItem.byte b
      | .endMark => InputItem.byte 0) ++ t.line.map .byte
    serve { t with mode := m, ready := items, line := [], literalNext := false }

/-- Stops the key reader, once its read has ended, and restores canonical
mode. -/
def cleanUp (t : Terminal) : Terminal :=
  let t := match t.reader with
    | .waiting (some d) => { t with clock := max t.clock d, reader := .stopped }
    | _ => { t with reader := .stopped }
  t.setMode .canonical

end Terminal

end TapeDeck
