import TapeDeck.Audio.Renderer
import TapeDeck.FileStore
import TapeDeck.Log
import TapeDeck.Text.Duration

/-!
# WAV files

A `WavWriter` renders pulses into samples and, when mixing ends, writes them
to a WAV file: 16-bit mono PCM at the renderer's rate.  The file is a
44-byte header (the `RIFF` chunk, the `fmt ` chunk and the head of the
`data` chunk, with little-endian sizes) and two bytes per sample.  Writing
logs how long the audio is, rounded to the millisecond.

Every error is a fault `wavwriter: ...`.
-/

namespace TapeDeck

open Message

/-- Pulses rendered for a WAV file. -/
structure WavWriter where
  /-- The file to write. -/
  filename : String
  /-- The renderer. -/
  renderer : Renderer
  /-- Levels of the samples so far, newest first. -/
  levels : List Bool := []

namespace WavWriter

/-- A writer; the name must not be empty and neither clock nor rate negative. -/
def create (filename : String) (clock rate : Int) : Except Value WavWriter :=
  if filename = "" then .error (.fault "wavwriter: %v" [.text "no filename"])
  else if clock < 0 ∨ rate < 0 then
    .error (.fault "wavwriter: %v" [.text "clock and sample rate must be positive"])
  else .ok { filename, renderer := Renderer.create clock rate }

/-- The writer after a pulse. -/
def pulse (w : WavWriter) (width : UInt32) (high : Bool) : WavWriter :=
  let (r, level, n) := w.renderer.pulse width high
  { w with renderer := r, levels := List.replicate n.toInt.toNat level ++ w.levels }

/-- The writer with no samples and its renderer reset. -/
def reset (w : WavWriter) : WavWriter := { w with levels := [], renderer := w.renderer.reset }

/-- Little-endian bytes of a 32-bit word. -/
def le32 (n : Nat) : List UInt8 := [n.toUInt8, (n >>> 8).toUInt8, (n >>> 16).toUInt8, (n >>> 24).toUInt8]

/-- Little-endian bytes of a 16-bit word. -/
def le16 (n : Nat) : List UInt8 := [n.toUInt8, (n >>> 8).toUInt8]

/-- The bytes of a text of ASCII. -/
def tag (s : String) : List UInt8 := s.toList.map fun c => c.toNat.toUInt8

/-- The 44-byte header of a mono 16-bit file of `n` samples at a rate. -/
def header (rate : Nat) (n : Nat) : List UInt8 :=
  let dataSize := 2 * n
  tag "RIFF" ++ le32 (36 + dataSize) ++ tag "WAVE" ++ tag "fmt " ++ le32 16 ++ le16 1 ++ le16 1 ++
    le32 rate ++ le32 (rate * 2) ++ le16 2 ++ le16 16 ++ tag "data" ++ le32 dataSize

/-- The bytes of the file. -/
def bytes (w : WavWriter) : ByteArray := Id.run do
  let samples := w.levels.reverse
  let mut out := ByteArray.mk (header w.renderer.rate.toInt.toNat samples.length).toArray
  let hi := (Renderer.sample true).toInt16.toUInt16
  let lo := (Renderer.sample false).toInt16.toUInt16
  for s in samples do
    let v := if s then hi else lo
    out := (out.push v.toUInt8).push (v >>> 8).toUInt8
  return out

/-- Writes the file to the store and logs it: the new store or why it could
not be written, the log, and the log's echo. -/
def endMixing (w : WavWriter) (fs : FileStore) (log : Log) : Except Value FileStore × Log × String :=
  match fs.create w.filename ByteArray.empty with
  | .error e => (.error (.fault "wavwriter: %v" [e]), log, "")
  | .ok _ =>
    let dur := Duration.text (Duration.roundTo w.renderer.nanos Duration.milli)
    let (log, echoed) := log.record .allow "wavwriter" ("writing " ++ dur ++ " of audio to " ++ w.filename)
    match fs.create w.filename w.bytes with
    | .error e => (.error (.fault "wavwriter: %v" [e]), log, echoed)
    | .ok fs => (.ok fs, log, echoed)

end WavWriter

end TapeDeck
