import TapeDeck.Block.Timing

/-!
# Playback events

As a session reads a tape it tells an observer what it does with each block:
whether it queued the block for the generator, skipped it, or entered,
ignored, repeated or left a loop.  An event names the block by its offset in
the file, its format and, for TZX, its ID, and carries the timing decoded
from its header.

An event reads `0x000015: TAP block (19 bytes) queued` for a TAP block and
`0x00000d: pure tone queued` for a TZX block.
-/

namespace TapeDeck

/-- What a session did with a block. -/
inductive Action where
  /-- Sent to the generator. -/
  | queued
  /-- Passed over. -/
  | skipped
  /-- A loop was entered. -/
  | loopStart
  /-- A loop nested too deep was passed over. -/
  | loopIgnored
  /-- The end of a loop sent the tape back to its start. -/
  | loopRepeat
  /-- A loop was left. -/
  | loopEnd
deriving DecidableEq, Repr, Inhabited

namespace Action

/-- The name of an action. -/
def name : Action → String
  | .queued => "queued"
  | .skipped => "skipped"
  | .loopStart => "loop start"
  | .loopIgnored => "loop ignored"
  | .loopRepeat => "loop repeat"
  | .loopEnd => "loop end"

/-- The action with a numeric code, in the order above. -/
def ofCode? : Int → Option Action
  | 0 => some .queued
  | 1 => some .skipped
  | 2 => some .loopStart
  | 3 => some .loopIgnored
  | 4 => some .loopRepeat
  | 5 => some .loopEnd
  | _ => none

/-- The name of a numeric code, `unknown action` when it names no action. -/
def codeName (n : Int) : String := ((ofCode? n).map name).getD "unknown action"

end Action

/-- A block met by a session and what was done with it. -/
structure Event where
  /-- Offset of the block in the file. -/
  offset : Nat
  /-- ID of a TZX block; 0 for TAP. -/
  id : BlockId
  /-- Format of the file. -/
  format : Format
  /-- Timing decoded from the block's header. -/
  timing : Timing
  /-- What was done. -/
  action : Action
deriving DecidableEq, Repr, Inhabited

namespace Event

/-- One line about the event, the offset first. -/
def text (e : Event) : String :=
  match e.format with
  | .tap => s!"{Hex.marked 6 e.offset}: TAP block ({e.timing.length} bytes) {e.action.name}"
  | .tzx => s!"{Hex.marked 6 e.offset}: {BlockId.name e.id} {e.action.name}"

end Event

end TapeDeck
