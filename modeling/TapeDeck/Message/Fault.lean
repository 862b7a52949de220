import TapeDeck.Message.Value

/-!
# Faults

The errors of this library are message values of two kinds: a *failure*
with a fixed message, as the system reports when a file cannot be opened,
and a *fault*, a pattern filled with values, which may themselves be
errors.  A fault's message is condensed (see `Message.condense`), so a fault
that wraps an error already naming the same part says it once.

A fault is asked about by its pattern: `hasPattern` looks at the fault
itself and `mentions` also at the faults among its values, at any depth.
Its *cause* is the first error among its values.
-/

namespace TapeDeck.Message

namespace Value

/-- The fault with a pattern and values. -/
def mkFault (pattern : String) (values : List Value := []) : Value := .fault pattern values

/-- The message of a value; for an error, the text it reports. -/
def message (v : Value) : String := v.display

/-- Whether a value is an error, a failure or a fault. -/
def isError : Value → Bool
  | .failure _ _ | .fault _ _ => true
  | _ => false

/-- Whether a value is a fault. -/
def isFault : Value → Bool
  | .fault _ _ => true
  | _ => false

/-- Whether a value is a fault with exactly this pattern. -/
def hasPattern (p : String) : Value → Bool
  | .fault q _ => q == p
  | _ => false

/-- The first error among the values of a fault. -/
def cause? : Value → Option Value
  | .fault _ vs => vs.find? isError
  | _ => none

mutual

/-- Whether a fault, or a fault among its values at any depth, has this pattern. -/
def mentions (p : String) : Value → Bool
  | .fault q vs => q == p || mentionsAny p vs
  | _ => false

/-- Whether some fault of a list mentions this pattern. -/
def mentionsAny (p : String) : List Value → Bool
  | [] => false
  | v :: vs => mentions p v || mentionsAny p vs

end

end Value

end TapeDeck.Message
