/-!
# Pulses and the queue register

A *pulse* is a width in clock ticks and a level.  A high pulse flips the
signal; a low pulse holds it low.

The pulse queue shows its head through a 32-bit *register*.  The low fifteen
bits hold the width, bit 15 the level, and four status bits at the top say
whether the queue was empty or full when read, and whether a push was lost to
a full queue or a pop found it empty since the last read.  Since a width has
fifteen bits, a pulse is clamped to `maxWidth` when it goes into the queue.
-/

namespace TapeDeck

/-- A pulse: a width in clock ticks and a level. -/
structure Pulse where
  /-- Width in ticks. -/
  width : UInt32
  /-- Whether the pulse is high. -/
  high : Bool
deriving DecidableEq, Repr, Inhabited

/-- The widest pulse the queue holds. -/
def maxWidth : UInt32 := 0x7fff

/-- A queue register word. -/
structure Register where
  /-- The 32 bits. -/
  bits : UInt32
deriving DecidableEq, Repr, Inhabited

namespace Register

/-- Bits of the width. -/
def widthMask : UInt32 := 0x00007fff
/-- The level bit. -/
def levelMask : UInt32 := 0x00008000
/-- The sixteen data bits: width and level, as the queue stores them. -/
def dataMask : UInt32 := widthMask ||| levelMask
/-- Set when a pop found the queue empty since the last read. -/
def underflowMask : UInt32 := 0x10000000
/-- Set when a push found the queue full since the last read. -/
def overflowMask : UInt32 := 0x20000000
/-- Set when the queue was full at the read. -/
def fullMask : UInt32 := 0x40000000
/-- Set when the queue was empty at the read. -/
def emptyMask : UInt32 := 0x80000000

/-- The register of a pulse, its width clamped to fifteen bits. -/
def ofPulse (p : Pulse) : Register :=
  ⟨min p.width maxWidth ||| (if p.high then levelMask else 0)⟩

/-- The width field. -/
def width (r : Register) : UInt32 := r.bits &&& widthMask

/-- The level bit. -/
def high (r : Register) : Bool := r.bits &&& levelMask == levelMask

/-- The pulse held in the width and level fields. -/
def pulse (r : Register) : Pulse := ⟨r.width, r.high⟩

/-- The sixteen data bits, width and level, as the queue stores them. -/
def data (r : Register) : UInt16 := (r.bits &&& dataMask).toUInt16

/-- The register of stored data bits, every status bit clear. -/
def ofData (d : UInt16) : Register := ⟨d.toUInt32⟩

/-- The underflow flag. -/
def underflow (r : Register) : Bool := r.bits &&& underflowMask == underflowMask
/-- The overflow flag. -/
def overflow (r : Register) : Bool := r.bits &&& overflowMask == overflowMask
/-- The full flag. -/
def full (r : Register) : Bool := r.bits &&& fullMask == fullMask
/-- The empty flag. -/
def empty (r : Register) : Bool := r.bits &&& emptyMask == emptyMask

/-- The register with a mask set when a condition holds. -/
def setIf (r : Register) (c : Bool) (mask : UInt32) : Register :=
  if c then ⟨r.bits ||| mask⟩ else r

/-- A short account: level and width, then each status flag set. -/
def text (r : Register) : String :=
  (if r.high then "high " else "low ") ++ toString r.width.toNat ++
    (if r.empty then " [empty]" else "") ++
    (if r.full then " [full]" else "") ++
    (if r.overflow then " [overflow]" else "") ++
    (if r.underflow then " [underflow]" else "")

end Register

/-- A pulse with its width clamped to what the queue holds. -/
def Pulse.clamp (p : Pulse) : Pulse := (Register.ofPulse p).pulse

end TapeDeck
