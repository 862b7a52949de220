/-!
# Numbers and truth values written as text

The command line gives numbers and truth values as text.  A number is read
as a 64-bit signed integer:

* an optional sign `+` or `-`;
* a base prefix: `0b` or `0B` for base 2, `0o` or `0O` for base 8, `0x` or
  `0X` for base 16, a lone leading `0` for base 8, otherwise base 10;
* digits of that base, letters in either case, with single underscores
  allowed between digits (and after a base prefix).

Reading stops at the first digit that would take the magnitude past
`2^64 - 1`; the number is then *out of range* whatever follows.  A number
out of range is clamped to the nearest of `-2^63` and `2^63 - 1`; a number
that is not well formed reads as `0`.

A truth value is one of `1 t T TRUE true True` or `0 f F FALSE false
False`; anything else is not well formed and reads as false.
-/

namespace TapeDeck.Number

/-- Why a text is not a number. -/
inductive Problem where
  /-- The text is not a well formed number. -/
  | malformed
  /-- The number does not fit in 64 bits. -/
  | outOfRange
  deriving DecidableEq, Repr

/-- Largest value of an unsigned 64-bit word. -/
def maxWord : Nat := Nat.pow 2 64 - 1

/-- The value of a digit character in bases up to 36, letters in either case. -/
def digitValue (c : Char) : Option Nat :=
  if '0' ≤ c ∧ c ≤ '9' then some (c.toNat - '0'.toNat)
  else if 'a' ≤ c ∧ c ≤ 'z' then some (c.toNat - 'a'.toNat + 10)
  else if 'A' ≤ c ∧ c ≤ 'Z' then some (c.toNat - 'A'.toNat + 10)
  else none

/-- The character as lower case, for ASCII letters. -/
def lowerAscii (c : Char) : Char :=
  if 'A' ≤ c ∧ c ≤ 'Z' then Char.ofNat (c.toNat + 32) else c

/-- Where underscores may stand: each one between two digits, or after a
base prefix and before a digit.  `last` is what came before: `0` for a digit
or a prefix, `_` for an underscore, `!` for anything else, `^` at the start. -/
def underscoresFit (hex : Bool) : Char → List Char → Bool
  | last, [] => last != '_'
  | last, c :: cs =>
    if ('0' ≤ c ∧ c ≤ '9') ∨ (hex ∧ 'a' ≤ lowerAscii c ∧ lowerAscii c ≤ 'f') then
      underscoresFit hex '0' cs
    else if c = '_' then
      if last = '0' then underscoresFit hex '_' cs else false
    else if last = '_' then false
    else underscoresFit hex '!' cs

/-- Whether the underscores of a number (sign removed) are placed well. -/
def underscoresOk (s : List Char) : Bool :=
  match s with
  | '0' :: p :: rest =>
    let q := lowerAscii p
    if q = 'b' ∨ q = 'o' ∨ q = 'x' then underscoresFit (q = 'x') '0' rest
    else underscoresFit false '^' s
  | _ => underscoresFit false '^' s

/-- The base a magnitude is written in and its digits, prefix removed. -/
def splitBase (s : List Char) : Nat × List Char :=
  match s with
  | '0' :: p :: d :: rest =>
    let q := lowerAscii p
    if q = 'b' then (2, d :: rest)
    else if q = 'o' then (8, d :: rest)
    else if q = 'x' then (16, d :: rest)
    else (8, p :: d :: rest)
  | '0' :: rest => (8, rest)
  | _ => (10, s)

/-- Accumulates digits in a base into `n`: the magnitude, or why there is
none.  The second component records whether an underscore was skipped. -/
def accumulate (base : Nat) : Nat → Bool → List Char → Except Problem (Nat × Bool)
  | n, seen, [] => .ok (n, seen)
  | n, seen, c :: cs =>
    if c = '_' then accumulate base n true cs
    else match digitValue c with
      | none => .error .malformed
      | some d =>
        if d ≥ base then .error .malformed
        else if n ≥ maxWord / base + 1 then .error .outOfRange
        else if n * base + d > maxWord then .error .outOfRange
        else accumulate base (n * base + d) seen cs

/-- Reads an unsigned magnitude (no sign) in the base its prefix gives. -/
def magnitude (s : List Char) : Except Problem Nat :=
  if s.isEmpty then .error .malformed
  else
    let (base, digits) := splitBase s
    match accumulate base 0 false digits with
    | .error p => .error p
    | .ok (n, seen) => if seen && !underscoresOk s then .error .malformed else .ok n

/-- Reads a signed 64-bit integer: the value kept, and the problem if the
text is not one.  The value kept is `0` for a malformed text and the clamped
value for one out of range. -/
def readInt (text : String) : Int × Option Problem :=
  let (neg, rest) := match text.toList with
    | '+' :: r => (false, r)
    | '-' :: r => (true, r)
    | r => (false, r)
  if text.isEmpty then (0, some .malformed)
  else match magnitude rest with
    | .error .malformed => (0, some .malformed)
    | .error .outOfRange =>
      if neg then (-Int.pow 2 63, some .outOfRange) else (Int.pow 2 63 - 1, some .outOfRange)
    | .ok n =>
      if !neg && n ≥ Nat.pow 2 63 then (Int.pow 2 63 - 1, some .outOfRange)
      else if neg && n > Nat.pow 2 63 then (-Int.pow 2 63, some .outOfRange)
      else (if neg then -(n : Int) else n, none)

example : readInt "0" = (0, none) := by decide
example : readInt "0x1_F" = (31, none) := by decide

/-- Reads a truth value: the value kept (false when the text is not one),
and whether the text was one. -/
def readBool (text : String) : Bool × Bool :=
  if ["1", "t", "T", "TRUE", "true", "True"].contains text then (true, true)
  else if ["0", "f", "F", "FALSE", "false", "False"].contains text then (false, true)
  else (false, false)

/-- What a problem is called in a message. -/
def Problem.text : Problem → String
  | .malformed => "parse error"
  | .outOfRange => "value out of range"

end TapeDeck.Number
