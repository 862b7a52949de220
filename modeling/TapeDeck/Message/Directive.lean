import TapeDeck.Text.Hex

/-!
# Message directives

Messages of this library are written as *patterns*: text in which a
directive such as `%v`, `%d` or `%#06x` stands for the next value.  A
directive is a percent sign, flags, an optional width and precision, and a
verb.  This module holds the directives and the layout of numbers and texts
under them.

* Flags: `#` asks for a base prefix, `0` pads numbers with zeros, `+` and a
  space give a sign to non-negative numbers, `-` pads on the right.
* The width is the least number of characters; padding is spaces, or zeros
  with `0` unless `-` is given.
* The precision of a number is its least number of digits; of a text, the
  most characters kept.

`layoutInt` writes an integer in base 2, 8, 10 or 16.  Zero padding to a
width counts as a precision, less one for a sign.  With `#`, base 16 is
marked `0x` (`0X` for upper case), base 8 by a leading zero and base 2 by
`0b`.  So `%#06x` of 14 is `0x00000e`: the six digits come before the mark.
-/

namespace TapeDeck.Message

/-- The flags, width and precision of one directive. -/
structure Flags where
  /-- `#`: alternate form. -/
  sharp : Bool := false
  /-- `0`: pad with zeros on the left. -/
  zero : Bool := false
  /-- `+`: always give a sign. -/
  plus : Bool := false
  /-- `-`: pad on the right. -/
  minus : Bool := false
  /-- A space: a blank where a plus sign would go. -/
  space : Bool := false
  /-- Least number of characters. -/
  width : Option Nat := none
  /-- Digits of a number, or characters of a text. -/
  prec : Option Nat := none
deriving Inhabited

/-- The text padded to the width of the flags, counted in characters. -/
def pad (fl : Flags) (s : String) : String :=
  match fl.width with
  | none => s
  | some w =>
    let n := w - s.length
    let fill := if fl.zero && !fl.minus then '0' else ' '
    if fl.minus then s ++ String.ofList (List.replicate n ' ')
    else String.ofList (List.replicate n fill) ++ s

/-- The digits of `n` in a base, most significant first. -/
def digitsIn (base : Nat) (upper : Bool) (n : Nat) : List Char :=
  let d := if base = 16 then Hex.digits n
    else if base = 10 then (toString n).toList
    else Nat.toDigits base n
  if upper then d.map Char.toUpper else d

/-- An integer laid out under the flags, in a base. -/
def layoutInt (fl : Flags) (base : Nat) (upper : Bool) (n : Int) : String :=
  let neg := n < 0
  let u := n.natAbs
  match fl.prec with
  | some 0 =>
    if u = 0 then pad { fl with zero := false } "" else body neg u
  | _ => body neg u
where
  body (neg : Bool) (u : Nat) : String :=
    let prec : Nat :=
      match fl.prec with
      | some p => p
      | none =>
        match fl.width with
        | some w => if fl.zero && !fl.minus then
            (if neg || fl.plus || fl.space then w - 1 else w) else 0
        | none => 0
    let ds := digitsIn base upper u
    let ds := List.replicate (prec - ds.length) '0' ++ ds
    let ds :=
      if fl.sharp then
        if base = 16 then (if upper then ['0', 'X'] else ['0', 'x']) ++ ds
        else if base = 8 then (if ds.head? = some '0' then ds else '0' :: ds)
        else if base = 2 then ['0', 'b'] ++ ds
        else ds
      else ds
    let ds := if neg then '-' :: ds else if fl.plus then '+' :: ds
      else if fl.space then ' ' :: ds else ds
    pad { fl with zero := false } (String.ofList ds)

/-- A character is shown as itself inside quotes: printable and not a quote or backslash. -/
def plainInQuotes (c : Char) : Bool :=
  0x20 ≤ c.toNat ∧ c.toNat ≠ 0x7f ∧ c ≠ '"' ∧ c ≠ '\\'

/-- The escape of one character inside double quotes. -/
def escapeChar (c : Char) : String :=
  if plainInQuotes c then c.toString
  else match c with
    | '"' => "\\\""
    | '\\' => "\\\\"
    | '\n' => "\\n"
    | '\t' => "\\t"
    | '\r' => "\\r"
    | '\x07' => "\\a"
    | '\x08' => "\\b"
    | '\x0c' => "\\f"
    | '\x0b' => "\\v"
    | _ => "\\x" ++ Hex.padded 2 c.toNat

/-- A text in double quotes, with quotes, backslashes and control characters escaped. -/
def quote (s : String) : String := "\"" ++ String.join (s.toList.map escapeChar) ++ "\""

/-- A text laid out under a verb that takes texts: `s` and `v` as it is, `x`
and `X` as hex of its bytes, `q` quoted.  The precision keeps at most that
many characters.  Other verbs are refused. -/
def layoutText (fl : Flags) (verb : Char) (s : String) : Option String :=
  let s := match fl.prec with
    | some p => String.ofList (s.toList.take p)
    | none => s
  match verb with
  | 's' | 'v' => some (pad fl s)
  | 'x' | 'X' =>
    let h := String.join (s.toUTF8.toList.map Hex.byte)
    let h := if verb = 'X' then h.toUpper else h
    some (pad fl ((if fl.sharp then (if verb = 'X' then "0X" else "0x") else "") ++ h))
  | 'q' => some (pad fl (quote s))
  | _ => none

/-- An integer laid out under a verb that takes numbers, or refused. -/
def layoutNumber (fl : Flags) (verb : Char) (n : Int) : Option String :=
  match verb with
  | 'v' | 'd' => some (layoutInt fl 10 false n)
  | 'b' => some (layoutInt fl 2 false n)
  | 'o' => some (layoutInt fl 8 false n)
  | 'x' => some (layoutInt fl 16 false n)
  | 'X' => some (layoutInt fl 16 true n)
  | 'c' => some (pad fl (Char.ofNat n.toNat).toString)
  | 'q' => some (pad fl ("'" ++ escapeChar (Char.ofNat n.toNat) ++ "'"))
  | 'U' => some (pad fl ("U+" ++ (Hex.padded 4 n.toNat).toUpper))
  | _ => none

end TapeDeck.Message
