/-!
# Durations

A duration is a whole number of nanoseconds, and is written the way a
stopwatch reads.  Below a second it takes the largest unit that fits
(`ns`, `µs`, `ms`) with the rest as a decimal fraction: `85.971µs`, `14ms`.
From a second on it counts hours, minutes and seconds, leaving out leading
zero units, with the rest of a second as a fraction: `5.605481853s`,
`1m2.5s`, `2h0m0s`.  A fraction drops its trailing zeros, and its point when
nothing is left; zero is `0s`.

`roundTo` rounds to a multiple of a unit, a half away from zero.
-/

namespace TapeDeck.Duration

/-- Nanoseconds per microsecond, millisecond and second. -/
def micro : Nat := 1000
/-- Nanoseconds per millisecond. -/
def milli : Nat := 1000000
/-- Nanoseconds per second. -/
def second : Nat := 1000000000

/-- The digits of `v` after a point, `prec` of them, trailing zeros dropped,
with the point; empty when they are all zero. -/
def fraction (v prec : Nat) : String :=
  let ds := (List.range prec).reverse.map fun i => Char.ofNat (48 + (v / Nat.pow 10 i) % 10)
  let ds := (ds.reverse.dropWhile (· = '0')).reverse
  if ds.isEmpty then "" else "." ++ String.ofList ds

/-- The text of a number of nanoseconds, not negative. -/
def textNat (u : Nat) : String :=
  if u = 0 then "0s"
  else if u < micro then toString u ++ "ns"
  else if u < milli then toString (u / micro) ++ fraction (u % micro) 3 ++ "µs"
  else if u < second then toString (u / milli) ++ fraction (u % milli) 6 ++ "ms"
  else
    let secs := u / second
    let frac := fraction (u % second) 9
    let s := toString (secs % 60) ++ frac ++ "s"
    let mins := secs / 60
    if mins = 0 then s
    else
      let m := toString (mins % 60) ++ "m" ++ s
      let hours := mins / 60
      if hours = 0 then m else toString hours ++ "h" ++ m

/-- The text of a duration in nanoseconds. -/
def text (d : Int) : String :=
  if d < 0 then "-" ++ textNat d.natAbs else textNat d.natAbs

/-- A duration rounded to a multiple of a positive unit, a half away from
zero; any duration stays as it is for a unit that is not positive. -/
def roundTo (d m : Int) : Int :=
  if m ≤ 0 then d
  else
    let r := d.natAbs % m.natAbs
    let down := d.natAbs - r
    let mag := if r + r < m.natAbs then down else down + m.natAbs
    if d < 0 then -(mag : Int) else mag

end TapeDeck.Duration
