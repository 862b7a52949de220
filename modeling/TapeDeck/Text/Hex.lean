/-!
# Hexadecimal numerals

Offsets, block IDs and digests are shown in lowercase hexadecimal.  A
*marked* numeral starts with `0x`; a *padded* one has at least a given number
of digits after the mark, zeros filling the front.  So the offset 14 in a
six-digit listing is `0x00000e`, and the byte 0 in a two-digit one is `0x00`.

`digits_length` says the plain numeral of `n` is never empty, so padding to
one digit changes nothing.
-/

namespace TapeDeck.Hex

/-- The lowercase hexadecimal digit of a value below 16. -/
def digitChar (d : Nat) : Char :=
  if d < 10 then Char.ofNat (48 + d) else Char.ofNat (87 + d)

/-- The digits of `n` in base 16, most significant first; `0` has the one digit `0`. -/
def digits (n : Nat) : List Char :=
  if _h : n < 16 then [digitChar n] else digits (n / 16) ++ [digitChar (n % 16)]
termination_by n
decreasing_by omega

/-- The plain numeral of `n`, without mark. -/
def plain (n : Nat) : String := String.ofList (digits n)

/-- The numeral of `n` with at least `width` digits, zeros in front. -/
def padded (width n : Nat) : String :=
  let ds := digits n
  String.ofList (List.replicate (width - ds.length) '0' ++ ds)

/-- The marked numeral of `n` with at least `width` digits after the mark. -/
def marked (width n : Nat) : String := "0x" ++ padded width n

/-- The two digits of a byte, as a hex dump writes them. -/
def byte (b : UInt8) : String := padded 2 b.toNat

/-- A byte string as a hex dump without separators. -/
def ofBytes (bs : List UInt8) : String := String.join (bs.map byte)

theorem digits_length (n : Nat) : 0 < (digits n).length := by
  rw [digits]
  split <;> simp

end TapeDeck.Hex
