import TapeDeck.Text.Hex

/-!
# SHA-1

The SHA-1 digest of a byte string, as the secure hash standard defines it:
the message is padded with a one bit, zeros and its bit length to a
multiple of 64 bytes, and each 64-byte block is mixed into five 32-bit
words by eighty rounds.  Tapes are named by the lowercase hex of their
digest.
-/

namespace TapeDeck.Sha1

/-- A word rotated left. -/
def rotl (x : UInt32) (n : UInt32) : UInt32 := (x <<< n) ||| (x >>> (32 - n))

/-- The big-endian word at a byte offset. -/
def wordAt (b : ByteArray) (i : Nat) : UInt32 :=
  (b.get! i).toUInt32 <<< 24 ||| (b.get! (i + 1)).toUInt32 <<< 16 |||
    (b.get! (i + 2)).toUInt32 <<< 8 ||| (b.get! (i + 3)).toUInt32

/-- The message schedule of the block at a byte offset: 80 words. -/
def schedule (b : ByteArray) (off : Nat) : Array UInt32 := Id.run do
  let mut w : Array UInt32 := Array.mkEmpty 80
  for t in [0:16] do
    w := w.push (wordAt b (off + 4 * t))
  for t in [16:80] do
    w := w.push (rotl (w[t - 3]! ^^^ w[t - 8]! ^^^ w[t - 14]! ^^^ w[t - 16]!) 1)
  return w

/-- The round function and constant of round `t`. -/
def mix (t : Nat) (b c d : UInt32) : UInt32 × UInt32 :=
  if t < 20 then ((b &&& c) ||| ((~~~b) &&& d), 0x5A827999)
  else if t < 40 then (b ^^^ c ^^^ d, 0x6ED9EBA1)
  else if t < 60 then ((b &&& c) ||| (b &&& d) ||| (c &&& d), 0x8F1BBCDC)
  else (b ^^^ c ^^^ d, 0xCA62C1D6)

/-- The state after one block. -/
def block (h : UInt32 × UInt32 × UInt32 × UInt32 × UInt32) (b : ByteArray) (off : Nat) :
    UInt32 × UInt32 × UInt32 × UInt32 × UInt32 := Id.run do
  let w := schedule b off
  let (h0, h1, h2, h3, h4) := h
  let mut a := h0
  let mut bb := h1
  let mut c := h2
  let mut d := h3
  let mut e := h4
  for t in [0:80] do
    let (f, k) := mix t bb c d
    let tmp := rotl a 5 + f + e + k + w[t]!
    e := d
    d := c
    c := rotl bb 30
    bb := a
    a := tmp
  return (h0 + a, h1 + bb, h2 + c, h3 + d, h4 + e)

/-- The message padded to whole blocks. -/
def padded (m : ByteArray) : ByteArray := Id.run do
  let bits := m.size * 8
  let mut p := m.push 0x80
  for _ in [0:(119 - m.size % 64) % 64] do
    p := p.push 0
  for i in [0:8] do
    p := p.push (bits >>> (8 * (7 - i))).toUInt8
  return p

/-- The twenty digest bytes of a message. -/
def digest (m : ByteArray) : List UInt8 := Id.run do
  let p := padded m
  let mut h : UInt32 × UInt32 × UInt32 × UInt32 × UInt32 :=
    (0x67452301, 0xEFCDAB89, 0x98BADCFE, 0x10325476, 0xC3D2E1F0)
  for i in [0:p.size / 64] do
    h := block h p (64 * i)
  let (h0, h1, h2, h3, h4) := h
  return [h0, h1, h2, h3, h4].flatMap fun (x : UInt32) =>
    [(x >>> 24).toUInt8, (x >>> 16).toUInt8, (x >>> 8).toUInt8, x.toUInt8]

/-- The digest in lowercase hex, forty digits. -/
def hex (m : ByteArray) : String := Hex.ofBytes (digest m)

end TapeDeck.Sha1
