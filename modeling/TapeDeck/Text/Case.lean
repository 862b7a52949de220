/-!
# Letter case

Upper and lower case of Unicode letters, one character at a time, by the
simple case mappings of the Unicode character database.  A letter whose
capital is two letters, such as `ß`, keeps its case.

Each table row `(lo, hi, delta, step)` maps every `step`-th code point from
`lo` to `hi` to the code point `delta` away.  A step of two covers the
blocks where capital and small letters alternate.
-/

namespace TapeDeck.Case

/-- Rows of the map from small to capital letters. -/
def upperRanges : List (Nat × Nat × Int × Nat) :=
  [(0x61, 0x7a, -32, 1), (0xb5, 0xb5, 743, 1), (0xe0, 0xf6, -32, 1), (0xf8, 0xfe, -32, 1),
    (0xff, 0xff, 121, 1), (0x101, 0x12f, -1, 2), (0x131, 0x131, -232, 1), (0x133, 0x137, -1, 2),
    (0x13a, 0x148, -1, 2), (0x14b, 0x177, -1, 2), (0x17a, 0x17e, -1, 2), (0x17f, 0x17f, -300, 1),
    (0x180, 0x180, 195, 1), (0x183, 0x185, -1, 2), (0x188, 0x188, -1, 1), (0x18c, 0x18c, -1, 1),
    (0x192, 0x192, -1, 1), (0x195, 0x195, 97, 1), (0x199, 0x199, -1, 1), (0x19a, 0x19a, 163, 1),
    (0x19e, 0x19e, 130, 1), (0x1a1, 0x1a5, -1, 2), (0x1a8, 0x1a8, -1, 1), (0x1ad, 0x1ad, -1, 1),
    (0x1b0, 0x1b0, -1, 1), (0x1b4, 0x1b6, -1, 2), (0x1b9, 0x1b9, -1, 1), (0x1bd, 0x1bd, -1, 1),
    (0x1bf, 0x1bf, 56, 1), (0x1c5, 0x1c5, -1, 1), (0x1c6, 0x1c6, -2, 1), (0x1c8, 0x1c8, -1, 1),
    (0x1c9, 0x1c9, -2, 1), (0x1cb, 0x1cb, -1, 1), (0x1cc, 0x1cc, -2, 1), (0x1ce, 0x1dc, -1, 2),
    (0x1dd, 0x1dd, -79, 1), (0x1df, 0x1ef, -1, 2), (0x1f2, 0x1f2, -1, 1), (0x1f3, 0x1f3, -2, 1),
    (0x1f5, 0x1f5, -1, 1), (0x1f9, 0x21f, -1, 2), (0x223, 0x233, -1, 2), (0x23c, 0x23c, -1, 1),
    (0x23f, 0x240, 10815, 1), (0x242, 0x242, -1, 1), (0x247, 0x24f, -1, 2),
    (0x250, 0x250, 10783, 1), (0x251, 0x251, 10780, 1), (0x252, 0x252, 10782, 1),
    (0x253, 0x253, -210, 1), (0x254, 0x254, -206, 1), (0x256, 0x257, -205, 1),
    (0x259, 0x259, -202, 1), (0x25b, 0x25b, -203, 1), (0x25c, 0x25c, 42319, 1),
    (0x260, 0x260, -205, 1), (0x261, 0x261, 42315, 1), (0x263, 0x263, -207, 1),
    (0x265, 0x265, 42280, 1), (0x266, 0x266, 42308, 1), (0x268, 0x268, -209, 1),
    (0x269, 0x269, -211, 1), (0x26a, 0x26a, 42308, 1), (0x26b, 0x26b, 10743, 1),
    (0x26c, 0x26c, 42305, 1), (0x26f, 0x26f, -211, 1), (0x271, 0x271, 10749, 1),
    (0x272, 0x272, -213, 1), (0x275, 0x275, -214, 1), (0x27d, 0x27d, 10727, 1),
    (0x280, 0x280, -218, 1), (0x282, 0x282, 42307, 1), (0x283, 0x283, -218, 1),
    (0x287, 0x287, 42282, 1), (0x288, 0x288, -218, 1), (0x289, 0x289, -69, 1),
    (0x28a, 0x28b, -217, 1), (0x28c, 0x28c, -71, 1), (0x292, 0x292, -219, 1),
    (0x29d, 0x29d, 42261, 1), (0x29e, 0x29e, 42258, 1), (0x345, 0x345, 84, 1),
    (0x371, 0x373, -1, 2), (0x377, 0x377, -1, 1), (0x37b, 0x37d, 130, 1), (0x3ac, 0x3ac, -38, 1),
    (0x3ad, 0x3af, -37, 1), (0x3b1, 0x3c1, -32, 1), (0x3c2, 0x3c2, -31, 1),
    (0x3c3, 0x3cb, -32, 1), (0x3cc, 0x3cc, -64, 1), (0x3cd, 0x3ce, -63, 1),
    (0x3d0, 0x3d0, -62, 1), (0x3d1, 0x3d1, -57, 1), (0x3d5, 0x3d5, -47, 1),
    (0x3d6, 0x3d6, -54, 1), (0x3d7, 0x3d7, -8, 1), (0x3d9, 0x3ef, -1, 2), (0x3f0, 0x3f0, -86, 1),
    (0x3f1, 0x3f1, -80, 1), (0x3f2, 0x3f2, 7, 1), (0x3f3, 0x3f3, -116, 1),
    (0x3f5, 0x3f5, -96, 1), (0x3f8, 0x3f8, -1, 1), (0x3fb, 0x3fb, -1, 1), (0x430, 0x44f, -32, 1),
    (0x450, 0x45f, -80, 1), (0x461, 0x481, -1, 2), (0x48b, 0x4bf, -1, 2), (0x4c2, 0x4ce, -1, 2),
    (0x4cf, 0x4cf, -15, 1), (0x4d1, 0x52f, -1, 2), (0x561, 0x586, -48, 1),
    (0x10d0, 0x10fa, 3008, 1), (0x10fd, 0x10ff, 3008, 1), (0x13f8, 0x13fd, -8, 1),
    (0x1c80, 0x1c80, -6254, 1), (0x1c81, 0x1c81, -6253, 1), (0x1c82, 0x1c82, -6244, 1),
    (0x1c83, 0x1c84, -6242, 1), (0x1c85, 0x1c85, -6243, 1), (0x1c86, 0x1c86, -6236, 1),
    (0x1c87, 0x1c87, -6181, 1), (0x1c88, 0x1c88, 35266, 1), (0x1d79, 0x1d79, 35332, 1),
    (0x1d7d, 0x1d7d, 3814, 1), (0x1d8e, 0x1d8e, 35384, 1), (0x1e01, 0x1e95, -1, 2),
    (0x1e9b, 0x1e9b, -59, 1), (0x1ea1, 0x1eff, -1, 2), (0x1f00, 0x1f07, 8, 1),
    (0x1f10, 0x1f15, 8, 1), (0x1f20, 0x1f27, 8, 1), (0x1f30, 0x1f37, 8, 1),
    (0x1f40, 0x1f45, 8, 1), (0x1f51, 0x1f51, 8, 1), (0x1f53, 0x1f53, 8, 1),
    (0x1f55, 0x1f55, 8, 1), (0x1f57, 0x1f57, 8, 1), (0x1f60, 0x1f67, 8, 1),
    (0x1f70, 0x1f71, 74, 1), (0x1f72, 0x1f75, 86, 1), (0x1f76, 0x1f77, 100, 1),
    (0x1f78, 0x1f79, 128, 1), (0x1f7a, 0x1f7b, 112, 1), (0x1f7c, 0x1f7d, 126, 1),
    (0x1fb0, 0x1fb1, 8, 1), (0x1fbe, 0x1fbe, -7205, 1), (0x1fd0, 0x1fd1, 8, 1),
    (0x1fe0, 0x1fe1, 8, 1), (0x1fe5, 0x1fe5, 7, 1), (0x214e, 0x214e, -28, 1),
    (0x2170, 0x217f, -16, 1), (0x2184, 0x2184, -1, 1), (0x24d0, 0x24e9, -26, 1),
    (0x2c30, 0x2c5f, -48, 1), (0x2c61, 0x2c61, -1, 1), (0x2c65, 0x2c65, -10795, 1),
    (0x2c66, 0x2c66, -10792, 1), (0x2c68, 0x2c6c, -1, 2), (0x2c73, 0x2c73, -1, 1),
    (0x2c76, 0x2c76, -1, 1), (0x2c81, 0x2ce3, -1, 2), (0x2cec, 0x2cee, -1, 2),
    (0x2cf3, 0x2cf3, -1, 1), (0x2d00, 0x2d25, -7264, 1), (0x2d27, 0x2d27, -7264, 1),
    (0x2d2d, 0x2d2d, -7264, 1), (0xa641, 0xa66d, -1, 2), (0xa681, 0xa69b, -1, 2),
    (0xa723, 0xa72f, -1, 2), (0xa733, 0xa76f, -1, 2), (0xa77a, 0xa77c, -1, 2),
    (0xa77f, 0xa787, -1, 2), (0xa78c, 0xa78c, -1, 1), (0xa791, 0xa793, -1, 2),
    (0xa794, 0xa794, 48, 1), (0xa797, 0xa7a9, -1, 2), (0xa7b5, 0xa7c3, -1, 2),
    (0xa7c8, 0xa7ca, -1, 2), (0xa7d1, 0xa7d1, -1, 1), (0xa7d7, 0xa7d9, -1, 2),
    (0xa7f6, 0xa7f6, -1, 1), (0xab53, 0xab53, -928, 1), (0xab70, 0xabbf, -38864, 1),
    (0xff41, 0xff5a, -32, 1), (0x10428, 0x1044f, -40, 1), (0x104d8, 0x104fb, -40, 1),
    (0x10597, 0x105a1, -39, 1), (0x105a3, 0x105b1, -39, 1), (0x105b3, 0x105b9, -39, 1),
    (0x105bb, 0x105bc, -39, 1), (0x10cc0, 0x10cf2, -64, 1), (0x118c0, 0x118df, -32, 1),
    (0x16e60, 0x16e7f, -32, 1), (0x1e922, 0x1e943, -34, 1)]

/-- Rows of the map from capital to small letters. -/
def lowerRanges : List (Nat × Nat × Int × Nat) :=
  [(0x41, 0x5a, 32, 1), (0xc0, 0xd6, 32, 1), (0xd8, 0xde, 32, 1), (0x100, 0x12e, 1, 2),
    (0x130, 0x130, -199, 1), (0x132, 0x136, 1, 2), (0x139, 0x147, 1, 2), (0x14a, 0x176, 1, 2),
    (0x178, 0x178, -121, 1), (0x179, 0x17d, 1, 2), (0x181, 0x181, 210, 1), (0x182, 0x184, 1, 2),
    (0x186, 0x186, 206, 1), (0x187, 0x187, 1, 1), (0x189, 0x18a, 205, 1), (0x18b, 0x18b, 1, 1),
    (0x18e, 0x18e, 79, 1), (0x18f, 0x18f, 202, 1), (0x190, 0x190, 203, 1), (0x191, 0x191, 1, 1),
    (0x193, 0x193, 205, 1), (0x194, 0x194, 207, 1), (0x196, 0x196, 211, 1),
    (0x197, 0x197, 209, 1), (0x198, 0x198, 1, 1), (0x19c, 0x19c, 211, 1), (0x19d, 0x19d, 213, 1),
    (0x19f, 0x19f, 214, 1), (0x1a0, 0x1a4, 1, 2), (0x1a6, 0x1a6, 218, 1), (0x1a7, 0x1a7, 1, 1),
    (0x1a9, 0x1a9, 218, 1), (0x1ac, 0x1ac, 1, 1), (0x1ae, 0x1ae, 218, 1), (0x1af, 0x1af, 1, 1),
    (0x1b1, 0x1b2, 217, 1), (0x1b3, 0x1b5, 1, 2), (0x1b7, 0x1b7, 219, 1), (0x1b8, 0x1b8, 1, 1),
    (0x1bc, 0x1bc, 1, 1), (0x1c4, 0x1c4, 2, 1), (0x1c5, 0x1c5, 1, 1), (0x1c7, 0x1c7, 2, 1),
    (0x1c8, 0x1c8, 1, 1), (0x1ca, 0x1ca, 2, 1), (0x1cb, 0x1db, 1, 2), (0x1de, 0x1ee, 1, 2),
    (0x1f1, 0x1f1, 2, 1), (0x1f2, 0x1f4, 1, 2), (0x1f6, 0x1f6, -97, 1), (0x1f7, 0x1f7, -56, 1),
    (0x1f8, 0x21e, 1, 2), (0x220, 0x220, -130, 1), (0x222, 0x232, 1, 2),
    (0x23a, 0x23a, 10795, 1), (0x23b, 0x23b, 1, 1), (0x23d, 0x23d, -163, 1),
    (0x23e, 0x23e, 10792, 1), (0x241, 0x241, 1, 1), (0x243, 0x243, -195, 1),
    (0x244, 0x244, 69, 1), (0x245, 0x245, 71, 1), (0x246, 0x24e, 1, 2), (0x370, 0x372, 1, 2),
    (0x376, 0x376, 1, 1), (0x37f, 0x37f, 116, 1), (0x386, 0x386, 38, 1), (0x388, 0x38a, 37, 1),
    (0x38c, 0x38c, 64, 1), (0x38e, 0x38f, 63, 1), (0x391, 0x3a1, 32, 1), (0x3a3, 0x3ab, 32, 1),
    (0x3cf, 0x3cf, 8, 1), (0x3d8, 0x3ee, 1, 2), (0x3f4, 0x3f4, -60, 1), (0x3f7, 0x3f7, 1, 1),
    (0x3f9, 0x3f9, -7, 1), (0x3fa, 0x3fa, 1, 1), (0x3fd, 0x3ff, -130, 1), (0x400, 0x40f, 80, 1),
    (0x410, 0x42f, 32, 1), (0x460, 0x480, 1, 2), (0x48a, 0x4be, 1, 2), (0x4c0, 0x4c0, 15, 1),
    (0x4c1, 0x4cd, 1, 2), (0x4d0, 0x52e, 1, 2), (0x531, 0x556, 48, 1), (0x10a0, 0x10c5, 7264, 1),
    (0x10c7, 0x10c7, 7264, 1), (0x10cd, 0x10cd, 7264, 1), (0x13a0, 0x13ef, 38864, 1),
    (0x13f0, 0x13f5, 8, 1), (0x1c90, 0x1cba, -3008, 1), (0x1cbd, 0x1cbf, -3008, 1),
    (0x1e00, 0x1e94, 1, 2), (0x1e9e, 0x1e9e, -7615, 1), (0x1ea0, 0x1efe, 1, 2),
    (0x1f08, 0x1f0f, -8, 1), (0x1f18, 0x1f1d, -8, 1), (0x1f28, 0x1f2f, -8, 1),
    (0x1f38, 0x1f3f, -8, 1), (0x1f48, 0x1f4d, -8, 1), (0x1f59, 0x1f59, -8, 1),
    (0x1f5b, 0x1f5b, -8, 1), (0x1f5d, 0x1f5d, -8, 1), (0x1f5f, 0x1f5f, -8, 1),
    (0x1f68, 0x1f6f, -8, 1), (0x1f88, 0x1f8f, -8, 1), (0x1f98, 0x1f9f, -8, 1),
    (0x1fa8, 0x1faf, -8, 1), (0x1fb8, 0x1fb9, -8, 1), (0x1fba, 0x1fbb, -74, 1),
    (0x1fbc, 0x1fbc, -9, 1), (0x1fc8, 0x1fcb, -86, 1), (0x1fcc, 0x1fcc, -9, 1),
    (0x1fd8, 0x1fd9, -8, 1), (0x1fda, 0x1fdb, -100, 1), (0x1fe8, 0x1fe9, -8, 1),
    (0x1fea, 0x1feb, -112, 1), (0x1fec, 0x1fec, -7, 1), (0x1ff8, 0x1ff9, -128, 1),
    (0x1ffa, 0x1ffb, -126, 1), (0x1ffc, 0x1ffc, -9, 1), (0x2126, 0x2126, -7517, 1),
    (0x212a, 0x212a, -8383, 1), (0x212b, 0x212b, -8262, 1), (0x2132, 0x2132, 28, 1),
    (0x2160, 0x216f, 16, 1), (0x2183, 0x2183, 1, 1), (0x24b6, 0x24cf, 26, 1),
    (0x2c00, 0x2c2f, 48, 1), (0x2c60, 0x2c60, 1, 1), (0x2c62, 0x2c62, -10743, 1),
    (0x2c63, 0x2c63, -3814, 1), (0x2c64, 0x2c64, -10727, 1), (0x2c67, 0x2c6b, 1, 2),
    (0x2c6d, 0x2c6d, -10780, 1), (0x2c6e, 0x2c6e, -10749, 1), (0x2c6f, 0x2c6f, -10783, 1),
    (0x2c70, 0x2c70, -10782, 1), (0x2c72, 0x2c72, 1, 1), (0x2c75, 0x2c75, 1, 1),
    (0x2c7e, 0x2c7f, -10815, 1), (0x2c80, 0x2ce2, 1, 2), (0x2ceb, 0x2ced, 1, 2),
    (0x2cf2, 0x2cf2, 1, 1), (0xa640, 0xa66c, 1, 2), (0xa680, 0xa69a, 1, 2),
    (0xa722, 0xa72e, 1, 2), (0xa732, 0xa76e, 1, 2), (0xa779, 0xa77b, 1, 2),
    (0xa77d, 0xa77d, -35332, 1), (0xa77e, 0xa786, 1, 2), (0xa78b, 0xa78b, 1, 1),
    (0xa78d, 0xa78d, -42280, 1), (0xa790, 0xa792, 1, 2), (0xa796, 0xa7a8, 1, 2),
    (0xa7aa, 0xa7aa, -42308, 1), (0xa7ab, 0xa7ab, -42319, 1), (0xa7ac, 0xa7ac, -42315, 1),
    (0xa7ad, 0xa7ad, -42305, 1), (0xa7ae, 0xa7ae, -42308, 1), (0xa7b0, 0xa7b0, -42258, 1),
    (0xa7b1, 0xa7b1, -42282, 1), (0xa7b2, 0xa7b2, -42261, 1), (0xa7b3, 0xa7b3, 928, 1),
    (0xa7b4, 0xa7c2, 1, 2), (0xa7c4, 0xa7c4, -48, 1), (0xa7c5, 0xa7c5, -42307, 1),
    (0xa7c6, 0xa7c6, -35384, 1), (0xa7c7, 0xa7c9, 1, 2), (0xa7d0, 0xa7d0, 1, 1),
    (0xa7d6, 0xa7d8, 1, 2), (0xa7f5, 0xa7f5, 1, 1), (0xff21, 0xff3a, 32, 1),
    (0x10400, 0x10427, 40, 1), (0x104b0, 0x104d3, 40, 1), (0x10570, 0x1057a, 39, 1),
    (0x1057c, 0x1058a, 39, 1), (0x1058c, 0x10592, 39, 1), (0x10594, 0x10595, 39, 1),
    (0x10c80, 0x10cb2, 64, 1), (0x118a0, 0x118bf, 32, 1), (0x16e40, 0x16e5f, 32, 1),
    (0x1e900, 0x1e921, 34, 1)]

/-- A code point mapped by a table, or kept when no row covers it. -/
def mapBy (rows : List (Nat × Nat × Int × Nat)) (c : Char) : Char :=
  let n := c.toNat
  match rows.find? (fun (lo, hi, _, step) => lo ≤ n ∧ n ≤ hi ∧ (n - lo) % step = 0) with
  | some (_, _, d, _) => Char.ofNat (n + d).toNat
  | none => c

/-- The capital of a letter; other characters are kept. -/
def upper (c : Char) : Char :=
  if c.toNat < 0x80 then c.toUpper else mapBy upperRanges c

/-- The small form of a letter; other characters are kept. -/
def lower (c : Char) : Char :=
  if c.toNat < 0x80 then c.toLower else mapBy lowerRanges c

/-- A text in capitals. -/
def upperText (s : String) : String := String.map upper s

/-- A text in small letters. -/
def lowerText (s : String) : String := String.map lower s

end TapeDeck.Case
