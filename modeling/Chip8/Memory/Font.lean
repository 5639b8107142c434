/-!
# The hexadecimal font

Sixteen glyphs of five rows, one byte a row, stand in memory from `Font.start` on, so that a
program can draw the hexadecimal digits as sprites.
-/

namespace Chip8

namespace Font

/-- The address of the first glyph. -/
def start : Nat := 0x50

/-- Rows, and so bytes, of a glyph. -/
def glyphHeight : Nat := 5

/-- The glyphs of the digits 0 to F in turn. -/
def glyphs : List UInt8 :=
  [0xF0, 0x90, 0x90, 0x90, 0xF0,
   0x20, 0x60, 0x20, 0x20, 0x70,
   0xF0, 0x10, 0xF0, 0x80, 0xF0,
   0xF0, 0x10, 0xF0, 0x10, 0xF0,
   0x90, 0x90, 0xF0, 0x10, 0x10,
   0xF0, 0x80, 0xF0, 0x10, 0xF0,
   0xF0, 0x80, 0xF0, 0x90, 0xF0,
   0xF0, 0x10, 0x20, 0x40, 0x40,
   0xF0, 0x90, 0xF0, 0x90, 0xF0,
   0xF0, 0x90, 0xF0, 0x10, 0xF0,
   0xF0, 0x90, 0xF0, 0x90, 0x90,
   0xE0, 0x90, 0xE0, 0x90, 0xE0,
   0xF0, 0x80, 0x80, 0x80, 0xF0,
   0xE0, 0x90, 0x90, 0x90, 0xE0,
   0xF0, 0x80, 0xF0, 0x80, 0xF0,
   0xF0, 0x80, 0xF0, 0x80, 0x80]

/-- Where the glyph of a digit starts; only the low four bits of `digit` count. -/
def glyphAddress (digit : UInt8) : Nat :=
  start + digit.toNat % 16 * glyphHeight

theorem glyphAddress_le (digit : UInt8) : glyphAddress digit ≤ 0x9B := by
  unfold glyphAddress start glyphHeight
  omega

end Font

end Chip8
