/-!
# The screen

The screen is a grid of 64 by 32 pixels, lit or dark.  A row is a word of 64 bits whose top bit is
the leftmost pixel.  The grid is a torus: columns count modulo 64 and rows modulo 32, so a sprite
that leaves on one side comes back on the other.

A sprite is a list of bytes, one byte for each row of eight pixels, the top bit leftmost.  Drawing
inverts the pixels under the set bits of the sprite.  Row after row, a sprite taller than the
screen meets its own earlier rows again.

## Main definitions

* `Screen.pixel`, `Screen.row`, `Screen.rowBytes`, `Screen.bytes`, `Screen.litCount`: the views.
* `Screen.draw`: the screen after drawing a sprite.
* `Screen.collides`: whether drawing it turns a lit pixel off.
* `Screen.text`: the picture as lines of text.
-/

namespace Chip8

/-- The 64 by 32 pixels. -/
structure Screen where
  /-- The rows from top to bottom. -/
  rows : Vector (BitVec 64) 32
  deriving DecidableEq

namespace Screen

/-- Pixels in a row. -/
def width : Nat := 64

/-- Rows. -/
def height : Nat := 32

/-- No pixel lit. -/
def dark : Screen :=
  ⟨Vector.replicate 32 0⟩

/-! ### Views -/

/-- Rows count modulo the height. -/
def wrapRow (y : Nat) : Fin 32 :=
  ⟨y % 32, Nat.mod_lt _ (by decide)⟩

/-- Row `y`, counted modulo the height. -/
def row (s : Screen) (y : Nat) : BitVec 64 :=
  s.rows[wrapRow y]

/-- Whether the pixel in column `x` of row `y` is lit; both wrap. -/
def pixel (s : Screen) (x y : Nat) : Bool :=
  (s.row y).getMsbD (x % 64)

/-- The eight bytes of a row word, leftmost pixels first. -/
def packRow (r : BitVec 64) : List UInt8 :=
  (List.range 8).map fun k => UInt8.ofBitVec (r.extractLsb' (56 - 8 * k) 8)

/-- The eight bytes of row `y`. -/
def rowBytes (s : Screen) (y : Nat) : List UInt8 :=
  packRow (s.row y)

/-- All 256 bytes, row after row. -/
def bytes (s : Screen) : List UInt8 :=
  s.rows.toList.flatMap packRow

/-- The number of lit pixels. -/
def litCount (s : Screen) : Nat :=
  s.rows.toList.foldr (fun r lit => r.cpop.toNat + lit) 0

/-! ### Drawing -/

/-- The bits of a row that a sprite byte with its left end in column `x` covers; the part that
leaves on the right comes back on the left of the same row. -/
def mask (x : Nat) (b : UInt8) : BitVec 64 :=
  ((b.toBitVec.setWidth 64) <<< 56).rotateRight (x % 64)

/-- The screen with the pixels of row `y` inverted where `bits` is set. -/
def invertRow (s : Screen) (y : Nat) (bits : BitVec 64) : Screen :=
  ⟨s.rows.set (wrapRow y) (s.row y ^^^ bits)⟩

/-- The screen with one pixel inverted; both coordinates wrap. -/
def invertPixel (s : Screen) (x y : Nat) : Screen :=
  s.invertRow y (BitVec.twoPow 64 (63 - x % 64))

/-- The screen after drawing a sprite with its top left corner in column `x` of row `y`. -/
def draw (s : Screen) (x y : Nat) : List UInt8 → Screen
  | [] => s
  | b :: rest => (s.invertRow y (mask x b)).draw x (y + 1) rest

/-- Whether drawing this sprite turns a lit pixel off, in whichever of its rows. -/
def collides (s : Screen) (x y : Nat) : List UInt8 → Bool
  | [] => false
  | b :: rest =>
    s.row y &&& mask x b ≠ 0 || (s.invertRow y (mask x b)).collides x (y + 1) rest

theorem row_invertRow (s : Screen) (y : Nat) (bits : BitVec 64) (z : Nat) :
    (s.invertRow y bits).row z = if z % 32 = y % 32 then s.row z ^^^ bits else s.row z := by
  by_cases h : z % 32 = y % 32
  · simp [row, invertRow, wrapRow, h]
  · simp [row, invertRow, wrapRow, h, Ne.symm h]

theorem draw_append (s : Screen) (x y : Nat) (top bottom : List UInt8) :
    s.draw x y (top ++ bottom) = (s.draw x y top).draw x (y + top.length) bottom := by
  induction top generalizing s y with
  | nil => rfl
  | cons b top ih => simp only [List.cons_append, draw, ih, List.length_cons, Nat.add_right_comm,
      Nat.add_assoc]

/-! ### Text -/

/-- A lit pixel is a full block, a dark one a space. -/
def pixelChar (lit : Bool) : Char :=
  if lit then '█' else ' '

/-- The characters of row `y`. -/
def rowText (s : Screen) (y : Nat) : List Char :=
  (List.range width).map fun x => pixelChar (s.pixel x y)

/-- The picture, every row ended by a newline. -/
def text (s : Screen) : String :=
  String.ofList ((List.range height).flatMap fun y => s.rowText y ++ ['\n'])

end Screen

end Chip8
