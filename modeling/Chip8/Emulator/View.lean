import Chip8.Emulator
import Chip8.Text.Layout

/-!
# The picture of the emulator

The terminal shows two boxes: the screen, at most 66 columns wide and 34 rows high, in the middle of
the width, and under it the registers in a box of four rows over the whole width.

A box has a border with its title in the upper edge, from the second column on.  Title and lines are
cut to the width inside the border.  The title may be any text and is laid out by the columns that
its characters take; the lines of a title follow each other.

## Main definitions

* `Snapshot.text`: the registers as two lines of text.
* `Box.rows`: the rows of a box.
* `Emulator.picture`: the whole picture, column by column.
* `Emulator.view`: the picture as text.
-/

namespace Chip8

open Text (Cell)

/-- The registers as two lines of text. -/
def Snapshot.text (s : Snapshot) : String :=
  let values := String.intercalate " " (s.registers.toList.map fun v => Text.hex 2 v.toNat)
  let index := Text.hex 3 s.index.toNat
  let counter := Text.hex 3 s.pc.toNat
  let delay := Text.hex 2 s.timers.delay.toNat
  let sound := Text.hex 2 s.timers.sound.toNat
  s!"V: {values}\nI: {index}  PC: {counter}  SP: {s.depth}  DT: {delay}  ST: {sound}"

/-- Where the lines of a box stand. -/
inductive Alignment where
  /-- At the left. -/
  | left
  /-- In the middle. -/
  | center
  deriving DecidableEq

/-- A bordered box of text.  The lines inside hold characters of one column only. -/
structure Box where
  /-- Columns, with the border. -/
  width : Nat
  /-- Rows, with the border. -/
  height : Nat
  /-- What the upper edge says. -/
  title : List Char
  /-- The text inside. -/
  lines : List (List Char)
  /-- Where the text stands. -/
  alignment : Alignment

namespace Box

/-- Cuts a row to `n` columns, or fills it up. -/
def fit (fill : Char) (n : Nat) (row : List Cell) : List Cell :=
  (row.take n).rightpad n (.holds [fill])

/-- Columns inside the border. -/
def innerWidth (b : Box) : Nat :=
  b.width - 2

/-- A row between two characters of the border; in a box of one column the left one is seen. -/
def bordered (b : Box) (left right : Char) (inner : List Cell) : List Cell :=
  (Cell.holds [left] :: inner ++ [Cell.holds [right]]).take b.width

/-- Spaces in front of a line. -/
def margin (b : Box) (line : List Char) : Nat :=
  match b.alignment with
  | .left => 0
  | .center => b.innerWidth / 2 - line.length / 2

/-- A line as it stands inside the border. -/
def place (b : Box) (line : List Char) : List Cell :=
  fit ' ' b.innerWidth (Text.narrowCells (List.replicate (b.margin line) ' ' ++ line))

/-- The lines of the title. -/
def titleLines (b : Box) : List (List Char) :=
  Text.lines b.title

/-- Columns of the title; they are counted in sixteen bits. -/
def titleWidth (b : Box) : Nat :=
  b.titleLines.foldr (fun line columns => Text.columns line + columns) 0 % UInt16.size

/-- The upper edge. -/
def top (b : Box) : List Cell :=
  b.bordered '┌' '┐'
    (fit '─' b.innerWidth
      (Text.layOut (.holds ['─']) (min b.innerWidth b.titleWidth) b.titleLines))

/-- The lower edge. -/
def bottom (b : Box) : List Cell :=
  b.bordered '└' '┘' (List.replicate b.innerWidth (.holds ['─']))

/-- The rows of a box of at least two rows. -/
def rows (b : Box) : List (List Cell) :=
  let inner := (List.range (b.height - 2)).map fun i =>
    b.bordered '│' '│' (b.place (b.lines.getD i []))
  b.top :: inner ++ [b.bottom]

end Box

namespace Emulator

/-- The box that shows the screen. -/
def screenBox (e : Emulator) (width : Nat) (title : String) : Box where
  width := min width (Screen.width + 2)
  height := Screen.height + 2
  title := title.toList
  lines := (List.range Screen.height).map e.machine.screen.rowText
  alignment := .left

/-- The box that shows the registers. -/
def registerBox (e : Emulator) (width : Nat) : Box where
  width := width
  height := 4
  title :=
    (if e.machine.isWaiting then "Registers (waiting for key)" else "Registers").toList
  lines := Text.lines e.machine.snapshot.text.toList
  alignment := .center

/-- The picture on a terminal of so many columns and rows. -/
def picture (e : Emulator) (width height : Nat) (title : String) : List (List Cell) :=
  let box := e.screenBox width title
  -- the odd column of a margin goes to the left
  let margin := List.replicate ((width - box.width + 1) / 2) (.holds [' '])
  let upper := box.rows.map fun row => Box.fit ' ' width (margin ++ row)
  let lower := (e.registerBox width).rows
  let rest := List.replicate height (List.replicate width (.holds [' ']))
  (upper ++ lower ++ rest).take height

/-- The picture as text, with a space in each column that a wide character covers. -/
def view (e : Emulator) (width height : Nat) (title : String) : List String :=
  (e.picture width height title).map Text.rowText

end Emulator

end Chip8
