import Chip8.Text.Columns

/-!
# Laying out text in columns

Text is laid out by clusters: the first column of a cluster holds its characters, its other columns
are covered by it, and marks that stand alone are added to the column before them.  A line is cut
before the first cluster that does not fit.  A control character is counted but not shown, so that
columns at the end of its line stay free.

## Main definitions

* `Text.Cell`: what a column holds.
* `Text.cells`: the columns of a line.
* `Text.layOut`: lines one after the other in a row of columns.

## Main statements

* `Text.length_layOut_le`: a layout keeps to its room.
* `Text.cells_of_plain`: plain text is shown a character a column, up to the room, without its
  control characters.
-/

namespace Chip8

namespace Text

/-- What a column of a row holds. -/
inductive Cell where
  /-- The text that begins here: a cluster and the marks on it. -/
  | holds (text : List Char)
  /-- Nothing but marks, since the cluster to the left reaches into this column. -/
  | covered (marks : List Char)
  deriving DecidableEq

namespace Cell

/-- Puts marks in front of what a column holds. -/
def afterMarks (marks : List Char) : Cell → Cell
  | holds text => holds (marks ++ text)
  | covered others => covered (marks ++ others)

/-- The text of a column by itself, where a covered one is a space. -/
def text : Cell → List Char
  | holds text => text
  | covered marks => ' ' :: marks

/-- What a terminal is sent for a column: it covers the columns of a wide cluster on its own. -/
def sent : Cell → List Char
  | holds text => text
  | covered marks => marks

end Cell

/-- A row of columns as text, with a space in each covered column. -/
def rowText (row : List Cell) : String :=
  String.ofList (row.flatMap Cell.text)

/-- A row of columns as text for a terminal. -/
def terminalText (row : List Cell) : String :=
  String.ofList (row.flatMap Cell.sent)

/-- Characters of one column each as a row. -/
def narrowCells (text : List Char) : List Cell :=
  text.map fun c => .holds [c]

/-- The columns of a cluster that takes `width + 1` of them and has the marks `marks` after it. -/
def clusterCells (cluster : List Char) (marks : List Char) : Nat → List Cell
  | 0 => [.holds (cluster ++ marks)]
  | width + 1 => .holds cluster :: List.replicate width (.covered []) ++ [.covered marks]

/-- The marks that clusters begin with, and the columns of those that fit into `room`. -/
def place (room : Nat) : List (List Char) → List Char × List Cell
  | [] => ([], [])
  | cluster :: rest =>
    match columns cluster with
    | 0 =>
      let (marks, row) := place room rest
      (cluster ++ marks, row)
    | width + 1 =>
      if width < room then
        let (marks, row) := place (room - (width + 1)) rest
        ([], clusterCells cluster marks width ++ row)
      else ([], [])

/-- Control characters, which are not shown. -/
def isControl (c : Char) : Bool :=
  decide (c.toNat < 0x20) || decide (0x7F ≤ c.toNat) && decide (c.toNat ≤ 0x9F)

/-- The clusters of a line that are shown. -/
def shownClusters (line : List Char) : List (List Char) :=
  (clusters line).filter fun cluster => !cluster.any isControl

/-- What the columns of a line hold, cut to `room` columns; marks at the beginning stand in the
first column. -/
def cells (room : Nat) (line : List Char) : List Cell :=
  match room, place room (shownClusters line) with
  | 0, _ => []
  | _, ([], row) => row
  | _, (marks, []) => [.holds marks]
  | _, (marks, first :: row) => first.afterMarks marks :: row

/-- The lines of a text; a line ends in a line feed, which a carriage return may precede. -/
def lines : List Char → List (List Char)
  | [] => []
  | '\r' :: '\n' :: rest => [] :: lines rest
  | '\n' :: rest => [] :: lines rest
  | c :: rest =>
    match lines rest with
    | [] => [[c]]
    | line :: others => (c :: line) :: others

/-- Lines one after the other in a row of `room` columns, where free columns hold `fill`.  Each
begins where the columns of those before it end, and one that takes no column is not shown. -/
def layOut (fill : Cell) (room : Nat) : List (List Char) → List Cell
  | [] => []
  | line :: rest =>
    let width := columns line
    if width = 0 then layOut fill room rest
    else
      let taken := min room width
      (cells taken line).rightpad taken fill ++ layOut fill (room - width) rest

/-! ### The room is kept -/

theorem length_clusterCells (cluster marks : List Char) (width : Nat) :
    (clusterCells cluster marks width).length = width + 1 := by
  cases width <;> simp [clusterCells]

theorem length_place_le (room : Nat) (cs : List (List Char)) :
    (place room cs).2.length ≤ room := by
  induction cs generalizing room with
  | nil => simp [place]
  | cons cluster rest ih =>
    unfold place
    split
    · exact ih room
    · rename_i width _
      split
      · have := ih (room - (width + 1))
        simp only [List.length_append, length_clusterCells]
        omega
      · simp

theorem length_cells_le (room : Nat) (line : List Char) : (cells room line).length ≤ room := by
  have h := length_place_le room (shownClusters line)
  unfold cells
  split <;> simp_all
  omega

theorem length_layOut_le (fill : Cell) (room : Nat) (ls : List (List Char)) :
    (layOut fill room ls).length ≤ room := by
  induction ls generalizing room with
  | nil => simp [layOut]
  | cons line rest ih =>
    unfold layOut
    dsimp only
    split
    · exact ih room
    · have h := length_cells_le (min room (columns line)) line
      have := ih (room - columns line)
      rw [List.length_append, List.length_rightpad]
      omega

/-! ### Plain text -/

theorem place_of_plain {line : List Char} (h : ∀ c ∈ line, IsPlain c) (room : Nat) :
    place room (line.map ([·])) = ([], narrowCells (line.take room)) := by
  induction line generalizing room with
  | nil => simp [place, narrowCells]
  | cons c rest ih =>
    have hc : columns [c] = 0 + 1 := columns_singleton_of_plain (h c List.mem_cons_self)
    have hr := ih (fun d hd => h d (List.mem_cons_of_mem c hd))
    rw [List.map_cons, place, hc]
    cases room with
    | zero => simp [narrowCells]
    | succ room => simp [hr, clusterCells, narrowCells]

theorem shownClusters_of_plain {line : List Char} (h : ∀ c ∈ line, IsPlain c) :
    shownClusters line = (line.filter fun c => !isControl c).map ([·]) := by
  rw [shownClusters, clusters_of_plain h, List.filter_map]
  congr 2
  funext c
  simp

theorem cells_of_plain {line : List Char} (h : ∀ c ∈ line, IsPlain c) (room : Nat) :
    cells room line = narrowCells ((line.filter fun c => !isControl c).take room) := by
  have hshown : ∀ c ∈ line.filter fun c => !isControl c, IsPlain c :=
    fun c hc => h c (List.mem_filter.1 hc).1
  unfold cells
  rw [shownClusters_of_plain h, place_of_plain hshown]
  cases room <;> rfl

end Text

end Chip8
