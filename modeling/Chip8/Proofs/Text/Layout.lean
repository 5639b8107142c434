import Chip8.Text.Layout

/-!
# What a layout shows

A layout never shows a part of a cluster: a cluster has all its columns or none.  `Text.Shows` says
of a row of columns which clusters stand in it, with the marks that are drawn on each.

Some properties of a row are known once they are known of its pieces, because a row is made by
putting pieces side by side; `Text.Composes` is the notion of such a property.  To show clusters is
one of them.

* `Text.cells_shows` : the columns of a line show the first of its clusters;
* `Text.Composes.layOut` : a layout has every such property that its lines have;
* `Text.cells_sent` : of a line without control characters a terminal is sent a beginning.
-/

namespace Chip8

namespace Text

/-- Clusters that take no column. -/
def Marks (marks : List (List Char)) : Prop :=
  ∀ cluster ∈ marks, columns cluster = 0

/-- The clusters that stand in a row, each in all of its columns and with the marks on it. -/
inductive Shows : List (List Char) → List Cell → Prop
  /-- No columns show nothing. -/
  | nil : Shows [] []
  /-- Marks without a cluster take the column in which they stand. -/
  | marks {marks shown : List (List Char)} {row : List Cell} (hm : Marks marks)
      (hne : marks.flatten ≠ []) (h : Shows shown row) :
      Shows (marks ++ shown) (.holds marks.flatten :: row)
  /-- A cluster has its columns, the marks before it in the first and those after it in the last. -/
  | cluster {before after shown : List (List Char)} {cluster : List Char} {width : Nat}
      {row : List Cell} (hb : Marks before) (hc : columns cluster = width + 1) (ha : Marks after)
      (h : Shows shown row) :
      Shows (before ++ cluster :: (after ++ shown))
        (clusterCells (before.flatten ++ cluster) after.flatten width ++ row)

/-- A property of rows that is known of a row once it is known of its pieces. -/
structure Composes (P : List Cell → Prop) : Prop where
  /-- It holds of no columns. -/
  nil : P []
  /-- It is kept by putting rows side by side. -/
  append {r s : List Cell} (hr : P r) (hs : P s) : P (r ++ s)
  /-- It holds of a character of one column. -/
  single {c : Char} (hc : columns [c] = 1) : P [.holds [c]]

variable {shown others : List (List Char)} {row rest : List Cell} {P : List Cell → Prop}

theorem Marks.nil : Marks [] :=
  nofun

theorem Marks.append {marks others : List (List Char)} (h : Marks marks) (h' : Marks others) :
    Marks (marks ++ others) :=
  List.forall_mem_append.2 ⟨h, h'⟩

/-! ### Rows of clusters -/

theorem Shows.append (h : Shows shown row) (h' : Shows others rest) :
    Shows (shown ++ others) (row ++ rest) := by
  induction h with
  | nil => exact h'
  | marks hm hne _ ih =>
    rw [List.append_assoc]
    exact .marks hm hne ih
  | cluster hb hc ha _ ih =>
    have hall := Shows.cluster hb hc ha ih
    simpa only [List.append_assoc, List.cons_append] using hall

theorem Shows.single {c : Char} (hc : columns [c] = 1) : Shows [[c]] [.holds [c]] :=
  Shows.cluster .nil hc .nil .nil

theorem Shows.eq_nil (h : Shows shown []) : shown = [] := by
  generalize hrow : [] = row at h
  cases h with
  | nil => rfl
  | marks => cases hrow
  | @cluster _ _ _ _ width => cases width <;> cases hrow

theorem modifyHead_clusterCells (marks cluster after : List Char) (width : Nat) (row : List Cell) :
    (clusterCells cluster after width ++ row).modifyHead (Cell.afterMarks marks) =
      clusterCells (marks ++ cluster) after width ++ row := by
  cases width <;> simp [clusterCells, Cell.afterMarks]

theorem Shows.afterMarks {marks : List (List Char)} (hm : Marks marks) (hrow : row ≠ [])
    (h : Shows shown row) :
    Shows (marks ++ shown) (row.modifyHead (Cell.afterMarks marks.flatten)) := by
  cases h with
  | nil => exact absurd rfl hrow
  | @marks zeros _ _ hz hne h =>
    have hall : (marks ++ zeros).flatten ≠ [] := by
      rw [List.flatten_append]
      exact List.append_ne_nil_of_right_ne_nil _ hne
    have hshows := Shows.marks (hm.append hz) hall h
    simpa only [List.modifyHead_cons, Cell.afterMarks, List.flatten_append,
      List.append_assoc] using hshows
  | cluster hb hc ha h =>
    have hshows := Shows.cluster (hm.append hb) hc ha h
    rw [modifyHead_clusterCells]
    simpa only [List.flatten_append, List.append_assoc] using hshows

/-- A terminal is sent the characters of the clusters, in their order. -/
theorem Shows.sent (h : Shows shown row) : row.flatMap Cell.sent = shown.flatten := by
  induction h with
  | nil => rfl
  | marks hm hne _ ih => simp [Cell.sent, ih]
  | @cluster before after shown cluster width row _ _ _ _ ih =>
    cases width with
    | zero => simp [clusterCells, Cell.sent, ih]
    | succ width => simp [clusterCells, Cell.sent, ih, List.flatMap_append, List.flatMap_replicate]

theorem composes_shows : Composes fun row => ∃ shown, Shows shown row where
  nil := ⟨[], .nil⟩
  append := fun ⟨_, hr⟩ ⟨_, hs⟩ => ⟨_, hr.append hs⟩
  single := fun hc => ⟨_, .single hc⟩

theorem composes_narrowCells : Composes fun row => ∃ text, row = narrowCells text where
  nil := ⟨[], rfl⟩
  append := by
    rintro _ _ ⟨text, rfl⟩ ⟨others, rfl⟩
    exact ⟨text ++ others, List.map_append.symm⟩
  single := fun {c} _ => ⟨[c], rfl⟩

theorem narrowCells_replicate (n : Nat) (c : Char) :
    narrowCells (List.replicate n c) = List.replicate n (.holds [c]) :=
  List.map_replicate

theorem sent_narrowCells (text : List Char) : (narrowCells text).flatMap Cell.sent = text := by
  simp [narrowCells, List.flatMap_map, Cell.sent]

theorem text_narrowCells (text : List Char) : (narrowCells text).flatMap Cell.text = text := by
  simp [narrowCells, List.flatMap_map, Cell.text]

/-! ### Lines -/

/-- What does not fit is left out as a whole, and with it all that comes after. -/
theorem place_shows (room : Nat) (clusters : List (List Char)) :
    ∃ marks shown row, place room clusters = (marks.flatten, row) ∧ Marks marks ∧ Shows shown row ∧
      marks ++ shown <+: clusters := by
  induction clusters generalizing room with
  | nil => exact ⟨[], [], [], rfl, .nil, .nil, List.prefix_rfl⟩
  | cons cluster rest ih =>
    unfold place
    split
    · -- a cluster without a column is one more mark
      rename_i hc
      obtain ⟨marks, shown, row, hplace, hm, hshown, hprefix⟩ := ih room
      rw [hplace]
      exact ⟨cluster :: marks, shown, row, rfl, List.forall_mem_cons.2 ⟨hc, hm⟩, hshown,
        List.cons_prefix_cons.2 ⟨rfl, hprefix⟩⟩
    · rename_i width hc
      split
      · obtain ⟨marks, shown, row, hplace, hm, hshown, hprefix⟩ := ih (room - (width + 1))
        rw [hplace]
        exact ⟨[], cluster :: (marks ++ shown), _, rfl, .nil, .cluster .nil hc hm hshown,
          List.cons_prefix_cons.2 ⟨rfl, hprefix⟩⟩
      · exact ⟨[], [], [], rfl, .nil, .nil, List.nil_prefix⟩

theorem cells_of_place {room : Nat} {line marks : List Char}
    (h : place (room + 1) (shownClusters line) = (marks, row)) :
    cells (room + 1) line =
      if row ≠ [] then row.modifyHead (Cell.afterMarks marks)
      else if marks ≠ [] then [.holds marks] else [] := by
  unfold cells
  rw [h]
  cases row with
  | nil => cases marks <;> rfl
  | cons first row =>
    cases marks with
    | nil => cases first <;> rfl
    | cons c marks => rfl

/-- **The columns of a line show the first of its clusters**, as many as there is room for. -/
theorem cells_shows (room : Nat) (line : List Char) :
    ∃ shown, Shows shown (cells room line) ∧ shown <+: shownClusters line := by
  cases room with
  | zero => exact ⟨[], .nil, List.nil_prefix⟩
  | succ room =>
    obtain ⟨marks, shown, row, hplace, hm, hshown, hprefix⟩ :=
      place_shows (room + 1) (shownClusters line)
    rw [cells_of_place hplace]
    by_cases hrow : row = []
    · subst hrow
      obtain rfl := hshown.eq_nil
      by_cases hne : marks.flatten = []
      · rw [hne]
        exact ⟨[], .nil, List.nil_prefix⟩
      · rw [if_neg (not_not_intro rfl), if_pos hne]
        exact ⟨marks ++ [], .marks hm hne .nil, hprefix⟩
    · rw [if_pos hrow]
      exact ⟨marks ++ shown, hshown.afterMarks hm hrow, hprefix⟩

/-- Of a line without control characters a terminal is sent a beginning. -/
theorem cells_sent {line : List Char} (h : ∀ c ∈ line, isControl c = false) (room : Nat) :
    (cells room line).flatMap Cell.sent <+: line := by
  obtain ⟨shown, hshown, hprefix⟩ := cells_shows room line
  have hclusters : shownClusters line = clusters line := by
    rw [shownClusters, List.filter_eq_self]
    intro cluster hcluster
    have hc : ∀ c ∈ cluster, isControl c = false := by
      intro c hc
      refine h c ?_
      rw [← flatten_clusters line]
      exact List.mem_flatten_of_mem hcluster hc
    simpa using hc
  rw [hclusters] at hprefix
  rw [hshown.sent, ← flatten_clusters line]
  obtain ⟨others, hrest⟩ := hprefix
  exact ⟨others.flatten, by rw [← List.flatten_append, hrest]⟩

theorem mem_of_mem_lines {text line : List Char} (hl : line ∈ lines text) {c : Char}
    (hc : c ∈ line) : c ∈ text := by
  fun_induction lines text generalizing line with
  | case1 => cases hl
  | case2 rest ih =>
    obtain rfl | hl := List.mem_cons.1 hl
    · cases hc
    · exact List.mem_cons_of_mem _ (List.mem_cons_of_mem _ (ih hl hc))
  | case3 rest ih =>
    obtain rfl | hl := List.mem_cons.1 hl
    · cases hc
    · exact List.mem_cons_of_mem _ (ih hl hc)
  | case4 d rest =>
    obtain rfl := List.mem_singleton.1 hl
    obtain rfl := List.mem_singleton.1 hc
    exact List.mem_cons_self
  | case5 d rest _ _ first others hrest ih =>
    -- the first of the other lines goes on with `d` in front
    rw [hrest] at ih
    obtain rfl | hl := List.mem_cons.1 hl
    · obtain rfl | hc := List.mem_cons.1 hc
      · exact List.mem_cons_self
      · exact List.mem_cons_of_mem d (ih List.mem_cons_self hc)
    · exact List.mem_cons_of_mem d (ih (List.mem_cons_of_mem first hl) hc)

theorem lines_of_not_control {text : List Char} (h : ∀ c ∈ text, isControl c = false)
    (hne : text ≠ []) : lines text = [text] := by
  fun_induction lines text with
  | case1 => exact absurd rfl hne
  | case2 => exact absurd (h '\n' (by simp)) (by decide)
  | case3 => exact absurd (h '\n' (by simp)) (by decide)
  | case4 d rest _ _ hrest ih =>
    rw [hrest] at ih
    by_cases hnil : rest = []
    · rw [hnil]
    · cases ih (fun c hc => h c (List.mem_cons_of_mem d hc)) hnil
  | case5 d rest _ _ first others hrest ih =>
    rw [hrest] at ih
    have hnil : rest ≠ [] := by
      rintro rfl
      cases hrest
    obtain ⟨rfl, rfl⟩ := List.cons.inj (ih (fun c hc => h c (List.mem_cons_of_mem d hc)) hnil)
    rfl

/-! ### A title of one line -/

theorem layOut_lines {text : List Char} (h : ∀ c ∈ text, isControl c = false) (fill : Cell)
    (room : Nat) :
    layOut fill room (lines text) =
      if columns text = 0 then []
      else (cells (min room (columns text)) text).rightpad (min room (columns text)) fill := by
  by_cases hne : text = []
  · subst hne
    rfl
  · rw [lines_of_not_control h hne, layOut]
    dsimp only [layOut]
    rw [List.append_nil]

/-- What a terminal is sent for a title without control characters is a beginning of it, in front of
what fills its room. -/
theorem layOut_sent {text : List Char} (h : ∀ c ∈ text, isControl c = false) (fill : Char)
    (room : Nat) :
    ∃ shown free, shown <+: text ∧
      (layOut (.holds [fill]) room (lines text)).flatMap Cell.sent =
        shown ++ List.replicate free fill := by
  rw [layOut_lines h]
  split
  · exact ⟨[], 0, List.nil_prefix, rfl⟩
  · generalize min room (columns text) = taken
    refine ⟨(cells taken text).flatMap Cell.sent, taken - (cells taken text).length,
      cells_sent h taken, ?_⟩
    rw [List.rightpad, List.flatMap_append, ← narrowCells_replicate, sent_narrowCells]

theorem layOut_of_plain {text : List Char} (hp : ∀ c ∈ text, IsPlain c)
    (h : ∀ c ∈ text, isControl c = false) (fill : Cell) (room : Nat) :
    layOut fill room (lines text) = narrowCells (text.take room) := by
  have hall : (text.filter fun c => !isControl c) = text := by
    rw [List.filter_eq_self]
    intro c hc
    rw [h c hc]
    rfl
  have hlen : (narrowCells (text.take (min room text.length))).length = min room text.length := by
    simp [narrowCells]
  rw [layOut_lines h, columns_of_plain hp, cells_of_plain hp, hall, List.rightpad, hlen,
    Nat.sub_self, List.replicate_zero, List.append_nil, ← List.take_eq_take_min]
  split
  · rename_i hnil
    rw [List.eq_nil_of_length_eq_zero hnil, List.take_nil]
    rfl
  · rfl

/-! ### Composed properties -/

theorem Composes.narrowCells (h : Composes P) {text : List Char}
    (hc : ∀ c ∈ text, columns [c] = 1) : P (narrowCells text) := by
  induction text with
  | nil => exact h.nil
  | cons c text ih =>
    obtain ⟨hc, hrest⟩ := List.forall_mem_cons.1 hc
    exact h.append (h.single hc) (ih hrest)

theorem Composes.replicate (h : Composes P) {c : Char} (hc : columns [c] = 1) (n : Nat) :
    P (List.replicate n (.holds [c])) := by
  rw [← narrowCells_replicate]
  exact h.narrowCells fun d hd => by rw [List.eq_of_mem_replicate hd, hc]

theorem Composes.cells_of_plain (h : Composes P) {line : List Char} (hl : ∀ c ∈ line, IsPlain c)
    (room : Nat) : P (cells room line) := by
  rw [Text.cells_of_plain hl]
  refine h.narrowCells fun c hc => columns_singleton_of_plain (hl c ?_)
  exact (List.mem_filter.1 (List.mem_of_mem_take hc)).1

/-- A layout has what its lines have, if it is filled with a character of one column. -/
theorem Composes.layOut (h : Composes P) {fill : Char} (hf : columns [fill] = 1)
    {ls : List (List Char)} (hl : ∀ line ∈ ls, ∀ room, P (cells room line)) (room : Nat) :
    P (layOut (.holds [fill]) room ls) := by
  induction ls generalizing room with
  | nil => exact h.nil
  | cons line rest ih =>
    obtain ⟨hline, hrest⟩ := List.forall_mem_cons.1 hl
    unfold Text.layOut
    dsimp only
    split
    · exact ih hrest room
    · refine h.append (h.append (hline _) ?_) (ih hrest _)
      exact h.replicate hf _

end Text

end Chip8
