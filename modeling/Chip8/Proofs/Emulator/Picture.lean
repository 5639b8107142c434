import Chip8.Emulator.View
import Chip8.Proofs.Text.Layout

/-!
# The picture keeps to the terminal

Every row of the picture is as wide as the terminal and made of pieces: spaces, a border, the lines
of a box and the title in its upper edge.  Lines and border hold characters of one column, and the
title is laid out with room enough, so no piece is ever cut inside a cluster.  What is true of rows
side by side if it is true of each is therefore true of the whole picture once it is true of the
title.

* `Emulator.picture_composes` : the size of the picture, and the properties its rows have;
* **`Emulator.picture_rectangular`** : as many rows and columns as the terminal has, whatever the
  title, and whole clusters in every row;
* `Emulator.view_rectangular` : the same in characters, under a plain title;
* **`Emulator.first_row`**, `Emulator.first_row_of_plain` : the row with the title.
-/

namespace Chip8

open Text (Cell Composes Shows IsPlain columns narrowCells narrowCells_replicate sent_narrowCells)

/-! ### The registers as text -/

namespace Text

theorem isPlain_of_all {text : List Char} (h : (text.all fun c => decide (IsPlain c)) = true) :
    ∀ c ∈ text, IsPlain c :=
  fun c hc => of_decide_eq_true (List.all_eq_true.1 h c hc)

theorem mem_toDigits_sixteen {n : Nat} {c : Char} (h : c ∈ Nat.toDigits 16 n) :
    ∃ d < 16, c = Nat.digitChar d := by
  induction n using Nat.strongRecOn with
  | ind n ih =>
    by_cases hn : n < 16
    · rw [Nat.toDigits_of_lt_base hn] at h
      exact ⟨n, hn, List.mem_singleton.1 h⟩
    · rw [Nat.toDigits_of_base_le (by decide) (Nat.not_lt.1 hn)] at h
      obtain h | h := List.mem_append.1 h
      · exact ih (n / 16) (by omega) h
      · exact ⟨n % 16, Nat.mod_lt n (by decide), List.mem_singleton.1 h⟩

theorem isPlain_digitChar : ∀ d < 16, IsPlain (Nat.digitChar d).toUpper := by
  decide

theorem isPlain_hex (width n : Nat) : ∀ c ∈ (hex width n).toList, IsPlain c := by
  intro c hc
  rw [hex, String.toList_ofList, List.leftpad] at hc
  obtain hzero | hdigit := List.mem_append.1 hc
  · rw [List.eq_of_mem_replicate hzero]
    decide
  · obtain ⟨digit, hmem, rfl⟩ := List.mem_map.1 hdigit
    obtain ⟨d, hd, rfl⟩ := mem_toDigits_sixteen hmem
    exact isPlain_digitChar d hd

theorem isPlain_repr (n : Nat) : ∀ c ∈ n.repr.toList, IsPlain c := by
  intro c hc
  rw [Nat.toList_repr] at hc
  have hdigit : c.isDigit := Nat.isDigit_of_mem_toDigits (by decide) (by decide) hc
  simp only [Char.isDigit, Bool.and_eq_true, decide_eq_true_eq] at hdigit
  have hc : c.toNat ≤ 57 := UInt32.le_iff_toNat_le.1 hdigit.2
  exact Nat.lt_of_le_of_lt hc (by decide)

theorem isPlain_intercalate {separator : List Char} (hs : ∀ c ∈ separator, IsPlain c)
    {texts : List (List Char)} (h : ∀ text ∈ texts, ∀ c ∈ text, IsPlain c) :
    ∀ c ∈ separator.intercalate texts, IsPlain c := by
  induction texts with
  | nil => exact nofun
  | cons text rest ih =>
    obtain ⟨htext, hrest⟩ := List.forall_mem_cons.1 h
    cases rest with
    | nil => rwa [List.intercalate_singleton]
    | cons other rest =>
      rw [List.intercalate_cons_cons]
      exact List.forall_mem_append.2 ⟨List.forall_mem_append.2 ⟨htext, hs⟩, ih hrest⟩

end Text

theorem Snapshot.isPlain_text (s : Snapshot) : ∀ c ∈ s.text.toList, IsPlain c := by
  -- `delta`, since the equation of a text with so many parts takes long to make
  delta Snapshot.text
  simp only [toString, String.toList_append, String.toList_intercalate, List.forall_mem_append]
  and_intros
  any_goals
    apply Text.isPlain_of_all
    decide +kernel
  · refine Text.isPlain_intercalate (Text.isPlain_of_all (by decide +kernel)) ?_
    simp only [List.map_map, List.forall_mem_map]
    exact fun v _ => Text.isPlain_hex 2 v.toNat
  · exact Text.isPlain_hex 3 s.index.toNat
  · exact Text.isPlain_hex 3 s.pc.toNat
  · exact Text.isPlain_repr s.depth
  · exact Text.isPlain_hex 2 s.timers.delay.toNat
  · exact Text.isPlain_hex 2 s.timers.sound.toNat

/-! ### Boxes -/

/-- What the picture is drawn with takes one column. -/
theorem columns_drawn : ∀ c ∈ ['┌', '┐', '└', '┘', '─', '│', '█', ' '], columns [c] = 1 := by
  have hall : (['┌', '┐', '└', '┘', '─', '│', '█', ' '].all fun c => columns [c] == 1) = true := by
    decide +kernel
  exact fun c hc => eq_of_beq (List.all_eq_true.1 hall c hc)

namespace Box

variable {b : Box} {inner row : List Cell} {left right fill : Char} {n : Nat}

theorem length_fit (fill : Char) (n : Nat) (row : List Cell) : (fit fill n row).length = n := by
  rw [fit, List.length_rightpad, List.length_take]
  omega

theorem fit_of_le (h : row.length ≤ n) :
    fit fill n row = row ++ List.replicate (n - row.length) (.holds [fill]) := by
  rw [fit, List.take_of_length_le h, List.rightpad]

theorem fit_narrowCells (fill : Char) (n : Nat) (text : List Char) :
    fit fill n (narrowCells text) =
      narrowCells (text.take n ++ List.replicate (n - text.length) fill) := by
  have hfree : n - (text.take n).length = n - text.length := by
    rw [List.length_take]
    omega
  rw [fit, List.rightpad, narrowCells, ← List.map_take, List.length_map, hfree, narrowCells,
    List.map_append, List.map_replicate]

theorem length_bordered (h : inner.length = b.innerWidth) :
    (b.bordered left right inner).length = b.width := by
  simp only [bordered, List.length_take, List.length_append, List.length_cons, List.length_nil, h,
    innerWidth]
  omega

theorem bordered_of_two_le (hw : 2 ≤ b.width) (h : inner.length = b.innerWidth) :
    b.bordered left right inner = .holds [left] :: inner ++ [.holds [right]] := by
  apply List.take_of_length_le
  simp only [List.length_append, List.length_cons, List.length_nil, h, innerWidth]
  omega

theorem bordered_of_lt_two (hw : b.width < 2) (h : inner.length = b.innerWidth) :
    b.bordered left right inner = List.replicate b.width (.holds [left]) := by
  have hnil : inner = [] := List.eq_nil_of_length_eq_zero (by rw [h, innerWidth]; omega)
  subst hnil
  obtain hw | hw : b.width = 0 ∨ b.width = 1 := by omega
  · rw [bordered, hw]; rfl
  · rw [bordered, hw]; rfl

/-- The title keeps to its room, so that nothing of it is cut behind. -/
theorem length_titleCells_le (b : Box) :
    (Text.layOut (.holds ['─']) (min b.innerWidth b.titleWidth) b.titleLines).length ≤
      b.innerWidth :=
  Nat.le_trans (Text.length_layOut_le _ _ _) (Nat.min_le_left _ _)

theorem length_top (b : Box) : b.top.length = b.width :=
  length_bordered (length_fit _ _ _)

/-- The upper edge of a title without control characters, as it is sent to a terminal. -/
theorem top_sent (hw : 2 ≤ b.width) (h : ∀ c ∈ b.title, Text.isControl c = false) :
    ∃ shown dashes, shown <+: b.title ∧
      b.top.flatMap Cell.sent = '┌' :: (shown ++ List.replicate dashes '─' ++ ['┐']) := by
  obtain ⟨shown, free, hprefix, hsent⟩ :=
    Text.layOut_sent h '─' (min b.innerWidth b.titleWidth)
  have hroom := b.length_titleCells_le
  rw [titleLines] at hroom
  rw [top, bordered_of_two_le hw (length_fit _ _ _), titleLines, fit_of_le hroom]
  generalize Text.layOut _ _ _ = row at hsent ⊢
  have hinner : (row ++ List.replicate (b.innerWidth - row.length) (Cell.holds ['─'])).flatMap
      Cell.sent = shown ++ List.replicate (free + (b.innerWidth - row.length)) '─' := by
    rw [List.flatMap_append, hsent, ← narrowCells_replicate, sent_narrowCells, List.append_assoc,
      List.replicate_append_replicate]
  refine ⟨shown, free + (b.innerWidth - row.length), hprefix, ?_⟩
  rw [List.flatMap_append, List.flatMap_cons, hinner]
  rfl

theorem titleWidth_of_plain (hp : ∀ c ∈ b.title, IsPlain c)
    (h : ∀ c ∈ b.title, Text.isControl c = false) (hlen : b.title.length < UInt16.size) :
    b.titleWidth = b.title.length := by
  rw [titleWidth, titleLines]
  by_cases hne : b.title = []
  · rw [hne]
    rfl
  · rw [Text.lines_of_not_control h hne, List.foldr_cons, List.foldr_nil, Nat.add_zero,
      Text.columns_of_plain hp, Nat.mod_eq_of_lt hlen]

theorem top_of_plain (hw : 2 ≤ b.width) (hp : ∀ c ∈ b.title, IsPlain c)
    (h : ∀ c ∈ b.title, Text.isControl c = false) (hlen : b.title.length < UInt16.size) :
    b.top = narrowCells ('┌' :: (b.title.take b.innerWidth ++
      List.replicate (b.innerWidth - b.title.length) '─') ++ ['┐']) := by
  have htitle : Text.layOut (.holds ['─']) (min b.innerWidth b.titleWidth) b.titleLines =
      narrowCells (b.title.take b.innerWidth) := by
    rw [titleLines, Text.layOut_of_plain hp h, titleWidth_of_plain hp h hlen,
      ← List.take_eq_take_min]
  have hfree : b.innerWidth - (b.title.take b.innerWidth).length =
      b.innerWidth - b.title.length := by
    rw [List.length_take]
    omega
  rw [top, bordered_of_two_le hw (length_fit _ _ _), htitle, fit_narrowCells, hfree,
    List.take_take, Nat.min_self]
  simp [narrowCells]

end Box

/-! ### Rows made of pieces -/

namespace Text.Composes

variable {P : List Cell → Prop} {b : Box} {inner : List Cell} {left right : Char}

theorem bordered (h : Composes P) (hl : columns [left] = 1) (hr : columns [right] = 1)
    (hlen : inner.length = b.innerWidth) (hP : P inner) : P (b.bordered left right inner) := by
  by_cases hw : 2 ≤ b.width
  · rw [Box.bordered_of_two_le hw hlen]
    exact h.append (h.append (h.single hl) hP) (h.single hr)
  · rw [Box.bordered_of_lt_two (Nat.not_le.1 hw) hlen]
    exact h.replicate hl _

theorem top (h : Composes P) (htitle : ∀ line ∈ b.titleLines, ∀ room, P (cells room line)) :
    P b.top := by
  have hedge : columns ['─'] = 1 := columns_drawn '─' (by decide)
  rw [Box.top]
  refine h.bordered (columns_drawn '┌' (by decide)) (columns_drawn '┐' (by decide))
    (Box.length_fit _ _ _) ?_
  rw [Box.fit_of_le b.length_titleCells_le]
  exact h.append (h.layOut hedge htitle _) (h.replicate hedge _)

theorem place (h : Composes P) {line : List Char} (hline : ∀ c ∈ line, columns [c] = 1) :
    P (b.place line) := by
  have hspace : columns [' '] = 1 := columns_drawn ' ' (by decide)
  rw [Box.place, Box.fit_narrowCells]
  apply h.narrowCells
  intro c hc
  obtain hc | hc := List.mem_append.1 hc
  · obtain hc | hc := List.mem_append.1 (List.mem_of_mem_take hc)
    · rw [List.eq_of_mem_replicate hc, hspace]
    · exact hline c hc
  · rw [List.eq_of_mem_replicate hc, hspace]

/-- The rows of a box whose lines hold characters of one column. -/
theorem rows (h : Composes P) (hlines : ∀ line ∈ b.lines, ∀ c ∈ line, columns [c] = 1)
    (htitle : ∀ line ∈ b.titleLines, ∀ room, P (cells room line)) :
    ∀ row ∈ b.rows, row.length = b.width ∧ P row := by
  have hside : columns ['│'] = 1 := columns_drawn '│' (by decide)
  rw [Box.rows]
  simp only [List.forall_mem_append, List.forall_mem_cons, List.forall_mem_map]
  refine ⟨⟨⟨b.length_top, h.top htitle⟩, fun i _ => ⟨?_, ?_⟩⟩, ⟨?_, ?_⟩, nofun⟩
  · exact Box.length_bordered (Box.length_fit _ _ _)
  · refine h.bordered hside hside (Box.length_fit _ _ _) (h.place ?_)
    rw [List.getD_eq_getElem?_getD]
    cases hi : b.lines[i]? with
    | none => exact nofun
    | some line => exact hlines line (List.mem_of_getElem? hi)
  · exact Box.length_bordered List.length_replicate
  · exact h.bordered (columns_drawn '└' (by decide)) (columns_drawn '┘' (by decide))
      List.length_replicate (h.replicate (columns_drawn '─' (by decide)) _)

end Text.Composes

/-! ### The picture -/

namespace Emulator

variable {P : List Cell → Prop}

theorem columns_of_mem_rowText {s : Screen} {y : Nat} : ∀ c ∈ s.rowText y, columns [c] = 1 := by
  intro c hc
  obtain ⟨x, -, rfl⟩ := List.mem_map.1 hc
  rw [Screen.pixelChar]
  split
  · exact columns_drawn '█' (by decide)
  · exact columns_drawn ' ' (by decide)

theorem columns_of_mem_registerLine (e : Emulator) (width : Nat) :
    ∀ line ∈ (e.registerBox width).lines, ∀ c ∈ line, columns [c] = 1 := by
  rw [registerBox]
  dsimp only
  intro line hline c hc
  have htext := e.machine.snapshot.isPlain_text
  exact Text.columns_singleton_of_plain (htext c (Text.mem_of_mem_lines hline hc))

theorem isPlain_registerTitle (e : Emulator) (width : Nat) :
    ∀ line ∈ (e.registerBox width).titleLines, ∀ c ∈ line, IsPlain c := by
  have htitle : ∀ c ∈ (e.registerBox width).title, IsPlain c := by
    rw [registerBox]
    dsimp only
    split <;> exact Text.isPlain_of_all (by decide +kernel)
  exact fun line hline c hc => htitle c (Text.mem_of_mem_lines hline hc)

/-- The screen stands in the middle, with the odd column on the left. -/
theorem fit_screenRow {e : Emulator} {width : Nat} {title : String} {row : List Cell}
    (h : row.length = (e.screenBox width title).width) :
    let free := width - (e.screenBox width title).width
    Box.fit ' ' width (List.replicate ((free + 1) / 2) (.holds [' ']) ++ row) =
      List.replicate ((free + 1) / 2) (.holds [' ']) ++ row ++
        List.replicate (free / 2) (.holds [' ']) := by
  intro free
  have hwidth : (e.screenBox width title).width ≤ width := Nat.min_le_left _ _
  have hlen : (List.replicate ((free + 1) / 2) (Cell.holds [' ']) ++ row).length =
      (free + 1) / 2 + row.length := by
    rw [List.length_append, List.length_replicate]
  have hfree : width - ((free + 1) / 2 + row.length) = free / 2 := by omega
  rw [Box.fit_of_le (by omega), hlen, hfree]

/-- The picture has a row for each row of the terminal, as wide as the terminal, and each has the
composed properties of the title. -/
theorem picture_composes (hP : Composes P) (e : Emulator) (width height : Nat) (title : String)
    (htitle : ∀ line ∈ Text.lines title.toList, ∀ room, P (Text.cells room line)) :
    (e.picture width height title).length = height ∧
      ∀ row ∈ e.picture width height title, row.length = width ∧ P row := by
  have hspace : columns [' '] = 1 := columns_drawn ' ' (by decide)
  have hscreen : ∀ row ∈ (e.screenBox width title).rows,
      row.length = min width (Screen.width + 2) ∧ P row := by
    refine hP.rows ?_ htitle
    intro line hline
    obtain ⟨y, -, rfl⟩ := List.mem_map.1 hline
    exact columns_of_mem_rowText
  have hregisters : ∀ row ∈ (e.registerBox width).rows, row.length = width ∧ P row :=
    hP.rows (e.columns_of_mem_registerLine width) fun line hline room =>
      hP.cells_of_plain (e.isPlain_registerTitle width line hline) room
  constructor
  · simp only [picture, List.length_take, List.length_append, List.length_replicate]
    omega
  · intro row hrow
    obtain hrow | hrow := List.mem_append.1 (List.mem_of_mem_take hrow)
    · obtain hrow | hrow := List.mem_append.1 hrow
      · obtain ⟨row, hmem, rfl⟩ := List.mem_map.1 hrow
        obtain ⟨hlen, hProw⟩ := hscreen row hmem
        refine ⟨Box.length_fit _ _ _, ?_⟩
        rw [fit_screenRow hlen]
        exact hP.append (hP.append (hP.replicate hspace _) hProw) (hP.replicate hspace _)
      · exact hregisters row hrow
    · rw [List.eq_of_mem_replicate hrow]
      exact ⟨List.length_replicate, hP.replicate hspace width⟩

/-- **The picture is as large as the terminal** and no row of it shows a part of a cluster. -/
theorem picture_rectangular (e : Emulator) (width height : Nat) (title : String) :
    (e.picture width height title).length = height ∧
      ∀ row ∈ e.picture width height title, row.length = width ∧ ∃ shown, Shows shown row := by
  refine e.picture_composes Text.composes_shows width height title ?_
  intro line _ room
  obtain ⟨shown, hshown, -⟩ := Text.cells_shows room line
  exact ⟨shown, hshown⟩

/-- Under a plain title the picture as text has a character for each column. -/
theorem view_rectangular {title : String} (h : ∀ c ∈ title.toList, IsPlain c) (e : Emulator)
    (width height : Nat) :
    (e.view width height title).length = height ∧
      ∀ line ∈ e.view width height title, line.length = width := by
  have htitle : ∀ line ∈ Text.lines title.toList, ∀ room,
      ∃ text, Text.cells room line = narrowCells text := by
    intro line hline room
    refine Text.composes_narrowCells.cells_of_plain (fun c hc => h c ?_) room
    exact Text.mem_of_mem_lines hline hc
  obtain ⟨hheight, hrows⟩ :=
    e.picture_composes Text.composes_narrowCells width height title htitle
  rw [view, List.length_map]
  refine ⟨hheight, List.forall_mem_map.2 ?_⟩
  intro row hrow
  obtain ⟨hlen, text, rfl⟩ := hrows row hrow
  rw [Text.rowText, Text.text_narrowCells, String.length_ofList, ← hlen, narrowCells,
    List.length_map]

theorem head?_picture (e : Emulator) (width height : Nat) (title : String) :
    let free := width - min width (Screen.width + 2)
    (e.picture width (height + 1) title).head? =
      some (List.replicate ((free + 1) / 2) (.holds [' ']) ++ (e.screenBox width title).top ++
        List.replicate (free / 2) (.holds [' '])) :=
  congrArg some (fit_screenRow (e.screenBox width title).length_top)

/-- **The first row shows a beginning of the title** in the upper edge of the screen, if there is no
control character in it. -/
theorem first_row {title : String} (h : ∀ c ∈ title.toList, Text.isControl c = false)
    (e : Emulator) {width : Nat} (hw : 2 ≤ width) (height : Nat) :
    let free := width - min width (Screen.width + 2)
    ∃ row shown dashes, (e.picture width (height + 1) title).head? = some row ∧
      shown <+: title.toList ∧
      Text.terminalText row = String.ofList (List.replicate ((free + 1) / 2) ' ' ++
        '┌' :: (shown ++ List.replicate dashes '─' ++ ['┐']) ++
        List.replicate (free / 2) ' ') := by
  intro free
  have hbox : 2 ≤ (e.screenBox width title).width := Nat.le_min.2 ⟨hw, by decide⟩
  obtain ⟨shown, dashes, hprefix, hsent⟩ := Box.top_sent hbox h
  refine ⟨_, shown, dashes, e.head?_picture width height title, hprefix, ?_⟩
  rw [Text.terminalText, List.flatMap_append, List.flatMap_append, hsent, ← narrowCells_replicate,
    ← narrowCells_replicate, sent_narrowCells, sent_narrowCells]

/-- A plain title is shown up to the corner, and dashes fill the rest of the edge. -/
theorem first_row_of_plain {title : String} (hp : ∀ c ∈ title.toList, IsPlain c)
    (h : ∀ c ∈ title.toList, Text.isControl c = false)
    (hlen : title.toList.length < UInt16.size) (e : Emulator) {width : Nat} (hw : 2 ≤ width)
    (height : Nat) :
    let box := min width (Screen.width + 2)
    (e.view width (height + 1) title).head? =
      some (String.ofList (List.replicate ((width - box + 1) / 2) ' ' ++
        '┌' :: (title.toList.take (box - 2) ++
          List.replicate (box - 2 - title.toList.length) '─' ++ ['┐']) ++
        List.replicate ((width - box) / 2) ' ')) := by
  intro box
  have hbox : 2 ≤ (e.screenBox width title).width := Nat.le_min.2 ⟨hw, by decide⟩
  have htop := Box.top_of_plain hbox hp h hlen
  rw [view, List.head?_map, head?_picture, htop, ← narrowCells_replicate, ← narrowCells_replicate,
    Option.map_some, Text.rowText, List.flatMap_append, List.flatMap_append, Text.text_narrowCells,
    Text.text_narrowCells, Text.text_narrowCells]
  rfl

end Emulator

end Chip8
