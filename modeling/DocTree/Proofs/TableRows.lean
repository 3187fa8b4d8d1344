import DocTree.Proofs.CellText

/-! The lines of a Markdown table: one for the header, a divider and one for each row. Every line
has one bar more than the table has columns, and the stray bars of its cells beside them. -/
namespace DocTree.Text

/-- Each line with the line break behind it. -/
def endLines (lines : List (List Char)) : List Char := lines.flatMap (· ++ ['\n'])

theorem pieces_endLines {lines : List (List Char)} (h : ∀ line ∈ lines, '\n' ∉ line) :
    pieces (· == '\n') (endLines lines) = lines ++ [[]] := by
  induction lines with
  | nil => rfl
  | cons line rest ih =>
    obtain ⟨hline, hrest⟩ := List.forall_mem_cons.1 h
    have heq : endLines (line :: rest) = line ++ '\n' :: endLines rest := by simp [endLines]
    rw [heq, pieces_line hline, ih hrest, List.cons_append]

end DocTree.Text

namespace DocTree.Markdown
open Text

/-- At the start of a line that may end, with no indentation, outside code and attributes. -/
structure Output.AtRow (out : Output) : Prop where
  start : out.buffer.content = none
  indents : out.buffer.indents = []
  constrained : out.constrained = false
  markdownCode : out.modes.markdownCode = false
  preformatted : out.modes.preformatted = false
  htmlAttribute : out.modes.htmlAttribute = false

namespace Render
variable {steps next : Render Unit} {m n : Nat} {Q : List Char → Prop}

/-- Steps that write a cell. -/
theorem Adds.inTable (h : Adds true Q steps) (hf : Framed steps) : Adds false Q (inTable steps) := by
  intro out out' hin hok
  rw [hf.inTable_apply] at hok
  obtain ⟨hfirst, rfl⟩ := Prod.mk.inj hok
  have hcell : out.inCell.Inside true :=
    ⟨hin.begun, hin.markdownCode, hin.preformatted, hin.htmlAttribute, fun _ => ⟨rfl, rfl⟩⟩
  obtain ⟨hin', hadded⟩ := h out.inCell _ hcell (Prod.ext hfirst rfl)
  exact ⟨⟨hin'.begun, hin.markdownCode, hin.preformatted, hin.htmlAttribute, nofun⟩, hadded⟩

theorem adds_bar {s : String} (hs : OneLine s) (hbar : Delimits 1 s.toList) :
    Adds false (Delimits 1) (write s) :=
  (adds_write (.inr hs)).mono fun _ heq => heq ▸ hbar

theorem adds_cellEnd : Adds false (Delimits 1) (write " |") :=
  adds_bar (by decide) fun rest => by simp [delimiters, barsFrom]

theorem adds_divider (columns : Nat) : Adds false (Delimits columns) (divider columns) := by
  have hcolumn : Adds false (Delimits 1) (write " --- |") :=
    adds_bar (by decide) fun rest => by simp [delimiters, barsFrom]
  induction columns with
  | zero => exact adds_pure delimits_nil
  | succ columns ih =>
    have hsteps := hcolumn.then ih
    rwa [Nat.add_comm] at hsteps

section Cells
variable {α : Type} {f : α → Render Unit} {k : α → Nat} {cells : List α}

/-- Each cell ends once, and once more for every stray bar in it. -/
theorem adds_markdownCells (h : ∀ cell ∈ cells, Adds true (Delimits (k cell)) (f cell))
    (hf : ∀ cell ∈ cells, Framed (f cell)) {columns : Nat} (hfit : cells.length ≤ columns) :
    Adds false (Delimits (columns + total k cells)) (markdownCells columns (cells.map f)) := by
  induction columns generalizing cells with
  | zero =>
    rw [List.length_eq_zero_iff.1 (Nat.le_zero.1 hfit)]
    exact adds_pure delimits_nil
  | succ columns ih =>
    cases cells with
    | nil =>
      -- A row that is too short is filled up with empty cells.
      have hsteps := adds_cellEnd.then (ih h hf (Nat.zero_le _))
      rw [← Nat.add_assoc, Nat.add_comm 1] at hsteps
      exact hsteps.behind (by decide)
    | cons cell rest =>
      obtain ⟨hcell, hrest⟩ := List.forall_mem_cons.1 h
      obtain ⟨hfcell, hfrest⟩ := List.forall_mem_cons.1 hf
      have hafter := ih hrest hfrest (Nat.le_of_succ_le_succ hfit)
      have hsteps := (hcell.inTable hfcell).then (adds_cellEnd.then hafter)
      have hcount : k cell + (1 + (columns + total k rest)) =
          columns + 1 + total k (cell :: rest) := by
        rw [total]
        omega
      rw [hcount] at hsteps
      exact hsteps.behind (by decide)

end Cells

/-- If the steps succeed at the start of a line, they write whole lines with the given numbers of
delimiters. -/
def WritesLines (counts : List Nat) (steps : Render Unit) : Prop :=
  ∀ out out' : Output, out.AtRow → steps out = (.ok (), out') →
    out'.AtRow ∧ ∃ lines, out'.text.toList = out.text.toList ++ endLines lines ∧
      (∀ line ∈ lines, '\n' ∉ line) ∧ lines.map delimiters = counts

theorem WritesLines.then {counts more : List Nat} (h : WritesLines counts steps)
    (hnext : WritesLines more next) : WritesLines (counts ++ more) (do steps; next) := by
  intro out out' hrow hok
  obtain ⟨_, mid, hmid, hout'⟩ := bind_eq_ok hok
  obtain ⟨hrowmid, lines, htext, hlines, hcounts⟩ := h out mid hrow hmid
  obtain ⟨hrow', others, htext', hothers, hmore⟩ := hnext mid out' hrowmid hout'
  refine ⟨hrow', lines ++ others, ?_, List.forall_mem_append.2 ⟨hlines, hothers⟩, ?_⟩
  · simp [htext', htext, endLines]
  · rw [List.map_append, hcounts, hmore]

/-- The bar at the start of a row opens the line. -/
theorem write_bar {out out' : Output} (hrow : out.AtRow) (hok : write "|" out = (.ok (), out')) :
    out'.Inside false ∧ out'.text = out.text ++ "|" := by
  have hmodes : out'.modes = out.modes := ((framed_write "|").of_eq hok).modes
  have hbuffer : out'.buffer = out.buffer.put '|' := write_ok hok
  rw [Layout.Buffer.put_atStart (by decide) hrow.start] at hbuffer
  refine ⟨⟨?_, ?_, ?_, ?_, nofun⟩, ?_⟩
  · rw [hbuffer]
    rfl
  · rw [hmodes, hrow.markdownCode]
  · rw [hmodes, hrow.preformatted]
  · rw [hmodes, hrow.htmlAttribute]
  · rw [Output.text, hbuffer, Layout.Buffer.indent, hrow.indents, List.foldl_nil, String.append_empty]
    rfl

theorem write_break {out out' : Output} (hbegun : out.buffer.atLineStart = false)
    (hok : write "\n" out = (.ok (), out')) :
    out'.buffer.content = none ∧ out'.text = out.text ++ "\n" := by
  obtain ⟨content, hcontent⟩ := Layout.Buffer.exists_content hbegun
  have hbuffer : out'.buffer = out.buffer.newline := write_ok hok
  simp only [Layout.Buffer.newline, hcontent] at hbuffer
  rw [Output.text, hbuffer]
  exact ⟨rfl, rfl⟩

/-- A line is what stands between the bar at its start and its end. -/
theorem Adds.line (h : Adds false (Delimits n) steps) (hf : Framed steps) :
    WritesLines [n + 1] (do write "|"; steps; write "\n") := by
  intro out out' hrow hok
  have hextends := ((framed_write "|").then (hf.then (framed_write "\n"))).of_eq hok
  obtain ⟨_, opened, hopened, hok⟩ := bind_eq_ok hok
  obtain ⟨_, filled, hfilled, hok⟩ := bind_eq_ok hok
  obtain ⟨hin, htext⟩ := write_bar hrow hopened
  obtain ⟨hin', added, hadded, hline, hcount⟩ := h opened filled hin hfilled
  obtain ⟨hstart, htext'⟩ := write_break hin'.begun hok
  have hmodes : out'.modes = out.modes := hextends.modes
  refine ⟨⟨hstart, hextends.buffer.indents.trans hrow.indents, ?_, ?_, ?_, ?_⟩,
    [("|" ++ added).toList], ?_, ?_, ?_⟩
  · rw [Output.constrained_congr hmodes, hrow.constrained]
  · rw [hmodes, hrow.markdownCode]
  · rw [hmodes, hrow.preformatted]
  · rw [hmodes, hrow.htmlAttribute]
  · simp [htext', hadded, htext, endLines]
  · have hbar : OneLine ("|" ++ added) := oneLine_append.2 ⟨by decide, hline⟩
    simpa [OneLine] using hbar
  · have hbar : delimiters ('|' :: added.toList) = 1 + delimiters added.toList := by
      simp [delimiters, barsFrom]
    have hall : ("|" ++ added).toList = '|' :: added.toList := by simp
    rw [List.map_singleton, hall, hbar, hcount.count, Nat.add_comm]

section Table
variable {α : Type} {f : α → Render Unit} {k : α → Nat} {header : List α} {rows : List (List α)}

theorem writesLines_row (h : ∀ cell ∈ header, Adds true (Delimits (k cell)) (f cell))
    (hf : ∀ cell ∈ header, Framed (f cell)) {columns : Nat} (hfit : header.length ≤ columns) :
    WritesLines [columns + total k header + 1] (markdownRow columns (header.map f)) :=
  (adds_markdownCells h hf hfit).line (framed_markdownCells (List.forall_mem_map.2 hf) columns)

theorem writesLines_rows (h : ∀ row ∈ rows, ∀ cell ∈ row, Adds true (Delimits (k cell)) (f cell))
    (hf : ∀ row ∈ rows, ∀ cell ∈ row, Framed (f cell)) {columns : Nat}
    (hfit : ∀ row ∈ rows, row.length ≤ columns) :
    WritesLines (rows.map fun row => columns + total k row + 1)
      (markdownRows columns (rows.map (·.map f))) := by
  induction rows with
  | nil =>
    rintro out _ hrow ⟨⟩
    exact ⟨hrow, [], by simp [endLines], by simp, rfl⟩
  | cons row rest ih =>
    obtain ⟨hrow, hrest⟩ := List.forall_mem_cons.1 h
    obtain ⟨hfrow, hfrest⟩ := List.forall_mem_cons.1 hf
    obtain ⟨hrowfit, hrestfit⟩ := List.forall_mem_cons.1 hfit
    exact (writesLines_row hrow hfrow hrowfit).then (ih hrest hfrest hrestfit)

/-- The header of a table, the divider and the rows. -/
def tableLines (columns : Nat) (header : List (Render Unit)) (rows : List (List (Render Unit))) :
    Render Unit := do
  markdownRow columns header
  write "|"
  divider columns
  write "\n"
  markdownRows columns rows

theorem writesLines_table
    (h : ∀ row ∈ header :: rows, ∀ cell ∈ row, Adds true (Delimits (k cell)) (f cell))
    (hf : ∀ row ∈ header :: rows, ∀ cell ∈ row, Framed (f cell)) {columns : Nat}
    (hfit : ∀ row ∈ header :: rows, row.length ≤ columns) :
    WritesLines ((columns + total k header + 1) :: (columns + 1) ::
        rows.map fun row => columns + total k row + 1)
      (tableLines columns (header.map f) (rows.map (·.map f))) := by
  obtain ⟨hheader, hrows⟩ := List.forall_mem_cons.1 h
  obtain ⟨hfheader, hfrows⟩ := List.forall_mem_cons.1 hf
  obtain ⟨hheaderfit, hrowsfit⟩ := List.forall_mem_cons.1 hfit
  have hrest := ((adds_divider columns).line (framed_divider columns)).then
    (writesLines_rows hrows hfrows hrowsfit)
  have hlines := (writesLines_row hheader hfheader hheaderfit).then hrest
  simp only [bind_assoc] at hlines
  exact hlines

end Table

variable {columns : Nat} {header : List (Render Unit)} {rows : List (List (Render Unit))}

theorem framed_tableLines (h : ∀ row ∈ header :: rows, ∀ cell ∈ row, Framed cell) :
    Framed (tableLines columns header rows) := by
  obtain ⟨hheader, hrows⟩ := List.forall_mem_cons.1 h
  exact (framed_markdownRow hheader columns).then <| (framed_write "|").then <|
    (framed_divider columns).then <| (framed_write "\n").then (framed_markdownRows hrows columns)

/-- The output behind the empty line that a table begins with. -/
def skipped : Output := { buffer := { text := "\n", afterBlank := true } }

theorem ensureSkippedLine_fresh : ensureSkippedLine {} = (.ok (), skipped) := by decide

theorem atRow_skipped : skipped.AtRow := ⟨rfl, rfl, rfl, rfl, rfl, rfl⟩

theorem checkedTable_fresh : checkedTable columns header rows {} =
    withMode .htmlBlock false (tableLines columns header rows) skipped := by
  have hchoice : checkedTable columns header rows {} =
      (do ensureSkippedLine; withMode .htmlBlock false (tableLines columns header rows)) {} := rfl
  rw [hchoice, bind_apply, ensureSkippedLine_fresh]

/-- A table on a fresh output is an empty line and the lines of the table. -/
theorem WritesLines.fresh {counts : List Nat} {out' : Output}
    (h : WritesLines counts (tableLines columns header rows))
    (hf : ∀ row ∈ header :: rows, ∀ cell ∈ row, Framed cell)
    (hok : checkedTable columns header rows {} = (.ok (), out')) :
    ∃ lines, out'.text.toList = '\n' :: endLines lines ∧ (∀ line ∈ lines, '\n' ∉ line) ∧
      lines.map delimiters = counts := by
  rw [checkedTable_fresh, (framed_tableLines hf).withMode_apply] at hok
  obtain ⟨hfirst, rfl⟩ := Prod.mk.inj hok
  obtain ⟨-, lines, htext, hbreaks, hcounts⟩ := h skipped _ atRow_skipped (Prod.ext hfirst rfl)
  exact ⟨lines, htext, hbreaks, hcounts⟩

end Render
open Render

variable {o : Options} {header : List Node} {rows : List (List Node)} {md : String}

theorem table_lines (h : renderRaw o (.table header rows) = .ok md) :
    ∃ lines, pieces (· == '\n') md.toList = [] :: (lines ++ [[]]) ∧
      lines.map delimiters =
        (columnCount header rows + strayBarsOf o header + 1) :: (columnCount header rows + 1) ::
          rows.map fun row => columnCount header rows + strayBarsOf o row + 1 := by
  obtain ⟨out, hok, rfl⟩ := renderRaw_ok h
  rw [render, renderNode, renderParts_eq_map, renderRows_eq_map, table_eq, columnCount_map] at hok
  split at hok
  · cases hok
  have hframed (n : Node) : Framed (render o n) := framed_renderNode framed_pageHead n
  have hadds (n : Node) : Adds true (Delimits (strayBars o n)) (render o n) :=
    adds_renderNode framed_pageHead n
  have hfit : ∀ row ∈ header :: rows, row.length ≤ columnCount header rows :=
    List.forall_mem_cons.2 (length_le_columnCount header rows)
  have hlines := writesLines_table (fun _ _ n _ => hadds n) (fun _ _ n _ => hframed n) hfit
  have hall : ∀ row ∈ header.map (render o) :: rows.map (·.map (render o)), ∀ cell ∈ row,
      Framed cell := by
    simp [hframed]
  obtain ⟨lines, htext, hbreaks, hcounts⟩ := hlines.fresh hall hok
  refine ⟨lines, ?_, ?_⟩
  · rw [htext, ← pieces_endLines hbreaks]
    rfl
  · simp only [hcounts, strayBarsOf_eq_total]

/-- If a table is written, then behind an empty line stand its header, a divider and its rows, a
line each. Every line has one delimiter more than the table has columns, and one more for every
stray bar of its cells. So the columns are right if and only if no cell has a stray bar. -/
theorem renderRaw_table_delimiters (h : renderRaw o (.table header rows) = .ok md) :
    ∃ lines, pieces (· == '\n') md.toList = [] :: (lines ++ [[]]) ∧
      lines.length = 2 + rows.length ∧
      lines.map delimiters =
        (columnCount header rows + strayBarsOf o header + 1) :: (columnCount header rows + 1) ::
          rows.map (fun row => columnCount header rows + strayBarsOf o row + 1) ∧
      ((∀ line ∈ lines, delimiters line = columnCount header rows + 1) ↔
        ∀ row ∈ header :: rows, strayBarsOf o row = 0) := by
  obtain ⟨lines, htext, hcounts⟩ := table_lines h
  refine ⟨lines, htext, ?_, hcounts, ?_⟩
  · have hlength := congrArg List.length hcounts
    simp only [List.length_map, List.length_cons] at hlength
    omega
  · have hmap : (∀ line ∈ lines, delimiters line = columnCount header rows + 1) ↔
        ∀ count ∈ lines.map delimiters, count = columnCount header rows + 1 := by
      rw [List.forall_mem_map]
    have hstray (row : List Node) : columnCount header rows + strayBarsOf o row + 1 =
        columnCount header rows + 1 ↔ strayBarsOf o row = 0 := by omega
    rw [hmap, hcounts]
    simp only [List.forall_mem_cons, List.forall_mem_map, true_and, hstray]

theorem renderRaw_table_delimiters_ragged :
    renderRaw {} (.table [.text "a|b"] [[], [.codeSpan [.text "c|d"]]]) =
        .ok "\n| a\\|b |\n| --- |\n|  |\n| \x60c\\|d\x60 |\n" ∧
      ∃ lines, pieces (· == '\n') "\n| a\\|b |\n| --- |\n|  |\n| \x60c\\|d\x60 |\n".toList =
          [] :: (lines ++ [[]]) ∧ ∀ line ∈ lines, delimiters line = 2 := by
  have h : renderRaw {} (.table [.text "a|b"] [[], [.codeSpan [.text "c|d"]]]) =
      .ok "\n| a\\|b |\n| --- |\n|  |\n| \x60c\\|d\x60 |\n" := by decide +kernel
  obtain ⟨lines, htext, -, -, hcolumns⟩ := renderRaw_table_delimiters h
  exact ⟨h, lines, htext, hcolumns.2 (by decide)⟩

/-- The bar of a comment ends the cell that the comment stands in. -/
theorem renderRaw_table_commentBar :
    renderRaw {} (.table [.comment "a|b" true] []) = .ok "\n| <!-- a|b --> |\n| --- |\n" ∧
      columnCount [Node.comment "a|b" true] [] + 1 = 2 ∧
      delimiters "| <!-- a|b --> |".toList = 3 :=
  ⟨by decide +kernel, by decide, by decide +kernel⟩

end DocTree.Markdown
