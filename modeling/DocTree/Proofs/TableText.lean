import DocTree.Proofs.TableRows
import DocTree.Proofs.TextJoins
import Mathlib.Data.List.Forall2

/-! The text of a Markdown table. What a tree writes in a cell is a text without line breaks that
does not depend on the cells before it, and each line of the table is put together from such
texts. -/
namespace DocTree.Markdown
open Text Render Layout

/-- Outside every mode and every fresh block. -/
structure Output.AtRoot (out : Output) : Prop where
  modes : out.modes = {}
  fresh : out.fresh = false

/-- On a line that has something on it. -/
structure Output.InRow (out : Output) : Prop extends out.AtRoot where
  written : out.buffer.lineIsBlank = false

section Written
variable {out : Output} {s : String}

theorem Output.AtRoot.wrote (hout : out.AtRoot) (s : String) : (out.wrote s).AtRoot :=
  ⟨hout.modes, by simp [Output.wrote, hout.fresh]⟩

theorem Output.InRow.wrote (hout : out.InRow) (hs : OneLine s) : (out.wrote s).InRow :=
  ⟨hout.toAtRoot.wrote s, Buffer.lineIsBlank_write hout.written hs⟩

/-- A bar begins a row. -/
theorem Output.AtRoot.opened (hout : out.AtRoot) : (out.wrote "|").InRow :=
  ⟨hout.wrote "|", not_lineIsBlank_write (by decide) out.buffer⟩

/-- A line may end here. -/
theorem Output.AtRoot.write_break (hout : out.AtRoot) :
    write "\n" out = (.ok (), out.wrote "\n") := by
  have hfree : out.constrained = false := by
    rw [Output.constrained, hout.modes]
    rfl
  exact write_of_fits fun hc => absurd (hfree.symm.trans hc) Bool.false_ne_true

end Written

/-- On two lines that have something on them the same text has been added, in the same modes. -/
structure Alongside (start start' a b : Output) : Prop where
  written : start.buffer.lineIsBlank = false ∧ start'.buffer.lineIsBlank = false
  modes : b.modes = a.modes
  constrained : a.constrained = true
  fresh : a.fresh = false ∧ b.fresh = false
  added : ∃ s, OneLine s ∧ a.buffer = start.buffer.write s ∧ b.buffer = start'.buffer.write s

section Alongside
variable {start start' a b : Output}

theorem Alongside.blank (h : Alongside start start' a b) :
    a.buffer.lineIsBlank = false ∧ b.buffer.lineIsBlank = false := by
  obtain ⟨s, hs, ha, hb⟩ := h.added
  exact ⟨ha ▸ Buffer.lineIsBlank_write h.written.1 hs, hb ▸ Buffer.lineIsBlank_write h.written.2 hs⟩

instance : OnLine (Alongside start start') where
  modes h := h.modes
  fresh h := h.fresh.2.trans h.fresh.1.symm
  atLineStart h := (Buffer.atLineStart_of_written h.blank.2).trans
    (Buffer.atLineStart_of_written h.blank.1).symm
  lineIsBlank h := h.blank.2.trans h.blank.1.symm
  wrote := by
    intro a b s h hs
    obtain ⟨t, ht, ha, hb⟩ := h.added
    refine ⟨h.written, h.modes, h.constrained, ?_, t ++ s, ?_, ?_, ?_⟩
    · simp [Output.wrote, h.fresh]
    · exact oneLine_append.2 ⟨ht, hs h.constrained⟩
    · rw [Buffer.write_append, ← ha]
      rfl
    · rw [Buffer.write_append, ← hb]
      rfl
  setMode h hv := ⟨h.written, by rw [h.modes], Modes.constrained_set hv h.constrained, h.fresh,
    h.added⟩
  restore h hsaved := ⟨h.written, hsaved.modes, hsaved.constrained, h.fresh, h.added⟩

/-- Where no line may end no line is skipped and no block begins. -/
instance : Stable (Alongside start start') where
  skipLine h hl := by simp [h.constrained] at hl
  markFresh h hl := by simp [h.constrained] at hl
  pushIndent h hl := by simp [h.constrained] at hl
  popIndent h hl := by simp [h.constrained] at hl
  broken h _ hl := by simp [h.constrained] at hl

end Alongside

/-- The output behind the bar and the space that stand before a cell. -/
def cellStart : Output := ({} : Output).wrote "| "

section Cells
variable {o : Options} {node : Node} {out out' : Output}

/-- What a tree writes in a cell. -/
def cellText (o : Options) (node : Node) : Except RenderError String :=
  match inTable (render o node) cellStart with
  | (.ok (), out) => .ok (String.ofList (out.text.toList.drop 2))
  | (.error e, _) => .error e

/-- Wherever a cell stands in a row, its tree writes the same text there. -/
theorem inTable_wrote (hout : out.InRow) (h : inTable (render o node) out = (.ok (), out')) :
    ∃ s, cellText o node = .ok s ∧ OneLine s ∧ out' = out.wrote s := by
  have hframed : Framed (render o node) := framed_renderNode framed_pageHead node
  have hstart : cellStart.buffer.lineIsBlank = false := by decide +kernel
  have halong : Alongside out.inCell cellStart.inCell out.inCell cellStart.inCell := by
    refine ⟨⟨hout.written, hstart⟩, ?_, rfl, ⟨hout.fresh, rfl⟩, "", by decide, rfl, rfl⟩
    simp only [Output.inCell, hout.modes]
    rfl
  -- The same steps are run on both lines, and what they add is the same.
  obtain ⟨hsame, hend, -⟩ := respects_render o node true _ _ halong rfl
  obtain ⟨s, hs, hbuffer, hbuffer'⟩ := hend.added
  rw [hframed.inTable_apply] at h
  obtain ⟨hfirst, rfl⟩ := Prod.mk.inj h
  refine ⟨s, ?_, hs, ?_⟩
  · have htext : (render o node cellStart.inCell).2.text = "| " ++ s := by
      rw [Output.text, hbuffer', Buffer.write_text rfl]
      rfl
    have hcell : inTable (render o node) cellStart =
        (.ok (), { (render o node cellStart.inCell).2 with modes := cellStart.modes }) := by
      rw [hframed.inTable_apply, hsame, hfirst]
    rw [cellText, hcell]
    change Except.ok (String.ofList ((render o node cellStart.inCell).2.text.toList.drop 2)) = _
    rw [htext]
    simp
  · dsimp only
    rw [hbuffer, hend.fresh.1, Output.wrote, hout.fresh]
    rfl

/-- The cells of a row: for each column a space, the text of the cell and a bar, with no text where
the row is too short. -/
def cellsLine (columns : Nat) (texts : List String) : String :=
  String.join ((List.range columns).map fun i => " " ++ texts.getD i "" ++ " |")

theorem cellsLine_succ (columns : Nat) (texts : List String) :
    cellsLine (columns + 1) texts =
      " " ++ texts.getD 0 "" ++ " |" ++ cellsLine columns texts.tail := by
  rw [cellsLine, List.range_succ_eq_map, List.map_cons, String.join_cons, List.map_map]
  cases texts <;> rfl

theorem oneLine_cellsLine {texts : List String} (h : ∀ s ∈ texts, OneLine s) (columns : Nat) :
    OneLine (cellsLine columns texts) := by
  induction columns generalizing texts with
  | zero => exact (by decide : OneLine "")
  | succ columns ih =>
    have hfirst : OneLine (texts.getD 0 "") := by
      cases texts with
      | nil => decide
      | cons s rest => exact h s List.mem_cons_self
    rw [cellsLine_succ]
    exact oneLine_append.2 ⟨hfirst.between (by decide) (by decide),
      ih fun s hs => h s (List.mem_of_mem_tail hs)⟩

/-- The texts of the cells of a row. -/
def CellTexts (o : Options) (cells : List Node) (texts : List String) : Prop :=
  List.Forall₂ (fun node s => cellText o node = .ok s ∧ OneLine s) cells texts

theorem CellTexts.oneLine {cells : List Node} {texts : List String} (h : CellTexts o cells texts) :
    ∀ s ∈ texts, OneLine s := by
  induction h with
  | nil => exact List.forall_mem_nil _
  | cons hcell _ ih => exact List.forall_mem_cons.2 ⟨hcell.2, ih⟩

/-- Cells that are written are written one behind the other. -/
theorem markdownCells_wrote {cells : List Node} {columns : Nat} (hfit : cells.length ≤ columns)
    (hout : out.InRow) (h : markdownCells columns (cells.map (render o)) out = (.ok (), out')) :
    ∃ texts, CellTexts o cells texts ∧ out' = out.wrote (cellsLine columns texts) := by
  induction columns generalizing cells out with
  | zero =>
    obtain rfl := List.length_eq_zero_iff.1 (Nat.le_zero.1 hfit)
    cases h
    exact ⟨[], .nil, (Output.wrote_empty _).symm⟩
  | succ columns ih =>
    have hspace : write " " out = (.ok (), out.wrote " ") := write_of_fits fun _ => by decide
    have hbehind : (out.wrote " ").InRow := hout.wrote (by decide)
    have hbar (mid : Output) : write " |" mid = (.ok (), mid.wrote " |") :=
      write_of_fits fun _ => by decide
    cases cells with
    | nil =>
      rw [List.map_nil, markdownCells, bind_of_ok hspace, bind_of_ok (hbar _)] at h
      have hnext : ((out.wrote " ").wrote " |").InRow := hbehind.wrote (by decide)
      have hnone : ([] : List Node).length ≤ columns := Nat.zero_le _
      obtain ⟨texts, htexts, rfl⟩ := ih hnone hnext h
      cases htexts
      refine ⟨[], .nil, ?_⟩
      rw [cellsLine_succ, Output.wrote_wrote, Output.wrote_wrote]
      rfl
    | cons node rest =>
      rw [List.map_cons, markdownCells, bind_of_ok hspace] at h
      obtain ⟨_, mid, hcell, hrest⟩ := bind_eq_ok h
      obtain ⟨s, hs, hline, rfl⟩ := inTable_wrote hbehind hcell
      rw [bind_of_ok (hbar _)] at hrest
      obtain ⟨texts, htexts, rfl⟩ := ih (Nat.le_of_succ_le_succ hfit)
        ((hbehind.wrote hline).wrote (by decide)) hrest
      refine ⟨s :: texts, .cons ⟨hs, hline⟩ htexts, ?_⟩
      rw [cellsLine_succ, Output.wrote_wrote, Output.wrote_wrote, Output.wrote_wrote]
      simp [String.append_assoc]

/-- The line of a row. -/
def rowLine (columns : Nat) (texts : List String) : String := "|" ++ cellsLine columns texts

/-- Three dashes and a bar for each column. -/
def dashes (columns : Nat) : String := String.join (List.replicate columns " --- |")

/-- The line between the header and the rows. -/
def dividerLine (columns : Nat) : String := "|" ++ dashes columns

/-- The lines of a table. -/
def gridLines (columns : Nat) (header : List String) (rows : List (List String)) : List String :=
  rowLine columns header :: dividerLine columns :: rows.map (rowLine columns)

/-- Lines with the line break behind each of them. -/
def linesText (lines : List String) : String := String.join (lines.map (· ++ "\n"))

theorem markdownRow_wrote {cells : List Node} {columns : Nat} (hfit : cells.length ≤ columns)
    (hout : out.AtRoot) (h : markdownRow columns (cells.map (render o)) out = (.ok (), out')) :
    ∃ texts, CellTexts o cells texts ∧ out' = out.wrote (rowLine columns texts ++ "\n") := by
  have hbar : write "|" out = (.ok (), out.wrote "|") := write_of_fits fun _ => by decide
  rw [markdownRow, bind_of_ok hbar] at h
  obtain ⟨_, mid, hcells, hend⟩ := bind_eq_ok h
  obtain ⟨texts, htexts, rfl⟩ := markdownCells_wrote hfit hout.opened hcells
  cases (hout.opened.toAtRoot.wrote _).write_break.symm.trans hend
  refine ⟨texts, htexts, ?_⟩
  rw [Output.wrote_wrote, Output.wrote_wrote]
  rfl

theorem markdownRows_wrote {rows : List (List Node)} {columns : Nat}
    (hfit : ∀ row ∈ rows, row.length ≤ columns) (hout : out.AtRoot)
    (h : markdownRows columns (rows.map (·.map (render o))) out = (.ok (), out')) :
    ∃ body, List.Forall₂ (CellTexts o) rows body ∧
      out' = out.wrote (linesText (body.map (rowLine columns))) := by
  induction rows generalizing out with
  | nil =>
    cases h
    exact ⟨[], .nil, (Output.wrote_empty _).symm⟩
  | cons row rest ih =>
    obtain ⟨hrow, hrest⟩ := List.forall_mem_cons.1 hfit
    obtain ⟨_, mid, hfirst, hmore⟩ := bind_eq_ok h
    obtain ⟨texts, htexts, rfl⟩ := markdownRow_wrote hrow hout hfirst
    obtain ⟨body, hbody, rfl⟩ := ih hrest (hout.wrote _) hmore
    refine ⟨texts :: body, .cons htexts hbody, ?_⟩
    rw [Output.wrote_wrote]
    simp [linesText]

theorem divider_wrote (columns : Nat) (out : Output) :
    divider columns out = (.ok (), out.wrote (dashes columns)) := by
  induction columns generalizing out with
  | zero => exact congrArg _ (Output.wrote_empty out).symm
  | succ columns ih =>
    have hcolumn : write " --- |" out = (.ok (), out.wrote " --- |") :=
      write_of_fits fun _ => by decide
    rw [divider, bind_of_ok hcolumn, ih, Output.wrote_wrote, dashes, dashes, List.replicate_succ,
      String.join_cons]

theorem oneLine_dashes (columns : Nat) : OneLine (dashes columns) := by
  induction columns with
  | zero => decide
  | succ columns ih =>
    rw [dashes, List.replicate_succ, String.join_cons]
    exact oneLine_append.2 ⟨by decide, ih⟩

/-- The header, the divider and the rows are written as the lines of the table. -/
theorem tableLines_wrote {header : List Node} {rows : List (List Node)} {columns : Nat}
    (hheader : header.length ≤ columns) (hrows : ∀ row ∈ rows, row.length ≤ columns)
    (hout : out.AtRoot)
    (h : tableLines columns (header.map (render o)) (rows.map (·.map (render o))) out =
      (.ok (), out')) :
    ∃ top body, CellTexts o header top ∧ List.Forall₂ (CellTexts o) rows body ∧
      out' = out.wrote (linesText (gridLines columns top body)) := by
  obtain ⟨_, mid, hfirst, h⟩ := bind_eq_ok h
  obtain ⟨top, htop, rfl⟩ := markdownRow_wrote hheader hout hfirst
  have hbar (start : Output) : write "|" start = (.ok (), start.wrote "|") :=
    write_of_fits fun _ => by decide
  have hdivider := ((hout.wrote (rowLine columns top ++ "\n")).wrote "|").wrote (dashes columns)
  rw [bind_of_ok (hbar _), bind_of_ok (divider_wrote columns _),
    bind_of_ok hdivider.write_break] at h
  obtain ⟨body, hbody, rfl⟩ := markdownRows_wrote hrows (hdivider.wrote _) h
  refine ⟨top, body, htop, hbody, ?_⟩
  have htext : rowLine columns top ++ "\n" ++ "|" ++ dashes columns ++ "\n" ++
      linesText (body.map (rowLine columns)) = linesText (gridLines columns top body) := by
    simp only [linesText, gridLines, dividerLine, List.map_cons, String.join_cons,
      String.append_assoc]
  rw [← htext]
  simp only [Output.wrote_wrote]

theorem oneLine_gridLines {cells : List Node} {rows : List (List Node)} {top : List String}
    {body : List (List String)} (htop : CellTexts o cells top)
    (hbody : List.Forall₂ (CellTexts o) rows body) (columns : Nat) :
    ∀ line ∈ gridLines columns top body, OneLine line := by
  have hrow {cells : List Node} {texts : List String} (h : CellTexts o cells texts) :
      OneLine (rowLine columns texts) :=
    oneLine_append.2 ⟨by decide, oneLine_cellsLine h.oneLine columns⟩
  have hdivider : OneLine (dividerLine columns) :=
    oneLine_append.2 ⟨by decide, oneLine_dashes columns⟩
  have hrows : ∀ line ∈ body.map (rowLine columns), OneLine line := by
    induction hbody with
    | nil => exact List.forall_mem_nil _
    | cons hfirst _ ih => exact List.forall_mem_cons.2 ⟨hrow hfirst, ih⟩
  exact List.forall_mem_cons.2 ⟨hrow htop, List.forall_mem_cons.2 ⟨hdivider, hrows⟩⟩

end Cells

section Table
variable {o : Options} {header : List Node} {rows : List (List Node)} {md : String}

/-- If a table is written, then as one line break and its lines, each with a line break behind it:
the header, a divider and the rows in order. A line is a bar, and for each column a space, the text
of the cell and a bar; there are as many columns as the longest row has cells. -/
theorem renderRaw_table (h : renderRaw o (.table header rows) = .ok md) :
    ∃ top body, CellTexts o header top ∧ List.Forall₂ (CellTexts o) rows body ∧
      md = "\n" ++ linesText (gridLines (columnCount header rows) top body) ∧
      (∀ line ∈ gridLines (columnCount header rows) top body, OneLine line) ∧
      (gridLines (columnCount header rows) top body).length = 2 + rows.length ∧
      (∀ row ∈ header :: rows, row.length ≤ columnCount header rows) ∧
      ∃ row ∈ header :: rows, row.length = columnCount header rows := by
  obtain ⟨hheader, hrows⟩ := length_le_columnCount header rows
  obtain ⟨out, hok, rfl⟩ := renderRaw_ok h
  rw [render, renderNode, renderParts_eq_map, renderRows_eq_map, table_eq, columnCount_map] at hok
  split at hok
  · cases hok
  have hframed : ∀ row ∈ header.map (render o) :: rows.map (·.map (render o)), ∀ cell ∈ row,
      Framed cell := by
    simp [framed_renderNode framed_pageHead, render]
  have hlines : checkedTable (columnCount header rows) (header.map (render o))
      (rows.map (·.map (render o))) {} = (.ok (), out) := hok
  rw [checkedTable_fresh] at hlines
  obtain ⟨last, hlast, rfl⟩ := (framed_tableLines hframed).withMode_ok hlines
  obtain ⟨top, body, htop, hbody, rfl⟩ := tableLines_wrote hheader hrows ⟨rfl, rfl⟩ hlast
  refine ⟨top, body, htop, hbody, ?_, oneLine_gridLines htop hbody _, ?_, ?_,
    exists_length_eq_columnCount header rows⟩
  · exact Buffer.write_text rfl _
  · simp only [gridLines, List.length_cons, List.length_map, hbody.length_eq]
    omega
  · exact List.forall_mem_cons.2 ⟨hheader, hrows⟩

/-- A list with code over two lines and a table in a cell, next to a number sign. -/
def crowdedRow : List Node :=
  [.text "# c", .list .unordered [.quote [.code none "x\ny"], .table [.comment "d" true] []]]

/-- The header is one cell short and the first row has none. -/
theorem renderRaw_table_ragged :
    ∃ top body, CellTexts {} [.text "a|b"] top ∧ List.Forall₂ (CellTexts {}) [[], crowdedRow] body ∧
      "\n| a\\|b |  |\n| --- | --- |\n|  |  |\n| # c | <ul><li><blockquote><code>x</code><br>" ++
          "<code>y</code></blockquote></li><li><table><tr><th><!-- d --></th></tr></table></li>" ++
          "</ul> |\n" = "\n" ++ linesText (gridLines 2 top body) ∧
      (gridLines 2 top body).length = 4 := by
  have h : renderRaw {} (.table [.text "a|b"] [[], crowdedRow]) = .ok
      ("\n| a\\|b |  |\n| --- | --- |\n|  |  |\n| # c | <ul><li><blockquote><code>x</code><br>" ++
        "<code>y</code></blockquote></li><li><table><tr><th><!-- d --></th></tr></table></li>" ++
        "</ul> |\n") := by decide +kernel
  obtain ⟨top, body, htop, hbody, htext, -, hlength, -⟩ := renderRaw_table h
  exact ⟨top, body, htop, hbody, htext, hlength⟩

end Table

end DocTree.Markdown
