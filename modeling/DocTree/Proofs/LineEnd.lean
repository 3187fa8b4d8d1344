import DocTree.Proofs.Separation

/-! Blocks that end their last line. Each of them writes to its last line until nothing but a line
break is missing, and that line break is the last thing it writes. -/
namespace DocTree

/-- A block that ends its last line. -/
def Node.endsLine : Node → Bool
  | heading _ _ _ | code _ _ | rule | table _ _ => true
  | _ => false

namespace Markdown
open Render Layout Text

/-- The output with its line over. -/
def Output.closed (out : Output) : Output := { out with buffer := out.buffer.ensureNewLine }

theorem Output.closed_closed (out : Output) : out.closed.closed = out.closed := by
  rw [closed, closed, Buffer.ensureNewLine_again]

/-- The line goes on, and the last block is not empty. -/
def Output.Busy (out : Output) : Prop := out.buffer.atLineStart = false ∧ out.fresh = false

namespace Render
variable {steps next : Render Unit} {out out' : Output}

theorem busy_write {s : String} (hs : OneLine s) (hwritten : Written s)
    (h : write s out = (.ok (), out')) : out'.Busy := by
  obtain ⟨c, hc, hblank⟩ := hwritten
  rw [write_of_fits fun _ => hs] at h
  cases h
  refine ⟨out.buffer.begun_write hs (List.ne_nil_of_mem hc), ?_⟩
  have hall : s.toList.all Unicode.isBlank = false :=
    List.all_eq_false.2 ⟨c, hc, hblank⟩
  simp [Output.wrote, hall]

/-- From a line that goes on the steps do not end it. -/
def Stays (steps : Render Unit) : Prop :=
  ∀ out out' : Output, out.Busy → steps out = (.ok (), out') → out'.Busy

theorem stays_pure : Stays (pure ()) := by
  intro out out' hbusy h
  cases h
  exact hbusy

theorem Stays.then (h : Stays steps) (hnext : Stays next) : Stays (do steps; next) := by
  intro out out' hbusy hrun
  obtain ⟨_, mid, hmid, hend⟩ := bind_eq_ok hrun
  exact hnext mid out' (h out mid hbusy hmid) hend

theorem stays_write {s : String} (hs : OneLine s) : Stays (write s) := by
  intro out out' hbusy h
  rw [write_of_fits fun _ => hs] at h
  cases h
  refine ⟨(out.buffer.extends_write s).begun hs hbusy.1, ?_⟩
  simp [Output.wrote, hbusy.2]

theorem Stays.withMode (h : Stays steps) (hframed : Framed steps) (mode : Mode) (value : Bool) :
    Stays (withMode mode value steps) := by
  intro out out' hbusy hrun
  obtain ⟨last, hlast, rfl⟩ := hframed.withMode_ok hrun
  exact h { out with modes := out.modes.set mode value } last hbusy hlast

end Render

/-- The line goes on and may not end. -/
def Output.Held (out : Output) : Prop := out.constrained ∧ out.Busy

instance : Kept Output.Held where
  wrote := by
    intro out s h hs
    refine ⟨h.1, (out.buffer.extends_write s).begun (hs h.1) h.2.1, ?_⟩
    simp [Output.wrote, h.2.2]
  setMode h hv := ⟨Modes.constrained_set hv h.1, h.2⟩
  restore h hsaved := ⟨hsaved.1, h.2⟩
  skipLine h hl := absurd h.1 (by simp [hl])
  markFresh h hl := absurd h.1 (by simp [hl])
  pushIndent h hl := absurd h.1 (by simp [hl])
  popIndent h := h

namespace Render
variable {steps next : Render Unit} {out out' : Output}

/-- Steps on a line that may not end. -/
theorem stays_held (h : Respects (Keeping Output.Held) true steps) (hframed : Framed steps)
    {mode : Mode} (hmode : mode.constrains) : Stays (withMode mode true steps) := by
  intro out out' hbusy hrun
  obtain ⟨last, hlast, rfl⟩ := hframed.withMode_ok hrun
  have hline : (out.modes.set mode true).constrained = true := by
    cases mode <;> simp_all [Mode.constrains, Modes.set, Modes.constrained]
  obtain ⟨-, ⟨-, hheld⟩, -⟩ := h { out with modes := out.modes.set mode true } _
    ⟨rfl, hline, hbusy⟩ hline
  rw [hlast] at hheld
  exact hheld.2

theorem stays_inTable (h : Respects (Keeping Output.Held) true steps) (hframed : Framed steps) :
    Stays (inTable steps) :=
  (stays_held h hframed rfl).withMode (hframed.withMode fun _ => rfl) _ _

theorem stays_inSingleLine (h : Respects (Keeping Output.Held) true steps)
    (hframed : Framed steps) : Stays (inSingleLine steps) := by
  intro out out' hbusy hrun
  exact (stays_held h hframed rfl).withMode (hframed.withMode fun _ => rfl) _ _ out out' hbusy hrun

/-- From a line that goes on the steps add to it and end it last of all. -/
def Closes (steps : Render Unit) : Prop :=
  ∀ out out' : Output, out.Busy → steps out = (.ok (), out') →
    ∃ mid, out.Extends mid ∧ mid.Busy ∧ out' = mid.closed

/-- Where a line may end the steps end one last of all, with something on it. -/
def EndsLine (steps : Render Unit) : Prop :=
  ∀ out out' : Output, out.constrained = false → steps out = (.ok (), out') →
    ∃ mid, out.Extends mid ∧ mid.Busy ∧ out' = mid.closed

theorem closed_of_break (hbusy : out.Busy) (h : write "\n" out = (.ok (), out')) :
    out' = out.closed := by
  have hwrite : out.buffer.write "\n" = out.buffer.ensureNewLine := by
    rw [Buffer.ensureNewLine, if_neg (by simp [hbusy.1]), ← Buffer.put_newline]
    rfl
  unfold write at h
  split at h
  · cases h
  · obtain ⟨-, rfl⟩ := Prod.mk.inj h
    simp [Output.closed, hwrite, hbusy.2]

theorem closes_break : Closes (write "\n") :=
  fun out _ hbusy h => ⟨out, .refl out, hbusy, closed_of_break hbusy h⟩

theorem closes_ensureNewLine : Closes ensureNewLine := by
  intro out out' hbusy h
  refine ⟨out, .refl out, hbusy, closed_of_break hbusy ?_⟩
  rw [← h, ensureNewLine, bind_apply]
  simp [look, hbusy.1]

theorem Closes.after (h : Stays steps) (hframed : Framed steps) (hnext : Closes next) :
    Closes (do steps; next) := by
  intro out out' hbusy hrun
  obtain ⟨_, start, hstart, hend⟩ := bind_eq_ok hrun
  obtain ⟨mid, hmid, hrest⟩ := hnext start out' (h out start hbusy hstart) hend
  exact ⟨mid, (hframed.of_eq hstart).trans hmid, hrest⟩

theorem Closes.begin {s : String} (h : Closes next) (hs : OneLine s) (hwritten : Written s) :
    EndsLine (do write s; next) := by
  intro out out' _ hrun
  obtain ⟨_, start, hstart, hend⟩ := bind_eq_ok hrun
  obtain ⟨mid, hmid, hrest⟩ := h start out' (busy_write hs hwritten hstart) hend
  exact ⟨mid, ((framed_write s).of_eq hstart).trans hmid, hrest⟩

theorem EndsLine.after (h : EndsLine next) (hframed : Framed steps) :
    EndsLine (do steps; next) := by
  intro out out' hl hrun
  obtain ⟨_, start, hstart, hend⟩ := bind_eq_ok hrun
  have hframe := hframed.of_eq hstart
  obtain ⟨mid, hmid, hrest⟩ := h start out' ((Output.constrained_congr hframe.modes).trans hl) hend
  exact ⟨mid, hframe.trans hmid, hrest⟩

theorem endsLine_fail (error : RenderError) : EndsLine (fail error) := by
  intro out out' _ hrun
  cases hrun

theorem EndsLine.unlessConstrained (h : EndsLine next) :
    EndsLine (do if ← constrained then steps else next) := by
  intro out out' (hl : out.modes.constrained = false) hrun
  rw [bind_apply] at hrun
  simp only [constrained, look, Output.constrained, hl] at hrun
  exact h out out' hl hrun

theorem EndsLine.inHtml (h : EndsLine steps) (value : Bool) :
    EndsLine (withMode .htmlBlock value steps) := by
  intro out out' hl hrun
  cases hsteps : steps { out with modes := out.modes.set .htmlBlock value } with
  | mk result last =>
    simp only [withMode, hsteps] at hrun
    obtain ⟨rfl, rfl⟩ := Prod.mk.inj hrun
    obtain ⟨mid, hmid, hbusy, rfl⟩ :=
      h { out with modes := out.modes.set .htmlBlock value } last hl hsteps
    refine ⟨{ mid with modes := out.modes }, ⟨rfl, hmid.buffer⟩, hbusy, ?_⟩
    simp [Output.closed, hmid.modes, Modes.set_set, Modes.set_get]

theorem EndsLine.paragraphBreak (h : EndsLine steps) : EndsLine (paragraphBreak steps) := by
  apply EndsLine.unlessConstrained
  intro out out' hl hrun
  rw [bind_apply] at hrun
  simp only [look] at hrun
  split at hrun
  · exact h out out' hl hrun
  · have hblock : EndsLine (withMode .htmlBlock false do markFresh; steps) :=
      (h.after framed_markFresh).inHtml false
    obtain ⟨mid, hmid, hrest⟩ := hblock out.skipped out' hl hrun
    exact ⟨mid, (extends_skippedLine (by simp [hl])).trans hmid, hrest⟩

end Render

theorem line_replicate {n : Nat} {c : Char} (hn : n ≠ 0) (hc : c ≠ '\n')
    (hblank : ¬ Unicode.isBlank c) :
    OneLine (String.ofList (List.replicate n c)) ∧
      Written (String.ofList (List.replicate n c)) := by
  constructor
  · simp [List.mem_replicate, hc.symm]
  · exact ⟨c, by simp [List.mem_replicate, hn], hblank⟩

section Block
variable {body : Render Unit}

theorem endsLine_rule : EndsLine rule := by
  have hline : EndsLine (do write "---"; ensureNewLine) :=
    closes_ensureNewLine.begin (by decide) ⟨'-', by decide, by decide⟩
  exact hline.paragraphBreak.unlessConstrained

theorem endsLine_codeBlock (language : Option String) (code : String) :
    EndsLine (codeBlock language code) := by
  obtain ⟨hline, hwritten⟩ : OneLine (ticks (fenceLength code '\x60')) ∧
      Written (ticks (fenceLength code '\x60')) :=
    line_replicate (by simp [fenceLength]) (by decide) (by decide)
  have hend : EndsLine (do write (ticks (fenceLength code '\x60')); ensureNewLine) :=
    closes_ensureNewLine.begin hline hwritten
  have hcode : Framed (withMode .markdownCode true (writeEscaped code)) :=
    (framed_writeEscaped code).withMode (by decide)
  have hbody := (hend.after framed_ensureNewLine).after hcode
  apply EndsLine.unlessConstrained
  apply EndsLine.paragraphBreak
  exact ((hbody.after (framed_write _)).after (framed_write _)).after (framed_write _)

theorem stays_optionalAnchor {anchor : Option String} (h : ∀ id ∈ anchor, isValidAnchor id) :
    Stays (optionalAnchor anchor) := by
  cases anchor with
  | none => exact stays_pure
  | some id =>
    have hid : OneLine id := oneLine_of_isValidAnchor (h id rfl)
    exact stays_write (hid.between (by decide) (by decide))

theorem endsLine_heading (h : Respects (Keeping Output.Held) true body) (hframed : Framed body)
    (level : UInt8) (anchor : Option String) : EndsLine (heading level anchor body) := by
  rw [heading_eq]
  split
  · exact endsLine_fail _
  next hnone =>
  obtain ⟨⟨hlevel, -⟩, hanchor⟩ := headingError?_eq_none.1 hnone
  have hmark : level.toNat ≠ 0 := by
    intro hzero
    have := UInt8.le_iff_toNat_le.1 hlevel
    simp [hzero] at this
  obtain ⟨hline, hwritten⟩ : OneLine (headingMark level) ∧ Written (headingMark level) :=
    line_replicate hmark (by decide) (by decide)
  have hbody : Closes (do inSingleLine body; ensureNewLine) :=
    closes_ensureNewLine.after (stays_inSingleLine h hframed) hframed.inSingleLine
  have hrest : Closes (do write " "; optionalAnchor anchor; inSingleLine body; ensureNewLine) :=
    Closes.after (stays_write (by decide)) (framed_write _) <|
      Closes.after (stays_optionalAnchor hanchor) (framed_optionalAnchor _) hbody
  exact (hrest.begin hline hwritten).paragraphBreak.unlessConstrained

section Table
variable {cells : List (Render Unit)} {rows : List (List (Render Unit))}

/-- The steps that write a cell do not end the row. -/
def Fits (cell : Render Unit) : Prop :=
  Respects (Keeping Output.Held) true cell ∧ Framed cell

theorem framed_of_fits (h : ∀ cell ∈ cells, Fits cell) : ∀ cell ∈ cells, Framed cell :=
  fun cell hcell => (h cell hcell).2

theorem stays_markdownCells (h : ∀ cell ∈ cells, Fits cell) (columns : Nat) :
    Stays (markdownCells columns cells) := by
  have hspace : Stays (write " ") := stays_write (by decide)
  have hbar : Stays (write " |") := stays_write (by decide)
  induction columns generalizing cells with
  | zero => exact stays_pure
  | succ columns ih =>
    cases cells with
    | nil => exact hspace.then (hbar.then (ih h))
    | cons cell rest =>
      obtain ⟨⟨hcell, hframed⟩, hrest⟩ := List.forall_mem_cons.1 h
      exact hspace.then ((stays_inTable hcell hframed).then (hbar.then (ih hrest)))

theorem stays_divider (columns : Nat) : Stays (divider columns) := by
  induction columns with
  | zero => exact stays_pure
  | succ columns ih => exact (stays_write (by decide)).then ih

theorem written_bar : Written "|" := ⟨'|', by decide, by decide⟩

theorem endsLine_markdownRow (h : ∀ cell ∈ cells, Fits cell) (columns : Nat) :
    EndsLine (markdownRow columns cells) := by
  have hcells : Closes (do markdownCells columns cells; write "\n") :=
    closes_break.after (stays_markdownCells h columns)
      (framed_markdownCells (framed_of_fits h) columns)
  exact hcells.begin (by decide) written_bar

theorem endsLine_markdownRows {steps : Render Unit} (hsteps : EndsLine steps)
    (hframed : Framed steps) (h : ∀ row ∈ rows, ∀ cell ∈ row, Fits cell) (columns : Nat) :
    EndsLine (do steps; markdownRows columns rows) := by
  induction rows generalizing steps with
  | nil => simpa [markdownRows] using hsteps
  | cons row rest ih =>
    obtain ⟨hrow, hrest⟩ := List.forall_mem_cons.1 h
    have hline : EndsLine (markdownRow columns row) := endsLine_markdownRow hrow columns
    have hlineFramed : Framed (markdownRow columns row) :=
      framed_markdownRow (framed_of_fits hrow) columns
    exact (ih hline hlineFramed hrest).after hframed

theorem endsLine_table {header : List (Render Unit)} (hheader : ∀ cell ∈ header, Fits cell)
    (hrows : ∀ row ∈ rows, ∀ cell ∈ row, Fits cell) : EndsLine (table header rows) := by
  rw [table_eq]
  split
  · exact endsLine_fail _
  generalize columnCount header rows = columns
  have hrule : EndsLine (do write "|"; divider columns; write "\n") :=
    (closes_break.after (stays_divider columns) (framed_divider columns)).begin (by decide)
      written_bar
  have hruleFramed : Framed (do write "|"; divider columns; write "\n") :=
    (framed_write _).then ((framed_divider columns).then (framed_write _))
  have hlines := (endsLine_markdownRows hrule hruleFramed hrows columns).after
    (framed_markdownRow (framed_of_fits hheader) columns)
  simp only [bind_assoc] at hlines
  exact ((hlines.inHtml false).after framed_ensureSkippedLine).unlessConstrained

end Table
end Block

section Tree
variable {o : Options} {node : Node}

theorem fits_render (node : Node) : Fits (render o node) :=
  ⟨respects_render o node true, framed_renderNode framed_pageHead node⟩

/-- Headings, rules, blocks of code and tables end their last line. -/
theorem endsLine_render (h : node.endsLine) : EndsLine (render o node) := by
  cases node with
  | rule => exact endsLine_rule
  | code language s => exact endsLine_codeBlock language s
  | heading level anchor children =>
    obtain ⟨hheld, hframed⟩ := fits_render (o := o) (.group children)
    exact endsLine_heading hheld hframed level anchor
  | table header rows =>
    have hcells (cells : List Node) : ∀ cell ∈ cells.map (render o), Fits cell :=
      List.forall_mem_map.2 fun n _ => fits_render n
    rw [render, renderNode, renderParts_eq_map, renderRows_eq_map]
    exact endsLine_table (hcells header) (List.forall_mem_map.2 fun row _ => hcells row)
  | _ => cases h

end Tree
end Markdown
end DocTree
