import DocTree.Markdown.Block
import Mathlib.Logic.Basic

/-! The laws of steps in sequence, and headings and tables as a check and what is written once it
has passed. -/
namespace DocTree.Markdown
open Render

instance : LawfulMonad Render := by
  refine LawfulMonad.mk' Render (fun steps => ?_) (fun _ _ => rfl) fun steps next more => ?_
  · funext out
    change (match steps out with
      | (.ok a, out) => (.ok a, out)
      | (.error e, out) => (.error e, out)) = steps out
    rcases steps out with ⟨_ | _, _⟩ <;> rfl
  · funext out
    simp only [bind_apply]
    rcases steps out with ⟨_ | _, _⟩ <;> rfl

theorem Render.fail_bind {α β : Type} (error : RenderError) (next : α → Render β) :
    (fail error : Render α) >>= next = fail error := rfl

/-- What is wrong with the level or the anchor of a heading. -/
def headingError? (level : UInt8) (anchor : Option String) : Option RenderError :=
  if level < 1 ∨ 6 < level then some (.invalidHeadingLevel level)
  else
    match anchor with
    | some id => if isValidAnchor id then none else some (.invalidAnchor id)
    | none => none

theorem headingError?_eq_none {level : UInt8} {anchor : Option String} :
    headingError? level anchor = none ↔
      (1 ≤ level ∧ level ≤ 6) ∧ ∀ id ∈ anchor, isValidAnchor id := by
  have hlevel : (level < 1 ∨ 6 < level) ↔ ¬ (1 ≤ level ∧ level ≤ 6) := by
    rw [not_and_or, UInt8.not_le, UInt8.not_le]
  unfold headingError?
  split
  · next hl => simp [hlevel.1 hl]
  · next hl =>
    rw [and_iff_right (not_not.1 (hlevel.not.1 hl))]
    cases anchor <;> simp

/-- A heading with a level and an anchor that are in order. -/
def checkedHeading (level : UInt8) (anchor : Option String) (body : Render Unit) :
    Render Unit := do
  if ← constrained then
    write s!"<h{level}>"
    withMode .htmlBlock true do
      optionalAnchor anchor
      body
    write s!"</h{level}>"
  else paragraphBreak do
    write (headingMark level)
    write " "
    optionalAnchor anchor
    inSingleLine body
    ensureNewLine

theorem heading_eq (level : UInt8) (anchor : Option String) (body : Render Unit) :
    heading level anchor body =
      match headingError? level anchor with
      | some error => fail error
      | none => checkedHeading level anchor body := by
  by_cases hl : level < 1 ∨ 6 < level
  · simp only [heading, headingError?, if_pos hl, fail_bind]
  · cases anchor with
    | none => simp only [heading, headingError?, if_neg hl, checkedHeading]
    | some id =>
      by_cases ha : isValidAnchor id
      · simp only [heading, headingError?, if_neg hl, if_pos ha, checkedHeading]
      · simp only [heading, headingError?, if_neg hl, if_neg ha, fail_bind]

/-- A table that has columns. -/
def checkedTable (columns : Nat) (header : List (Render Unit)) (rows : List (List (Render Unit))) :
    Render Unit := do
  if ← constrained then
    write "<table>"
    withMode .htmlBlock true do
      htmlRow "th" columns header
      htmlRows columns rows
    write "</table>"
  else
    ensureSkippedLine
    withMode .htmlBlock false do
      markdownRow columns header
      write "|"
      divider columns
      write "\n"
      markdownRows columns rows

theorem table_eq (header : List (Render Unit)) (rows : List (List (Render Unit))) :
    table header rows =
      if columnCount header rows = 0 then fail .emptyTable
      else checkedTable (columnCount header rows) header rows := by
  by_cases hc : columnCount header rows = 0
  · simp only [table, if_pos hc, fail_bind]
  · simp only [table, if_neg hc, checkedTable]

end DocTree.Markdown
