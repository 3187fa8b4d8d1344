import DocTree.Proofs.Buffer

/-! What a buffer holds, told by the strokes that have gone into it: each character that has been
written, with the indentation that was in force. The indentation of a line is the one in force at its
first stroke, whatever has come and gone since. -/
namespace DocTree.Layout
open Text

/-- A character that has been written, and the indentation in force when it was. -/
structure Stroke where
  indent : String
  char : Char
  deriving DecidableEq

/-- A line that has been ended: its strokes, and the indentation in force at its end. -/
structure Line where
  content : List Stroke
  final : String

/-- Strokes line by line: the lines that have been ended, and what has come since. -/
structure Sheet where
  lines : List Line := []
  rest : List Stroke := []

namespace Sheet

def add (sheet : Sheet) (stroke : Stroke) : Sheet :=
  if stroke.char = '\n' then ⟨sheet.lines ++ [⟨sheet.rest, stroke.indent⟩], []⟩
  else ⟨sheet.lines, sheet.rest ++ [stroke]⟩

def of (strokes : List Stroke) : Sheet := strokes.foldl add {}

theorem of_append (strokes : List Stroke) (stroke : Stroke) :
    of (strokes ++ [stroke]) = (of strokes).add stroke := List.foldl_append

/-- A line has been ended, and the last one of them has no strokes. -/
def EndsBlank (sheet : Sheet) : Prop := ∃ line, sheet.lines.getLast? = some line ∧ line.content = []

end Sheet

/-- Strokes of a line behind the indentation of the first one. -/
def shown : List Stroke → String
  | [] => ""
  | first :: rest => first.indent ++ String.ofList ((first :: rest).map (·.char))

/-- A line without strokes is what is left of its indentation when the white space at its end is
cut. -/
def Line.shown (line : Line) : String :=
  if line.content = [] then String.ofList (Unicode.dropBlankEnd line.final.toList)
  else Layout.shown line.content

theorem shown_append {strokes : List Stroke} (hne : strokes ≠ []) (stroke : Stroke) :
    shown (strokes ++ [stroke]) = (shown strokes).push stroke.char := by
  cases strokes with
  | nil => exact absurd rfl hne
  | cons first rest => simp [shown, ← String.toList_inj]

/-- A buffer, and the strokes by which it has come about. -/
structure Logged where
  buffer : Buffer := {}
  strokes : List Stroke := []

namespace Logged

def stroke (l : Logged) (c : Char) : Stroke := ⟨l.buffer.indent, c⟩

def write (l : Logged) (s : String) : Logged :=
  ⟨l.buffer.write s, l.strokes ++ s.toList.map l.stroke⟩

def writeLine (l : Logged) (s : String) : Logged :=
  ⟨l.buffer.writeLine s, l.strokes ++ s.toList.map l.stroke ++ [l.stroke '\n']⟩

def ensureNewLine (l : Logged) : Logged :=
  ⟨l.buffer.ensureNewLine, l.strokes ++ if l.buffer.atLineStart then [] else [l.stroke '\n']⟩

def ensureSkippedLine (l : Logged) : Logged :=
  ⟨l.buffer.ensureSkippedLine, l.ensureNewLine.strokes ++
    if l.buffer.ensureNewLine.afterBlank then [] else [l.stroke '\n']⟩

def pushIndent (l : Logged) (indent : String) : Logged :=
  { l with buffer := l.buffer.pushIndent indent }

def popIndent (l : Logged) : Logged := { l with buffer := l.buffer.popIndent }

abbrev sheet (l : Logged) : Sheet := .of l.strokes

/-- The buffer is what the strokes come to. -/
structure Holds (l : Logged) : Prop where
  indents : ∀ indent ∈ l.buffer.indents, OneLine indent
  lines : ∀ line ∈ l.sheet.lines, OneLine line.shown ∧ ∀ stroke ∈ line.content, stroke.char ≠ '\n'
  rest : ∀ stroke ∈ l.sheet.rest, OneLine stroke.indent ∧ stroke.char ≠ '\n'
  content : l.buffer.content =
    if l.sheet.rest = [] then none else some (String.ofList (l.sheet.rest.map (·.char)))
  afterBlank : l.buffer.afterBlank ↔ l.sheet.EndsBlank
  text : l.buffer.text =
    String.join (l.sheet.lines.map fun line => line.shown ++ "\n") ++ shown l.sheet.rest

variable {l : Logged}

theorem holds_empty : Holds {} where
  indents := List.forall_mem_nil _
  lines := List.forall_mem_nil _
  rest := List.forall_mem_nil _
  content := rfl
  afterBlank := by
    refine iff_of_false Bool.false_ne_true ?_
    rintro ⟨line, hlast, -⟩
    cases hlast
  text := rfl

theorem oneLine_shown {strokes : List Stroke}
    (h : ∀ stroke ∈ strokes, OneLine stroke.indent ∧ stroke.char ≠ '\n') :
    OneLine (shown strokes) := by
  cases strokes with
  | nil => exact (by decide : OneLine "")
  | cons first rest =>
    refine oneLine_append.2 ⟨(h first List.mem_cons_self).1, oneLine_ofList.2 fun hmem => ?_⟩
    obtain ⟨stroke, hstroke, hbreak⟩ := List.mem_map.1 hmem
    exact (h stroke hstroke).2 hbreak

/-- A line break ends the line as it stands. -/
theorem Holds.newline (h : l.Holds) :
    Holds ⟨l.buffer.newline, l.strokes ++ [l.stroke '\n']⟩ := by
  have hsheet : Sheet.of (l.strokes ++ [l.stroke '\n']) =
      ⟨l.sheet.lines ++ [⟨l.sheet.rest, l.buffer.indent⟩], []⟩ :=
    (Sheet.of_append _ _).trans (if_pos rfl)
  have hindents : l.buffer.newline.indents = l.buffer.indents := l.buffer.extends_newline.indents
  have hshown : OneLine (Line.shown ⟨l.sheet.rest, l.buffer.indent⟩) := by
    rw [Line.shown]
    split
    · exact oneLine_ofList.2 (Unicode.notMem_dropBlankEnd (Buffer.oneLine_indent h.indents))
    · exact oneLine_shown h.rest
  refine ⟨fun indent hi => h.indents indent (hindents ▸ hi), ?_, ?_, ?_, ?_, ?_⟩
  · rw [sheet, hsheet, List.forall_mem_append]
    exact ⟨h.lines, List.forall_mem_singleton.2 ⟨hshown, fun stroke hs => (h.rest stroke hs).2⟩⟩
  · rw [sheet, hsheet]
    exact List.forall_mem_nil _
  · rw [sheet, hsheet]
    show l.buffer.newline.content = none
    rw [Buffer.newline]
    split
    · next hnone => exact hnone
    · rfl
  · rw [sheet, hsheet, Sheet.EndsBlank]
    show l.buffer.newline.afterBlank ↔ _
    rw [Buffer.newline, h.content]
    by_cases hrest : l.sheet.rest = [] <;> simp [hrest]
  · rw [sheet, hsheet, List.map_append, String.join_append, List.map_singleton, String.join_cons,
      String.join_nil]
    show l.buffer.newline.text = _
    rw [Buffer.newline, h.content]
    by_cases hrest : l.sheet.rest = []
    · rw [if_pos hrest]
      simp [h.text, hrest, Line.shown, shown, String.push_eq_append, String.append_assoc]
    · rw [if_neg hrest]
      simp [h.text, hrest, Line.shown, shown, String.push_eq_append, String.append_assoc]

/-- A stroke goes on with the line, or begins it behind the indentation. -/
theorem Holds.put (h : l.Holds) (c : Char) : Holds ⟨l.buffer.put c, l.strokes ++ [l.stroke c]⟩ := by
  by_cases hc : c = '\n'
  · subst hc
    rw [Buffer.put_newline]
    exact h.newline
  have hsheet : Sheet.of (l.strokes ++ [l.stroke c]) = ⟨l.sheet.lines, l.sheet.rest ++ [l.stroke c]⟩ :=
    (Sheet.of_append _ _).trans (if_neg hc)
  have hindents : (l.buffer.put c).indents = l.buffer.indents := (l.buffer.extends_put c).indents
  refine ⟨fun indent hi => h.indents indent (hindents ▸ hi), ?_, ?_, ?_, ?_, ?_⟩
  · rw [sheet, hsheet]
    exact h.lines
  · rw [sheet, hsheet, List.forall_mem_append]
    exact ⟨h.rest, List.forall_mem_singleton.2 ⟨Buffer.oneLine_indent h.indents, hc⟩⟩
  · rw [sheet, hsheet, if_neg (by simp)]
    by_cases hrest : l.sheet.rest = []
    · rw [Buffer.put_atStart hc (h.content.trans (if_pos hrest)), hrest]
      rfl
    · rw [Buffer.put_begun hc (h.content.trans (if_neg hrest))]
      simp [stroke]
  · have hsame : (l.buffer.put c).afterBlank = l.buffer.afterBlank := by
      cases hb : l.buffer.content with
      | none => rw [Buffer.put_atStart hc hb]
      | some s => rw [Buffer.put_begun hc hb]
    rw [sheet, hsheet, hsame]
    exact h.afterBlank
  · rw [sheet, hsheet]
    by_cases hrest : l.sheet.rest = []
    · rw [Buffer.put_atStart hc (h.content.trans (if_pos hrest)), hrest, ← String.toList_inj]
      simp [h.text, hrest, shown, stroke]
    · rw [Buffer.put_begun hc (h.content.trans (if_neg hrest)), shown_append hrest]
      dsimp only
      rw [h.text, Buffer.push_append]
      rfl

theorem Holds.write (h : l.Holds) (s : String) : (l.write s).Holds := by
  obtain ⟨cs, rfl⟩ := s.exists_eq_ofList
  induction cs generalizing l with
  | nil => simpa [Logged.write] using h
  | cons c cs ih =>
    have hrest := ih (h.put c)
    -- the indentation stays in force from one stroke to the next
    have hindent : (l.buffer.put c).indent = l.buffer.indent :=
      Buffer.indent_congr (l.buffer.extends_put c).indents
    have hstroke : stroke ⟨l.buffer.put c, l.strokes ++ [l.stroke c]⟩ = l.stroke := by
      funext d
      exact congrArg (Stroke.mk · d) hindent
    rw [Logged.write, String.toList_ofList, hstroke, List.append_assoc] at hrest
    rwa [Logged.write, Buffer.write_ofList_cons, String.toList_ofList, List.map_cons]

theorem Holds.writeLine (h : l.Holds) (s : String) : (l.writeLine s).Holds := by
  have hindent : (l.buffer.write s).indent = l.buffer.indent :=
    Buffer.indent_congr (l.buffer.extends_write s).indents
  have hended := (h.write s).newline
  rwa [stroke, Logged.write, hindent] at hended

theorem Holds.ensureNewLine (h : l.Holds) : l.ensureNewLine.Holds := by
  rw [Logged.ensureNewLine, Buffer.ensureNewLine]
  split
  · rwa [List.append_nil]
  · exact h.newline

theorem Holds.ensureSkippedLine (h : l.Holds) : l.ensureSkippedLine.Holds := by
  have hindent : l.buffer.ensureNewLine.indent = l.buffer.indent :=
    Buffer.indent_congr l.buffer.extends_ensureNewLine.indents
  rw [Logged.ensureSkippedLine, Buffer.ensureSkippedLine]
  split
  · rw [List.append_nil]
    exact h.ensureNewLine
  · have hskipped := h.ensureNewLine.newline
    rwa [stroke, Logged.ensureNewLine, hindent] at hskipped

theorem Holds.pushIndent (h : l.Holds) {indent : String} (hi : OneLine indent) :
    (l.pushIndent indent).Holds :=
  ⟨List.forall_mem_cons.2 ⟨hi, h.indents⟩, h.lines, h.rest, h.content, h.afterBlank, h.text⟩

theorem Holds.popIndent (h : l.Holds) : l.popIndent.Holds :=
  ⟨fun indent hi => h.indents indent (List.mem_of_mem_tail hi), h.lines, h.rest, h.content, h.afterBlank, h.text⟩

end Logged

/-- What is done with a buffer, one step after the other. -/
inductive Program where
  | done
  | write (s : String) (next : Program)
  | writeLine (s : String) (next : Program)
  | ensureNewLine (next : Program)
  | ensureSkippedLine (next : Program)
  | withIndent (indent : String) (body next : Program)

namespace Program

def run : Program → Logged → Logged
  | done, l => l
  | write s next, l => next.run (l.write s)
  | writeLine s next, l => next.run (l.writeLine s)
  | ensureNewLine next, l => next.run l.ensureNewLine
  | ensureSkippedLine next, l => next.run l.ensureSkippedLine
  | withIndent indent body next, l => next.run (body.run (l.pushIndent indent)).popIndent

/-- What there is after each step, those under further indentations included. -/
def trail : Program → Logged → List Logged
  | done, _ => []
  | write s next, l => l.write s :: next.trail (l.write s)
  | writeLine s next, l => l.writeLine s :: next.trail (l.writeLine s)
  | ensureNewLine next, l => l.ensureNewLine :: next.trail l.ensureNewLine
  | ensureSkippedLine next, l => l.ensureSkippedLine :: next.trail l.ensureSkippedLine
  | withIndent indent body next, l =>
    let after := (body.run (l.pushIndent indent)).popIndent
    l.pushIndent indent :: body.trail (l.pushIndent indent) ++ after :: next.trail after

/-- No indentation holds a line break. -/
def OneLine : Program → Prop
  | done => True
  | write _ next | writeLine _ next | ensureNewLine next | ensureSkippedLine next => next.OneLine
  | withIndent indent body next => Text.OneLine indent ∧ body.OneLine ∧ next.OneLine

variable {program : Program} {l : Logged}

theorem holds_run (h : l.Holds) (hp : program.OneLine) : (program.run l).Holds := by
  induction program generalizing l with
  | done => exact h
  | write s next ih => exact ih (h.write s) hp
  | writeLine s next ih => exact ih (h.writeLine s) hp
  | ensureNewLine next ih => exact ih h.ensureNewLine hp
  | ensureSkippedLine next ih => exact ih h.ensureSkippedLine hp
  | withIndent indent body next ihbody ih =>
    obtain ⟨hi, hbody, hnext⟩ := hp
    exact ih (ihbody (h.pushIndent hi) hbody).popIndent hnext

theorem holds_trail (h : l.Holds) (hp : program.OneLine) : ∀ m ∈ program.trail l, m.Holds := by
  induction program generalizing l with
  | done => exact List.forall_mem_nil _
  | write s next ih => exact List.forall_mem_cons.2 ⟨h.write s, ih (h.write s) hp⟩
  | writeLine s next ih => exact List.forall_mem_cons.2 ⟨h.writeLine s, ih (h.writeLine s) hp⟩
  | ensureNewLine next ih =>
    exact List.forall_mem_cons.2 ⟨h.ensureNewLine, ih h.ensureNewLine hp⟩
  | ensureSkippedLine next ih =>
    exact List.forall_mem_cons.2 ⟨h.ensureSkippedLine, ih h.ensureSkippedLine hp⟩
  | withIndent indent body next ihbody ih =>
    obtain ⟨hi, hbody, hnext⟩ := hp
    have hinside := h.pushIndent hi
    have hafter := (holds_run hinside hbody).popIndent
    refine List.forall_mem_append.2 ⟨?_, ?_⟩
    · exact List.forall_mem_cons.2 ⟨hinside, ihbody hinside hbody⟩
    · exact List.forall_mem_cons.2 ⟨hafter, ih hafter hnext⟩

end Program

section
variable {l : Logged}

theorem exists_shown_push (strokes : List Stroke) (stroke : Stroke) :
    ∃ before : String, shown (strokes ++ [stroke]) = before.push stroke.char := by
  by_cases hne : strokes = []
  · exact ⟨stroke.indent, by rw [hne, ← String.toList_inj]; simp [shown]⟩
  · exact ⟨shown strokes, shown_append hne stroke⟩

theorem Logged.Holds.begun (h : l.Holds) : l.buffer.atLineStart ↔ l.sheet.rest = [] := by
  rw [Buffer.atLineStart, h.content]
  split <;> simp [*]

/-- Each line leaves its break at the end of the text, each stroke that is none its character. -/
theorem Logged.Holds.atLineStart (h : l.Holds) :
    l.buffer.atLineStart ↔ l.buffer.text = "" ∨ l.buffer.lastChar? = some '\n' := by
  rw [h.begun, Buffer.lastChar?, h.text]
  obtain hrest | ⟨before, last, hrest⟩ := List.eq_nil_or_concat' l.sheet.rest
  · rw [hrest]
    refine iff_of_true rfl ?_
    obtain hlines | ⟨lines, line, hlines⟩ := List.eq_nil_or_concat' l.sheet.lines
    · exact .inl (by rw [hlines]; rfl)
    · exact .inr (by simp [hlines, shown, String.join_append, String.join_cons])
  · obtain ⟨text, htext⟩ := exists_shown_push before last
    have hlast := (h.rest last (by simp [hrest])).2
    rw [hrest, htext]
    refine iff_of_false (by simp) ?_
    rw [not_or, ← String.toList_inj]
    simp [hlast]

theorem Logged.Holds.lineIsBlank (h : l.Holds) :
    l.buffer.lineIsBlank ↔ ∀ stroke ∈ l.sheet.rest, stroke.char = ' ' := by
  rw [Buffer.lineIsBlank, h.content]
  by_cases hrest : l.sheet.rest = []
  · rw [if_pos hrest, hrest]
    simp
  · rw [if_neg hrest]
    simp

end
end DocTree.Layout
