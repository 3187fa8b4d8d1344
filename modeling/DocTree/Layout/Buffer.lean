import DocTree.Unicode.Blank

/-! Text that grows line by line under an indentation. The indentation is written right before
the first character of a line; a line without content gets what is left of it when the white
space at its end is cut, so a quote marker stays and plain indentation leaves no trace. -/
namespace DocTree.Layout

/-- A growing text. -/
structure Buffer where
  /-- All that has been written. -/
  text : String := ""
  /-- The indentations in force, the innermost first. -/
  indents : List String := []
  /-- What stands on the current line behind its indentation, once there is something. -/
  content : Option String := none
  /-- Whether the line that ended last had no content. -/
  afterBlank : Bool := false
  deriving DecidableEq, Inhabited

namespace Buffer

/-- The indentations in force, the outermost first, as one text. -/
def indent (b : Buffer) : String := b.indents.foldl (fun inner outer => outer ++ inner) ""

/-- The current line has no content yet. -/
def atLineStart (b : Buffer) : Bool := b.content.isNone

/-- The current line has no content, or only spaces. -/
def lineIsBlank (b : Buffer) : Bool :=
  match b.content with
  | none => true
  | some s => s.toList.all (· == ' ')

/-- Ends the current line. -/
def newline (b : Buffer) : Buffer :=
  match b.content with
  | none =>
    let visible := String.ofList (Unicode.dropBlankEnd b.indent.toList)
    { b with text := (b.text ++ visible).push '\n', afterBlank := true }
  | some _ => { b with text := b.text.push '\n', content := none, afterBlank := false }

/-- Adds a character. -/
def put (b : Buffer) (c : Char) : Buffer :=
  if c = '\n' then b.newline
  else
    match b with
    | ⟨text, indents, some content, afterBlank⟩ =>
      ⟨text.push c, indents, some (content.push c), afterBlank⟩
    | ⟨text, indents, none, afterBlank⟩ =>
      let indent := indents.foldl (fun inner outer => outer ++ inner) ""
      ⟨(text ++ indent).push c, indents, some (String.singleton c), afterBlank⟩

/-- Adds a text, character by character. -/
def write (b : Buffer) (s : String) : Buffer := s.toList.foldl put b

/-- Adds a text and ends the line. -/
def writeLine (b : Buffer) (s : String) : Buffer := (b.write s).newline

/-- Ends the current line if it has content. -/
def ensureNewLine (b : Buffer) : Buffer := if b.atLineStart then b else b.newline

/-- Ends the current line if it has content, and adds a line without content unless the last
one had none. -/
def ensureSkippedLine (b : Buffer) : Buffer :=
  let b := b.ensureNewLine
  if b.afterBlank then b else b.newline

def pushIndent (b : Buffer) (indent : String) : Buffer :=
  { b with indents := indent :: b.indents }

def popIndent (b : Buffer) : Buffer := { b with indents := b.indents.tail }

def lastChar? (b : Buffer) : Option Char := b.text.toList.getLast?

def isEmpty (b : Buffer) : Bool := b.text.isEmpty

/-- Cutting a text anywhere makes no difference to what its parts write. -/
theorem write_append (b : Buffer) (s t : String) : b.write (s ++ t) = (b.write s).write t := by
  simp [write, List.foldl_append]

end Buffer
end DocTree.Layout
