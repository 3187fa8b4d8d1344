import DocTree.Layout.Buffer
import DocTree.Markdown.Escape
import DocTree.RenderError

/-! The place Markdown is written to: a buffer, the modes that say where in the document the
writer is, and a mark for a block that has just begun. A mode or an indentation holds for the
steps inside it and is taken back after them, also when they fail; what they wrote stays. -/
namespace DocTree.Markdown
open DocTree.Layout

/-- Where in a document text is being written. -/
inductive Mode where
  /-- In a cell of a Markdown table. -/
  | table
  /-- On a line that may not end. -/
  | singleLine
  /-- In an HTML block that is still open. -/
  | htmlBlock
  /-- In a code span or a fenced block. -/
  | markdownCode
  /-- In a code element that stands for a code block of several lines. -/
  | singleLineCode
  /-- In a preformatted block. -/
  | preformatted
  /-- In an item of a list. -/
  | listItem
  /-- In a quoted attribute value. -/
  | htmlAttribute
  /-- On a line that is read as Markdown, even between HTML tags. -/
  | inlineMarkdown
  deriving DecidableEq, Inhabited

/-- The modes in force. -/
structure Modes where
  table : Bool := false
  singleLine : Bool := false
  htmlBlock : Bool := false
  markdownCode : Bool := false
  singleLineCode : Bool := false
  preformatted : Bool := false
  listItem : Bool := false
  htmlAttribute : Bool := false
  inlineMarkdown : Bool := false
  deriving DecidableEq, Inhabited

namespace Modes

def get (modes : Modes) : Mode → Bool
  | .table => modes.table
  | .singleLine => modes.singleLine
  | .htmlBlock => modes.htmlBlock
  | .markdownCode => modes.markdownCode
  | .singleLineCode => modes.singleLineCode
  | .preformatted => modes.preformatted
  | .listItem => modes.listItem
  | .htmlAttribute => modes.htmlAttribute
  | .inlineMarkdown => modes.inlineMarkdown

def set (modes : Modes) (mode : Mode) (value : Bool) : Modes :=
  match mode with
  | .table => { modes with table := value }
  | .singleLine => { modes with singleLine := value }
  | .htmlBlock => { modes with htmlBlock := value }
  | .markdownCode => { modes with markdownCode := value }
  | .singleLineCode => { modes with singleLineCode := value }
  | .preformatted => { modes with preformatted := value }
  | .listItem => { modes with listItem := value }
  | .htmlAttribute => { modes with htmlAttribute := value }
  | .inlineMarkdown => { modes with inlineMarkdown := value }

theorem get_set (modes : Modes) (mode other : Mode) (value : Bool) :
    (modes.set mode value).get other = if other = mode then value else modes.get other := by
  cases mode <;> cases other <;> rfl

theorem set_set (modes : Modes) (mode : Mode) (u v : Bool) :
    (modes.set mode u).set mode v = modes.set mode v := by
  cases mode <;> rfl

theorem set_get (modes : Modes) (mode : Mode) : modes.set mode (modes.get mode) = modes := by
  cases mode <;> rfl

/-- A line may not end: in a table cell, or where that has been asked for. -/
def constrained (modes : Modes) : Bool := modes.table || modes.singleLine

end Modes

structure Output where
  buffer : Buffer := {}
  modes : Modes := {}
  /-- A block has begun and nothing but white space has been written into it. -/
  fresh : Bool := false
  deriving DecidableEq, Inhabited

namespace Output

def text (out : Output) : String := out.buffer.text

def constrained (out : Output) : Bool := out.modes.constrained

/-- The modes and the state of the line, as far as they decide how text is escaped. -/
def escapeContext (out : Output) : EscapeContext where
  markdownCode := out.modes.markdownCode
  table := out.modes.table
  singleLineCode := out.modes.singleLineCode
  htmlAttribute := out.modes.htmlAttribute
  htmlBlock := out.modes.htmlBlock
  preformatted := out.modes.preformatted
  inlineMarkdown := out.modes.inlineMarkdown
  lineIsBlank := out.fresh || out.buffer.lineIsBlank

end Output

/-- Steps that write to an output and may fail; what was written before a failure stays. -/
def Render (α : Type) := Output → Except RenderError α × Output

namespace Render
variable {α β : Type}

instance : Monad Render where
  pure a := fun out => (.ok a, out)
  bind step next := fun out =>
    match step out with
    | (.ok a, out) => next a out
    | (.error e, out) => (.error e, out)

instance : Inhabited (Render α) := ⟨fun out => (.error .paragraphBreakInSingleLine, out)⟩

theorem pure_apply (a : α) (out : Output) : (pure a : Render α) out = (.ok a, out) := rfl

theorem bind_apply (step : Render α) (next : α → Render β) (out : Output) :
    (step >>= next) out =
      match step out with
      | (.ok a, out) => next a out
      | (.error e, out) => (.error e, out) := rfl

def fail (error : RenderError) : Render α := fun out => (.error error, out)

/-- What `view` shows of the output. -/
def look (view : Output → α) : Render α := fun out => (.ok (view out), out)

def inMode (mode : Mode) : Render Bool := look fun out => out.modes.get mode

/-- Whether a line may not end. -/
def constrained : Render Bool := look Output.constrained

def modifyBuffer (f : Buffer → Buffer) : Render Unit := fun out =>
  (.ok (), { out with buffer := f out.buffer })

/-- Writes a text. Where a line may not end it must hold no line break. Anything but white
space ends the start of a block. -/
def write (text : String) : Render Unit := fun out =>
  if out.constrained && text.toList.contains '\n' then
    (.error (.newlineInSingleLine text), out)
  else
    match out with
    | ⟨buffer, modes, fresh⟩ =>
      (.ok (), ⟨buffer.write text, modes, fresh && text.toList.all Unicode.isBlank⟩)

def writeLine (text : String) : Render Unit := do
  write text
  write "\n"

/-- Ends the line if it has content. -/
def ensureNewLine : Render Unit := do
  if ← look fun out => out.buffer.atLineStart then pure () else write "\n"

/-- Makes sure that a blank line stands before what is written next. -/
def ensureSkippedLine : Render Unit := do
  if ← constrained then fail .paragraphBreakInSingleLine
  else modifyBuffer Buffer.ensureSkippedLine

/-- Marks that a block has begun. -/
def markFresh : Render Unit := fun out => (.ok (), { out with fresh := true })

/-- Runs steps with an indentation added to every new line. -/
def withIndent (indent : String) (body : Render α) : Render α := fun out =>
  let (result, out) := body { out with buffer := out.buffer.pushIndent indent }
  (result, { out with buffer := out.buffer.popIndent })

/-- Runs steps with a mode set to a value. -/
def withMode (mode : Mode) (value : Bool) (body : Render α) : Render α := fun out =>
  let saved := out.modes.get mode
  let (result, out) := body { out with modes := out.modes.set mode value }
  (result, { out with modes := out.modes.set mode saved })

/-- In a table cell everything is read as Markdown, whatever HTML stands around it. -/
def inTable (body : Render α) : Render α :=
  withMode .inlineMarkdown true (withMode .table true body)

/-- A line that begins outside an HTML block is read as Markdown up to its end. -/
def inSingleLine (body : Render α) : Render α := do
  let markdown ← look fun out => out.modes.inlineMarkdown || !out.modes.htmlBlock
  withMode .inlineMarkdown markdown (withMode .singleLine true body)

/-- Runs steps as a block of their own, behind a blank line unless the block before it is still
empty. Behind a blank line Markdown is read again, even in an open HTML block. -/
def paragraphBreak (body : Render α) : Render α := do
  if ← constrained then fail .paragraphBreakInSingleLine
  else if ← look Output.fresh then body
  else do
    modifyBuffer Buffer.ensureSkippedLine
    withMode .htmlBlock false do
      markFresh
      body

/-- Writes a text in the form that the place asks for. -/
def writeEscaped (text : String) : Render Unit := do
  write ((← look Output.escapeContext).escape text)

/-- The text that steps write to a fresh output. -/
def toText (steps : Render Unit) : Except RenderError String :=
  match steps {} with
  | (.ok (), out) => .ok out.text
  | (.error e, _) => .error e

end Render
end DocTree.Markdown
