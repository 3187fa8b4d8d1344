/-! Escaping text. What has to be escaped depends on where a text lands: HTML entities are
written everywhere but in Markdown code, backslashes where Markdown is read, and a line break
becomes whatever the place can hold. -/
namespace DocTree.Markdown

/-- Where a text lands. -/
structure EscapeContext where
  /-- Inside a code span or a fenced block. -/
  markdownCode : Bool := false
  /-- Inside a cell of a Markdown table. -/
  table : Bool := false
  /-- Inside a code element that stands for a code block of several lines. -/
  singleLineCode : Bool := false
  /-- Inside a quoted attribute value. -/
  htmlAttribute : Bool := false
  /-- Inside an HTML block that is still open. -/
  htmlBlock : Bool := false
  /-- Inside a preformatted block. -/
  preformatted : Bool := false
  /-- On a line that is read as Markdown even inside HTML. -/
  inlineMarkdown : Bool := false
  /-- At the start of a line, or after nothing but spaces. -/
  lineIsBlank : Bool := false
  deriving DecidableEq, Inhabited

namespace EscapeContext

/-- Whether Markdown is read where the text lands. -/
def isMarkdown (ctx : EscapeContext) : Bool :=
  (!ctx.htmlBlock || ctx.inlineMarkdown) && !ctx.markdownCode && !ctx.preformatted
    && !ctx.htmlAttribute

/-- What is written for a line break. -/
def lineBreak (ctx : EscapeContext) : List Char :=
  if ctx.htmlAttribute then ['\\', 'n']
  else if ctx.singleLineCode then "</code><br><code>".toList
  else if ctx.table || (ctx.htmlBlock && !ctx.preformatted) then "<br>".toList
  else ['\n']

/-- The entity of a character that means something in HTML. -/
def entity? : Char → Option String
  | '&' => some "&amp;"
  | '"' => some "&quot;"
  | '<' => some "&lt;"
  | '>' => some "&gt;"
  | _ => none

/-- The characters that take a backslash wherever Markdown is read. -/
def markdownChars : List Char := ['\\', '*', '/', '(', ')', '[', ']', '_']

/-- What is written for a character; `blank` says whether the line is blank before it. -/
def escapeChar (ctx : EscapeContext) (blank : Bool) (c : Char) : List Char :=
  match if ctx.markdownCode then none else entity? c with
  | some entity => entity.toList
  | none =>
    if c = '|' ∧ ctx.table then ['\\', '|']
    else if c = '\n' then ctx.lineBreak
    else if ctx.isMarkdown ∧ (c ∈ markdownChars ∨ (c = '#' ∧ blank)) then ['\\', c]
    else [c]

/-- Whether the line is blank after a character. -/
def blankAfter (blank : Bool) (c : Char) : Bool := c == '\n' || (c == ' ' && blank)

def escapeFrom (ctx : EscapeContext) : Bool → List Char → List Char
  | _, [] => []
  | blank, c :: rest => ctx.escapeChar blank c ++ ctx.escapeFrom (blankAfter blank c) rest

/-- The text as it is written where it lands. -/
def escape (ctx : EscapeContext) (text : String) : String :=
  String.ofList (ctx.escapeFrom ctx.lineIsBlank text.toList)

end EscapeContext

/-- The text as it stands between the quotes of an attribute. -/
def escapeAttribute (value : String) : String :=
  EscapeContext.escape { htmlAttribute := true, htmlBlock := true } value

end DocTree.Markdown
