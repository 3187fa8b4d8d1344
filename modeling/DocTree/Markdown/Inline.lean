import DocTree.Html.Tag
import DocTree.Markdown.Delimiter
import DocTree.Markdown.Output
import DocTree.Node.Basic

/-! What stands inside a line: links, emphasis, code spans, images, comments and tags. Inside
an open HTML block, where Markdown is not read, these are written as HTML. -/
namespace DocTree.Markdown
open Render Unicode

/-- Whether links, emphasis and code are written as HTML. -/
def usesHtml : Render Bool := look fun out => out.modes.htmlBlock && !out.modes.table

/-- Writes a value between the quotes of an attribute. -/
def attributeValue (value : String) : Render Unit :=
  withMode .htmlAttribute true <| withMode .htmlBlock true <| withMode .markdownCode false <|
    writeEscaped value

/-- Writes a name, the sign and the quoted value behind it. -/
def namedAttribute (name value : String) : Render Unit := do
  write (name ++ "=\"")
  attributeValue value
  write "\""

/-- Writes an attribute that is left out when it has no value. -/
def optionalAttribute (name : String) : Option String → Render Unit
  | some value => namedAttribute (" " ++ name) value
  | none => pure ()

def attributeList : List (String × String) → Render Unit
  | [] => pure ()
  | (name, value) :: rest => do
    write " "
    write name
    write "=\""
    attributeValue value
    write "\""
    attributeList rest

/-- Writes an opening tag, or a tag that stands alone. -/
def openTag (tag : String) (attributes : Dict String) (selfClosing : Bool) : Render Unit := do
  write "<"
  write tag
  attributeList attributes.entries
  write (if selfClosing then "/>" else ">")

def closeTag (tag : String) : Render Unit := write s!"</{tag}>"

/-- An empty element that carries the name of an anchor. -/
def anchorTag (id : String) : Render Unit := write s!"<a name=\"{id}\"></a>"

/-- Writes destination and title behind the text of a link or an image. -/
def linkTail (destination : String) (title : Option String) : Render Unit := do
  write "]("
  let inTable ← inMode .table
  write (escapeDestination destination inTable)
  match title with
  | some title => write s!" \"{escapeTitle title inTable}\""
  | none => pure ()
  write ")"

def link (destination : String) (title : Option String) (body : Render Unit) : Render Unit := do
  if ← inMode .markdownCode then body
  else if ← usesHtml then
    write "<a href=\""
    attributeValue destination
    write "\""
    optionalAttribute "title" title
    write ">"
    body
    write "</a>"
  else
    write "["
    body
    linkTail destination title

/-- The Markdown delimiter of a style. -/
def delimiter : Emphasis → String
  | .italics => "*"
  | .bold => "**"
  | .strikethrough => "~~"

/-- The HTML tag of a style. -/
def emphasisTag : Emphasis → String
  | .italics => "i"
  | .bold => "b"
  | .strikethrough => "s"

def emphasis (style : Emphasis) (isEmpty : Bool) (body : Render Unit) : Render Unit := do
  if isEmpty || (← inMode .markdownCode) then body
  else if ← usesHtml then
    write s!"<{emphasisTag style}>"
    body
    closeTag (emphasisTag style)
  else
    write (delimiter style)
    body
    write (delimiter style)

/-- What stands between the ticks and the code of a span: a space where the code begins or ends
with a tick, and where a reader would take a space off each end. -/
def tickPadding (code : String) : String :=
  let cs := code.toList
  let first := cs.head?
  let last := cs.getLast?
  if first == some '\x60' || last == some '\x60'
      || (first == some ' ' && last == some ' ' && cs.any (· != ' ')) then " "
  else ""

def codeSpan (content : String) : Render Unit := do
  let code := Text.replaceChar '\n' " " content
  if code.isEmpty then pure ()
  else if ← usesHtml then
    write "<code>"
    writeEscaped code
    write "</code>"
  else
    write (ticks (tickCount code))
    write (tickPadding code)
    withMode .markdownCode true (writeEscaped code)
    write (tickPadding code)
    write (ticks (tickCount code))

def image (src : String) (title alt : Option String) : Render Unit := do
  if ← usesHtml then
    write "<img src=\""
    attributeValue src
    write "\""
    optionalAttribute "alt" alt
    optionalAttribute "title" title
    write "/>"
  else
    write "!["
    match alt with
    | some alt => writeEscaped (Text.replaceChar '\n' " " alt)
    | none => pure ()
    linkTail src title

def comment (text : String) : Render Unit := do
  let body := commentBody text (← constrained)
  write "<!-- "
  write body
  write " -->"

end DocTree.Markdown
