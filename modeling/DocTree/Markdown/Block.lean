import DocTree.Markdown.Inline

/-! Blocks: headings, lists, tables, quotes, rules, code, collapsible sections and HTML
elements. Each begins behind a blank line. Where a line may not end they are written as HTML
elements on that line. -/
namespace DocTree.Markdown
open Render

/-- The comment at the head of every page. -/
def noticeText : String :=
  "<!-- Do not edit this file. It is automatically generated by apidoc. -->"

/-- The comment that keeps two lists apart. -/
def listSeparator : String := "<!-- -->"

def notice : Render Unit := do
  write noticeText
  if ← constrained then pure () else ensureNewLine

def rule : Render Unit := do
  if ← constrained then write "<hr/>"
  else paragraphBreak do
    write "---"
    ensureNewLine

def optionalAnchor : Option String → Render Unit
  | some id => anchorTag id
  | none => pure ()

/-- The number signs in front of a heading. -/
def headingMark (level : UInt8) : String := String.ofList (List.replicate level.toNat '#')

def heading (level : UInt8) (anchor : Option String) (body : Render Unit) : Render Unit := do
  if level < 1 ∨ 6 < level then fail (.invalidHeadingLevel level)
  match anchor with
  | some id => if isValidAnchor id then pure () else fail (.invalidAnchor id)
  | none => pure ()
  if ← constrained then
    write s!"<h{level}>"
    withMode .htmlBlock true do
      optionalAnchor anchor
      body
    write s!"</h{level}>"
  else paragraphBreak do
    write (headingMark level)
    write " "
    optionalAnchor anchor
    inSingleLine body
    ensureNewLine

/-- The tag that opens a list in HTML. -/
def listOpenTag : ListStyle → String
  | .ordered start => if start = 1 then "<ol>" else s!"<ol start=\"{start}\">"
  | .unordered => "<ul>"

def listCloseTag : ListStyle → String
  | .ordered _ => "</ol>"
  | .unordered => "</ul>"

/-- The marker of the item at a position. -/
def marker (style : ListStyle) (position : Nat) : String :=
  match style with
  | .ordered start => s!"{start.toNat + position}. "
  | .unordered => "- "

/-- Whether a list can follow a line of a paragraph without a blank line: only one that does not
start at a number other than one can. -/
def interruptsParagraph : ListStyle → Bool
  | .ordered start => start == 1
  | .unordered => true

def htmlItems : List (Render Unit) → Render Unit
  | [] => pure ()
  | item :: rest => do
    write "<li>"
    item
    write "</li>"
    htmlItems rest

/-- Writes items from the one at `position` on, each behind its marker and indented by the
width of the marker. -/
def markedItems (style : ListStyle) : Nat → List (Render Unit) → Render Unit
  | _, [] => pure ()
  | position, item :: rest => do
    let mark := marker style position
    ensureNewLine
    write mark
    withIndent (String.ofList (List.replicate mark.length ' ')) <| withMode .listItem true do
      markFresh
      item
    markedItems style (position + 1) rest

def list (style : ListStyle) (items : List (Render Unit)) : Render Unit := do
  if ← constrained then
    write (listOpenTag style)
    withMode .htmlBlock true (htmlItems items)
    write (listCloseTag style)
  else
    let fresh ← look Output.fresh
    if (← inMode .listItem) && (interruptsParagraph style || fresh) then ensureNewLine
    else ensureSkippedLine
    withMode .htmlBlock false do
      markedItems style 0 items
      ensureNewLine

/-- Writes the cells of a Markdown row and fills it up to the number of columns. -/
def markdownCells : Nat → List (Render Unit) → Render Unit
  | 0, _ => pure ()
  | columns + 1, [] => do
    write " "
    write " |"
    markdownCells columns []
  | columns + 1, cell :: rest => do
    write " "
    inTable cell
    write " |"
    markdownCells columns rest

def markdownRow (columns : Nat) (cells : List (Render Unit)) : Render Unit := do
  write "|"
  markdownCells columns cells
  write "\n"

def markdownRows (columns : Nat) : List (List (Render Unit)) → Render Unit
  | [] => pure ()
  | row :: rest => do
    markdownRow columns row
    markdownRows columns rest

def divider : Nat → Render Unit
  | 0 => pure ()
  | columns + 1 => do
    write " --- |"
    divider columns

/-- Writes the cells of an HTML row and fills it up to the number of columns. -/
def htmlCells (tag : String) : Nat → List (Render Unit) → Render Unit
  | 0, _ => pure ()
  | columns + 1, [] => do
    write s!"<{tag}>"
    write s!"</{tag}>"
    htmlCells tag columns []
  | columns + 1, cell :: rest => do
    write s!"<{tag}>"
    cell
    write s!"</{tag}>"
    htmlCells tag columns rest

def htmlRow (tag : String) (columns : Nat) (cells : List (Render Unit)) : Render Unit := do
  write "<tr>"
  htmlCells tag columns cells
  write "</tr>"

def htmlRows (columns : Nat) : List (List (Render Unit)) → Render Unit
  | [] => pure ()
  | row :: rest => do
    htmlRow "td" columns row
    htmlRows columns rest

def table (header : List (Render Unit)) (rows : List (List (Render Unit))) : Render Unit := do
  let columns := columnCount header rows
  if columns = 0 then fail .emptyTable
  if ← constrained then
    write "<table>"
    withMode .htmlBlock true do
      htmlRow "th" columns header
      htmlRows columns rows
    write "</table>"
  else
    ensureSkippedLine
    withMode .htmlBlock false do
      markdownRow columns header
      write "|"
      divider columns
      write "\n"
      markdownRows columns rows

def quote (body : Render Unit) : Render Unit := do
  if ← constrained then
    write "<blockquote>"
    withMode .htmlBlock true body
    write "</blockquote>"
  else paragraphBreak do
    if ← look fun out => out.buffer.atLineStart then pure () else write "> "
    withIndent "> " do
      markFresh
      body
    ensureNewLine

def codeBlock (language : Option String) (code : String) : Render Unit := do
  if ← constrained then
    write "<code>"
    withMode .htmlBlock true <| withMode .singleLineCode true <| writeEscaped code
    write "</code>"
  else paragraphBreak do
    let fence := ticks (fenceLength code '\x60')
    write fence
    write (language.getD "")
    write "\n"
    withMode .markdownCode true (writeEscaped code)
    ensureNewLine
    write fence
    ensureNewLine

/-- A block of code that holds links, which a fence would not let through. -/
def linkedCode (language : String) (body : Render Unit) : Render Unit := do
  if ← constrained then
    write "<code>"
    withMode .htmlBlock true <| withMode .singleLineCode true body
    write "</code>"
  else paragraphBreak do
    write "<pre><code class=\"language-"
    attributeValue language
    write "\">"
    withMode .htmlBlock true <| withMode .preformatted true body
    write "</code></pre>"
    ensureNewLine

def collapsible (summary body : Render Unit) : Render Unit := do
  if ← constrained then
    write "<details><summary>"
    withMode .htmlBlock true do
      summary
      write "</summary>"
      body
    write "</details>"
  else paragraphBreak do
    writeLine "<details>"
    write "<summary>"
    withMode .htmlBlock true (inSingleLine summary)
    write "</summary>"
    ensureSkippedLine
    body
    ensureSkippedLine
    write "</details>"
    ensureNewLine

/-- Whether a line has ended since the text had the given length. -/
def brokenSince (length : Nat) (out : Output) : Bool := (out.text.toList.drop length).contains '\n'

/-- A block element on lines of its own. Its closing tag stands behind a blank line if a line
has ended since the opening tag. -/
def blockElement (tag : String) (attributes : Dict String) (body : Render Unit) : Render Unit :=
  paragraphBreak do
    openTag tag attributes false
    let start ← look fun out => out.text.length
    withMode .htmlBlock true body
    if ← look (brokenSince start) then ensureSkippedLine else pure ()
    closeTag tag
    ensureNewLine

/-- An HTML element. A paragraph without attributes is nothing but the blank lines around
it. -/
def element (tag : String) (attributes : Dict String) (body : Render Unit) : Render Unit :=
  match Html.TagClass.ofTag tag with
  | .void => openTag tag attributes true
  | .inline => do
    openTag tag attributes false
    body
    closeTag tag
  | .block => do
    let constrained ← constrained
    if !constrained && attributes.isEmpty && Html.lowerAscii tag == "p" then paragraphBreak body
    else if constrained || (← inMode .htmlBlock) then
      openTag tag attributes false
      withMode .htmlBlock true body
      closeTag tag
    else blockElement tag attributes body

/-- Keeps a list apart from a list right before it. -/
def separateLists (afterList isList : Bool) : Render Unit := do
  if afterList && isList && !(← constrained) then
    ensureSkippedLine
    write listSeparator
    ensureNewLine
  else pure ()

end DocTree.Markdown
