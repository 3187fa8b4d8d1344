import DocTree.Html.Tag
import DocTree.Preview.Line
import DocTree.Preview.Reading

/-! The blocks of a Markdown text, and how the first line of each one is told. -/
namespace DocTree.Preview

inductive Alignment where
  | none | left | center | right
  deriving DecidableEq, Inhabited

inductive Block where
  | paragraph (content : List Inline)
  | heading (level : Nat) (content : List Inline)
  | rule
  | code (language text : String)
  | html (text : String)
  | quote (blocks : List Block)
  /-- A list; a numbered one has the number of its first item. -/
  | list (start : Option Nat) (loose : Bool) (items : List (List Block))
  | table (columns : List Alignment) (header : List (List Inline))
      (rows : List (List (List Inline)))
  deriving Inhabited

/-! ## Rules, headings and fences -/

def isLineSpace (c : Char) : Bool := c == ' ' || c == '\t'

/-- Three or more stars, dashes or low lines, with nothing but white space between them. -/
def isRule (cs : List Char) : Bool :=
  match cs with
  | mark :: _ =>
    ['*', '-', '_'].contains mark && cs.all (fun c => c == mark || isLineSpace c)
      && 3 ≤ cs.count mark
  | [] => false

def trimEnd (p : Char → Bool) (cs : List Char) : List Char := (cs.reverse.dropWhile p).reverse

/-- The text of a heading without the number signs that may close it. -/
def headingText (cs : List Char) : List Char :=
  let text := trimEnd isLineSpace (cs.dropWhile isLineSpace)
  let before := trimEnd (· == '#') text
  if before.getLast?.all isLineSpace then trimEnd isLineSpace before else text

/-- The level and the text of a heading that starts with number signs. -/
def readHeading (cs : List Char) : Option (Nat × List Char) :=
  let level := (cs.takeWhile (· == '#')).length
  let text := cs.drop level
  if 1 ≤ level && level ≤ 6 && text.head?.all isLineSpace then some (level, headingText text)
  else none

/-- The level of the heading that a paragraph becomes by an underline. -/
def underlineLevel? (cs : List Char) : Option Nat :=
  match cs with
  | mark :: _ =>
    if (mark = '=' ∨ mark = '-') ∧ (cs.dropWhile (· == mark)).all isLineSpace then
      some (if mark = '=' then 1 else 2)
    else none
  | [] => none

structure Fence where
  mark : Char
  length : Nat
  indent : Nat
  language : String

/-- The fence that opens a code block. Behind a fence of ticks there is no other tick. -/
def openFence? (l : Line) : Option Fence :=
  match l.trimStart.rest with
  | mark :: rest =>
    let length := ((mark :: rest).takeWhile (· == mark)).length
    let info := (mark :: rest).drop length
    if (mark = '\x60' ∧ !info.contains '\x60' ∨ mark = '~') ∧ 3 ≤ length then
      let info := (unescaped (trimSpaces info)).toList
      some ⟨mark, length, l.indent, String.ofList (info.takeWhile (· != ' '))⟩
    else none
  | [] => none

/-- Whether a line closes a code block: a fence that is no shorter and has nothing behind it. -/
def Fence.isClosedBy (fence : Fence) (l : Line) : Bool :=
  let l := l.skip fence.indent
  let cs := l.trimStart.rest
  l.indent + fence.indent < 4 && fence.length ≤ (cs.takeWhile (· == fence.mark)).length
    && (cs.dropWhile (· == fence.mark)).all (· == ' ')

/-! ## Containers -/

/-- The first line of a list item. -/
structure ItemStart where
  mark : Char
  number : Option Nat
  /-- How far the blocks of the item are indented. -/
  width : Nat
  rest : Line

/-- The start of an item from behind its marker. Up to four columns of white space belong to
the marker; where there are more, one does. -/
def ItemStart.behind (mark : Char) (number : Option Nat) (used : Nat) (l : Line) :
    Option ItemStart :=
  if l.isBlank then some ⟨mark, number, used + 1, l⟩
  else if l.indent = 0 then none
  else if l.indent ≤ 4 then some ⟨mark, number, used + l.indent, l.trimStart⟩
  else some ⟨mark, number, used + 1, l.skip 1⟩

/-- The list item that a line starts. -/
def itemStart? (l : Line) : Option ItemStart :=
  let start := l.trimStart
  match start.rest with
  | [] => none
  | mark :: _ =>
    if mark = '-' ∨ mark = '+' ∨ mark = '*' then
      if isRule start.rest then none else ItemStart.behind mark none (l.indent + 1) (start.drop 1)
    else
      let digits := start.rest.takeWhile Char.isDigit
      match start.rest.drop digits.length with
      | mark :: _ =>
        if (mark = '.' ∨ mark = ')') ∧ !digits.isEmpty ∧ digits.length ≤ 9 then
          ItemStart.behind mark (some (Json.digitsValue digits)) (l.indent + digits.length + 1)
            (start.drop (digits.length + 1))
        else none
      | [] => none

/-- The line from behind the mark of a quote, which may be followed by a space. -/
def behindQuoteMark? (l : Line) : Option Line :=
  match l.trimStart.rest with
  | '>' :: _ =>
    let rest := l.trimStart.drop 1
    if l.indent ≤ 3 then some (if rest.indent = 0 then rest else rest.skip 1) else none
  | _ => none

/-! ## HTML -/

/-- Where a block of HTML ends: with the line that holds a mark, or before a blank line. -/
inductive HtmlStop where
  | mark (text : String)
  | blankLine

/-- The tags whose blocks reach to their closing tags. -/
def rawTextTags : List String := ["pre", "style", "script", "textarea"]

/-- The tags that start a block wherever they stand. -/
def htmlBlockTags : List String :=
  ["address", "article", "aside", "base", "basefont", "blockquote", "body", "caption", "center",
    "col", "colgroup", "dd", "details", "dialog", "dir", "div", "dl", "dt", "fieldset",
    "figcaption", "figure", "footer", "form", "frame", "frameset", "h1", "h2", "h3", "h4", "h5",
    "h6", "head", "header", "hr", "html", "iframe", "legend", "li", "link", "main", "menu",
    "menuitem", "nav", "noframes", "ol", "optgroup", "option", "p", "param", "search", "section",
    "summary", "table", "tbody", "td", "tfoot", "th", "thead", "title", "tr", "track", "ul"]

/-- The tag with which a text begins, in lower case, and what follows it. -/
def leadingTag (cs : List Char) : String × List Char :=
  (Html.lowerAscii (String.ofList (cs.takeWhile Char.isAlphanum)), cs.dropWhile Char.isAlphanum)

/-- The end of a block that has a mark of its own, from behind its angle. -/
def markedStop? (cs : List Char) : Option HtmlStop :=
  let (tag, rest) := leadingTag cs
  if rawTextTags.contains tag && rest.head?.all (fun c => isLineSpace c || c == '>') then
    some (.mark ("</" ++ tag ++ ">"))
  else
    match cs with
    | '!' :: '-' :: '-' :: _ => some (.mark "-->")
    | '?' :: _ => some (.mark "?>")
    | '!' :: c :: _ =>
      if "![CDATA[".toList.isPrefixOf cs then some (.mark "]]>")
      else if c.isAlpha then some (.mark ">")
      else none
    | _ => none

/-- Whether a tag that starts a block stands there, from behind its angle. -/
def startsBlockTag (cs : List Char) : Bool :=
  let (tag, rest) := leadingTag (if cs.head? == some '/' then cs.drop 1 else cs)
  htmlBlockTags.contains tag
    && (rest.head?.all (fun c => isLineSpace c || c == '>') || ['/', '>'].isPrefixOf rest)

/-- The end of a block of HTML that may follow a paragraph without a blank line. -/
def interruptingStop? : List Char → Option HtmlStop
  | '<' :: rest =>
    (markedStop? rest).or (if startsBlockTag rest then some .blankLine else none)
  | _ => none

/-- The end of the block of HTML that a line starts. A line that holds just one whole tag starts
one, too. -/
def htmlStop? (cs : List Char) : Option HtmlStop :=
  (interruptingStop? cs).or <|
    match cs with
    | '<' :: rest =>
      let behind := match rest with
        | '/' :: rest => skipCloseTag rest
        | _ => skipOpenTag rest
      if behind.any fun rest => rest.all isLineSpace then some .blankLine else none
    | _ => none

/-- Whether a line is the last one of a block of HTML. -/
def HtmlStop.isReachedBy : HtmlStop → List Char → Bool
  | .mark text, cs => (behind? text.toList cs).isSome
  | .blankLine, _ => false

/-! ## Tables -/

/-- A text cut at its bars; one behind a backslash does not count. -/
def splitBars : List Char → List (List Char)
  | [] => [[]]
  | '\\' :: c :: rest =>
    if Unicode.isAsciiPunctuation c then
      match splitBars rest with
      | [] => [['\\', c]]
      | cell :: more => ('\\' :: c :: cell) :: more
    else
      match splitBars (c :: rest) with
      | [] => [['\\']]
      | cell :: more => ('\\' :: cell) :: more
  | c :: rest =>
    if c = '|' then [] :: splitBars rest
    else
      match splitBars rest with
      | [] => [[c]]
      | cell :: more => (c :: cell) :: more

/-- The cells of a row. A bar may stand before the first and behind the last one. -/
def cells (cs : List Char) : List (List Char) :=
  let cs := cs.dropWhile isLineSpace
  let parts := splitBars (if cs.head? == some '|' then cs.drop 1 else cs)
  if (parts.getLast?.any fun cell => cell.all isLineSpace) then parts.dropLast else parts

/-- The alignment that a cell of the line below the header gives to its column. -/
def columnAlignment (cell : List Char) : Alignment :=
  match cell.filter (· != ' ') with
  | ':' :: rest => if rest.contains ':' then .center else .left
  | rest => if rest.contains ':' then .right else .none

/-- The alignments of the columns, if a line may stand below the header of a table. -/
def readColumns (l : Line) : Option (List Alignment) :=
  let cs := l.trimStart.rest
  let columns := cells cs
  let ended := if (trimEnd (· == ' ') cs).getLast? == some '|' then columns else columns.dropLast
  if l.indent ≤ 3 && cs.all (fun c => c == '|' || c == ':' || c == '-' || c == ' ')
      && cs.contains '|' && cs.contains '-' && ended.all (·.contains '-') then
    some (columns.map columnAlignment)
  else none

/-- Whether a line is the header of a table with as many columns. -/
def isHeader (columns : Nat) (cs : List Char) : Bool :=
  2 ≤ (splitBars cs).length && (cells cs).length == columns

/-- The cells of a row of a table: just as many as there are columns. -/
def rowOf (columns : Nat) (cs : List Char) : List (List Inline) :=
  let found := (cells cs).take columns
  found.map (fun cell => inlines true (trimSpaces cell))
    ++ List.replicate (columns - found.length) []

end DocTree.Preview
