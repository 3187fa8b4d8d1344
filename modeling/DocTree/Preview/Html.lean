import DocTree.Markdown.Escape
import DocTree.Preview.Document

/-! The HTML that shows a Markdown text. -/
namespace DocTree.Preview

/-! ## Text and addresses -/

/-- Text as it stands between the quotes of a value. -/
def escapeValue (s : String) : String :=
  String.ofList <| s.toList.flatMap fun c =>
    match Markdown.EscapeContext.entity? c with
    | some entity => entity.toList
    | none => [c]

/-- Text as it stands between tags, where a quote means nothing. -/
def escapeBody (s : String) : String :=
  "\"".intercalate ((Text.splitAt '"' s).map escapeValue)

/-- The characters that an address may hold as they are. -/
def isAddressChar (c : Char) : Bool := c.isAlphanum || "!#$%()*+,-./:;=?@_~".toList.contains c

def hexDigit (n : Nat) : Char := if n < 10 then Char.ofNat (48 + n) else Char.ofNat (55 + n)

/-- A byte as a percent sign and two digits. -/
def percentByte (b : UInt8) : List Char := ['%', hexDigit (b.toNat / 16), hexDigit (b.toNat % 16)]

/-- How a character stands in an address: as itself, as an entity, or as its bytes. -/
def addressChar (c : Char) : List Char :=
  if isAddressChar c then [c]
  else if c = '&' then "&amp;".toList
  else if c = '\x27' then "&#x27;".toList
  else (String.singleton c).toUTF8.toList.flatMap percentByte

/-- An address as it stands between the quotes of a value. -/
def escapeAddress (s : String) : String := String.ofList (s.toList.flatMap addressChar)

/-! ## The inside of a paragraph -/

mutual

/-- What is shown in place of an image. -/
def altText : Inline → String
  | .text s | .code s | .html s => escapeValue s
  | .softBreak | .hardBreak => " "
  | .styled _ children | .link _ _ children | .image _ _ children => altTexts children

def altTexts : List Inline → String
  | [] => ""
  | node :: rest => altText node ++ altTexts rest

end

def titleText (title : String) : String :=
  if title.isEmpty then "" else " title=\"" ++ escapeValue title ++ "\""

/-- The name of the element for a strength. -/
def Strength.tag : Strength → String
  | .emphasis => "em"
  | .strong => "strong"
  | .strikethrough => "del"

/-- An element around a text. -/
def element (tag content : String) : String :=
  "<" ++ tag ++ ">" ++ content ++ "</" ++ tag ++ ">"

mutual

def inlineHtml : Inline → String
  | .text s => escapeBody s
  | .code s => element "code" (escapeBody s)
  | .html s => s
  | .softBreak => "\n"
  | .hardBreak => "<br />\n"
  | .styled strength children => element strength.tag (inlinesHtml children)
  | .link destination title children =>
    "<a href=\"" ++ escapeAddress destination ++ "\"" ++ titleText title ++ ">"
      ++ inlinesHtml children ++ "</a>"
  | .image destination title children =>
    "<img src=\"" ++ escapeAddress destination ++ "\" alt=\"" ++ altTexts children ++ "\""
      ++ titleText title ++ " />"

def inlinesHtml : List Inline → String
  | [] => ""
  | node :: rest => inlineHtml node ++ inlinesHtml rest

end

/-! ## Blocks -/

/-- Ends the line if there is something on it. -/
def freshLine (out : String) : String :=
  if out.isEmpty || out.endsWith "\n" then out else out.push '\n'

def alignmentText : Alignment → String
  | .none => ""
  | .left => " style=\"text-align: left\""
  | .center => " style=\"text-align: center\""
  | .right => " style=\"text-align: right\""

/-- The cells of a row, each with the alignment of its column. -/
def rowHtml (tag : String) (columns : List Alignment) (row : List (List Inline)) : String :=
  String.join <| (columns.zip row).map fun (column, cell) =>
    "<" ++ tag ++ alignmentText column ++ ">" ++ inlinesHtml cell ++ "</" ++ tag ++ ">"

def tableHtml (columns : List Alignment) (header : List (List Inline))
    (rows : List (List (List Inline))) : String :=
  "<table><thead><tr>" ++ rowHtml "th" columns header ++ "</tr></thead><tbody>\n"
    ++ String.join (rows.map fun row => "<tr>" ++ rowHtml "td" columns row ++ "</tr>\n")
    ++ "</tbody></table>\n"

def listStart : Option Nat → String
  | none => "<ul>\n"
  | some 1 => "<ol>\n"
  | some n => s!"<ol start=\"{n}\">\n"

mutual

/-- Writes a block behind what has been written. A tight block is a paragraph without an element
of its own. -/
def writeBlock (tight : Bool) (out : String) : Block → String
  | .paragraph content =>
    if tight then out ++ inlinesHtml content
    else freshLine out ++ "<p>" ++ inlinesHtml content ++ "</p>\n"
  | .heading level content => freshLine out ++ element s!"h{level}" (inlinesHtml content) ++ "\n"
  | .rule => freshLine out ++ "<hr />\n"
  | .code language text =>
    freshLine out ++ "<pre><code"
      ++ (if language.isEmpty then "" else " class=\"language-" ++ escapeValue language ++ "\"")
      ++ ">" ++ escapeBody text ++ "</code></pre>\n"
  | .html text => out ++ text
  | .quote blocks =>
    writeBlocks false (freshLine out ++ "<blockquote>\n") blocks ++ "</blockquote>\n"
  | .list start loose items =>
    writeItems (!loose) (freshLine out ++ listStart start) items
      ++ (if start.isSome then "</ol>\n" else "</ul>\n")
  | .table columns header rows => out ++ tableHtml columns header rows

def writeBlocks (tight : Bool) (out : String) : List Block → String
  | [] => out
  | block :: rest => writeBlocks tight (writeBlock tight out block) rest

def writeItems (tight : Bool) (out : String) : List (List Block) → String
  | [] => out
  | item :: rest =>
    writeItems tight (writeBlocks tight (freshLine out ++ "<li>") item ++ "</li>\n") rest

end

/-- The HTML for a Markdown text. -/
def html (markdown : String) : String := writeBlocks false "" (blocks markdown.toList)

end DocTree.Preview
