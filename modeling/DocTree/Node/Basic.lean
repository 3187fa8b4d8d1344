import DocTree.Dict
import DocTree.Unicode.Alphanumeric

/-! Documentation trees: what a page is made of, from runs of text to whole pages. -/
namespace DocTree

/-- A link in a table of contents to one of the kinds that share a name. -/
structure KindRef where
  label : String
  anchor : String
  deriving DecidableEq, Inhabited

/-- An entry of a table of contents. Without an anchor it only groups the entries below it. -/
inductive TocEntry where
  | mk (title : String) (anchor : Option String) (kinds : List KindRef)
      (children : List TocEntry)
  deriving Inhabited

namespace TocEntry

def title : TocEntry → String
  | mk title _ _ _ => title

def anchor : TocEntry → Option String
  | mk _ anchor _ _ => anchor

def kinds : TocEntry → List KindRef
  | mk _ _ kinds _ => kinds

def children : TocEntry → List TocEntry
  | mk _ _ _ children => children

end TocEntry

structure TableOfContents where
  entries : List TocEntry
  deriving Inhabited

structure PageMetadata where
  title : String
  contents : TableOfContents
  deriving Inhabited

/-- The style of a run of emphasised text. -/
inductive Emphasis where
  | italics | bold | strikethrough
  deriving DecidableEq, Inhabited

/-- What the destination of a link means: an address as it stands, a page of the site, given
from the site's root, or a file of the source repository. -/
inductive LinkTarget where
  | address | page | source
  deriving DecidableEq, Inhabited

/-- The marker of a list's items. -/
inductive ListStyle where
  | ordered (start : UInt32)
  | unordered
  deriving DecidableEq, Inhabited

/-- A tree of documentation. The cells of a table and the summary of a collapsible section
stand beside the children. -/
inductive Node where
  | text (text : String)
  | rule
  | comment (text : String) (persist : Bool)
  | image (src : String) (title alt : Option String)
  | code (language : Option String) (code : String)
  | notice
  | group (children : List Node)
  | quote (children : List Node)
  | element (tag : String) (attributes : Dict String) (children : List Node)
  | emphasis (style : Emphasis) (children : List Node)
  | codeSpan (children : List Node)
  | richCode (language : String) (children : List Node)
  | link (target : LinkTarget) (destination : String) (title : Option String)
      (children : List Node)
  | paragraph (children : List Node)
  | heading (level : UInt8) (anchor : Option String) (children : List Node)
  | list (style : ListStyle) (items : List Node)
  | table (header : List Node) (rows : List (List Node))
  | collapsible (summary : Node) (children : List Node)
  | page (metadata : PageMetadata) (children : List Node)
  deriving Inhabited

namespace Node

/-- The name of the kind of node. -/
def typeName : Node → String
  | text _ => "PlainText"
  | rule => "HorizontalRule"
  | comment _ _ => "HtmlComment"
  | image _ _ _ => "Image"
  | code _ _ => "CodeBlock"
  | notice => "DoNotEditComment"
  | group _ => "Container"
  | quote _ => "BlockQuote"
  | element _ _ _ => "HtmlElement"
  | emphasis .italics _ => "Italics"
  | emphasis .bold _ => "Bold"
  | emphasis .strikethrough _ => "Strikethrough"
  | codeSpan _ => "CodeSpan"
  | richCode _ _ => "RichCodeBlock"
  | link .address _ _ _ => "Link"
  | link .page _ _ _ => "LocalPageLink"
  | link .source _ _ _ => "GithubSourceLink"
  | paragraph _ => "Paragraph"
  | heading _ _ _ => "Heading123456"
  | list _ _ => "List"
  | table _ _ => "Table"
  | collapsible _ _ => "CollapsibleSection"
  | page _ _ => "Page"

/-- The children of a node, where its kind has any. Cells and summaries are not among them. -/
def children? : Node → Option (List Node)
  | text _ | rule | comment _ _ | image _ _ _ | code _ _ | notice | table _ _ => none
  | group children | quote children | element _ _ children | emphasis _ children
  | codeSpan children | richCode _ children | link _ _ _ children | paragraph children
  | heading _ _ children | list _ children | collapsible _ children | page _ children =>
    some children

def isList : Node → Bool
  | list _ _ => true
  | _ => false

mutual

/-- The text and code of the leaves of a tree, in order. -/
def textContent : Node → String
  | text s | code _ s => s
  | table header rows => textsContent header ++ rowsContent rows
  | collapsible summary children => summary.textContent ++ textsContent children
  | group children | quote children | element _ _ children | emphasis _ children
  | codeSpan children | richCode _ children | link _ _ _ children | paragraph children
  | heading _ _ children | list _ children | page _ children => textsContent children
  | rule | comment _ _ | image _ _ _ | notice => ""

def textsContent : List Node → String
  | [] => ""
  | node :: rest => node.textContent ++ textsContent rest

def rowsContent : List (List Node) → String
  | [] => ""
  | row :: rest => textsContent row ++ rowsContent rest

end

mutual

/-- Whether a tree is a link or has one among its children, at any depth. -/
def containsLink : Node → Bool
  | link _ _ _ _ => true
  | group children | quote children | element _ _ children | emphasis _ children
  | codeSpan children | richCode _ children | paragraph children | heading _ _ children
  | list _ children | collapsible _ children | page _ children => anyContainsLink children
  | text _ | rule | comment _ _ | image _ _ _ | code _ _ | notice | table _ _ => false

def anyContainsLink : List Node → Bool
  | [] => false
  | node :: rest => node.containsLink || anyContainsLink rest

end

end Node

/-- The number of columns of a table: the size of its longest row. -/
def columnCount {α : Type} (header : List α) (rows : List (List α)) : Nat :=
  rows.foldl (fun n row => max n row.length) header.length

/-- Whether a character may stand in an anchor. -/
def isAnchorChar (c : Char) : Bool :=
  Unicode.isAlphanumeric c || c == '-' || c == '_' || c == '.' || c == ':'

/-- Whether a text can be the fragment of an address and the name of an anchor as it stands. -/
def isValidAnchor (id : String) : Bool :=
  !id.isEmpty && id.toList.all isAnchorChar

end DocTree
