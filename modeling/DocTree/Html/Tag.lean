/-! HTML tags: which stand alone, which start a block and which are part of a line. -/
namespace DocTree.Html

/-- How an element takes part in the layout: a block may hold blank lines, a void element has
neither content nor closing tag, and an inline one stands inside a line. -/
inductive TagClass where
  | block | void | inline
  deriving DecidableEq, Inhabited

def voidTags : List String :=
  ["area", "base", "br", "col", "embed", "hr", "img", "input", "link", "meta", "source", "track",
    "wbr"]

def blockTags : List String :=
  ["address", "article", "aside", "blockquote", "details", "dialog", "dd", "div", "dl", "dt",
    "fieldset", "figcaption", "figure", "footer", "form", "h1", "h2", "h3", "h4", "h5", "h6",
    "header", "li", "main", "nav", "ol", "p", "pre", "section", "summary", "table", "tbody", "td",
    "tfoot", "th", "thead", "tr", "ul"]

/-- The text with its ASCII letters in lower case. -/
def lowerAscii (s : String) : String := s.map Char.toLower

/-- The class of a tag, whatever the case of its ASCII letters. A tag that is not known is
inline. -/
def TagClass.ofTag (tag : String) : TagClass :=
  let tag := lowerAscii tag
  if voidTags.contains tag then .void
  else if blockTags.contains tag then .block
  else .inline

/-- Whether a text is the name of a tag: ASCII letters, digits and dashes, and not empty. -/
def isTagName (tag : String) : Bool :=
  !tag.isEmpty && tag.toList.all fun c => c.isAlphanum || c == '-'

end DocTree.Html
