import DocTree.Markdown.Block
import DocTree.Node.Contents
import DocTree.Node.Normal
import DocTree.Site.Link

/-! Rendering a tree as Markdown. -/
namespace DocTree.Markdown
open Render

/-- What a rendering depends on beside the tree. -/
structure Options where
  /-- The path of the page, from the root of the site. -/
  page : String := "index.md"
  /-- The address of the source repository. -/
  sourceBase : Option String := none
  /-- Whether comments that need not persist are left out. -/
  stripComments : Bool := false
  deriving DecidableEq, Inhabited

/-- The address that a link's destination stands for on the page. -/
def Options.address (o : Options) (target : LinkTarget) (destination : String) : String :=
  match target, o.sourceBase with
  | .address, _ => destination
  | .page, _ => Site.relativePath o.page destination
  | .source, some base => Site.joinUrl base destination
  | .source, none => destination

variable (o : Options) (head : PageMetadata → Render Unit)

mutual

/-- Writes a tree. What a page begins with is written by `head`. -/
def renderNode : Node → Render Unit
  | .text s => writeEscaped s
  | .rule => rule
  | .comment s persist => if !persist && o.stripComments then pure () else comment s
  | .image src title alt => image src title alt
  | .code language s => codeBlock language s
  | .notice => notice
  | .group children => renderNodes false children
  | .quote children => quote (renderNodes false children)
  | .element tag attributes children => element tag attributes (renderNodes false children)
  | .emphasis style children => emphasis style children.isEmpty (renderNodes false children)
  | .codeSpan children => codeSpan (Node.textsContent children)
  | .richCode language children =>
    if Node.anyContainsLink children then linkedCode language (renderNodes false children)
    else codeBlock (some language) (Node.textsContent children)
  | .link target destination title children =>
    link (o.address target destination) title (renderNodes false children)
  | .paragraph children => element "p" ∅ (renderNodes false children)
  | .heading level anchor children => heading level anchor (renderNodes false children)
  | .list style items => list style (renderParts items)
  | .table header rows => table (renderParts header) (renderRows rows)
  | .collapsible summary children => collapsible (renderNode summary) (renderNodes false children)
  | .page metadata children => do
    head metadata
    renderNodes false children
    ensureNewLine

/-- Writes nodes one after the other, with a separator between two lists. -/
def renderNodes : Bool → List Node → Render Unit
  | _, [] => pure ()
  | afterList, node :: rest => do
    separateLists afterList node.isList
    renderNode node
    renderNodes node.isList rest

/-- The steps that write each of the nodes. -/
def renderParts : List Node → List (Render Unit)
  | [] => []
  | node :: rest => renderNode node :: renderParts rest

def renderRows : List (List Node) → List (List (Render Unit))
  | [] => []
  | row :: rest => renderParts row :: renderRows rest

end

/-- Writes a tree without pages, such as a table of contents. -/
def renderPlain (node : Node) : Render Unit := renderNode o (fun _ => pure ()) node

/-- Writes the notice, the title and the table of contents of a page. -/
def pageHead (metadata : PageMetadata) : Render Unit := do
  notice
  heading 1 none (writeEscaped metadata.title)
  if metadata.contents.entries.isEmpty then pure ()
  else renderPlain o metadata.contents.toNode

/-- Writes a tree to an output. -/
def render (node : Node) : Render Unit := renderNode o (pageHead o) node

/-- The Markdown of a tree as it is. -/
def renderRaw (node : Node) : Except RenderError String := (render o node).toText

/-- The Markdown of the normal form of a tree. -/
def toMarkdown (node : Node) : Except RenderError String := renderRaw o node.normal

end DocTree.Markdown
