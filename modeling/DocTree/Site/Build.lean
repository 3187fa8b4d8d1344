import DocTree.Markdown.Page
import DocTree.Signature.Expansion
import DocTree.Site.Config

/-! The pages of a site: for each configured page a tree with the signature, the documentation
and the sources of every export that it lists, and its Markdown. -/
namespace DocTree.Site
open DocTree.Api DocTree.Signature

/-- What is built for each page, and the remarks on all of them. -/
structure Built (α : Type) where
  pages : List (String × α)
  remarks : List Diagnostic
  deriving Inhabited

/-- Links to source locations, with commas between them. -/
def locationNodes : List Location → List Node
  | [] => []
  | location :: rest =>
    .link .source location.target none [.text location.display] ::
      (if rest.isEmpty then [] else .text ", " :: locationNodes rest)

/-- The paragraph that says where an item is declared. -/
def definedIn (item : Item) : Node :=
  .paragraph <| .emphasis .italics [.text "Defined in"] :: .text " "
    :: locationNodes item.declarations

/-- The signature, the documentation and the sources of an item. -/
def itemNodes (ctx : Context) (item : Item) : Except RenderError (List Node × List Diagnostic) :=
  if item.declarations.isEmpty then .error (.missingLocation item.kind item.name)
  else
    let (signature, remarks) :=
      if item.excerpt.tokens.isEmpty then ([], [])
      else
        let (node, remarks) := build ctx item.excerpt
        ([node], remarks)
    .ok (signature ++ item.doc.toList ++ [definedIn item], remarks)

/-- Puts the results of steps one behind the other, or fails with the first that fails. -/
def concat {α : Type} (step : α → Except RenderError (List Node × List Diagnostic)) :
    List α → Except RenderError (List Node × List Diagnostic)
  | [] => .ok ([], [])
  | a :: rest => do
    let (nodes, remarks) ← step a
    let (moreNodes, moreRemarks) ← concat step rest
    return (nodes ++ moreNodes, remarks ++ moreRemarks)

/-- The items of one kind of a name, under a heading if the name has several kinds. -/
def kindNodes (ctx : Context) (name : String) (items : List Item) (kind : Kind) :
    Except RenderError (List Node × List Diagnostic) := do
  let (nodes, remarks) ← concat (itemNodes ctx) (items.filter (·.kind == kind))
  if ctx.anchors.hasSeveralKinds name then
    let heading : Node := .heading 4 (some (ctx.anchors.anchor name kind)) [.text kind.label]
    return (heading :: nodes, remarks)
  else return (nodes, remarks)

/-- All that a page shows of a name. -/
def exportNodes (ctx : Context) (page name : String) :
    Except RenderError (List Node × List Diagnostic) := do
  let items := ctx.scope.index.named name
  if items.isEmpty then throw (.missingExport name page)
  let (nodes, remarks) ← concat (kindNodes ctx name items) (ctx.anchors.kindsOf name)
  return (.heading 3 (some (nameAnchor name)) [.text name] :: nodes, remarks)

def sectionNodes (ctx : Context) (page : String) (part : Section) :
    Except RenderError (List Node × List Diagnostic) := do
  let (nodes, remarks) ← concat (exportNodes ctx page) part.exports
  match part.title with
  | some title => return (.heading 2 (some (sectionAnchor title)) [.text title] :: nodes, remarks)
  | none => return (nodes, remarks)

/-- The entry of a name in a table of contents. -/
def exportEntry (anchors : Anchors) (name : String) : TocEntry :=
  .mk name (some (nameAnchor name)) (anchors.kindRefs name) []

/-- The entries of a section: those of its exports, below one of its own if it has a title. -/
def sectionEntries (anchors : Anchors) (part : Section) : List TocEntry :=
  let entries := part.exports.map (exportEntry anchors)
  match part.title with
  | some title => [.mk title (some (sectionAnchor title)) [] entries]
  | none => entries

/-- The table of contents of a page with the given sections. -/
def tableOfContents (anchors : Anchors) (sections : List Section) : TableOfContents :=
  ⟨sections.flatMap (sectionEntries anchors)⟩

def pageNode (ctx : Context) (entry : PageEntry) : Except RenderError (Node × List Diagnostic) := do
  let (children, remarks) ← concat (sectionNodes ctx entry.path) entry.sections
  return (.page ⟨entry.title, tableOfContents ctx.anchors entry.sections⟩ children, remarks)

def pageNodes (ctx : Context) : List PageEntry → Except RenderError (Built Node)
  | [] => .ok ⟨[], []⟩
  | entry :: rest => do
    let (node, remarks) ← pageNode ctx entry
    let more ← pageNodes ctx rest
    return ⟨(entry.path, node) :: more.pages, remarks ++ more.remarks⟩

/-- A remark for each name that no page lists. -/
def unlistedRemarks (index : Index) (routes : Dict String) : List Diagnostic :=
  (index.names.filter fun name => !routes.contains name).map fun name =>
    ⟨.warning, "S001", s!"Export '{name}' is not listed on any page"⟩

/-- The trees of all pages. -/
def buildPages (model : Model) (config : Config) : Except RenderError (Built Node) := do
  let scope := Scope.ofModel model config.renamedGlobals
  let anchors ← Anchors.ofIndex scope.index
  let ctx : Context := ⟨scope, anchors, config.routes⟩
  let built ← pageNodes ctx config.pages
  return { built with remarks := unlistedRemarks scope.index ctx.routes ++ built.remarks }

/-- How the page with the given path is rendered. -/
def Config.options (config : Config) (page : String) : Markdown.Options where
  page := page
  sourceBase := config.sourceBase
  stripComments := config.stripComments

def markdownPages (config : Config) :
    List (String × Node) → Except RenderError (List (String × String))
  | [] => .ok []
  | (path, node) :: rest => do
    let markdown ← Markdown.toMarkdown (config.options path) node
    let more ← markdownPages config rest
    return (path, markdown) :: more

/-- The Markdown of all pages. -/
def renderPages (model : Model) (config : Config) : Except RenderError (Built String) := do
  let built ← buildPages model config
  let pages ← markdownPages config built.pages
  return ⟨pages, built.remarks⟩

end DocTree.Site
