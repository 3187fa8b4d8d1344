import DocTree.Node.Json

/-! Which pages a site has and which exports each of them shows. -/
namespace DocTree.Site

/-- A group of exports, which may have a heading of its own. -/
structure Section where
  title : Option String
  exports : List String
  deriving DecidableEq, Inhabited

/-- A page: its path from the root of the site, its title and what it shows. -/
structure PageEntry where
  path : String
  title : String
  sections : List Section
  deriving DecidableEq, Inhabited

/-- The pages of a site and how they are rendered. -/
structure Config where
  pages : List PageEntry
  sourceBase : Option String
  renamedGlobals : Dict String
  stripComments : Bool
  deriving Inhabited

namespace PageEntry

/-- The exports that a page lists, in order. -/
def exports (page : PageEntry) : List String := page.sections.flatMap Section.exports

end PageEntry

namespace Config

/-- A site without pages. -/
def empty : Config := ⟨[], none, ∅, false⟩

/-- The page of each export. Of the pages that list it the first one counts. -/
def routes (config : Config) : Dict String :=
  (config.pages.flatMap fun page => page.exports.map (·, page.path)).foldl
    (fun routes (name, path) => if routes.contains name then routes else routes.insert name path) ∅

end Config

namespace Section

def toJson (part : Section) : Json := .object <|
  optionalMember "title" part.title
    ++ [("exports", .array (part.exports.map .string))]

def ofJson? (json : Json) : Option Section := do
  let fields ← json.fields? ["title", "exports"]
  let title ← Json.optional fields "title" Json.text?
  let exports ← Json.defaulted fields "exports" [] (Json.list? Json.text?)
  some ⟨title, exports⟩

end Section

namespace PageEntry

def toJson (page : PageEntry) : Json :=
  .object [("path", .string page.path), ("title", .string page.title),
    ("sections", .array (page.sections.map Section.toJson))]

def ofJson? (json : Json) : Option PageEntry := do
  let fields ← json.fields? ["path", "title", "sections"]
  let path ← Json.required fields "path" Json.text?
  let title ← Json.required fields "title" Json.text?
  let sections ← Json.defaulted fields "sections" [] (Json.list? Section.ofJson?)
  some ⟨path, title, sections⟩

end PageEntry

namespace Config

def toJson (config : Config) : Json := .object <|
  [("pages", .array (config.pages.map PageEntry.toJson))]
    ++ optionalMember "sourceBaseUrl" config.sourceBase
    ++ (if config.renamedGlobals.isEmpty then []
        else [("renamedGlobals", Node.dictJson config.renamedGlobals)])
    ++ [("stripTransientComments", .bool config.stripComments)]

/-- The names of the fields, in order. -/
def fieldNames : List String :=
  ["pages", "sourceBaseUrl", "renamedGlobals", "stripTransientComments"]

def ofFields? (fields : List (String × Json)) : Option Config := do
  let pages ← Json.defaulted fields "pages" [] (Json.list? PageEntry.ofJson?)
  let sourceBase ← Json.optional fields "sourceBaseUrl" Json.text?
  let renamedGlobals ← Json.defaulted fields "renamedGlobals" ∅ (Json.dict? Json.text?)
  let stripComments ← Json.defaulted fields "stripTransientComments" false Json.flag?
  some ⟨pages, sourceBase, renamedGlobals, stripComments⟩

def ofJson? (json : Json) : Option Config := (json.fields? fieldNames).bind ofFields?

/-- The configuration that a JSON text describes. -/
def ofJsonText? (text : String) : Option Config := (Json.ofShallowText? text).bind ofJson?

end Config
end DocTree.Site
