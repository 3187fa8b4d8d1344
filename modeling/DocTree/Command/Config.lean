import DocTree.Site.Config

/-! The configuration file of a build: where the model is read from, where the pages go, and the
site itself. -/
namespace DocTree.Command

def configFile : String := "apidoc.json"

structure Config where
  model : String
  outDir : String
  site : Site.Config
  deriving Inhabited

namespace Config

/-- The configuration of a directory without a file for it. -/
def default : Config := ⟨"api.json", "docs/api", .empty⟩

/-- The configuration in a document, which has to be an object. -/
def ofJson? : Json → Option Config
  | .object members => do
    let fields ← (Json.object members).fields? ("model" :: "outDir" :: Site.Config.fieldNames)
    let model ← Json.defaulted fields "model" default.model Json.text?
    let outDir ← Json.defaulted fields "outDir" default.outDir Json.text?
    let site ← Site.Config.ofFields? fields
    some ⟨model, outDir, site⟩
  | _ => none

def ofJsonText? (text : String) : Option Config := (Json.ofShallowText? text).bind ofJson?

end Config
end DocTree.Command
