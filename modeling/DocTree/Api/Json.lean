import DocTree.Api.Model
import DocTree.Node.Json

/-! The JSON form of models. -/
namespace DocTree.Api

namespace Kind

def toJson (kind : Kind) : Json := .string kind.name

def ofJson? (json : Json) : Option Kind :=
  (json.bareVariant? (all.map name)).bind ofName?

end Kind

namespace Location

def toJson (location : Location) : Json :=
  .object [("path", .string location.path), ("line", .integer location.line.toNat)]

def ofJson? (json : Json) : Option Location := do
  let fields ← json.fields? ["path", "line"]
  let path ← Json.required fields "path" Json.text?
  let line ← Json.required fields "line" (Json.nat? UInt32.size)
  some ⟨path, .ofNat line⟩

end Location

namespace TokenKind

def name : TokenKind → String
  | content => "Content"
  | reference => "Reference"

def ofJson? (json : Json) : Option TokenKind := do
  match ← json.bareVariant? ["Content", "Reference"] with
  | "Content" => some .content
  | _ => some .reference

end TokenKind

namespace Token

def toJson (token : Token) : Json := .object <|
  [("kind", .string token.kind.name), ("text", .string token.text)]
    ++ optionalMember "canonicalReference" token.reference

def ofJson? (json : Json) : Option Token := do
  let fields ← json.fields? ["kind", "text", "canonicalReference"]
  let kind ← Json.required fields "kind" TokenKind.ofJson?
  let text ← Json.required fields "text" Json.text?
  let reference ← Json.optional fields "canonicalReference" Json.text?
  some ⟨kind, text, reference⟩

end Token

namespace Excerpt

def toJson (excerpt : Excerpt) : Json :=
  .object [("tokens", .array (excerpt.tokens.map Token.toJson))]

def ofJson? (json : Json) : Option Excerpt := do
  let fields ← json.fields? ["tokens"]
  let tokens ← Json.defaulted fields "tokens" [] (Json.list? Token.ofJson?)
  some ⟨tokens⟩

end Excerpt

namespace Item

def toJson (item : Item) : Json := .object <|
  [("name", .string item.name), ("kind", item.kind.toJson),
    ("canonicalReference", .string item.reference)]
  ++ (match item.overload with
    | some n => [("overloadIndex", .integer n.toNat)]
    | none => [])
  ++ [("declarations", .array (item.declarations.map Location.toJson)),
    ("excerpt", item.excerpt.toJson)]
  ++ (match item.doc with
    | some doc => [("doc", doc.toJson)]
    | none => [])

def ofJson? (json : Json) : Option Item := do
  let fields ← json.fields?
    ["name", "kind", "canonicalReference", "overloadIndex", "declarations", "excerpt", "doc"]
  let name ← Json.required fields "name" Json.text?
  let kind ← Json.required fields "kind" Kind.ofJson?
  let reference ← Json.required fields "canonicalReference" Json.text?
  let overload ← Json.optional fields "overloadIndex" (Json.nat? UInt32.size)
  let declarations ← Json.defaulted fields "declarations" [] (Json.list? Location.ofJson?)
  let excerpt ← Json.defaulted fields "excerpt" ⟨[]⟩ Excerpt.ofJson?
  let doc ← Json.optional fields "doc" Node.ofJson?
  some ⟨name, kind, reference, overload.map .ofNat, declarations, excerpt, doc⟩

end Item

namespace Model

def toJson (model : Model) : Json :=
  .object [("packageName", .string model.package),
    ("items", .array (model.items.map Item.toJson)),
    ("localDeclarations",
      .object (model.localDeclarations.entries.map fun e => (e.1, e.2.toJson)))]

def ofJson? (json : Json) : Option Model := do
  let fields ← json.fields? ["packageName", "items", "localDeclarations"]
  let package ← Json.required fields "packageName" Json.text?
  let items ← Json.defaulted fields "items" [] (Json.list? Item.ofJson?)
  let locals ← Json.defaulted fields "localDeclarations" ∅ (Json.dict? Excerpt.ofJson?)
  some ⟨package, items, locals⟩

/-- The model that a JSON text describes. -/
def ofJsonText? (text : String) : Option Model := (Json.ofShallowText? text).bind ofJson?

end Model
end DocTree.Api
