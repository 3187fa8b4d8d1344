import DocTree.Json.Decode
import DocTree.Json.Reader
import DocTree.Node.Basic

/-! The JSON form of documentation trees. -/
namespace DocTree

/-- A member that is left out when there is no value. -/
def optionalMember (name : String) (value : Option String) : List (String × Json) :=
  match value with
  | none => []
  | some s => [(name, .string s)]

namespace KindRef

def toJson (ref : KindRef) : Json :=
  .object [("label", .string ref.label), ("anchor", .string ref.anchor)]

def ofJson? (json : Json) : Option KindRef := do
  let fields ← json.fields? ["label", "anchor"]
  let label ← Json.required fields "label" Json.text?
  let anchor ← Json.required fields "anchor" Json.text?
  some ⟨label, anchor⟩

end KindRef

namespace TocEntry

mutual

def toJson : TocEntry → Json
  | .mk title anchor kinds children => .object <|
    [("title", .string title)] ++ optionalMember "anchor" anchor
      ++ (if kinds.isEmpty then [] else [("kinds", .array (kinds.map KindRef.toJson))])
      ++ (if children.isEmpty then [] else [("children", .array (toJsons children))])

def toJsons : List TocEntry → List Json
  | [] => []
  | entry :: rest => entry.toJson :: toJsons rest

end

/-- Reads an entry of at most the given depth. -/
def ofJson? : Nat → Json → Option TocEntry
  | 0, _ => none
  | depth + 1, json => do
    let fields ← json.fields? ["title", "anchor", "kinds", "children"]
    let title ← Json.required fields "title" Json.text?
    let anchor ← Json.optional fields "anchor" Json.text?
    let kinds ← Json.defaulted fields "kinds" [] (Json.list? KindRef.ofJson?)
    let children ← Json.defaulted fields "children" [] (Json.list? (ofJson? depth))
    some (.mk title anchor kinds children)

end TocEntry

namespace TableOfContents

def toJson (contents : TableOfContents) : Json :=
  .object [("entries", .array (TocEntry.toJsons contents.entries))]

def ofJson? (json : Json) : Option TableOfContents := do
  let fields ← json.fields? ["entries"]
  let entries ← Json.defaulted fields "entries" [] (Json.list? (TocEntry.ofJson? json.depth))
  some ⟨entries⟩

end TableOfContents

namespace PageMetadata

def toJson (metadata : PageMetadata) : Json :=
  .object [("title", .string metadata.title), ("tableOfContents", metadata.contents.toJson)]

def ofJson? (json : Json) : Option PageMetadata := do
  let fields ← json.fields? ["title", "tableOfContents"]
  let title ← Json.required fields "title" Json.text?
  let contents ← Json.defaulted fields "tableOfContents" ⟨[]⟩ TableOfContents.ofJson?
  some ⟨title, contents⟩

end PageMetadata

namespace ListStyle

def toJson : ListStyle → Json
  | ordered start => .object [("kind", .string "Ordered"), ("start", .integer start.toNat)]
  | unordered => .object [("kind", .string "Unordered")]

def ofJson? (json : Json) : Option ListStyle := do
  let (tag, body) ← json.tagged? "kind"
  match ← tag.variant? ["Ordered", "Unordered"] true with
  | "Ordered" =>
    let fields ← body.fields? ["start"]
    let start ← Json.defaulted fields "start" 1 (Json.nat? UInt32.size)
    some (.ordered (.ofNat start))
  | _ => (body.fields? []).map fun _ => .unordered

end ListStyle

namespace Node

def dictJson (dict : Dict String) : Json :=
  .object (dict.entries.map fun e => (e.1, .string e.2))

/-- A tree under the name of its kind. -/
def typedJson (name : String) (fields : List (String × Json)) : Json :=
  .object (("type", .string name) :: fields)

def rowJson (cells : List Json) : Json := .object [("children", .array cells)]

mutual

def toJson : Node → Json
  | text s => typedJson "PlainText" [("text", .string s)]
  | rule => typedJson "HorizontalRule" []
  | comment s persist =>
    typedJson "HtmlComment" [("comment", .string s), ("persist", .bool persist)]
  | image src title alt => typedJson "Image" <|
    [("src", .string src)] ++ optionalMember "title" title ++ optionalMember "alt" alt
  | code language s => typedJson "CodeBlock" <|
    optionalMember "language" language ++ [("code", .string s)]
  | notice => typedJson "DoNotEditComment" []
  | group children => typedJson "Container" [("children", .array (toJsons children))]
  | quote children => typedJson "BlockQuote" [("children", .array (toJsons children))]
  | element tag attributes children => typedJson "HtmlElement" <|
    [("tagName", .string tag)]
      ++ (if attributes.isEmpty then [] else [("attributes", dictJson attributes)])
      ++ [("children", .array (toJsons children))]
  | emphasis style children =>
    typedJson (emphasis style children).typeName [("children", .array (toJsons children))]
  | codeSpan children => typedJson "CodeSpan" [("children", .array (toJsons children))]
  | richCode language children => typedJson "RichCodeBlock"
    [("language", .string language), ("children", .array (toJsons children))]
  | link target destination title children =>
    typedJson (link target destination title children).typeName <|
      [("destination", .string destination)] ++ optionalMember "title" title
        ++ [("children", .array (toJsons children))]
  | paragraph children => typedJson "Paragraph" [("children", .array (toJsons children))]
  | heading level anchor children => typedJson "Heading123456" <|
    [("level", .integer level.toNat)] ++ optionalMember "alternateId" anchor
      ++ [("children", .array (toJsons children))]
  | list style items => typedJson "List"
    [("listType", style.toJson), ("children", .array (toJsons items))]
  | table header rows => typedJson "Table"
    [("header", rowJson (toJsons header)), ("rows", .array (rowJsons rows))]
  | collapsible summary children => typedJson "CollapsibleSection"
    [("summaryNode", summary.toJson), ("children", .array (toJsons children))]
  | page metadata children => typedJson "Page"
    [("metadata", metadata.toJson), ("children", .array (toJsons children))]

def toJsons : List Node → List Json
  | [] => []
  | node :: rest => node.toJson :: toJsons rest

def rowJsons : List (List Node) → List Json
  | [] => []
  | row :: rest => rowJson (toJsons row) :: rowJsons rest

end

/-- The names of the kinds, in the order of their positions. -/
def typeNames : List String :=
  ["PlainText", "HorizontalRule", "HtmlComment", "Image", "CodeBlock", "DoNotEditComment",
    "Container", "BlockQuote", "HtmlElement", "Italics", "Bold", "Strikethrough", "CodeSpan",
    "RichCodeBlock", "Link", "LocalPageLink", "GithubSourceLink", "Paragraph", "Heading123456",
    "List", "Table", "CollapsibleSection", "Page"]

/-- Reads a row of a table. -/
def rowOfJson? (cell : Json → Option Node) (json : Json) : Option (List Node) := do
  let fields ← json.fields? ["children"]
  Json.defaulted fields "children" [] (Json.list? cell)

/-- Reads the fields of a node of the named kind, whose parts are read by `part`. -/
def ofFields? (part : Json → Option Node) (body : Json) : String → Option Node
  | "PlainText" => do
    let fields ← body.fields? ["text"]
    (Json.required fields "text" Json.text?).map .text
  | "HorizontalRule" => (body.fields? []).map fun _ => .rule
  | "HtmlComment" => do
    let fields ← body.fields? ["comment", "persist"]
    let comment ← Json.required fields "comment" Json.text?
    let persist ← Json.defaulted fields "persist" false Json.flag?
    some (.comment comment persist)
  | "Image" => do
    let fields ← body.fields? ["src", "title", "alt"]
    let src ← Json.required fields "src" Json.text?
    let title ← Json.optional fields "title" Json.text?
    let alt ← Json.optional fields "alt" Json.text?
    some (.image src title alt)
  | "CodeBlock" => do
    let fields ← body.fields? ["language", "code"]
    let language ← Json.optional fields "language" Json.text?
    let code ← Json.required fields "code" Json.text?
    some (.code language code)
  | "DoNotEditComment" => (body.fields? []).map fun _ => .notice
  | "Container" => (parent [] body).map fun (_, children) => .group children
  | "BlockQuote" => (parent [] body).map fun (_, children) => .quote children
  | "HtmlElement" => do
    let (fields, children) ← parent ["tagName", "attributes"] body
    let tag ← Json.required fields "tagName" Json.text?
    let attributes ← Json.defaulted fields "attributes" ∅ (Json.dict? Json.text?)
    some (.element tag attributes children)
  | "Italics" => (parent [] body).map fun (_, children) => .emphasis .italics children
  | "Bold" => (parent [] body).map fun (_, children) => .emphasis .bold children
  | "Strikethrough" =>
    (parent [] body).map fun (_, children) => .emphasis .strikethrough children
  | "CodeSpan" => (parent [] body).map fun (_, children) => .codeSpan children
  | "RichCodeBlock" => do
    let (fields, children) ← parent ["language"] body
    let language ← Json.required fields "language" Json.text?
    some (.richCode language children)
  | "Link" => link .address
  | "LocalPageLink" => link .page
  | "GithubSourceLink" => link .source
  | "Paragraph" => (parent [] body).map fun (_, children) => .paragraph children
  | "Heading123456" => do
    let (fields, children) ← parent ["level", "alternateId"] body
    let level ← Json.required fields "level" (Json.nat? UInt8.size)
    let anchor ← Json.optional fields "alternateId" Json.text?
    some (.heading (.ofNat level) anchor children)
  | "List" => do
    let (fields, items) ← parent ["listType"] body
    let style ← Json.required fields "listType" ListStyle.ofJson?
    some (.list style items)
  | "Table" => do
    let fields ← body.fields? ["header", "rows"]
    let header ← Json.required fields "header" (rowOfJson? part)
    let rows ← Json.defaulted fields "rows" [] (Json.list? (rowOfJson? part))
    some (.table header rows)
  | "CollapsibleSection" => do
    let (fields, children) ← parent ["summaryNode"] body
    let summary ← Json.required fields "summaryNode" part
    some (.collapsible summary children)
  | "Page" => do
    let (fields, children) ← parent ["metadata"] body
    let metadata ← Json.required fields "metadata" PageMetadata.ofJson?
    some (.page metadata children)
  | _ => none
where
  /-- The fields of a node that has children, and the children, which come last. -/
  parent (names : List String) (body : Json) : Option (List (String × Json) × List Node) := do
    let fields ← body.fields? (names ++ ["children"])
    let children ← Json.defaulted fields "children" [] (Json.list? part)
    some (fields, children)
  link (target : LinkTarget) : Option Node := do
    let (fields, children) ← parent ["destination", "title"] body
    let destination ← Json.required fields "destination" Json.text?
    let title ← Json.optional fields "title" Json.text?
    some (.link target destination title children)

/-- Reads a tree of at most the given depth. Only below the root may a kind be given by its
position. -/
def readTree : Nat → Bool → Json → Option Node
  | 0, _, _ => none
  | depth + 1, byPosition, json => do
    let (tag, body) ← json.tagged? "type"
    let name ← tag.variant? typeNames byPosition
    ofFields? (readTree depth true) body name

/-- The tree that a document describes. -/
def ofJson? (json : Json) : Option Node := readTree json.depth false json

/-- The tree that a JSON text describes. -/
def ofJsonText? (text : String) : Option Node := (Json.ofShallowText? text).bind ofJson?

end Node
end DocTree
