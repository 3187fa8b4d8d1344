import DocTree.Api.Json
import DocTree.Proofs.NodeRecords
import DocTree.Site.Config

/-! What is written as JSON is read back: trees, models and configurations. -/
namespace DocTree
open Json

namespace Api

theorem Kind.ofJson?_toJson (kind : Kind) : ofJson? kind.toJson = some kind := by
  have hknown : (all.map name).contains kind.name :=
    List.contains_iff_mem.2 (List.mem_map_of_mem kind.mem_all)
  rw [ofJson?, toJson, bareVariant?, if_pos hknown]
  exact ofName?_name kind

namespace Location

def fields (location : Location) : List (String × Option Json) :=
  [("path", some (.string location.path)), ("line", some (.integer location.line.toNat))]

-- Here and for items the fields are a variable that has the wanted fields: with a list in sight
-- the kernel would compute with the bound on the number.
theorem ofJson?_of_fields {location : Location} {fields : List (String × Option Json)}
    (hnames : (fields.map (·.1)).Nodup) (h : location.fields ⊆ fields) :
    ofJson? (.object (present fields)) = some location := by
  have hpath := required_text hnames (h (.head _))
  have hline := required_count hnames (h (.tail _ (.head _)))
  simp [ofJson?, fields?_present hnames, hpath, hline]

theorem toJson_eq_fields (location : Location) :
    location.toJson = .object (present location.fields) := rfl

theorem ofJson?_toJson (location : Location) : ofJson? location.toJson = some location := by
  rw [toJson_eq_fields]
  exact ofJson?_of_fields (by simp [fields]) (List.Subset.refl location.fields)

end Location

theorem TokenKind.ofJson?_name (kind : TokenKind) : ofJson? (.string kind.name) = some kind := by
  cases kind <;> simp [ofJson?, name, bareVariant?]

namespace Token

def fields (token : Token) : List (String × Option Json) :=
  [("kind", some (.string token.kind.name)), ("text", some (.string token.text)),
    ("canonicalReference", token.reference.map .string)]

theorem toJson_eq_fields (token : Token) : token.toJson = .object (present token.fields) := by
  obtain ⟨kind, text, _ | reference⟩ := token <;> rfl

theorem ofJson?_toJson (token : Token) : ofJson? token.toJson = some token := by
  have hnames : (token.fields.map (·.1)).Nodup := by simp [fields]
  have hkind := required_present hnames (.head _) token.kind.ofJson?_name
  have htext := required_text hnames (.tail _ (.head _))
  have hreference := optional_text hnames (.tail _ (.tail _ (.head _)))
  simp [ofJson?, toJson_eq_fields, fields?_present hnames, hkind, htext, hreference]

end Token

namespace Excerpt

def fields (excerpt : Excerpt) : List (String × Option Json) :=
  [("tokens", some (.array (excerpt.tokens.map Token.toJson)))]

theorem ofJson?_toJson (excerpt : Excerpt) : ofJson? excerpt.toJson = some excerpt := by
  have hnames : (excerpt.fields.map (·.1)).Nodup := by simp [fields]
  have hwritten : excerpt.toJson = .object (present excerpt.fields) := rfl
  have htokens := defaulted_present hnames (.head _)
    (list?_map fun token _ => token.ofJson?_toJson) []
  simp [ofJson?, hwritten, fields?_present hnames, htokens]

end Excerpt

namespace Item

def fields (item : Item) : List (String × Option Json) :=
  [("name", some (.string item.name)), ("kind", some item.kind.toJson),
    ("canonicalReference", some (.string item.reference)),
    ("overloadIndex", item.overload.map fun n => .integer n.toNat),
    ("declarations", some (.array (item.declarations.map Location.toJson))),
    ("excerpt", some item.excerpt.toJson), ("doc", item.doc.map Node.toJson)]

theorem toJson_eq_fields (item : Item) : item.toJson = .object (present item.fields) := by
  obtain ⟨name, kind, reference, _ | n, declarations, excerpt, _ | doc⟩ := item <;> rfl

theorem ofJson?_of_fields {item : Item} {fields : List (String × Option Json)}
    (hnames : (fields.map (·.1)).Nodup) (h : item.fields ⊆ fields) :
    ofJson? (.object (present fields)) = some item := by
  have hname := required_text hnames (h (.head _))
  have hkind := required_present hnames (h (.tail _ (.head _))) item.kind.ofJson?_toJson
  have hreference := required_text hnames (h (.tail _ (.tail _ (.head _))))
  have hoverload := optional_count hnames (h (.tail _ (.tail _ (.tail _ (.head _)))))
  have hdeclarations := defaulted_present hnames
    (h (.tail _ (.tail _ (.tail _ (.tail _ (.head _))))))
    (list?_map fun location _ => location.ofJson?_toJson) []
  have hexcerpt := defaulted_present hnames
    (h (.tail _ (.tail _ (.tail _ (.tail _ (.tail _ (.head _)))))))
    item.excerpt.ofJson?_toJson ⟨[]⟩
  have hdoc := optional_present hnames
    (h (.tail _ (.tail _ (.tail _ (.tail _ (.tail _ (.tail _ (.head _))))))))
    Node.toJson_ne_null fun doc _ => doc.ofJson?_toJson
  simp [ofJson?, fields?_present hnames, hname, hkind, hreference, hoverload, hdeclarations,
    hexcerpt, hdoc, Function.comp_def]

theorem ofJson?_toJson (item : Item) : ofJson? item.toJson = some item := by
  rw [toJson_eq_fields]
  exact ofJson?_of_fields (by simp [fields]) (List.Subset.refl item.fields)

end Item

namespace Model

def fields (model : Model) : List (String × Option Json) :=
  [("packageName", some (.string model.package)),
    ("items", some (.array (model.items.map Item.toJson))),
    ("localDeclarations",
      some (.object (model.localDeclarations.entries.map fun e => (e.1, e.2.toJson))))]

theorem ofJson?_toJson (model : Model) : ofJson? model.toJson = some model := by
  have hnames : (model.fields.map (·.1)).Nodup := by simp [fields]
  have hwritten : model.toJson = .object (present model.fields) := rfl
  have hpackage := required_text hnames (.head _)
  have hitems := defaulted_present hnames (.tail _ (.head _))
    (list?_map fun item _ => item.ofJson?_toJson) []
  have hlocals := defaulted_present hnames (.tail _ (.tail _ (.head _)))
    (dict?_map fun excerpt => excerpt.ofJson?_toJson) ∅
  simp [ofJson?, hwritten, fields?_present hnames, hpackage, hitems, hlocals]

end Model
end Api

namespace Site

namespace Section

def fields (part : Section) : List (String × Option Json) :=
  [("title", part.title.map .string), ("exports", some (.array (part.exports.map .string)))]

theorem toJson_eq_fields (part : Section) : part.toJson = .object (present part.fields) := by
  obtain ⟨_ | title, exports⟩ := part <;> rfl

theorem ofJson?_toJson (part : Section) : ofJson? part.toJson = some part := by
  have hnames : (part.fields.map (·.1)).Nodup := by simp [fields]
  have htitle := optional_text hnames (.head _)
  have hexports := defaulted_present hnames (.tail _ (.head _)) (list?_text part.exports) []
  simp [ofJson?, toJson_eq_fields, fields?_present hnames, htitle, hexports]

end Section

namespace PageEntry

def fields (page : PageEntry) : List (String × Option Json) :=
  [("path", some (.string page.path)), ("title", some (.string page.title)),
    ("sections", some (.array (page.sections.map Section.toJson)))]

theorem ofJson?_toJson (page : PageEntry) : ofJson? page.toJson = some page := by
  have hnames : (page.fields.map (·.1)).Nodup := by simp [fields]
  have hwritten : page.toJson = .object (present page.fields) := rfl
  have hpath := required_text hnames (.head _)
  have htitle := required_text hnames (.tail _ (.head _))
  have hsections := defaulted_present hnames (.tail _ (.tail _ (.head _)))
    (list?_map fun part _ => part.ofJson?_toJson) []
  simp [ofJson?, hwritten, fields?_present hnames, hpath, htitle, hsections]

end PageEntry

namespace Config

def fields (config : Config) : List (String × Option Json) :=
  [("pages", some (.array (config.pages.map PageEntry.toJson))),
    ("sourceBaseUrl", config.sourceBase.map .string),
    ("renamedGlobals", if config.renamedGlobals.isEmpty then none
      else some (Node.dictJson config.renamedGlobals)),
    ("stripTransientComments", some (.bool config.stripComments))]

theorem toJson_eq_fields (config : Config) : config.toJson = .object (present config.fields) := by
  cases hsource : config.sourceBase <;> cases hrenamed : config.renamedGlobals.isEmpty <;>
    simp [toJson, fields, present, optionalMember, hsource, hrenamed]

theorem ofJson?_toJson (config : Config) : ofJson? config.toJson = some config := by
  have hnames : (config.fields.map (·.1)).Nodup := by simp [fields]
  have hpages := defaulted_present hnames (.head _)
    (list?_map fun page _ => page.ofJson?_toJson) []
  have hsource := optional_text hnames (.tail _ (.head _))
  have hrenamed := defaulted_unless hnames (.tail _ (.tail _ (.head _)))
    Dict.eq_empty_of_isEmpty (Node.dict?_dictJson config.renamedGlobals)
  have hstrip := defaulted_flag hnames (.tail _ (.tail _ (.tail _ (.head _)))) false
  simp [ofJson?, ofFields?, toJson_eq_fields, fields?_present hnames, hpages, hsource, hrenamed,
    hstrip]

end Config
end Site

section Legible

namespace Api

theorem Location.legible_toJson (location : Location) : Legible location.toJson :=
  .object (List.forall_mem_cons.2 ⟨.string _,
    List.forall_mem_singleton.2 (.integer location.line.toNat_lt_size)⟩)

theorem Token.legible_toJson (token : Token) : Legible token.toJson := by
  rw [toJson_eq_fields]
  refine .object (forall_present ?_)
  simp only [fields, List.forall_mem_cons]
  exact ⟨forall_some (.string _), forall_some (.string _), forall_map .string,
    List.forall_mem_nil _⟩

theorem Excerpt.legible_toJson (excerpt : Excerpt) : Legible excerpt.toJson :=
  .object <| List.forall_mem_singleton.2 <|
    legible_map fun token (_ : token ∈ excerpt.tokens) => token.legible_toJson

theorem Item.legible_toJson (item : Item) : Legible item.toJson := by
  have hdeclarations := legible_map fun location (_ : location ∈ item.declarations) =>
    location.legible_toJson
  rw [toJson_eq_fields]
  refine .object (forall_present ?_)
  simp only [fields, List.forall_mem_cons]
  exact ⟨forall_some (.string _), forall_some (.string _), forall_some (.string _),
    forall_map fun n => .integer n.toNat_lt_size, forall_some hdeclarations,
    forall_some item.excerpt.legible_toJson, forall_map Node.legible_toJson, List.forall_mem_nil _⟩

theorem Model.legible_toJson (model : Model) : Legible model.toJson := by
  have hitems := legible_map fun item (_ : item ∈ model.items) => item.legible_toJson
  have hlocals := legible_dict fun e (_ : e ∈ model.localDeclarations.entries) =>
    e.2.legible_toJson
  exact .object (List.forall_mem_cons.2
    ⟨.string _, List.forall_mem_cons.2 ⟨hitems, List.forall_mem_singleton.2 hlocals⟩⟩)

end Api

namespace Site

theorem Section.legible_toJson (part : Section) : Legible part.toJson := by
  have hexports := legible_map fun name (_ : name ∈ part.exports) => Legible.string name
  rw [toJson_eq_fields]
  refine .object (forall_present ?_)
  simp only [fields, List.forall_mem_cons]
  exact ⟨forall_map .string, forall_some hexports, List.forall_mem_nil _⟩

theorem PageEntry.legible_toJson (page : PageEntry) : Legible page.toJson := by
  have hsections := legible_map fun part (_ : part ∈ page.sections) => part.legible_toJson
  exact .object (List.forall_mem_cons.2
    ⟨.string _, List.forall_mem_cons.2 ⟨.string _, List.forall_mem_singleton.2 hsections⟩⟩)

theorem Config.legible_toJson (config : Config) : Legible config.toJson := by
  have hpages := legible_map fun page (_ : page ∈ config.pages) => page.legible_toJson
  have hrenamed := legible_dict fun e (_ : e ∈ config.renamedGlobals.entries) =>
    Legible.string e.2
  rw [toJson_eq_fields]
  refine .object (forall_present ?_)
  simp only [fields, List.forall_mem_cons]
  exact ⟨forall_some hpages, forall_map .string, forall_unless hrenamed,
    forall_some (.bool _), List.forall_mem_nil _⟩

end Site
end Legible

namespace Site

theorem Section.depth_toJson_le (part : Section) : part.toJson.depth ≤ 2 := by
  have hexports : (array (part.exports.map string)).depth ≤ 1 :=
    depth_array_le (List.forall_mem_map.2 fun _ _ => Nat.le_refl 0)
  have htext (s : String) : (string s).depth ≤ 1 := Nat.zero_le 1
  rw [toJson_eq_fields]
  refine depth_object_le (forall_present (p := (depth · ≤ 1)) ?_)
  simp only [fields, List.forall_mem_cons]
  exact ⟨forall_map htext, forall_some hexports, List.forall_mem_nil _⟩

theorem PageEntry.depth_toJson_le (page : PageEntry) : page.toJson.depth ≤ 4 := by
  have hsections : (array (page.sections.map Section.toJson)).depth ≤ 3 :=
    depth_array_le (List.forall_mem_map.2 fun part _ => part.depth_toJson_le)
  have htext (s : String) : (string s).depth ≤ 3 := Nat.zero_le 3
  exact depth_object_le (List.forall_mem_cons.2
    ⟨htext _, List.forall_mem_cons.2 ⟨htext _, List.forall_mem_singleton.2 hsections⟩⟩)

/-- A configuration has no part that may nest in itself. -/
theorem Config.depth_toJson_le (config : Config) : config.toJson.depth ≤ 6 := by
  have hpages : (array (config.pages.map PageEntry.toJson)).depth ≤ 5 :=
    depth_array_le (List.forall_mem_map.2 fun page _ => page.depth_toJson_le)
  have hrenamed : (Node.dictJson config.renamedGlobals).depth ≤ 5 :=
    Nat.le_trans (depth_object_le (List.forall_mem_map.2 fun _ _ => Nat.le_refl 0)) (by decide)
  have htext (s : String) : (string s).depth ≤ 5 := Nat.zero_le 5
  have hflag (b : Bool) : (bool b).depth ≤ 5 := Nat.zero_le 5
  rw [toJson_eq_fields]
  refine depth_object_le (forall_present (p := (depth · ≤ 5)) ?_)
  simp only [fields, List.forall_mem_cons]
  exact ⟨forall_some hpages, forall_map htext, forall_unless hrenamed,
    forall_some (hflag config.stripComments), List.forall_mem_nil _⟩

end Site

section Text

theorem ofShallowText?_toText {json : Json} (h : Legible json) (hdepth : json.depth ≤ depthLimit) :
    ofShallowText? json.toText = some json := by
  simp [ofShallowText?, ofText?_toText h, hdepth]

theorem toText_injective {α : Type} {write : α → Json} {read : Json → Option α}
    (hlegible : ∀ a, Legible (write a)) (hread : ∀ a, read (write a) = some a) :
    Function.Injective fun a => (write a).toText := by
  intro a b (h : (write a).toText = (write b).toText)
  have hjson : some (write a) = some (write b) := by
    rw [← ofText?_toText (hlegible a), ← ofText?_toText (hlegible b), h]
  have hvalue : some a = some b := by
    rw [← hread a, ← hread b, Option.some.inj hjson]
  exact Option.some.inj hvalue

end Text

/-- Trees, models and configurations are read back from the text they are written as, and no two
of a kind are written as the same text. Only the nesting of what is read is bounded; that of a
configuration always stays within the bound. -/
theorem json_round_trip :
    (∀ node : Node, node.toJson.depth ≤ depthLimit →
      Node.ofJsonText? node.toJson.toText = some node) ∧
    (∀ model : Api.Model, model.toJson.depth ≤ depthLimit →
      Api.Model.ofJsonText? model.toJson.toText = some model) ∧
    (∀ config : Site.Config, Site.Config.ofJsonText? config.toJson.toText = some config) ∧
    (Function.Injective fun node : Node => node.toJson.toText) ∧
    (Function.Injective fun model : Api.Model => model.toJson.toText) ∧
    (Function.Injective fun config : Site.Config => config.toJson.toText) := by
  refine ⟨fun node h => ?_, fun model h => ?_, fun config => ?_, ?_, ?_, ?_⟩
  · rw [Node.ofJsonText?, ofShallowText?_toText node.legible_toJson h]
    exact node.ofJson?_toJson
  · rw [Api.Model.ofJsonText?, ofShallowText?_toText model.legible_toJson h]
    exact model.ofJson?_toJson
  · have h : config.toJson.depth ≤ depthLimit :=
      Nat.le_trans config.depth_toJson_le (by decide)
    rw [Site.Config.ofJsonText?, ofShallowText?_toText config.legible_toJson h]
    exact config.ofJson?_toJson
  · exact toText_injective Node.legible_toJson Node.ofJson?_toJson
  · exact toText_injective Api.Model.legible_toJson Api.Model.ofJson?_toJson
  · exact toText_injective Site.Config.legible_toJson Site.Config.ofJson?_toJson

/-- A page with a list that does not start at one, and a model with an overload without tokens. -/
theorem json_round_trip_page :
    let page : Node := .page ⟨"Guide", ⟨[.mk "Use" (some "use") [] []]⟩⟩
      [.list (.ordered 4) [.text "\"quoted\""], .element "b" ∅ [.heading 2 none []]]
    let model : Api.Model := ⟨"demo",
      [⟨"load", .functionDecl, "demo#load:function(2)", some 2, [⟨"lib/load.ts", 4⟩], ⟨[]⟩,
        some page⟩], ∅⟩
    Node.ofJsonText? page.toJson.toText = some page ∧
      Api.Model.ofJsonText? model.toJson.toText = some model :=
  ⟨json_round_trip.1 _ (by decide), json_round_trip.2.1 _ (by decide)⟩

end DocTree
