import DocTree.Node.Json
import DocTree.Proofs.Records
import DocTree.Proofs.Tree

/-! Documentation trees are read from the JSON form they are written in. -/
namespace DocTree
open Json

namespace KindRef

theorem ofJson?_toJson (ref : KindRef) : ofJson? ref.toJson = some ref := by
  simp [ofJson?, toJson, fields?, required, text?, List.lookup_cons]

end KindRef

namespace TocEntry

theorem toJsons_eq_map (entries : List TocEntry) : toJsons entries = entries.map toJson := by
  induction entries with
  | nil => rfl
  | cons entry rest ih => rw [toJsons, ih, List.map_cons]

def fields : TocEntry → List (String × Option Json)
  | mk title anchor kinds children =>
    [("title", some (.string title)), ("anchor", anchor.map .string),
      ("kinds", if kinds.isEmpty then none else some (.array (kinds.map KindRef.toJson))),
      ("children", if children.isEmpty then none else some (.array (children.map toJson)))]

theorem toJson_eq_fields (entry : TocEntry) : entry.toJson = .object (present entry.fields) := by
  obtain ⟨title, anchor, kinds, children⟩ := entry
  rw [toJson, fields, toJsons_eq_map]
  cases anchor <;> cases kinds <;> cases children <;> rfl

theorem depth_lt_of_child {title : String} {anchor : Option String} {kinds : List KindRef}
    {children : List TocEntry} {child : TocEntry} (h : child ∈ children) :
    child.toJson.depth < (mk title anchor kinds children).toJson.depth := by
  have hne : children ≠ [] := List.ne_nil_of_mem h
  have hmember : ("children", .array (children.map toJson)) ∈
      present (mk title anchor kinds children).fields :=
    mem_present.2 (by simp [fields, hne])
  have hitem := depth_lt_of_item (List.mem_map_of_mem (f := toJson) h)
  rw [toJson_eq_fields (mk title anchor kinds children)]
  exact Nat.lt_trans hitem (depth_lt_of_member hmember)

theorem ofJson?_toJson {depth : Nat} {entry : TocEntry} (h : entry.toJson.depth ≤ depth) :
    ofJson? depth entry.toJson = some entry := by
  induction depth generalizing entry with
  | zero =>
    rw [toJson_eq_fields, Json.depth] at h
    omega
  | succ depth ih =>
    obtain ⟨title, anchor, kinds, children⟩ := entry
    have hnames : ((mk title anchor kinds children).fields.map (·.1)).Nodup := by simp [fields]
    have hchildren : ∀ child ∈ children, ofJson? depth child.toJson = some child :=
      fun child hchild => ih (Nat.le_of_lt_succ (Nat.lt_of_lt_of_le (depth_lt_of_child hchild) h))
    have htitle := required_text hnames (.head _)
    have hanchor := optional_text hnames (.tail _ (.head _))
    have hkinds := defaulted_unless hnames (.tail _ (.tail _ (.head _))) List.isEmpty_iff.1
      (list?_map fun ref _ => ref.ofJson?_toJson)
    have hbelow := defaulted_unless hnames (.tail _ (.tail _ (.tail _ (.head _))))
      List.isEmpty_iff.1 (list?_map hchildren)
    simp [ofJson?, toJson_eq_fields, fields?_present hnames, htitle, hanchor, hkinds, hbelow]

end TocEntry

namespace TableOfContents

def fields (contents : TableOfContents) : List (String × Option Json) :=
  [("entries", some (.array (contents.entries.map TocEntry.toJson)))]

theorem toJson_eq_fields (contents : TableOfContents) :
    contents.toJson = .object (present contents.fields) := by
  rw [toJson, TocEntry.toJsons_eq_map]
  rfl

theorem ofJson?_toJson (contents : TableOfContents) : ofJson? contents.toJson = some contents := by
  have hnames : (contents.fields.map (·.1)).Nodup := by simp [fields]
  have hentries : ∀ entry ∈ contents.entries,
      TocEntry.ofJson? contents.toJson.depth entry.toJson = some entry := by
    intro entry hentry
    have hmember : ("entries", .array (contents.entries.map TocEntry.toJson)) ∈
        present contents.fields := mem_present.2 (.head _)
    have hitem := depth_lt_of_item (List.mem_map_of_mem (f := TocEntry.toJson) hentry)
    rw [toJson_eq_fields]
    exact TocEntry.ofJson?_toJson (Nat.le_of_lt (Nat.lt_trans hitem (depth_lt_of_member hmember)))
  have hfield := defaulted_present hnames (.head _) (list?_map hentries) []
  rw [toJson_eq_fields] at hfield
  simp [ofJson?, toJson_eq_fields, fields?_present hnames, hfield]

end TableOfContents

namespace PageMetadata

def fields (metadata : PageMetadata) : List (String × Option Json) :=
  [("title", some (.string metadata.title)),
    ("tableOfContents", some metadata.contents.toJson)]

theorem ofJson?_toJson (metadata : PageMetadata) : ofJson? metadata.toJson = some metadata := by
  have hnames : (metadata.fields.map (·.1)).Nodup := by simp [fields]
  have htitle := required_text hnames (.head _)
  have hcontents := defaulted_present hnames (.tail _ (.head _))
    metadata.contents.ofJson?_toJson ⟨[]⟩
  have hwritten : metadata.toJson = .object (present metadata.fields) := rfl
  simp [ofJson?, hwritten, fields?_present hnames, htitle, hcontents]

end PageMetadata

namespace ListStyle

-- The fields are a variable that has the wanted field: with a list in sight the kernel would
-- compute with the bound on the number.
theorem ofJson?_ordered {json : Json} {fields : List (String × Option Json)} {start : UInt32}
    (htag : json.tagged? "kind" = some (.string "Ordered", .object (present fields)))
    (hnames : (fields.map (·.1)).Nodup) (h : ("start", some (.integer start.toNat)) ∈ fields) :
    ofJson? json = some (ordered start) := by
  have hkind : variant? ["Ordered", "Unordered"] true (.string "Ordered") = some "Ordered" := by
    simp [variant?]
  have hstart := defaulted_present hnames h (nat?_of_lt start.toNat_lt_size) 1
  simp [ofJson?, htag, hkind, fields?_present hnames, hstart]

theorem ofJson?_toJson (style : ListStyle) : ofJson? style.toJson = some style := by
  cases style with
  | ordered start =>
    have htag := @tagged?_present "kind" [("start", some (.integer start.toNat))]
      (.string "Ordered") (by simp)
    exact ofJson?_ordered htag (by simp) (.head _)
  | unordered => simp [ofJson?, toJson, tagged?, variant?, fields?]

end ListStyle

namespace Node

theorem toJsons_eq_map (nodes : List Node) : toJsons nodes = nodes.map toJson := by
  induction nodes with
  | nil => rfl
  | cons node rest ih => rw [toJsons, ih, List.map_cons]

theorem rowJsons_eq_map (rows : List (List Node)) :
    rowJsons rows = rows.map fun row => rowJson (row.map toJson) := by
  induction rows with
  | nil => rfl
  | cons row rest ih => rw [rowJsons, ih, toJsons_eq_map, List.map_cons]

theorem dict?_dictJson (dict : Dict String) : dict? text? (dictJson dict) = some dict :=
  dict?_map fun _ => rfl

def childrenField (children : List Node) : String × Option Json :=
  ("children", some (.array (children.map toJson)))

def rowField (row : List Node) : Json := rowJson (row.map toJson)

/-- The fields of a node beside the name of its kind. -/
def fields : Node → List (String × Option Json)
  | text s => [("text", some (.string s))]
  | rule | notice => []
  | comment s persist => [("comment", some (.string s)), ("persist", some (.bool persist))]
  | image src title alt =>
    [("src", some (.string src)), ("title", title.map .string), ("alt", alt.map .string)]
  | code language s => [("language", language.map .string), ("code", some (.string s))]
  | group children | quote children | emphasis _ children | codeSpan children
  | paragraph children => [childrenField children]
  | element tag attributes children =>
    [("tagName", some (.string tag)),
      ("attributes", if attributes.isEmpty then none else some (dictJson attributes)),
      childrenField children]
  | richCode language children =>
    [("language", some (.string language)), childrenField children]
  | link _ destination title children =>
    [("destination", some (.string destination)), ("title", title.map .string),
      childrenField children]
  | heading level anchor children =>
    [("level", some (.integer level.toNat)), ("alternateId", anchor.map .string),
      childrenField children]
  | list style items => [("listType", some style.toJson), childrenField items]
  | table header rows =>
    [("header", some (rowField header)), ("rows", some (.array (rows.map rowField)))]
  | collapsible summary children =>
    [("summaryNode", some summary.toJson), childrenField children]
  | page metadata children => [("metadata", some metadata.toJson), childrenField children]

theorem toJson_eq_fields (node : Node) :
    node.toJson = typedJson node.typeName (present node.fields) := by
  cases node with
  | text | rule | comment | notice => simp [toJson, typeName, fields, present]
  | image src title alt => cases title <;> cases alt <;> rfl
  | code language s => cases language <;> rfl
  | element tag attributes children =>
    cases h : attributes.isEmpty <;>
      simp [toJson, typeName, fields, present, toJsons_eq_map, childrenField, h]
  | link target destination title children =>
    cases title <;>
      simp [toJson, typeName, fields, present, toJsons_eq_map, childrenField, optionalMember]
  | heading level anchor children =>
    cases anchor <;>
      simp [toJson, typeName, fields, present, toJsons_eq_map, childrenField, optionalMember]
  | group | quote | emphasis | codeSpan | richCode | paragraph | list | table | collapsible
  | page =>
    simp [toJson, typeName, fields, present, toJsons_eq_map, rowJsons_eq_map, childrenField,
      rowField]
    try rfl

theorem nodup_fields (node : Node) : (node.fields.map (·.1)).Nodup := by
  cases node <;> simp [fields, childrenField]

theorem type_notMem_fields (node : Node) : "type" ∉ node.fields.map (·.1) := by
  cases node <;> simp [fields, childrenField]

theorem typeName_mem (node : Node) : node.typeName ∈ typeNames := by
  cases node with
  | emphasis style => cases style <;> simp [typeName, typeNames]
  | link target => cases target <;> simp [typeName, typeNames]
  | _ => simp [typeName, typeNames]

theorem depth_lt_of_cell {row : List Node} {cell : Node} (h : cell ∈ row) :
    cell.toJson.depth < (rowField row).depth := by
  have hrow : ("children", .array (row.map toJson)) ∈ present [childrenField row] := .head _
  have hitem := depth_lt_of_item (List.mem_map_of_mem (f := toJson) h)
  exact Nat.lt_trans hitem (depth_lt_of_member hrow)

theorem rowOfJson?_rowField {part : Json → Option Node} {row : List Node}
    (h : ∀ n ∈ row, part n.toJson = some n) : rowOfJson? part (rowField row) = some row := by
  have hnames : ([childrenField row].map (·.1)).Nodup := by simp
  have hwritten : rowField row = .object (present [childrenField row]) := rfl
  have hcells := defaulted_present hnames (.head _) (list?_map h) []
  rw [rowOfJson?, hwritten, fields?_present hnames]
  exact hcells

section Parts
variable {part : Json → Option Node} {fields : List (String × Option Json)}
  (hnames : (fields.map (·.1)).Nodup)
  (hpart : ∀ n : Node, n.toJson.depth < (Json.object (present fields)).depth →
    part n.toJson = some n)
include hpart

theorem forall_read {name : String} {nodes : List Node}
    (h : (name, some (.array (nodes.map toJson))) ∈ fields) :
    ∀ n ∈ nodes, part n.toJson = some n := by
  intro n hn
  have hitem := depth_lt_of_item (List.mem_map_of_mem (f := toJson) hn)
  exact hpart n (Nat.lt_trans hitem (depth_lt_of_member (mem_present.2 h)))

include hnames in
theorem parent_present (names : List String) {children : List Node}
    (h : childrenField children ∈ fields) :
    ofFields?.parent part names (.object (present fields)) = some (present fields, children) := by
  have hchildren := defaulted_present hnames h (list?_map (forall_read hpart h)) []
  simp [ofFields?.parent, fields?_present hnames, hchildren]

end Parts

/-- A node is read from its fields if its parts are. -/
theorem ofFields?_fields {part : Json → Option Node} (node : Node)
    (hpart : ∀ n : Node, n.toJson.depth < (Json.object (present node.fields)).depth →
      part n.toJson = some n) :
    ofFields? part (.object (present node.fields)) node.typeName = some node := by
  have hnames := nodup_fields node
  cases node with
  | text s =>
    have hs := required_text hnames (.head _)
    simp [typeName, ofFields?, fields?_present hnames, hs]
  | rule | notice => simp [typeName, ofFields?, fields?_present hnames]
  | comment s persist =>
    have hs := required_text hnames (.head _)
    have hpersist := defaulted_flag hnames (.tail _ (.head _)) false
    simp [typeName, ofFields?, fields?_present hnames, hs, hpersist]
  | image src title alt =>
    have hsrc := required_text hnames (.head _)
    have htitle := optional_text hnames (.tail _ (.head _))
    have halt := optional_text hnames (.tail _ (.tail _ (.head _)))
    simp [typeName, ofFields?, fields?_present hnames, hsrc, htitle, halt]
  | code language s =>
    have hlanguage := optional_text hnames (.head _)
    have hs := required_text hnames (.tail _ (.head _))
    simp [typeName, ofFields?, fields?_present hnames, hlanguage, hs]
  | group children | quote children | codeSpan children | paragraph children =>
    have hparent := parent_present hnames hpart [] (.head _)
    simp [typeName, ofFields?, hparent]
  | emphasis style children =>
    have hparent := parent_present hnames hpart [] (.head _)
    cases style <;> simp [typeName, ofFields?, hparent]
  | element tag attributes children =>
    have hparent := parent_present hnames hpart ["tagName", "attributes"]
      (.tail _ (.tail _ (.head _)))
    have htag := required_text hnames (.head _)
    have hattributes := defaulted_unless hnames (.tail _ (.head _))
      Dict.eq_empty_of_isEmpty (dict?_dictJson attributes)
    simp [typeName, ofFields?, hparent, htag, hattributes]
  | richCode language children =>
    have hparent := parent_present hnames hpart ["language"] (.tail _ (.head _))
    have hlanguage := required_text hnames (.head _)
    simp [typeName, ofFields?, hparent, hlanguage]
  | link target destination title children =>
    have hparent := parent_present hnames hpart ["destination", "title"]
      (.tail _ (.tail _ (.head _)))
    have hdestination := required_text hnames (.head _)
    have htitle := optional_text hnames (.tail _ (.head _))
    cases target <;>
      simp [typeName, ofFields?, ofFields?.link, hparent, hdestination, htitle]
  | heading level anchor children =>
    have hparent := parent_present hnames hpart ["level", "alternateId"]
      (.tail _ (.tail _ (.head _)))
    have hlevel := required_present hnames (.head _) (nat?_of_lt level.toNat_lt_size)
    have hanchor := optional_text hnames (.tail _ (.head _))
    simp [typeName, ofFields?, hparent, hlevel, hanchor]
  | list style items =>
    have hparent := parent_present hnames hpart ["listType"] (.tail _ (.head _))
    have hstyle := required_present hnames (.head _) style.ofJson?_toJson
    simp [typeName, ofFields?, hparent, hstyle]
  | table header rows =>
    have hheader : ∀ n ∈ header, part n.toJson = some n := fun n hn => hpart n <|
      Nat.lt_trans (depth_lt_of_cell hn) (depth_lt_of_member (mem_present.2 (.head _)))
    have hrows : ∀ row ∈ rows, ∀ n ∈ row, part n.toJson = some n := fun row hrow n hn =>
      hpart n <| Nat.lt_trans (depth_lt_of_cell hn) <|
        Nat.lt_trans (depth_lt_of_item (List.mem_map_of_mem hrow))
          (depth_lt_of_member (mem_present.2 (.tail _ (.head _))))
    have hfirst := required_present hnames (.head _) (rowOfJson?_rowField hheader)
    have hothers := defaulted_present hnames (.tail _ (.head _))
      (list?_map fun row hrow => rowOfJson?_rowField (hrows row hrow)) []
    simp [typeName, ofFields?, fields?_present hnames, hfirst, hothers]
  | collapsible summary children =>
    have hparent := parent_present hnames hpart ["summaryNode"] (.tail _ (.head _))
    have hbelow := hpart summary (depth_lt_of_member (mem_present.2 (.head _)))
    have hsummary := required_present hnames (.head _) hbelow
    simp [typeName, ofFields?, hparent, hsummary]
  | page metadata children =>
    have hparent := parent_present hnames hpart ["metadata"] (.tail _ (.head _))
    have hmetadata := required_present hnames (.head _) metadata.ofJson?_toJson
    simp [typeName, ofFields?, hparent, hmetadata]

theorem readTree_toJson {depth : Nat} {node : Node} (h : node.toJson.depth ≤ depth)
    (byPosition : Bool) : readTree depth byPosition node.toJson = some node := by
  induction depth generalizing node byPosition with
  | zero =>
    rw [toJson_eq_fields, typedJson, Json.depth] at h
    omega
  | succ depth ih =>
    have hname : variant? typeNames byPosition (.string node.typeName) = some node.typeName := by
      simp [variant?, typeName_mem]
    have hfields : (Json.object (present node.fields)).depth ≤ node.toJson.depth := by
      rw [toJson_eq_fields, typedJson, Json.depth, Json.depth, membersDepth]
      omega
    have hread := ofFields?_fields node fun n hn => ih (by omega) true
    have htag := tagged?_present (.string node.typeName) (type_notMem_fields node)
    rw [toJson_eq_fields, typedJson, readTree, htag]
    simp [hname, hread]

theorem toJson_ne_null (node : Node) : node.toJson ≠ .null := by
  rw [toJson_eq_fields]
  nofun

/-- A tree is read from the JSON form it is written in. -/
theorem ofJson?_toJson (node : Node) : ofJson? node.toJson = some node :=
  readTree_toJson (Nat.le_refl _) false

end Node

section Legible

theorem KindRef.legible_toJson (ref : KindRef) : Legible ref.toJson := by
  refine .object ?_
  simp [Legible.string]

mutual

theorem TocEntry.legible_toJson : ∀ entry : TocEntry, Legible entry.toJson
  | .mk title anchor kinds children => by
    have hkinds := legible_map fun ref (_ : ref ∈ kinds) => ref.legible_toJson
    have hchildren : Legible (.array (children.map toJson)) :=
      toJsons_eq_map children ▸ legible_toJsons children
    rw [toJson_eq_fields]
    refine .object (forall_present ?_)
    simp only [fields, List.forall_mem_cons]
    exact ⟨forall_some (.string title), forall_map .string, forall_unless hkinds,
      forall_unless hchildren, List.forall_mem_nil _⟩

theorem TocEntry.legible_toJsons : ∀ entries : List TocEntry, Legible (.array (toJsons entries))
  | [] => .array (List.forall_mem_nil _)
  | entry :: rest => by
    have hrest := legible_toJsons rest
    cases hrest with
    | array hrest => exact .array (List.forall_mem_cons.2 ⟨legible_toJson entry, hrest⟩)

end

theorem PageMetadata.legible_toJson (metadata : PageMetadata) : Legible metadata.toJson := by
  have hentries := TocEntry.legible_toJsons metadata.contents.entries
  have hcontents : Legible metadata.contents.toJson :=
    .object (List.forall_mem_singleton.2 hentries)
  exact .object (List.forall_mem_cons.2 ⟨.string _, List.forall_mem_singleton.2 hcontents⟩)

theorem ListStyle.legible_toJson (style : ListStyle) : Legible style.toJson := by
  cases style with
  | ordered start =>
    exact .object (List.forall_mem_cons.2
      ⟨.string _, List.forall_mem_singleton.2 (.integer start.toNat_lt_size)⟩)
  | unordered => exact .object (List.forall_mem_singleton.2 (.string _))

namespace Node

theorem legible_of_fields {node : Node}
    (h : ∀ field ∈ node.fields, ∀ value ∈ field.2, Legible value) : Legible node.toJson := by
  rw [toJson_eq_fields]
  exact .object (List.forall_mem_cons.2 ⟨.string _, forall_present h⟩)

theorem legible_toJson (node : Node) : Legible node.toJson := by
  have hnodes {nodes : List Node} (ih : ∀ n ∈ nodes, Legible n.toJson) :
      ∀ value ∈ some (Json.array (nodes.map toJson)), Legible value :=
    forall_some (legible_map ih)
  have hrow {row : List Node} (ih : ∀ n ∈ row, Legible n.toJson) : Legible (rowField row) :=
    .object (List.forall_mem_singleton.2 (legible_map ih))
  induction node with
    (refine legible_of_fields ?_
     simp only [fields, childrenField, List.forall_mem_cons])
  | text s => exact ⟨forall_some (.string s), List.forall_mem_nil _⟩
  | rule | notice => exact List.forall_mem_nil _
  | comment s persist =>
    exact ⟨forall_some (.string s), forall_some (.bool persist), List.forall_mem_nil _⟩
  | image src title alt =>
    exact ⟨forall_some (.string src), forall_map .string, forall_map .string, List.forall_mem_nil _⟩
  | code language s => exact ⟨forall_map .string, forall_some (.string s), List.forall_mem_nil _⟩
  | group children ih | quote children ih | emphasis style children ih | codeSpan children ih
  | paragraph children ih => exact ⟨hnodes ih, List.forall_mem_nil _⟩
  | element tag attributes children ih =>
    have hattributes := legible_dict fun e (_ : e ∈ attributes.entries) => Legible.string e.2
    exact ⟨forall_some (.string tag), forall_unless hattributes, hnodes ih, List.forall_mem_nil _⟩
  | richCode language children ih =>
    exact ⟨forall_some (.string language), hnodes ih, List.forall_mem_nil _⟩
  | link target destination title children ih =>
    exact ⟨forall_some (.string destination), forall_map .string, hnodes ih, List.forall_mem_nil _⟩
  | heading level anchor children ih =>
    have hlevel : Legible (.integer level.toNat) :=
      .integer (Nat.lt_trans level.toNat_lt_size (by decide))
    exact ⟨forall_some hlevel, forall_map .string, hnodes ih, List.forall_mem_nil _⟩
  | list style items ih =>
    exact ⟨forall_some style.legible_toJson, hnodes ih, List.forall_mem_nil _⟩
  | table header rows ihheader ihrows =>
    have hrows := legible_map fun row hrow' => hrow (ihrows row hrow')
    exact ⟨forall_some (hrow ihheader), forall_some hrows, List.forall_mem_nil _⟩
  | collapsible summary children ihsummary ih =>
    exact ⟨forall_some ihsummary, hnodes ih, List.forall_mem_nil _⟩
  | page metadata children ih =>
    exact ⟨forall_some metadata.legible_toJson, hnodes ih, List.forall_mem_nil _⟩

end Node
end Legible
end DocTree
