import DocTree.Proofs.Landing
import DocTree.Proofs.PageParts
import DocTree.Proofs.SiteFailure

/-! What a page shows of a name that it lists: all items of the name, each once, kind by kind. -/
namespace DocTree.Site
open Api Signature

/-- The items of a name in groups: one for each kind that the name has, in the order of the kinds,
with the items of the kind in the order of the model. Together they are all its items. -/
structure Grouped (model : Model) (name : String) (groups : List (Kind × List Item)) : Prop where
  kinds : groups.map (·.1) = Kind.all.filter fun kind =>
    model.items.any fun item => item.name == name && item.kind == kind
  items : ∀ group ∈ groups, group.2 = model.items.filter fun item =>
    item.name == name && item.kind == group.1
  once : (groups.flatMap (·.2)).Perm (model.items.filter (·.name == name))
  nonempty : groups ≠ []

/-- An item that is declared somewhere: the links of its paragraph lead to all its declarations,
in their order. -/
structure LinksSources (item : Item) : Prop where
  declared : item.declarations ≠ []
  links : ∃ children, definedIn item = .paragraph children ∧
    children.filter isLink = item.declarations.map fun location =>
      .link .source location.target none [.text location.display]

/-- Nodes that document a name: its heading, and group by group, below a heading of the kind if
there are several groups, the signature of each item that has tokens, its documentation if it has
any, and the paragraph with its sources. -/
def Documents (model : Model) (config : Config) (name : String) (nodes : List Node) : Prop :=
  ∃ groups, Grouped model name groups ∧
    nodes = .heading 3 (some (nameAnchor name)) [.text name] :: groups.flatMap (fun group =>
      (if 1 < groups.length then
        [.heading 4 (some (kindAnchor name group.1)) [.text group.1.label]] else [])
      ++ group.2.flatMap (itemParts (context model config))) ∧
    ∀ group ∈ groups, ∀ item ∈ group.2, LinksSources item

theorem filter_isLink_locationNodes (locations : List Location) :
    (locationNodes locations).filter isLink =
      locations.map fun location =>
        .link .source location.target none [.text location.display] := by
  induction locations with
  | nil => rfl
  | cons location rest ih =>
    rw [locationNodes, List.filter_cons_of_pos rfl, List.map_cons, ← ih]
    cases rest <;> rfl

theorem linksSources_of_declared {item : Item} (h : item.declarations ≠ []) : LinksSources item :=
  ⟨h, _, rfl, filter_isLink_locationNodes item.declarations⟩

section Groups
variable (model : Model) (config : Config) (name : String)

/-- The kinds of a name, each with its items. -/
def groupsOf : List (Kind × List Item) :=
  ((context model config).anchors.kindsOf name).map fun kind =>
    (kind, (model.items.filter (·.name == name)).filter (·.kind == kind))

theorem grouped_groupsOf (h : ¬ Lacking model name) :
    Grouped model name (groupsOf model config name) := by
  have hkinds := context_kindsOf model config name
  obtain ⟨item, hitem, hname⟩ : ∃ item ∈ model.items, item.name = name := by
    simpa using fun hnone => h (.inl hnone)
  refine ⟨?_, ?_, ?_, ?_⟩
  · have hkind : Anchors.kindsAmong (model.items.filter (·.name == name)) = Kind.all.filter
        fun kind => model.items.any fun item => item.name == name && item.kind == kind := by
      simp only [Anchors.kindsAmong, List.any_filter]
    rw [groupsOf, List.map_map, hkinds, hkind]
    exact List.map_id _
  · intro group hgroup
    obtain ⟨kind, -, rfl⟩ := List.mem_map.1 hgroup
    simp only [List.filter_filter]
    refine List.filter_congr fun item _ => Bool.and_comm _ _
  · rw [groupsOf, List.flatMap_map, hkinds]
    exact perm_by_kind (Anchors.nodup_kindsAmong _) fun item hitem =>
      Anchors.mem_kindsAmong.2 ⟨item, hitem, rfl⟩
  · have hmem := mem_context_kindsOf model config hitem
    rw [hname] at hmem
    exact List.ne_nil_of_mem (List.mem_map_of_mem hmem)

theorem exportParts_eq_groups : exportParts (context model config) name =
    .heading 3 (some (nameAnchor name)) [.text name] ::
      (groupsOf model config name).flatMap fun group =>
        (if 1 < (groupsOf model config name).length then
          [.heading 4 (some (kindAnchor name group.1)) [.text group.1.label]] else [])
        ++ group.2.flatMap (itemParts (context model config)) := by
  rw [exportParts, groupsOf, List.flatMap_map, List.length_map]
  congr 1
  refine List.flatMap_congr fun kind _ => ?_
  rw [kindParts, context_named, kindHeading, Anchors.anchor, Anchors.hasSeveralKinds]
  by_cases hseveral : 1 < ((context model config).anchors.kindsOf name).length <;> simp [hseveral]

end Groups

theorem documents_exportParts {model : Model} {config : Config} {name : String}
    (h : ¬ Lacking model name) :
    Documents model config name (exportParts (context model config) name) := by
  refine ⟨groupsOf model config name, grouped_groupsOf model config name h,
    exportParts_eq_groups model config name, fun group hgroup item hitem => ?_⟩
  obtain ⟨kind, -, rfl⟩ := List.mem_map.1 hgroup
  simp only [List.mem_filter, beq_iff_eq] at hitem
  exact linksSources_of_declared fun hnone => h (.inr ⟨item, hitem.1.1, hitem.1.2, hnone⟩)

/-- If a site can be built, each listing of a name on a page is replaced by the same nodes, which
document the name. -/
theorem pages_document {model : Model} {config : Config} {built : Built Node}
    (h : buildPages model config = .ok built) :
    ∃ shown : String → List Node,
      (∀ page ∈ config.pages, ∀ name ∈ page.exports, Documents model config name (shown name)) ∧
      List.Forall₂ (fun entry page => page.1 = entry.path ∧ ∃ metadata, page.2 = .page metadata
          (entry.sections.flatMap fun part => sectionHeading part ++ part.exports.flatMap shown))
        config.pages built.pages := by
  refine ⟨exportParts (context model config), fun page hpage name hname => ?_, ?_⟩
  · exact documents_exportParts (not_lacking_of_ok h page hpage name hname)
  · rw [buildPages_ok h, List.forall₂_map_right_iff]
    exact List.forall₂_same.2 fun entry _ => ⟨rfl, _, rfl⟩

theorem pages_document_bar : ∃ built, buildPages barModel barConfig = .ok built ∧
    ∃ shown : String → List Node,
      (∀ page ∈ barConfig.pages, ∀ name ∈ page.exports,
        Documents barModel barConfig name (shown name)) ∧
      List.Forall₂ (fun entry page => page.1 = entry.path ∧ ∃ metadata, page.2 = .page metadata
          (entry.sections.flatMap fun part => sectionHeading part ++ part.exports.flatMap shown))
        barConfig.pages built.pages := by
  obtain ⟨built, hbuilt⟩ : ∃ built, buildPages barModel barConfig = .ok built :=
    exists_ok (by decide +kernel)
  exact ⟨built, hbuilt, pages_document hbuilt⟩

end DocTree.Site
