import DocTree.Proofs.PageParts

/-! Where the links of a site land. The anchors in the table of contents of a page are those of
the headings that the page makes for what it lists, and a link in a signature leads to one of
them. -/
namespace DocTree

/-- The anchor of a heading. -/
def Node.headingAnchor? : Node → Option String
  | heading _ anchor _ => anchor
  | _ => none

/-- The anchors of the headings among some nodes. -/
def headingAnchors (nodes : List Node) : List String := nodes.filterMap Node.headingAnchor?

theorem headingAnchors_append (before after : List Node) :
    headingAnchors (before ++ after) = headingAnchors before ++ headingAnchors after :=
  List.filterMap_append

theorem headingAnchors_flatMap {α : Type} (as : List α) (parts : α → List Node) :
    headingAnchors (as.flatMap parts) = as.flatMap fun a => headingAnchors (parts a) := by
  rw [headingAnchors, List.filterMap_flatMap]
  rfl

mutual

/-- The anchors that an entry leads to: its own, those of its kinds, and those of the entries
below it. -/
def TocEntry.anchors : TocEntry → List String
  | .mk _ anchor kinds children =>
    anchor.toList ++ kinds.map KindRef.anchor ++ TocEntry.anchorsOf children

def TocEntry.anchorsOf : List TocEntry → List String
  | [] => []
  | entry :: rest => entry.anchors ++ TocEntry.anchorsOf rest

end

def TableOfContents.anchors (contents : TableOfContents) : List String :=
  TocEntry.anchorsOf contents.entries

theorem TocEntry.anchorsOf_eq (entries : List TocEntry) :
    anchorsOf entries = entries.flatMap anchors := by
  induction entries with
  | nil => rfl
  | cons entry rest ih => rw [anchorsOf, ih, List.flatMap_cons]

namespace Api.Anchors
variable (anchors : Anchors) (name : String)

/-- The anchors of the kinds of a name that has several. -/
def kindAnchors : List String := (anchors.kindRefs name).map KindRef.anchor

theorem kindAnchors_eq : anchors.kindAnchors name =
    if anchors.hasSeveralKinds name then (anchors.kindsOf name).map (kindAnchor name) else [] := by
  unfold kindAnchors kindRefs
  split <;> simp [Function.comp_def]

theorem anchor_mem {kind : Kind} (h : kind ∈ anchors.kindsOf name) :
    anchors.anchor name kind ∈ nameAnchor name :: anchors.kindAnchors name := by
  rw [kindAnchors_eq, anchor]
  by_cases hseveral : anchors.hasSeveralKinds name
  · simp only [hseveral, if_true]
    exact List.mem_cons_of_mem _ (List.mem_map_of_mem h)
  · simp [hseveral]

end Api.Anchors

namespace Site
open Api Signature

/-- The anchors of a section: that of its title, and those of its exports and their kinds. -/
def sectionAnchors (anchors : Anchors) (part : Section) : List String :=
  part.title.toList.map sectionAnchor
    ++ part.exports.flatMap fun name => nameAnchor name :: anchors.kindAnchors name

theorem anchors_tableOfContents (anchors : Anchors) (sections : List Section) :
    (tableOfContents anchors sections).anchors = sections.flatMap (sectionAnchors anchors) := by
  have hexport (name : String) : (exportEntry anchors name).anchors =
      nameAnchor name :: anchors.kindAnchors name := by
    simp [exportEntry, TocEntry.anchors, TocEntry.anchorsOf, Anchors.kindAnchors]
  have hsection (part : Section) :
      (sectionEntries anchors part).flatMap TocEntry.anchors = sectionAnchors anchors part := by
    unfold sectionEntries sectionAnchors
    cases part.title <;>
      simp [TocEntry.anchors, TocEntry.anchorsOf_eq, List.flatMap_map, hexport]
  simp [TableOfContents.anchors, TocEntry.anchorsOf_eq, tableOfContents, List.flatMap_assoc,
    hsection]

section Headings
variable (anchors : Anchors)

theorem headingAnchors_exportHeadings (name : String) :
    headingAnchors (exportHeadings anchors name) =
      nameAnchor name :: anchors.kindAnchors name := by
  have hkinds : headingAnchors ((anchors.kindsOf name).flatMap (kindHeading anchors name)) =
      anchors.kindAnchors name := by
    rw [headingAnchors_flatMap, Anchors.kindAnchors_eq]
    by_cases hseveral : anchors.hasSeveralKinds name
    · simp [headingAnchors, kindHeading, Anchors.anchor, hseveral, Node.headingAnchor?,
        List.map_eq_flatMap]
    · simp [headingAnchors, kindHeading, hseveral]
  rw [← hkinds, exportHeadings]
  rfl

theorem headingAnchors_sectionHeadings (part : Section) :
    headingAnchors (sectionHeadings anchors part) = sectionAnchors anchors part := by
  have htitle : headingAnchors (sectionHeading part) = part.title.toList.map sectionAnchor := by
    unfold sectionHeading
    cases part.title <;> rfl
  rw [sectionHeadings, headingAnchors_append, headingAnchors_flatMap, htitle, sectionAnchors]
  simp only [headingAnchors_exportHeadings]

/-- The table of contents of a page leads to the headings that the page makes, in their order. -/
theorem headingAnchors_pageHeadings (entry : PageEntry) :
    headingAnchors (pageHeadings anchors entry) =
      (tableOfContents anchors entry.sections).anchors := by
  rw [anchors_tableOfContents, pageHeadings, headingAnchors_flatMap]
  simp only [headingAnchors_sectionHeadings]

end Headings

section Landing
variable {model : Model} {config : Config} {entry : PageEntry}

/-- Whatever the table of contents leads to is a heading of the page. -/
theorem subset_headingAnchors (entry : PageEntry) :
    (tableOfContents (context model config).anchors entry.sections).anchors ⊆
      headingAnchors (pageParts (context model config) entry) := by
  have hparts : (headingAnchors (pageParts (context model config) entry)).Perm
      (headingAnchors (pageHeadings (context model config).anchors entry
        ++ (itemsOf model entry.exports).flatMap (itemParts (context model config)))) :=
    (pageParts_perm rfl entry).filterMap _
  rw [headingAnchors_append, headingAnchors_pageHeadings] at hparts
  exact fun _ hanchor => hparts.mem_iff.2 (List.mem_append_left _ hanchor)

/-- A page that lists an item's name leads to the item from its table of contents. -/
theorem anchor_mem_tableOfContents (config : Config) {item : Item} (hitem : item ∈ model.items)
    (hlisted : item.name ∈ entry.exports) :
    (context model config).anchors.anchor item.name item.kind ∈
      (tableOfContents (context model config).anchors entry.sections).anchors := by
  obtain ⟨part, hpart, hname⟩ := List.mem_flatMap.1 hlisted
  have hanchor := Anchors.anchor_mem _ _ (mem_context_kindsOf model config hitem)
  rw [anchors_tableOfContents]
  exact List.mem_flatMap.2 ⟨part, hpart,
    List.mem_append_right _ (List.mem_flatMap.2 ⟨item.name, hname, hanchor⟩)⟩

/-- Every link to a page from a signature leads to a heading of a page that is built, and so does
every entry of a table of contents on its own page. -/
theorem links_land {built : Built Node} (h : buildPages model config = .ok built) :
    (∀ excerpt destination title children,
      Node.link .page destination title children ∈
          (build (context model config) excerpt).1.nodes →
        ∃ path metadata parts anchor, (path, Node.page metadata parts) ∈ built.pages ∧
          anchor ∈ headingAnchors parts ∧ destination = path ++ "#" ++ anchor) ∧
    ∀ page ∈ built.pages, ∃ metadata parts, page.2 = .page metadata parts ∧
      ∀ anchor ∈ metadata.contents.anchors, anchor ∈ headingAnchors parts := by
  have hpages := buildPages_ok h
  constructor
  · intro excerpt destination title children hlink
    cases piece_of_link_mem hlink with
    | link hitem hpage =>
      next token item path =>
      have hfound : config.routes.get? item.name = some path := hpage
      rw [Config.get?_routes, Option.map_eq_some_iff] at hfound
      obtain ⟨entry, hfirst, rfl⟩ := hfound
      have hentry := List.mem_of_find?_eq_some hfirst
      have hlisted : item.name ∈ entry.exports := by simpa using List.find?_some hfirst
      have hshown : pageOf (context model config) entry ∈ built.pages :=
        hpages ▸ List.mem_map_of_mem hentry
      have hanchor := anchor_mem_tableOfContents config (Scope.mem_of_resolve hitem) hlisted
      exact ⟨_, _, _, _, hshown, subset_headingAnchors entry hanchor, rfl⟩
  · intro page hpage
    rw [hpages] at hpage
    obtain ⟨entry, -, rfl⟩ := List.mem_map.1 hpage
    exact ⟨_, _, rfl, fun _ hanchor => subset_headingAnchors entry hanchor⟩

/-- A function and a name of two kinds that the function's signature refers to. -/
def barModel : Model where
  package := "pkg"
  items :=
    [⟨"foo", .functionDecl, "pkg!foo:function", none, [⟨"src/foo.ts", 1⟩],
      ⟨[⟨.content, "function foo(): ", none⟩, ⟨.reference, "Bar", some "pkg!Bar:interface"⟩]⟩, none⟩,
    ⟨"Bar", .interfaceDecl, "pkg!Bar:interface", none, [⟨"src/bar.ts", 2⟩], ⟨[]⟩, none⟩,
    ⟨"Bar", .variableDecl, "pkg!Bar:var", none, [⟨"src/bar.ts", 7⟩], ⟨[]⟩, none⟩]
  localDeclarations := ∅

def barConfig : Config :=
  { Config.empty with
    pages := [⟨"foo.md", "Foo", [⟨none, ["foo"]⟩]⟩, ⟨"bar.md", "Bar", [⟨some "Types", ["Bar"]⟩]⟩] }

theorem links_land_bar : ∃ built, buildPages barModel barConfig = .ok built ∧
    ∃ excerpt ∈ barModel.items.map Item.excerpt,
      Node.link .page "bar.md#bar-interface" none [.text "Bar"] ∈
        (build (context barModel barConfig) excerpt).1.nodes ∧
      (∃ path metadata parts anchor, (path, Node.page metadata parts) ∈ built.pages ∧
        anchor ∈ headingAnchors parts ∧ "bar.md#bar-interface" = path ++ "#" ++ anchor) ∧
      ∀ page ∈ built.pages, ∃ metadata parts, page.2 = .page metadata parts ∧
        ∀ anchor ∈ metadata.contents.anchors, anchor ∈ headingAnchors parts := by
  have hbuilds : (buildPages barModel barConfig).toOption.isSome := by decide +kernel
  obtain ⟨built, hbuilt⟩ := exists_ok hbuilds
  have hbar : (context barModel barConfig).meaning maxLevels
      ⟨.reference, "Bar", some "pkg!Bar:interface"⟩ = .link "bar.md#bar-interface" := by rfl
  have htext : (context barModel barConfig).meaning maxLevels
      ⟨.content, "function foo(): ", none⟩ = .text := by rfl
  have hlink : Node.link .page "bar.md#bar-interface" none [.text "Bar"] ∈
      (build (context barModel barConfig) ⟨[⟨.content, "function foo(): ", none⟩,
        ⟨.reference, "Bar", some "pkg!Bar:interface"⟩]⟩).1.nodes := by
    simp [build, readQueue_cons, htext, hbar, readQueue, Reading.addText, Reading.addLink,
      Reading.finish, Node.nodes, Node.nodesOf, Node.pushMerged]
  exact ⟨built, hbuilt, _, List.mem_cons_self, hlink, (links_land hbuilt).1 _ _ _ _ hlink,
    (links_land hbuilt).2⟩

end Landing
end Site
end DocTree
