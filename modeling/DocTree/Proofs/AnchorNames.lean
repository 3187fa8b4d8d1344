import DocTree.Proofs.Landing
import Mathlib.Data.List.Nodup
import Mathlib.Data.List.Pairwise

/-! Which anchors of a page coincide. An anchor keeps only some characters of a name or a title,
in lower case, so different names can have the same one; apart from that, what the page makes is
told apart by the kinds. -/
namespace DocTree

/-- The anchors of the headings in a tree. -/
def Node.anchors (node : Node) : List String := headingAnchors node.nodes

namespace Api

theorem find?_slug_label (kind : Kind) :
    Kind.all.find? (fun other => slug other.label == slug kind.label) = some kind := by
  cases kind <;> decide +kernel

theorem dash_notMem_slug_label (kind : Kind) : '-' ∉ (slug kind.label).toList := by
  cases kind <;> decide +kernel

/-- The anchor of a kind tells the kind and the anchor of the name. -/
theorem kindAnchor_inj {name other : String} {kind otherKind : Kind} :
    kindAnchor name kind = kindAnchor other otherKind ↔
      nameAnchor name = nameAnchor other ∧ kind = otherKind := by
  -- Labels have no dash, so the last dash of an anchor is the one in front of the label.
  have hlast (name : String) (kind : Kind) :
      (kindAnchor name kind).toList.reverse.takeWhile (· != '-') =
        (slug kind.label).toList.reverse := by
    have hlabel : ∀ c ∈ (slug kind.label).toList.reverse, (c != '-') = true := by
      intro c hc
      rw [List.mem_reverse] at hc
      exact bne_iff_ne.2 (ne_of_mem_of_not_mem hc (dash_notMem_slug_label kind))
    have hsplit : (kindAnchor name kind).toList.reverse =
        (slug kind.label).toList.reverse ++ '-' :: (slug name).toList.reverse := by
      simp [kindAnchor]
    rw [hsplit, List.takeWhile_append_of_pos hlabel]
    simp
  constructor
  · intro h
    have hlabel : slug kind.label = slug otherKind.label := by
      have hlabels := hlast other otherKind
      rw [← h, hlast] at hlabels
      exact String.toList_inj.1 (List.reverse_injective hlabels)
    have hkind : kind = otherKind := by
      have hfound := find?_slug_label otherKind
      rw [← hlabel, find?_slug_label] at hfound
      exact Option.some.inj hfound
    rw [hkind, ← String.toList_inj] at h
    simp only [kindAnchor, String.toList_append, List.append_assoc, List.append_cancel_right_eq] at h
    exact ⟨String.toList_inj.1 h, hkind⟩
  · rintro ⟨hname, rfl⟩
    unfold nameAnchor at hname
    rw [kindAnchor, kindAnchor, hname]

theorem Anchors.nodup_kindAnchors {anchors : Anchors} {name : String}
    (h : (anchors.kindsOf name).Nodup) : (anchors.kindAnchors name).Nodup := by
  rw [Anchors.kindAnchors_eq]
  split
  · exact h.map fun _ _ hkinds => (kindAnchor_inj.1 hkinds).2
  · exact List.nodup_nil

theorem Anchors.exists_kind_of_mem {anchors : Anchors} {name anchor : String}
    (h : anchor ∈ anchors.kindAnchors name) : ∃ kind, kindAnchor name kind = anchor := by
  rw [Anchors.kindAnchors_eq] at h
  split at h
  · obtain ⟨kind, -, hkind⟩ := List.mem_map.1 h
    exact ⟨kind, hkind⟩
  · cases h

end Api

namespace Site
open Api Signature

def PageEntry.titles (entry : PageEntry) : List String := entry.sections.filterMap Section.title

/-- The anchors of the titles and of the exports of a page. -/
def PageEntry.listedAnchors (entry : PageEntry) : List String :=
  entry.titles.map sectionAnchor ++ entry.exports.map nameAnchor

section Contents
variable (anchors : Anchors) (entry : PageEntry)

theorem perm_tableOfContents : (tableOfContents anchors entry.sections).anchors.Perm
    (entry.titles.map sectionAnchor
      ++ entry.exports.flatMap fun name => nameAnchor name :: anchors.kindAnchors name) := by
  have htitles : entry.sections.flatMap (·.title.toList.map sectionAnchor) =
      entry.titles.map sectionAnchor := by
    simp [PageEntry.titles, List.filterMap_eq_flatMap_toList, List.map_flatMap]
  have hsections := flatMap_perm_append fun part (_ : part ∈ entry.sections) =>
    List.Perm.refl (sectionAnchors anchors part)
  rw [anchors_tableOfContents, PageEntry.exports, List.flatMap_assoc, ← htitles]
  exact hsections

theorem perm_exports : (entry.exports.flatMap fun name =>
      nameAnchor name :: anchors.kindAnchors name).Perm
    (entry.exports.map nameAnchor ++ entry.exports.flatMap anchors.kindAnchors) := by
  rw [List.map_eq_flatMap]
  exact flatMap_perm_append fun _ _ => .refl _

/-- The anchors of kinds differ as soon as those of their names do. -/
theorem nodup_flatMap_kindAnchors (hkinds : ∀ name, (anchors.kindsOf name).Nodup)
    {exports : List String} (h : (exports.map nameAnchor).Nodup) :
    (exports.flatMap anchors.kindAnchors).Nodup := by
  have hnames : exports.Pairwise fun a b => nameAnchor a ≠ nameAnchor b := List.pairwise_map.1 h
  refine List.nodup_flatMap.2 ⟨fun name _ => Anchors.nodup_kindAnchors (hkinds name), ?_⟩
  refine hnames.imp fun hne anchor ha hb => ?_
  obtain ⟨kind, rfl⟩ := Anchors.exists_kind_of_mem ha
  obtain ⟨other, hother⟩ := Anchors.exists_kind_of_mem hb
  exact hne (kindAnchor_inj.1 hother).1.symm

/-- The anchors in a table of contents differ as soon as those of titles and exports do, and none
of these is the anchor of a kind. -/
theorem nodup_tableOfContents (hkinds : ∀ name, (anchors.kindsOf name).Nodup) :
    (tableOfContents anchors entry.sections).anchors.Nodup ↔ entry.listedAnchors.Nodup ∧
      ∀ name ∈ entry.exports, ∀ anchor ∈ anchors.kindAnchors name,
        anchor ∉ entry.listedAnchors := by
  have hperm := (perm_tableOfContents anchors entry).trans
    ((perm_exports anchors entry).append_left _)
  rw [← List.append_assoc] at hperm
  rw [hperm.nodup_iff, List.nodup_append']
  constructor
  · rintro ⟨hlisted, -, hapart⟩
    refine ⟨hlisted, fun name hname anchor hanchor hsame => ?_⟩
    exact hapart hsame (List.mem_flatMap.2 ⟨name, hname, hanchor⟩)
  · rintro ⟨hlisted, hapart⟩
    have hnames := (List.nodup_append.1 hlisted).2.1
    refine ⟨hlisted, nodup_flatMap_kindAnchors anchors hkinds hnames, fun anchor hsame hkind => ?_⟩
    obtain ⟨name, hname, hanchor⟩ := List.mem_flatMap.1 hkind
    exact hapart name hname anchor hanchor hsame

/-- Where the anchors in a table of contents differ, so do those of items with different names. -/
theorem anchor_ne_anchor (h : (tableOfContents anchors entry.sections).anchors.Nodup)
    {name other : String} (hname : name ∈ entry.exports) (hother : other ∈ entry.exports)
    (hne : name ≠ other) {kind otherKind : Kind} (hkind : kind ∈ anchors.kindsOf name)
    (hotherKind : otherKind ∈ anchors.kindsOf other) :
    anchors.anchor name kind ≠ anchors.anchor other otherKind := by
  have hexports := (List.nodup_append.1 ((perm_tableOfContents anchors entry).nodup_iff.1 h)).2.1
  have : Std.Symm (Function.onFun List.Disjoint fun name =>
      nameAnchor name :: anchors.kindAnchors name) := ⟨fun _ _ => List.disjoint_symm⟩
  have hdisjoint := (List.nodup_flatMap.1 hexports).2.forall hname hother hne
  intro hsame
  have hanchor := anchors.anchor_mem other hotherKind
  rw [← hsame] at hanchor
  exact hdisjoint (anchors.anchor_mem name hkind) hanchor

end Contents

/-- The anchors of the headings in the documentation of the items that are listed. -/
def docAnchors (model : Model) (exports : List String) : List String :=
  (itemsOf model exports).flatMap fun item => item.doc.toList.flatMap Node.anchors

section Parts
variable {ctx : Context}

theorem anchors_build (excerpt : Excerpt) : (build ctx excerpt).1.anchors = [] := by
  refine List.filterMap_eq_nil_iff.2 fun m hm => ?_
  obtain rfl | hpiece := mem_nodes_build hm
  · obtain ⟨code, hcode⟩ | ⟨children, hcode, -⟩ := build_cases ctx excerpt <;>
      simp [hcode, Node.headingAnchor?]
  · cases hpiece <;> rfl

theorem anchors_definedIn (item : Item) : (definedIn item).anchors = [] := by
  have hlocations (locations : List Location) :
      headingAnchors (Node.nodesOf (locationNodes locations)) = [] := by
    induction locations with
    | nil => rfl
    | cons location rest ih =>
      unfold locationNodes
      split
      · rfl
      · exact ih
  exact hlocations item.declarations

/-- Of the parts of an item only the documentation has headings. -/
theorem anchors_itemParts (item : Item) :
    (itemParts ctx item).flatMap Node.anchors = item.doc.toList.flatMap Node.anchors := by
  unfold itemParts
  split <;> simp [anchors_build, anchors_definedIn]

/-- The headings that a page makes hold text alone. -/
theorem anchors_of_mem_pageHeadings {anchors : Anchors} {entry : PageEntry} {n : Node}
    (h : n ∈ pageHeadings anchors entry) : n.anchors = n.headingAnchor?.toList := by
  have hheading (level : UInt8) (anchor : Option String) (text : String) :
      (Node.heading level anchor [.text text]).anchors = anchor.toList := by
    cases anchor <;> rfl
  have hkinds (name : String) (kind : Kind) :
      ∀ n ∈ kindHeading anchors name kind, n.anchors = n.headingAnchor?.toList := by
    unfold kindHeading
    split <;> simp [hheading, Node.headingAnchor?]
  obtain ⟨part, -, hpart⟩ := List.mem_flatMap.1 h
  obtain htitle | hexports := List.mem_append.1 hpart
  · obtain ⟨title, -, rfl⟩ := List.mem_map.1 htitle
    exact hheading 2 _ title
  · obtain ⟨name, -, hname⟩ := List.mem_flatMap.1 hexports
    obtain rfl | hkind := List.mem_cons.1 hname
    · exact hheading 3 _ name
    · obtain ⟨kind, -, hmem⟩ := List.mem_flatMap.1 hkind
      exact hkinds name kind n hmem

/-- The anchors on a page are those in its table of contents and those of the documentation. -/
theorem anchors_pageOf {model : Model} {config : Config} (hctx : ctx = context model config)
    (entry : PageEntry) : (pageOf ctx entry).2.anchors.Perm
      ((tableOfContents ctx.anchors entry.sections).anchors
        ++ docAnchors model entry.exports) := by
  have hpage : (pageOf ctx entry).2.anchors = (pageParts ctx entry).flatMap Node.anchors :=
    calc (pageOf ctx entry).2.anchors
      _ = headingAnchors (Node.nodesOf (pageParts ctx entry)) := rfl
      _ = headingAnchors ((pageParts ctx entry).flatMap Node.nodes) := by
        rw [Node.nodesOf_eq_flatMap]
      _ = (pageParts ctx entry).flatMap Node.anchors := headingAnchors_flatMap _ _
  have hheadings : (pageHeadings ctx.anchors entry).flatMap Node.anchors =
      (tableOfContents ctx.anchors entry.sections).anchors := by
    rw [← headingAnchors_pageHeadings, headingAnchors, List.filterMap_eq_flatMap_toList]
    exact List.flatMap_congr fun n hn => anchors_of_mem_pageHeadings hn
  have hdocs : ((itemsOf model entry.exports).flatMap (itemParts ctx)).flatMap Node.anchors =
      docAnchors model entry.exports := by
    rw [List.flatMap_assoc]
    exact List.flatMap_congr fun item _ => anchors_itemParts item
  rw [hpage, ← hheadings, ← hdocs, ← List.flatMap_append]
  exact (pageParts_perm hctx entry).flatMap_right _

end Parts

/-- What keeps the anchors on a page apart: titles and exports have anchors of their own, none of
which is the anchor of a kind, and so do the headings in the documentation. -/
structure AnchorsApart (model : Model) (config : Config) (entry : PageEntry) : Prop where
  listed : entry.listedAnchors.Nodup
  kinds : ∀ name ∈ entry.exports, ∀ anchor ∈ (context model config).anchors.kindAnchors name,
    anchor ∉ entry.listedAnchors
  docs : (docAnchors model entry.exports).Nodup
  docsApart : ∀ anchor ∈ docAnchors model entry.exports,
    anchor ∉ (tableOfContents (context model config).anchors entry.sections).anchors

/-- The anchors on a page differ just if the page keeps them apart, and then the anchors of items
with different names that it lists differ. -/
theorem nodup_anchors {model : Model} {config : Config} {built : Built Node}
    (h : buildPages model config = .ok built) :
    List.Forall₂ (fun entry page => page.1 = entry.path ∧
      (page.2.anchors.Nodup ↔ AnchorsApart model config entry) ∧
      (page.2.anchors.Nodup → ∀ item ∈ model.items, ∀ other ∈ model.items,
        item.name ∈ entry.exports → other.name ∈ entry.exports → item.name ≠ other.name →
          (context model config).anchors.anchor item.name item.kind ≠
            (context model config).anchors.anchor other.name other.kind))
      config.pages built.pages := by
  rw [buildPages_ok h, List.forall₂_map_right_iff]
  refine List.forall₂_same.2 fun entry _ => ⟨rfl, ?_, ?_⟩
  · have hkinds (name : String) : ((context model config).anchors.kindsOf name).Nodup := by
      rw [context_kindsOf]
      exact Anchors.nodup_kindsAmong _
    have hcontents := nodup_tableOfContents (context model config).anchors entry hkinds
    rw [(anchors_pageOf rfl entry).nodup_iff, List.nodup_append', hcontents]
    constructor
    · rintro ⟨⟨hlisted, hkinds⟩, hdocs, hapart⟩
      exact ⟨hlisted, hkinds, hdocs, fun anchor hdoc hown => hapart hown hdoc⟩
    · rintro ⟨hlisted, hkinds, hdocs, hapart⟩
      exact ⟨⟨hlisted, hkinds⟩, hdocs, fun anchor hown hdoc => hapart anchor hdoc hown⟩
  · intro hdistinct item hitem other hother hlisted hotherListed hne
    have hcontents := (List.nodup_append.1 ((anchors_pageOf rfl entry).nodup_iff.1 hdistinct)).1
    exact anchor_ne_anchor _ entry hcontents hlisted hotherListed hne
      (mem_context_kindsOf model config hitem) (mem_context_kindsOf model config hother)

theorem nodup_anchors_bar : ∃ built, buildPages barModel barConfig = .ok built ∧
    (∀ entry ∈ barConfig.pages, AnchorsApart barModel barConfig entry) ∧
    ∀ page ∈ built.pages, page.2.anchors.Nodup := by
  obtain ⟨built, hbuilt⟩ : ∃ built, buildPages barModel barConfig = .ok built :=
    exists_ok (by decide +kernel)
  have hlisted : ∀ entry ∈ barConfig.pages, entry.listedAnchors.Nodup := by decide +kernel
  have hkinds : ∀ entry ∈ barConfig.pages, ∀ name ∈ entry.exports,
      ∀ anchor ∈ (context barModel barConfig).anchors.kindAnchors name,
        anchor ∉ entry.listedAnchors := by decide +kernel
  have hdocs : ∀ entry ∈ barConfig.pages, docAnchors barModel entry.exports = [] := by
    decide +kernel
  have hapart (entry : PageEntry) (hentry : entry ∈ barConfig.pages) :
      AnchorsApart barModel barConfig entry :=
    ⟨hlisted entry hentry, hkinds entry hentry, by simp [hdocs entry hentry],
      by simp [hdocs entry hentry]⟩
  have hpages := (List.forall₂_and_left _ _).2 ⟨hapart, nodup_anchors hbuilt⟩
  have hdistinct : List.Forall₂ (fun page _ => page.2.anchors.Nodup ∧ True)
      built.pages barConfig.pages :=
    hpages.flip.imp fun page entry h => ⟨h.2.2.1.2 h.1, trivial⟩
  exact ⟨built, hbuilt, hapart, ((List.forall₂_and_left _ _).1 hdistinct).1⟩

/-- Two names that differ in case alone. -/
def fooModel : Model where
  package := "pkg"
  items :=
    [⟨"Foo", .classDecl, "pkg!Foo:class", none, [⟨"src/foo.ts", 1⟩], ⟨[]⟩, none⟩,
    ⟨"foo", .functionDecl, "pkg!foo:function", none, [⟨"src/foo.ts", 9⟩], ⟨[]⟩, none⟩]
  localDeclarations := ∅

def fooConfig : Config :=
  { Config.empty with pages := [⟨"foo.md", "Foo", [⟨none, ["Foo", "foo"]⟩]⟩] }

theorem not_nodup_anchors_foo : ∃ built, buildPages fooModel fooConfig = .ok built ∧
    (∀ entry ∈ fooConfig.pages, entry.exports.Nodup ∧ entry.titles = []) ∧
    ∃ page ∈ built.pages, ¬ page.2.anchors.Nodup := by
  obtain ⟨built, hbuilt⟩ : ∃ built, buildPages fooModel fooConfig = .ok built :=
    exists_ok (by decide +kernel)
  have hsame : ∀ entry ∈ fooConfig.pages,
      ¬ (pageOf (context fooModel fooConfig) entry).2.anchors.Nodup := by decide +kernel
  refine ⟨built, hbuilt, by decide, _, ?_, hsame _ List.mem_cons_self⟩
  rw [buildPages_ok hbuilt]
  exact List.mem_map_of_mem List.mem_cons_self

end Site
end DocTree
