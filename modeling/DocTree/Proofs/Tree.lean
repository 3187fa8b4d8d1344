import DocTree.Markdown.Page
import DocTree.Proofs.Cuts

/-! Induction over trees and the nodes of a tree. -/
namespace DocTree

/-- A property of every node of which it holds as soon as it holds of the node's parts. -/
@[induction_eliminator]
theorem Node.induction {motive : Node → Prop}
    (text : ∀ s, motive (.text s)) (rule : motive .rule)
    (comment : ∀ s persist, motive (.comment s persist))
    (image : ∀ src title alt, motive (.image src title alt))
    (code : ∀ language s, motive (.code language s)) (notice : motive .notice)
    (group : ∀ children, (∀ n ∈ children, motive n) → motive (.group children))
    (quote : ∀ children, (∀ n ∈ children, motive n) → motive (.quote children))
    (element : ∀ tag attributes children, (∀ n ∈ children, motive n) →
      motive (.element tag attributes children))
    (emphasis : ∀ style children, (∀ n ∈ children, motive n) → motive (.emphasis style children))
    (codeSpan : ∀ children, (∀ n ∈ children, motive n) → motive (.codeSpan children))
    (richCode : ∀ language children, (∀ n ∈ children, motive n) →
      motive (.richCode language children))
    (link : ∀ target destination title children, (∀ n ∈ children, motive n) →
      motive (.link target destination title children))
    (paragraph : ∀ children, (∀ n ∈ children, motive n) → motive (.paragraph children))
    (heading : ∀ level anchor children, (∀ n ∈ children, motive n) →
      motive (.heading level anchor children))
    (list : ∀ style items, (∀ n ∈ items, motive n) → motive (.list style items))
    (table : ∀ header rows, (∀ n ∈ header, motive n) → (∀ row ∈ rows, ∀ n ∈ row, motive n) →
      motive (.table header rows))
    (collapsible : ∀ summary children, motive summary → (∀ n ∈ children, motive n) →
      motive (.collapsible summary children))
    (page : ∀ metadata children, (∀ n ∈ children, motive n) → motive (.page metadata children))
    (node : Node) : motive node :=
  @Node.rec motive (fun nodes => ∀ n ∈ nodes, motive n)
    (fun rows => ∀ row ∈ rows, ∀ n ∈ row, motive n)
    text rule comment image code notice group quote element emphasis codeSpan richCode link
    paragraph heading list table collapsible page
    (by simp) (fun _ _ hnode hrest => List.forall_mem_cons.2 ⟨hnode, hrest⟩)
    (by simp) (fun _ _ hrow hrest => List.forall_mem_cons.2 ⟨hrow, hrest⟩) node

namespace Node

mutual

/-- The nodes of a tree, each before its parts, the cells of tables and the summaries of
collapsible sections among them. -/
def nodes : Node → List Node
  | text s => [text s]
  | rule => [rule]
  | comment s persist => [comment s persist]
  | image src title alt => [image src title alt]
  | code language s => [code language s]
  | notice => [notice]
  | group children => group children :: nodesOf children
  | quote children => quote children :: nodesOf children
  | element tag attributes children => element tag attributes children :: nodesOf children
  | emphasis style children => emphasis style children :: nodesOf children
  | codeSpan children => codeSpan children :: nodesOf children
  | richCode language children => richCode language children :: nodesOf children
  | link target destination title children =>
    link target destination title children :: nodesOf children
  | paragraph children => paragraph children :: nodesOf children
  | heading level anchor children => heading level anchor children :: nodesOf children
  | list style items => list style items :: nodesOf items
  | table header rows => table header rows :: (nodesOf header ++ nodesOfRows rows)
  | collapsible summary children =>
    collapsible summary children :: (summary.nodes ++ nodesOf children)
  | page metadata children => page metadata children :: nodesOf children

def nodesOf : List Node → List Node
  | [] => []
  | node :: rest => node.nodes ++ nodesOf rest

def nodesOfRows : List (List Node) → List Node
  | [] => []
  | row :: rest => nodesOf row ++ nodesOfRows rest

end

theorem mem_nodes_self (node : Node) : node ∈ node.nodes := by
  cases node <;> exact List.mem_cons_self

theorem nodesOf_eq_flatMap (children : List Node) : nodesOf children = children.flatMap nodes := by
  induction children with
  | nil => rfl
  | cons node rest ih => rw [nodesOf, ih, List.flatMap_cons]

@[simp] theorem forall_mem_nodesOf {p : Node → Prop} {children : List Node} :
    (∀ m ∈ nodesOf children, p m) ↔ ∀ n ∈ children, ∀ m ∈ n.nodes, p m := by
  induction children with
  | nil => simp [nodesOf]
  | cons node rest ih => simp only [nodesOf, List.forall_mem_append, ih, List.forall_mem_cons]

theorem mem_nodesOf {m : Node} {children : List Node} :
    m ∈ nodesOf children ↔ ∃ n ∈ children, m ∈ n.nodes := by
  induction children with
  | nil => simp [nodesOf]
  | cons node rest ih => simp only [nodesOf, List.mem_append, ih, List.mem_cons, exists_eq_or_imp]

theorem mem_nodesOfRows {m : Node} {rows : List (List Node)} :
    m ∈ nodesOfRows rows ↔ ∃ row ∈ rows, m ∈ nodesOf row := by
  induction rows with
  | nil => simp [nodesOfRows]
  | cons row rest ih =>
    simp only [nodesOfRows, List.mem_append, ih, List.mem_cons, exists_eq_or_imp]

@[simp] theorem forall_mem_nodesOfRows {p : Node → Prop} {rows : List (List Node)} :
    (∀ m ∈ nodesOfRows rows, p m) ↔ ∀ row ∈ rows, ∀ n ∈ row, ∀ m ∈ n.nodes, p m := by
  induction rows with
  | nil => simp [nodesOfRows]
  | cons row rest ih =>
    simp only [nodesOfRows, List.forall_mem_append, forall_mem_nodesOf, ih, List.forall_mem_cons]

def isPage : Node → Bool
  | page _ _ => true
  | _ => false

/-- A node of the kinds that tables of contents are made of. -/
def isPlain : Node → Bool
  | text _ | link _ _ _ _ | group _ | list _ _ => true
  | _ => false

theorem not_isPage_of_isPlain {node : Node} (h : node.isPlain) : ¬ node.isPage := by
  cases node <;> first | exact Bool.false_ne_true | cases h

end Node

namespace TocEntry

mutual

def strings : TocEntry → List String
  | mk title anchor kinds children =>
    title :: anchor.toList ++ kinds.flatMap (fun ref => [ref.label, ref.anchor])
      ++ stringsOf children

def stringsOf : List TocEntry → List String
  | [] => []
  | entry :: rest => entry.strings ++ stringsOf rest

end

end TocEntry

section Contents

/-- Of whatever a table of contents is made the property `P` holds, if `T` holds of its texts. -/
structure Composes (T : String → Prop) (P : Node → Prop) : Prop where
  marks : T " (" ∧ T ", " ∧ T ")"
  text : ∀ s, T s → P (.text s)
  link : ∀ anchor s, T anchor → T s → P (.link .page ("#" ++ anchor) none [.text s])
  group : ∀ children, P (.group children)
  list : ∀ style items, P (.list style items)

variable {T : String → Prop} {P : Node → Prop}

theorem Composes.of_text (h : Composes T P) {s : String} (hs : T s) :
    ∀ m ∈ (Node.text s).nodes, P m :=
  List.forall_mem_singleton.2 (h.text s hs)

theorem Composes.of_link (h : Composes T P) {anchor s : String} (ha : T anchor) (hs : T s) :
    ∀ m ∈ (Node.link .page ("#" ++ anchor) none [.text s]).nodes, P m := by
  refine List.forall_mem_cons.2 ⟨h.link anchor s ha hs, ?_⟩
  exact Node.forall_mem_nodesOf.2 (List.forall_mem_singleton.2 (h.of_text hs))

theorem Composes.of_title (h : Composes T P) {title : String} (ht : T title)
    {anchor : Option String} (ha : ∀ id ∈ anchor, T id) : ∀ m ∈ (TocEntry.titleNode title anchor).nodes, P m := by
  unfold TocEntry.titleNode
  split
  · next id =>
    split
    · exact h.of_link (ha id rfl) ht
    · exact h.of_text ht
  · exact h.of_text ht

theorem Composes.of_kinds (h : Composes T P) {kinds : List KindRef}
    (hkinds : ∀ ref ∈ kinds, T ref.label ∧ T ref.anchor) :
    ∀ n ∈ TocEntry.kindNodes kinds, ∀ m ∈ n.nodes, P m := by
  obtain ⟨hopen, hcomma, hclose⟩ := h.marks
  have hrefs : ∀ n ∈ KindRef.toNodes kinds, ∀ m ∈ n.nodes, P m := by
    fun_induction KindRef.toNodes kinds with
    | case1 => exact List.forall_mem_nil _
    | case2 ref =>
      obtain ⟨hlabel, hanchor⟩ := hkinds ref List.mem_cons_self
      exact List.forall_mem_singleton.2 (h.of_link hanchor hlabel)
    | case3 ref rest _ ih =>
      obtain ⟨⟨hlabel, hanchor⟩, hrest⟩ := List.forall_mem_cons.1 hkinds
      exact List.forall_mem_cons.2
        ⟨h.of_link hanchor hlabel, List.forall_mem_cons.2 ⟨h.of_text hcomma, ih hrest⟩⟩
  unfold TocEntry.kindNodes
  split
  · exact List.forall_mem_nil _
  · exact List.forall_mem_cons.2 ⟨h.of_text hopen,
      List.forall_mem_append.2 ⟨hrefs, List.forall_mem_singleton.2 (h.of_text hclose)⟩⟩

theorem Composes.of_grouped (h : Composes T P) {nodes : List Node}
    (hnodes : ∀ n ∈ nodes, ∀ m ∈ n.nodes, P m) :
    ∀ m ∈ (TocEntry.grouped nodes).nodes, P m := by
  unfold TocEntry.grouped
  split
  · exact hnodes _ (List.mem_singleton_self _)
  · exact List.forall_mem_cons.2 ⟨h.group _, Node.forall_mem_nodesOf.2 hnodes⟩

mutual

theorem Composes.of_entry (h : Composes T P) : ∀ entry : TocEntry, (∀ s ∈ entry.strings, T s) →
    ∀ m ∈ entry.toNode.nodes, P m
  | .mk title anchor kinds children, hs => by
    simp only [TocEntry.strings, List.cons_append, List.forall_mem_cons, List.forall_mem_append,
      List.forall_mem_flatMap, Option.mem_toList] at hs
    obtain ⟨htitle, ⟨hanchor, hkinds⟩, hchildren⟩ := hs
    have hrefs : ∀ ref ∈ kinds, T ref.label ∧ T ref.anchor := fun ref href =>
      (hkinds ref href).imp_right And.left
    have hlist : ∀ n ∈ (if children.isEmpty then [] else
        [Node.list (.ordered 1) (TocEntry.toNodes children)]), ∀ m ∈ n.nodes, P m := by
      split
      · exact List.forall_mem_nil _
      · exact List.forall_mem_singleton.2 <| List.forall_mem_cons.2
          ⟨h.list _ _, Node.forall_mem_nodesOf.2 (h.of_entries children hchildren)⟩
    exact h.of_grouped <| List.forall_mem_append.2
      ⟨List.forall_mem_cons.2 ⟨h.of_title htitle hanchor, h.of_kinds hrefs⟩, hlist⟩

theorem Composes.of_entries (h : Composes T P) : ∀ entries : List TocEntry,
    (∀ s ∈ TocEntry.stringsOf entries, T s) → ∀ n ∈ TocEntry.toNodes entries, ∀ m ∈ n.nodes, P m
  | [], _ => List.forall_mem_nil _
  | entry :: rest, hs => by
    obtain ⟨hentry, hrest⟩ := List.forall_mem_append.1 hs
    exact List.forall_mem_cons.2
      ⟨h.of_entry entry hentry, h.of_entries rest hrest⟩

end

theorem Composes.of_contents (h : Composes T P) (contents : TableOfContents)
    (hs : ∀ s ∈ TocEntry.stringsOf contents.entries, T s) : ∀ m ∈ contents.toNode.nodes, P m :=
  List.forall_mem_cons.2 ⟨h.list _ _, Node.forall_mem_nodesOf.2 (h.of_entries _ hs)⟩

end Contents

theorem plain_contents (contents : TableOfContents) :
    ∀ m ∈ contents.toNode.nodes, m.isPlain := by
  have hplain : Composes (fun _ => True) fun m => m.isPlain :=
    ⟨⟨trivial, trivial, trivial⟩, fun _ _ => rfl, fun _ _ _ _ => rfl, fun _ => rfl, fun _ _ => rfl⟩
  exact hplain.of_contents contents fun _ _ => trivial

theorem columnCount_map {α β : Type} (f : α → β) (header : List α) (rows : List (List α)) :
    columnCount (header.map f) (rows.map (·.map f)) = columnCount header rows := by
  simp [columnCount, List.foldl_map]

/-- No row of a table has more cells than the table has columns. -/
theorem length_le_columnCount {α : Type} (header : List α) (rows : List (List α)) :
    header.length ≤ columnCount header rows ∧
      ∀ row ∈ rows, row.length ≤ columnCount header rows := by
  unfold columnCount
  generalize header.length = n
  induction rows generalizing n with
  | nil => simp
  | cons row rest ih =>
    obtain ⟨hstart, hrest⟩ := ih (max n row.length)
    rw [List.foldl_cons, List.forall_mem_cons]
    exact ⟨by omega, by omega, hrest⟩

/-- A table has as many columns as its longest row has cells. -/
theorem exists_length_eq_columnCount {α : Type} (header : List α) (rows : List (List α)) :
    ∃ row ∈ header :: rows, row.length = columnCount header rows := by
  unfold columnCount
  induction rows generalizing header with
  | nil => exact ⟨header, List.mem_cons_self, rfl⟩
  | cons first rest ih =>
    rw [List.foldl_cons]
    by_cases hle : header.length ≤ first.length
    · obtain ⟨row, hrow, hlength⟩ := ih first
      rw [Nat.max_eq_right hle]
      exact ⟨row, List.mem_cons_of_mem _ hrow, hlength⟩
    · obtain ⟨row, hrow, hlength⟩ := ih header
      rw [Nat.max_eq_left (Nat.le_of_not_le hle)]
      refine ⟨row, ?_, hlength⟩
      rcases List.mem_cons.1 hrow with rfl | hrow
      · exact List.mem_cons_self
      · exact List.mem_cons_of_mem _ (List.mem_cons_of_mem _ hrow)

namespace Site
open Text

/-- A fragment alone is the same address on every page. -/
theorem relativePath_fragment (page fragment : String) :
    relativePath page ("#" ++ fragment) = "#" ++ fragment := by
  have hcut : cutAt? '#' ("#" ++ fragment) = some ("", fragment) := cutAt?_eq_some.2 (by simp)
  rw [relativePath, splitFragment, hcut]
  rfl

end Site

namespace Markdown
variable (o o' : Options) (head head' : PageMetadata → Render Unit)

theorem renderParts_eq_map (nodes : List Node) :
    renderParts o head nodes = nodes.map (renderNode o head) := by
  induction nodes with
  | nil => rfl
  | cons node rest ih => simp [renderParts, ih]

theorem renderRows_eq_map (rows : List (List Node)) :
    renderRows o head rows = rows.map fun row => row.map (renderNode o head) := by
  induction rows with
  | nil => rfl
  | cons row rest ih => simp [renderRows, renderParts_eq_map, ih]

/-- What a node takes from the options and from what a page begins with, its parts aside. -/
def ReadsAlike : Node → Prop
  | .comment _ persist => persist ∨ o.stripComments = o'.stripComments
  | .link target destination _ _ => o.address target destination = o'.address target destination
  | .page metadata _ => head metadata = head' metadata
  | _ => True

variable {o o' head head'}

/-- A tree is rendered in the same way if all of its nodes take the same from both sides. -/
theorem renderNode_congr {node : Node} (h : ∀ m ∈ node.nodes, ReadsAlike o o' head head' m) :
    renderNode o head node = renderNode o' head' node := by
  have hnodes {children : List Node}
      (ih : ∀ n ∈ children, (∀ m ∈ n.nodes, ReadsAlike o o' head head' m) →
        renderNode o head n = renderNode o' head' n)
      (hchildren : ∀ n ∈ children, ∀ m ∈ n.nodes, ReadsAlike o o' head head' m)
      (afterList : Bool) :
      renderNodes o head afterList children = renderNodes o' head' afterList children := by
    induction children generalizing afterList with
    | nil => rfl
    | cons child rest ihrest =>
      obtain ⟨hchild, hrest⟩ := List.forall_mem_cons.1 hchildren
      obtain ⟨ihchild, ihs⟩ := List.forall_mem_cons.1 ih
      rw [renderNodes, renderNodes, ihchild hchild, ihrest ihs hrest]
  have hmap {items : List Node}
      (ih : ∀ n ∈ items, (∀ m ∈ n.nodes, ReadsAlike o o' head head' m) →
        renderNode o head n = renderNode o' head' n)
      (hitems : ∀ n ∈ items, ∀ m ∈ n.nodes, ReadsAlike o o' head head' m) :
      items.map (renderNode o head) = items.map (renderNode o' head') :=
    List.map_congr_left fun n hn => ih n hn (hitems n hn)
  induction node with
    simp only [Node.nodes, List.forall_mem_cons, List.forall_mem_append, Node.forall_mem_nodesOf,
      Node.forall_mem_nodesOfRows] at h
  | text | rule | image | code | notice | codeSpan => simp only [renderNode]
  | comment s persist =>
    obtain hpersist | hstrip := h.1
    · simp only [renderNode, hpersist, Bool.not_true, Bool.false_and]
    · simp only [renderNode, hstrip]
  | group children ih | quote children ih | element tag attributes children ih
  | emphasis style children ih | richCode language children ih | paragraph children ih
  | heading level anchor children ih => simp only [renderNode, hnodes ih h.2]
  | link target destination title children ih =>
    have haddress : o.address target destination = o'.address target destination := h.1
    simp only [renderNode, haddress, hnodes ih h.2]
  | list style items ih => simp only [renderNode, renderParts_eq_map, hmap ih h.2]
  | table header rows ihheader ihrows =>
    have hrows : (rows.map fun row => row.map (renderNode o head)) =
        rows.map fun row => row.map (renderNode o' head') :=
      List.map_congr_left fun row hrow => hmap (ihrows row hrow) (h.2.2 row hrow)
    simp only [renderNode, renderParts_eq_map, renderRows_eq_map, hmap ihheader h.2.1, hrows]
  | collapsible summary children ihsummary ih =>
    simp only [renderNode, ihsummary h.2.1, hnodes ih h.2.2]
  | page metadata children ih =>
    have hhead : head metadata = head' metadata := h.1
    simp only [renderNode, hhead, hnodes ih h.2]

/-- A table of contents takes nothing from the options. -/
theorem readsAlike_contents (contents : TableOfContents) :
    ∀ m ∈ contents.toNode.nodes, ReadsAlike o o' head head' m := by
  have hlink (fragment : String) :
      o.address .page ("#" ++ fragment) = o'.address .page ("#" ++ fragment) := by
    simp only [Options.address, Site.relativePath_fragment]
  have hcomposes : Composes (fun _ => True) (ReadsAlike o o' head head') :=
    ⟨⟨trivial, trivial, trivial⟩, fun _ _ => trivial, fun anchor _ _ _ => hlink anchor,
      fun _ => trivial, fun _ _ => trivial⟩
  exact hcomposes.of_contents contents fun _ _ => trivial

theorem pageHead_alike (o o' : Options) : pageHead o = pageHead o' := by
  funext metadata
  have hcontents : renderPlain o metadata.contents.toNode =
      renderPlain o' metadata.contents.toNode :=
    renderNode_congr (readsAlike_contents metadata.contents)
  rw [pageHead, pageHead, hcontents]

end Markdown
end DocTree
