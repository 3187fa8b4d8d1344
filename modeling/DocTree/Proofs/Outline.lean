import DocTree.Proofs.NormalForm

/-! The normal form of a tree, node by node. A group is left only where it says something: around
several items of a list or nodes of a cell, as a summary or as the tree itself. All other nodes but
texts stand in the order in which they stood, and no item, row or cell is lost. -/
namespace DocTree.Node

/-- A group around a single node. -/
def isWrapper : Node → Bool
  | group [_] => true
  | _ => false

/-- The cells of a table, those of the header first. -/
def cells : Node → List Node
  | table header rows => header ++ rows.flatten
  | _ => []

/-- What is asked of each node of a normal form. -/
structure Tidy (node : Node) : Prop where
  children : ¬ node.isList → ∀ children ∈ node.children?,
    (∀ n ∈ children, ¬ n.isGroup) ∧ children.IsChain Apart
  items : node.isList → ∀ items ∈ node.children?, ∀ item ∈ items, ¬ item.isWrapper
  cells : ∀ cell ∈ node.cells, ¬ cell.isWrapper

theorem tidy_of_leaf {node : Node} (h : node.children? = none) (hcells : node.cells = []) :
    node.Tidy := by
  constructor <;> simp [h, hcells]

theorem tidy_of_children {node : Node} {children : List Node} (h : node.children? = some children)
    (hlist : node.isList = false) (hcells : node.cells = []) (hgroup : ∀ n ∈ children, ¬ n.isGroup)
    (hchain : children.IsChain Apart) : node.Tidy := by
  constructor
  · intro _ others hothers
    rw [h, Option.mem_some_iff] at hothers
    exact hothers ▸ ⟨hgroup, hchain⟩
  · simp [hlist]
  · simp [hcells]

theorem nodesOf_append (before after : List Node) :
    nodesOf (before ++ after) = nodesOf before ++ nodesOf after := by
  induction before with
  | nil => rfl
  | cons node rest ih => simp [nodesOf, ih]

theorem mem_nodes_of_spliced {node n m : Node} (hn : n ∈ spliced node) (hm : m ∈ n.nodes) :
    m ∈ node.nodes := by
  by_cases hgroup : node.isGroup
  · cases node <;> cases hgroup
    exact List.mem_cons_of_mem _ (mem_nodesOf.2 ⟨n, hn, hm⟩)
  · rw [spliced_eq_self hgroup, List.mem_singleton] at hn
    exact hn ▸ hm

theorem mem_nodes_of_unwrapped {node m : Node} (hm : m ∈ (unwrapped node).nodes) :
    m ∈ node.nodes := by
  unfold unwrapped at hm
  split at hm
  · next only => simp [nodes, nodesOf, hm]
  · exact hm

/-- The group around a single node does not hold another one. -/
theorem not_isWrapper_unwrapped (node : Node) : ¬ (unwrapped node.normal).isWrapper := by
  obtain ⟨-, hunwrapped⟩ := settled_unwrapped (settled_normal node)
  generalize unwrapped node.normal = cell at hunwrapped
  intro hwrapper
  unfold isWrapper at hwrapper
  split at hwrapper
  · next only =>
    have hsize := congrArg sizeOf hunwrapped
    simp only [unwrapped, group.sizeOf_spec, List.cons.sizeOf_spec, List.nil.sizeOf_spec] at hsize
    omega
  · cases hwrapper

theorem not_isGroup_joined (children : List Node) :
    ∀ n ∈ joined (normals children), ¬ n.isGroup := by
  intro n hn
  have hchildren : ∀ n ∈ children, Settled n.normal := fun n _ => settled_normal n
  exact ((settled_joined hchildren).1 n hn).2

section Tidy
variable {children : List Node} (h : ∀ n ∈ children, ∀ m ∈ n.normal.nodes, m.Tidy)
include h

theorem tidy_joined : ∀ n ∈ joined (normals children), ∀ m ∈ n.nodes, m.Tidy := by
  have htext (s : String) : ∀ m ∈ (text s).nodes, m.Tidy :=
    List.forall_mem_singleton.2 (tidy_of_leaf rfl rfl)
  have hmerge (s t : String) : (∀ m ∈ (text (s ++ t)).nodes, m.Tidy) ↔
      (∀ m ∈ (text s).nodes, m.Tidy) ∧ ∀ m ∈ (text t).nodes, m.Tidy :=
    iff_of_true (htext _) ⟨htext s, htext t⟩
  rw [forall_mem_joined hmerge, normals_eq_map, List.forall_mem_map]
  intro n hn part hpart m hm
  exact h n hn m (mem_nodes_of_spliced hpart hm)

theorem tidy_unwrapped : ∀ n ∈ (children.map normal).map unwrapped, ∀ m ∈ n.nodes, m.Tidy := by
  rw [List.map_map, List.forall_mem_map]
  intro n hn m hm
  exact h n hn m (mem_nodes_of_unwrapped hm)

end Tidy

theorem not_isWrapper_parts (parts : List Node) :
    ∀ part ∈ (parts.map normal).map unwrapped, ¬ part.isWrapper := by
  rw [List.map_map, List.forall_mem_map]
  exact fun n _ => not_isWrapper_unwrapped n

/-- Everywhere in a normal form the children of a node that is no list are no groups, and no two
texts stand side by side among them. No item of a list and no cell is a group around a single
node. -/
theorem tidy_nodes_normal (node : Node) : ∀ m ∈ node.normal.nodes, m.Tidy := by
  have hchain (children : List Node) := isChain_joined (normals children)
  induction node with
  | text | rule | comment | image | code | notice =>
    simp only [normal, nodes, List.forall_mem_singleton]
    exact tidy_of_leaf rfl rfl
  | group children ih | quote children ih | element tag attributes children ih
  | emphasis style children ih | codeSpan children ih | richCode language children ih
  | link target destination title children ih | paragraph children ih
  | heading level anchor children ih | page metadata children ih =>
    rw [normal, nodes, List.forall_mem_cons, forall_mem_nodesOf]
    exact ⟨tidy_of_children rfl rfl rfl (not_isGroup_joined children) (hchain children),
      tidy_joined ih⟩
  | list style items ih =>
    rw [normal, nodes, List.forall_mem_cons, forall_mem_nodesOf, normals_eq_map]
    have hitems := not_isWrapper_parts items
    have hself : (list style ((items.map normal).map unwrapped)).Tidy := by
      constructor <;> simp_all [isList, children?, cells]
    exact ⟨hself, tidy_unwrapped ih⟩
  | table header rows ihheader ihrows =>
    rw [normal, nodes, List.forall_mem_cons, List.forall_mem_append, forall_mem_nodesOf,
      forall_mem_nodesOfRows, normals_eq_map, normalRows_eq_map]
    have hcells : ∀ row ∈ rows.map fun row => (row.map normal).map unwrapped,
        ∀ cell ∈ row, ¬ cell.isWrapper :=
      List.forall_mem_map.2 fun row _ => not_isWrapper_parts row
    have hself : (table ((header.map normal).map unwrapped)
        (rows.map fun row => (row.map normal).map unwrapped)).Tidy := by
      constructor
      · simp [children?]
      · simp [children?]
      · rw [cells, List.forall_mem_append, List.forall_mem_flatten]
        exact ⟨not_isWrapper_parts header, hcells⟩
    have hrows : ∀ row ∈ rows.map fun row => (row.map normal).map unwrapped,
        ∀ n ∈ row, ∀ m ∈ n.nodes, m.Tidy :=
      List.forall_mem_map.2 fun row hrow => tidy_unwrapped (ihrows row hrow)
    exact ⟨hself, tidy_unwrapped ihheader, hrows⟩
  | collapsible summary children ihsummary ih =>
    rw [normal, nodes, List.forall_mem_cons, List.forall_mem_append, forall_mem_nodesOf]
    exact ⟨tidy_of_children rfl rfl rfl (not_isGroup_joined children) (hchain children),
      ihsummary, tidy_joined ih⟩

/-- Groups of one node in groups, as items and as a cell. -/
def layers : Node :=
  .group [.group [.text "a", .group [.text "b"]],
    .list .unordered [.group [.group [.text "c"]], .group [.text "d", .rule]],
    .table [.group [.group [.text "e"]]] []]

theorem tidy_nodes_normal_layers :
    list .unordered [.text "c", .group [.text "d", .rule]] ∈ layers.normal.nodes ∧
      (list .unordered [.text "c", .group [.text "d", .rule]]).Tidy := by
  have hnormal : layers.normal = .group [.text ("a" ++ "b"),
      .list .unordered [.text "c", .group [.text "d", .rule]], .table [.text "e"] []] := rfl
  have hmem : list .unordered [.text "c", .group [.text "d", .rule]] ∈ layers.normal.nodes := by
    simp [hnormal, nodes, nodesOf]
  exact ⟨hmem, tidy_nodes_normal layers _ hmem⟩

/-- A node without its parts. -/
def hull : Node → Node
  | text s => text s
  | rule => rule
  | comment s persist => comment s persist
  | image src title alt => image src title alt
  | code language s => code language s
  | notice => notice
  | group _ => group []
  | quote _ => quote []
  | element tag attributes _ => element tag attributes []
  | emphasis style _ => emphasis style []
  | codeSpan _ => codeSpan []
  | richCode language _ => richCode language []
  | link target destination title _ => link target destination title []
  | paragraph _ => paragraph []
  | heading level anchor _ => heading level anchor []
  | list style _ => list style []
  | table _ _ => table [] []
  | collapsible _ _ => collapsible (group []) []
  | page metadata _ => page metadata []

/-- How many items a list has, and how many cells each row of a table. -/
def sizes : Node → List Nat
  | list _ items => [items.length]
  | table header rows => header.length :: rows.map List.length
  | _ => []

/-- What nodes are, one after the other, texts and groups aside. -/
def outlineOf (nodes : List Node) : List (Node × List Nat) :=
  (nodes.filter fun n => !n.isText && !n.isGroup).map fun n => (n.hull, n.sizes)

/-- What the nodes of a tree are, from the top down and from left to right. -/
def outline (node : Node) : List (Node × List Nat) := outlineOf node.nodes

theorem outlineOf_append (before after : List Node) :
    outlineOf (before ++ after) = outlineOf before ++ outlineOf after := by
  simp [outlineOf]

theorem outlineOf_cons {node : Node} (h : (!node.isText && !node.isGroup) = true)
    (rest : List Node) : outlineOf (node :: rest) = (node.hull, node.sizes) :: outlineOf rest := by
  simp [outlineOf, h]

theorem outlineOf_group (children rest : List Node) :
    outlineOf (group children :: rest) = outlineOf rest := by
  simp [outlineOf, isGroup]

theorem outlineOf_spliced (node : Node) : outlineOf (nodesOf (spliced node)) = node.outline := by
  by_cases hgroup : node.isGroup
  · cases node <;> cases hgroup
    rw [outline, nodes, outlineOf_group, spliced]
  · simp [spliced_eq_self hgroup, nodesOf, outline]

theorem outlineOf_joined (children : List Node) :
    outlineOf (nodesOf (joined children)) = outlineOf (nodesOf children) := by
  have hspliced :
      outlineOf (nodesOf (children.flatMap spliced)) = outlineOf (nodesOf children) := by
    induction children with
    | nil => rfl
    | cons node rest ih =>
      rw [List.flatMap_cons, nodesOf_append, outlineOf_append, outlineOf_spliced, ih, nodesOf,
        outlineOf_append, outline]
  refine joined_induction (P := fun merged => outlineOf (nodesOf merged) = _) hspliced ?_
  intro before s t after ih
  simpa [nodesOf_append, nodesOf, nodes, outlineOf, isText] using ih

theorem outlineOf_unwrapped (nodes : List Node) :
    outlineOf (nodesOf (nodes.map unwrapped)) = outlineOf (nodesOf nodes) := by
  have hnode (node : Node) : (unwrapped node).outline = node.outline := by
    unfold unwrapped
    split
    · next only => simp [outline, Node.nodes, nodesOf, outlineOf_group]
    · rfl
  induction nodes with
  | nil => rfl
  | cons node rest ih =>
    have hfirst := hnode node
    simp only [outline] at hfirst
    simp [nodesOf, outlineOf_append, hfirst, ih]

theorem outlineOf_normals {children : List Node}
    (h : ∀ n ∈ children, n.normal.outline = n.outline) :
    outlineOf (nodesOf (normals children)) = outlineOf (nodesOf children) := by
  induction children with
  | nil => rfl
  | cons child rest ih =>
    obtain ⟨hchild, hrest⟩ := List.forall_mem_cons.1 h
    simp only [outline] at hchild
    simp [normals, nodesOf, outlineOf_append, hchild, ih hrest]

theorem outlineOf_normalRows {rows : List (List Node)}
    (h : ∀ row ∈ rows, ∀ n ∈ row, n.normal.outline = n.outline) :
    outlineOf (nodesOfRows (normalRows rows)) = outlineOf (nodesOfRows rows) := by
  induction rows with
  | nil => rfl
  | cons row rest ih =>
    obtain ⟨hrow, hrest⟩ := List.forall_mem_cons.1 h
    simp [normalRows, nodesOfRows, outlineOf_append, outlineOf_unwrapped, outlineOf_normals hrow,
      ih hrest]

theorem outline_normal (node : Node) : node.normal.outline = node.outline := by
  have hchildren {children : List Node} (ih : ∀ n ∈ children, n.normal.outline = n.outline) :
      outlineOf (nodesOf (joined (normals children))) = outlineOf (nodesOf children) :=
    (outlineOf_joined _).trans (outlineOf_normals ih)
  induction node with
  | text | rule | comment | image | code | notice => rfl
  | group children ih =>
    rw [normal, outline, outline, nodes, nodes, outlineOf_group, outlineOf_group, hchildren ih]
  | quote children ih | element tag attributes children ih | emphasis style children ih
  | codeSpan children ih | richCode language children ih
  | link target destination title children ih | paragraph children ih
  | heading level anchor children ih | page metadata children ih =>
    rw [normal, outline, outline, nodes, nodes, outlineOf_cons rfl, outlineOf_cons rfl,
      hchildren ih]
    rfl
  | list style items ih =>
    have hsize : ((normals items).map unwrapped).length = items.length := by
      simp [normals_eq_map]
    rw [normal, outline, outline, nodes, nodes, outlineOf_cons rfl, outlineOf_cons rfl,
      outlineOf_unwrapped, outlineOf_normals ih, sizes, sizes, hsize]
    rfl
  | table header rows ihheader ihrows =>
    have hheader : ((normals header).map unwrapped).length = header.length := by
      simp [normals_eq_map]
    have hrows : (normalRows rows).map List.length = rows.map List.length := by
      simp [normalRows_eq_map]
    rw [normal, outline, outline, nodes, nodes, outlineOf_cons rfl, outlineOf_cons rfl,
      outlineOf_append, outlineOf_append, outlineOf_unwrapped, outlineOf_normals ihheader,
      outlineOf_normalRows ihrows, sizes, sizes, hheader, hrows]
    rfl
  | collapsible summary children ihsummary ih =>
    simp only [outline] at ihsummary
    rw [normal, outline, outline, nodes, nodes, outlineOf_cons rfl, outlineOf_cons rfl,
      outlineOf_append, outlineOf_append, ihsummary, hchildren ih]
    rfl

/-- A tree and its normal form hold the same text and, texts and groups aside, the same nodes in
the same order. Every list has as many items and every row of a table as many cells. -/
theorem content_normal (node : Node) :
    node.normal.textContent = node.textContent ∧ node.normal.outline = node.outline :=
  ⟨textContent_normal node, outline_normal node⟩

end DocTree.Node
