import DocTree.Proofs.NormalForm
import DocTree.Proofs.OneLine
import Mathlib.Logic.Relation

/-! Where the nodes of a tree are rendered. A position is a node together with whether the line it
is written on may not end; below elements without content, code spans and code without links no
node is rendered. The normal form of a tree is rendered where the tree is. -/
namespace DocTree
def PageMetadata.strings (metadata : PageMetadata) : List String :=
  metadata.title :: TocEntry.stringsOf metadata.contents.entries

namespace Node

/-- The texts that a node holds itself, those of its parts aside. -/
def strings : Node → List String
  | text s | comment s _ => [s]
  | image src title alt => src :: title.toList ++ alt.toList
  | code language s => language.toList ++ [s]
  | element tag attributes _ => tag :: attributes.entries.flatMap fun e => [e.1, e.2]
  | richCode language _ => [language]
  | link _ destination title _ => destination :: title.toList
  | heading _ anchor _ => anchor.toList
  | page metadata _ => metadata.strings
  | rule | notice | group _ | quote _ | emphasis _ _ | codeSpan _ | paragraph _ | list _ _
  | table _ _ | collapsible _ _ => []

/-- A heading has one of six levels and an anchor that can be one, and a table has columns. -/
def inOrder : Node → Bool
  | heading level anchor _ => 1 ≤ level && level ≤ 6 && anchor.all isValidAnchor
  | table header rows => columnCount header rows != 0
  | _ => true

end Node

/-- A node that is rendered, and whether the line it is written on may not end. -/
structure Position where
  inLine : Bool
  node : Node

namespace Position

/-- The positions right below a position. -/
def parts (p : Position) : List Position :=
  match p.node with
  | .text _ | .rule | .comment _ _ | .image _ _ _ | .code _ _ | .notice | .codeSpan _ => []
  | .element tag _ children =>
    if Html.TagClass.ofTag tag = .void then [] else children.map (mk p.inLine)
  | .richCode _ children =>
    if Node.anyContainsLink children then children.map (mk p.inLine) else []
  | .heading _ _ children => children.map (mk true)
  | .table header rows => (header ++ rows.flatten).map (mk true)
  | .collapsible summary children => mk true summary :: children.map (mk p.inLine)
  | .group children | .quote children | .emphasis _ children | .link _ _ _ children
  | .paragraph children | .list _ children | .page _ children => children.map (mk p.inLine)

theorem parts_element {l : Bool} {tag : String} {attributes : Dict String} {children : List Node} :
    parts ⟨l, .element tag attributes children⟩ =
      if Html.TagClass.ofTag tag = .void then [] else children.map (mk l) := rfl

theorem parts_richCode {l : Bool} {language : String} {children : List Node} :
    parts ⟨l, .richCode language children⟩ =
      if Node.anyContainsLink children then children.map (mk l) else [] := rfl

/-- The second position is rendered when the first is. -/
def Rendered : Position → Position → Prop := Relation.ReflTransGen fun p q => q ∈ p.parts

theorem forall_rendered {p : Position} {P : Position → Prop} :
    (∀ q, Rendered p q → P q) ↔ P p ∧ ∀ r ∈ p.parts, ∀ q, Rendered r q → P q := by
  constructor
  · intro h
    exact ⟨h p .refl, fun r hr q hq => h q (.head hr hq)⟩
  · rintro ⟨hself, hparts⟩ q hq
    obtain rfl | ⟨r, hr, hrest⟩ := Relation.ReflTransGen.cases_head hq
    · exact hself
    · exact hparts r hr q hrest

/-- The nodes of what is rendered below a node are nodes below it. -/
theorem mem_tail_of_mem_parts {p r : Position} (hr : r ∈ p.parts) {m : Node}
    (hm : m ∈ r.node.nodes) : m ∈ p.node.nodes.tail := by
  obtain ⟨inLine, node⟩ := p
  have hmap {children : List Node} {line : Bool} (h : r ∈ children.map (mk line)) :
      m ∈ Node.nodesOf children := by
    obtain ⟨n, hn, rfl⟩ := List.mem_map.1 h
    exact Node.mem_nodesOf.2 ⟨n, hn, hm⟩
  cases node with
  | text | rule | comment | image | code | notice | codeSpan => cases hr
  | group | quote | emphasis | link | paragraph | heading | list | page => exact hmap hr
  | element tag attributes children =>
    dsimp only [parts] at hr
    split at hr
    · cases hr
    · exact hmap hr
  | richCode language children =>
    dsimp only [parts] at hr
    split at hr
    · exact hmap hr
    · cases hr
  | table header rows =>
    obtain ⟨n, hn, rfl⟩ := List.mem_map.1 hr
    refine List.mem_append.2 ((List.mem_append.1 hn).imp (fun h => ?_) fun h => ?_)
    · exact Node.mem_nodesOf.2 ⟨n, h, hm⟩
    · obtain ⟨row, hrow, hcell⟩ := List.mem_flatten.1 h
      exact Node.mem_nodesOfRows.2 ⟨row, hrow, Node.mem_nodesOf.2 ⟨n, hcell, hm⟩⟩
  | collapsible summary children =>
    refine List.mem_append.2 ((List.mem_cons.1 hr).imp (fun h => ?_) hmap)
    subst h
    exact hm

theorem Rendered.mem_nodes {p q : Position} (h : Rendered p q) : q.node ∈ p.node.nodes := by
  induction h using Relation.ReflTransGen.head_induction_on with
  | refl => exact Node.mem_nodes_self _
  | head hstep _ ih => exact List.mem_of_mem_tail (mem_tail_of_mem_parts hstep ih)

/-- What is rendered is the tree itself or a node below its root. -/
theorem Rendered.eq_or_mem_tail {p q : Position} (h : Rendered p q) :
    q = p ∨ q.node ∈ p.node.nodes.tail := by
  obtain rfl | ⟨r, hr, hrest⟩ := Relation.ReflTransGen.cases_head h
  · exact .inl rfl
  · exact .inr (mem_tail_of_mem_parts hr (Rendered.mem_nodes hrest))

/-- Below plain nodes no line begins that may not end. -/
theorem Rendered.inLine_of_plain {p q : Position} (h : Rendered p q)
    (hplain : ∀ m ∈ p.node.nodes, m.isPlain) : q.inLine = p.inLine := by
  induction h with
  | refl => rfl
  | @tail mid r hpq hr ih =>
    have hmid : mid.node.isPlain := hplain _ (Rendered.mem_nodes hpq)
    rw [← ih]
    obtain ⟨inLine, node⟩ := mid
    cases node with
    | text => cases hr
    | link target destination title children | group children | list style children =>
      obtain ⟨n, -, rfl⟩ := List.mem_map.1 hr
      rfl
    | _ => cases hmid

section Normal
variable {P : Position → Prop} {l : Bool} {node : Node} {nodes : List Node}

theorem forall_rendered_text {s : String} :
    (∀ q, Rendered ⟨l, .text s⟩ q → P q) ↔ P ⟨l, .text s⟩ :=
  forall_rendered.trans (and_iff_left (List.forall_mem_nil _))

theorem forall_rendered_group (hgroup : ∀ l children, P ⟨l, .group children⟩) :
    (∀ q, Rendered ⟨l, .group nodes⟩ q → P q) ↔ ∀ n ∈ nodes, ∀ q, Rendered ⟨l, n⟩ q → P q := by
  rw [forall_rendered, and_iff_right (hgroup l nodes), parts, List.forall_mem_map]

theorem forall_rendered_spliced (hgroup : ∀ l children, P ⟨l, .group children⟩) :
    (∀ n ∈ node.spliced, ∀ q, Rendered ⟨l, n⟩ q → P q) ↔ ∀ q, Rendered ⟨l, node⟩ q → P q := by
  cases node with
  | group children => exact (forall_rendered_group hgroup).symm
  | _ => exact List.forall_mem_singleton

theorem forall_rendered_unwrapped (hgroup : ∀ l children, P ⟨l, .group children⟩) :
    (∀ q, Rendered ⟨l, node.unwrapped⟩ q → P q) ↔ ∀ q, Rendered ⟨l, node⟩ q → P q := by
  unfold Node.unwrapped
  split
  · next only => rw [forall_rendered_group hgroup, List.forall_mem_singleton]
  · rfl

/-- A tree and its normal form are rendered at the same positions, as far as a property can tell
that no group fails, that a text has if its parts have it, and that a node has if its normal form
has it. -/
theorem forall_rendered_normal (hgroup : ∀ l children, P ⟨l, .group children⟩)
    (hmerge : ∀ l s t, P ⟨l, .text (s ++ t)⟩ ↔ P ⟨l, .text s⟩ ∧ P ⟨l, .text t⟩)
    (hnormal : ∀ l node, P ⟨l, node.normal⟩ ↔ P ⟨l, node⟩) :
    (∀ q, Rendered ⟨l, node.normal⟩ q → P q) ↔ ∀ q, Rendered ⟨l, node⟩ q → P q := by
  have hjoined {l : Bool} {children : List Node}
      (ih : ∀ n ∈ children, ∀ {l : Bool},
        (∀ q, Rendered ⟨l, n.normal⟩ q → P q) ↔ ∀ q, Rendered ⟨l, n⟩ q → P q) :
      (∀ r ∈ (Node.joined (Node.normals children)).map (mk l), ∀ q, Rendered r q → P q) ↔
        ∀ r ∈ children.map (mk l), ∀ q, Rendered r q → P q := by
    rw [List.forall_mem_map, List.forall_mem_map, Node.forall_mem_joined, Node.normals_eq_map,
      List.forall_mem_map]
    · exact forall₂_congr fun n hn => (forall_rendered_spliced hgroup).trans (ih n hn)
    · intro s t
      rw [forall_rendered_text, forall_rendered_text, forall_rendered_text]
      exact hmerge l s t
  have hcell {l : Bool} {n : Node}
      (ih : ∀ {l : Bool}, (∀ q, Rendered ⟨l, n.normal⟩ q → P q) ↔ ∀ q, Rendered ⟨l, n⟩ q → P q) :
      (∀ q, Rendered ⟨l, n.normal.unwrapped⟩ q → P q) ↔ ∀ q, Rendered ⟨l, n⟩ q → P q :=
    (forall_rendered_unwrapped hgroup).trans ih
  induction node generalizing l with
    (rw [forall_rendered, forall_rendered]
     refine and_congr (hnormal l _) ?_)
  | text | rule | comment | image | code | notice => rfl
  | codeSpan children => rfl
  | group children ih | quote children ih | emphasis style children ih
  | link target destination title children ih | paragraph children ih
  | heading level anchor children ih | page metadata children ih => exact hjoined ih
  | element tag attributes children ih =>
    rw [Node.normal, parts_element, parts_element]
    split
    · rfl
    · exact hjoined ih
  | richCode language children ih =>
    have hlink : Node.anyContainsLink (Node.joined (Node.normals children)) =
        Node.anyContainsLink children :=
      Node.anyContainsLink_joined fun n _ => Node.containsLink_normal n
    rw [Node.normal, parts_richCode, parts_richCode, hlink]
    split
    · exact hjoined ih
    · rfl
  | list style items ih =>
    simp only [Node.normal, parts, List.forall_mem_map, Node.normals_eq_map]
    exact forall₂_congr fun n hn => hcell (ih n hn)
  | table header rows ihheader ihrows =>
    simp only [Node.normal, parts, List.forall_mem_map, List.forall_mem_append,
      List.forall_mem_flatten, Node.normals_eq_map, Node.normalRows_eq_map]
    refine and_congr (forall₂_congr fun n hn => hcell (ihheader n hn)) ?_
    exact forall₂_congr fun row hrow => forall₂_congr fun n hn => hcell (ihrows row hrow n hn)
  | collapsible summary children ihsummary ih =>
    rw [Node.normal, parts, parts, List.forall_mem_cons, List.forall_mem_cons]
    exact and_congr ihsummary (hjoined ih)

end Normal

end Position
end DocTree
