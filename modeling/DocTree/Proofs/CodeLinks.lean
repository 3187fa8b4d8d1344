import DocTree.Proofs.Reach

/-! Links in code. A block of code is written so that its links are kept if one of them is reached
through children alone; the cells of a table and the summary of a collapsible section are no
children. -/
namespace DocTree

namespace Node

/-- Whether a node is a link, to whatever target. -/
def isLink : Node → Bool
  | link _ _ _ _ => true
  | _ => false

/-- The nodes that are rendered right below a node: its children, its cells or its summary, but none
below an element without content or a code span. Those below a block of code are among them whether
the block is written with its links or not. -/
def shown : Node → List Node
  | richCode _ children => children
  | node => (Position.parts ⟨false, node⟩).map Position.node

/-- Among the nodes shown at any depth of a tree there is a link. -/
def ShowsLink (tree : Node) : Prop :=
  ∃ node, Relation.ReflTransGen (fun a b => b ∈ a.shown) tree node ∧ node.isLink

/-- A link is reached from a tree through children, and children of children, alone. -/
def ReachesLink (tree : Node) : Prop :=
  ∃ node, Relation.ReflTransGen (fun a b => b ∈ a.children?.getD []) tree node ∧ node.isLink

variable {node : Node} {nodes : List Node}

theorem reachesLink_iff :
    node.ReachesLink ↔ node.isLink ∨ ∃ child ∈ node.children?.getD [], child.ReachesLink := by
  constructor
  · rintro ⟨link, hpath, hlink⟩
    obtain rfl | ⟨child, hchild, hrest⟩ := Relation.ReflTransGen.cases_head hpath
    · exact .inl hlink
    · exact .inr ⟨child, hchild, link, hrest, hlink⟩
  · rintro (hlink | ⟨child, hchild, link, hrest, hlink⟩)
    · exact ⟨node, .refl, hlink⟩
    · exact ⟨link, .head hchild hrest, hlink⟩

theorem anyContainsLink_iff : anyContainsLink nodes ↔ ∃ n ∈ nodes, n.containsLink := by
  induction nodes with
  | nil => simp [anyContainsLink]
  | cons first rest ih => rw [anyContainsLink, Bool.or_eq_true, ih, List.exists_mem_cons_iff]

/-- The recursion that looks for a link finds those that are reached through children. -/
theorem containsLink_iff : node.containsLink ↔ node.ReachesLink := by
  have hamong {children : List Node} (ih : ∀ n ∈ children, n.containsLink ↔ n.ReachesLink) :
      anyContainsLink children ↔ ∃ n ∈ children, n.ReachesLink := by
    rw [anyContainsLink_iff]
    exact exists_congr fun n => and_congr_right fun hn => ih n hn
  induction node with
    rw [reachesLink_iff]
  | text | rule | comment | image | code | notice | table => simp [containsLink, isLink, children?]
  | link => simp [containsLink, isLink]
  | group children ih | quote children ih | element tag attributes children ih
  | emphasis style children ih | codeSpan children ih | richCode language children ih
  | paragraph children ih | heading level anchor children ih | list style children ih
  | collapsible summary children _ ih | page metadata children ih =>
    simpa [containsLink, isLink, children?] using hamong ih

end Node

namespace Markdown
open Render Position

variable {o : Options} {language : String} {children : List Node} {out : Output}

/-- The block is written in the form that writes its children: if it succeeds, each child is written to
an output of its own, and so is everything that is rendered in it. -/
structure WritesChildren (o : Options) (language : String) (children : List Node) (out : Output) :
    Prop where
  form : render o (.richCode language children) out =
    linkedCode language (renderNodes o (pageHead o) false children) out
  led : (render o (.richCode language children) out).1 = .ok () → ∀ n ∈ children,
    ∃ s, LeadsTo o (.richCode language children, out) (n, s) ∧
      ∀ q, Rendered ⟨out.constrained, n⟩ q → ∃ path t, Path o (n, s) path (q.node, t)

theorem render_richCode_linked (h : Node.anyContainsLink children) :
    render o (.richCode language children) =
      linkedCode language (renderNodes o (pageHead o) false children) := by
  rw [render, renderNode, if_pos h]

theorem render_richCode_fenced (h : ¬ Node.anyContainsLink children) :
    render o (.richCode language children) =
      codeBlock (some language) (Node.textsContent children) := by
  rw [render, renderNode, if_neg h]

/-- A child of a block of code is written as a part of it only if the block has found a link. -/
theorem LeadsTo.anyContainsLink {w : Node × Output}
    (h : LeadsTo o (.richCode language children, out) w) : Node.anyContainsLink children := by
  obtain ⟨steps, hpart, -⟩ := h
  cases hpart with
  | richCode _ _ _ _ hlink => exact hlink

theorem writesChildren_of_anyContainsLink (hlink : Node.anyContainsLink children) :
    WritesChildren o language children out := by
  refine ⟨by rw [render_richCode_linked hlink], fun hok n hn => ?_⟩
  have hpart : (⟨out.constrained, n⟩ : Position) ∈
      parts ⟨out.constrained, .richCode language children⟩ := by
    rw [parts_richCode, if_pos hlink]
    exact List.mem_map_of_mem hn
  obtain ⟨s, hleads⟩ := exists_leadsTo hok hpart
  exact ⟨s, hleads, fun q hq => exists_path_of_rendered hq (hleads.ok hok)⟩

/-- If a link is reached from a child of a block of code through children alone, the block is written in
the form that writes its children. Else it is written as the code of its texts, and nothing in it is
rendered. -/
theorem render_richCode_form :
    ((∃ n ∈ children, n.ReachesLink) → WritesChildren o language children out) ∧
      ((¬ ∃ n ∈ children, n.ReachesLink) →
        render o (.richCode language children) out =
            codeBlock (some language) (Node.textsContent children) out ∧
          ∀ w, ¬ LeadsTo o (.richCode language children, out) w) := by
  have hfound : Node.anyContainsLink children ↔ ∃ n ∈ children, n.ReachesLink := by
    simp only [Node.anyContainsLink_iff, Node.containsLink_iff]
  refine ⟨fun h => writesChildren_of_anyContainsLink (hfound.2 h), fun h => ⟨?_, fun w hleads => ?_⟩⟩
  · rw [render_richCode_fenced (hfound.not.2 h)]
  · exact h (hfound.1 hleads.anyContainsLink)

/-- A link whose text is one letter. -/
def letterLink : Node := .link .address "d" none [.text "a"]

/-- Parts of code with a link in bold text and another one in a cell of a table. -/
def linkedParts : List Node := [.text "x", .emphasis .bold [letterLink], .table [letterLink] []]

theorem render_richCode_form_linkedParts :
    (∃ n ∈ linkedParts, n.ReachesLink) ∧ WritesChildren {} "ts" linkedParts {} := by
  have hreaches : ∃ n ∈ linkedParts, n.ReachesLink :=
    ⟨.emphasis .bold [letterLink], by simp [linkedParts], letterLink,
      .single (by simp [Node.children?]), rfl⟩
  exact ⟨hreaches, render_richCode_form.1 hreaches⟩

/-- A link in a summary is shown, and still the block is fenced. -/
theorem renderRaw_lostLink :
    (Node.collapsible letterLink []).ShowsLink ∧
      (∀ s, ¬ LeadsTo {} (.richCode "ts" [.collapsible letterLink []], {})
        (.collapsible letterLink [], s)) ∧
      renderRaw {} (.richCode "ts" [.collapsible letterLink []]) =
        .ok "\n\x60\x60\x60ts\na\n\x60\x60\x60\n" := by
  refine ⟨⟨letterLink, .single (by simp [Node.shown, Position.parts]), rfl⟩, fun s hleads => ?_,
    by decide +kernel⟩
  exact Bool.false_ne_true hleads.anyContainsLink

end Markdown
end DocTree
