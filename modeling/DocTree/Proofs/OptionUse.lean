import DocTree.Proofs.Cleared

/-! What a rendering takes from its options. Only links to pages take the path of the page, only
links to sources the address of the repository, and only comments that need not persist whether
they are left out. The links in tables of contents lead to fragments, which are written alike on
every page. -/
namespace DocTree

namespace Node

def isLinkTo (target : LinkTarget) : Node → Bool
  | link other _ _ _ => other = target
  | _ => false

section Normal
variable {P : Node → Prop} {node : Node}

theorem forall_mem_nodes_spliced (h : ∀ m ∈ node.nodes, P m) :
    ∀ n ∈ spliced node, ∀ m ∈ n.nodes, P m := by
  cases node with
  | group children => exact forall_mem_nodesOf.1 (List.forall_mem_cons.1 h).2
  | _ => exact List.forall_mem_singleton.2 h

theorem forall_mem_nodes_unwrapped (h : ∀ m ∈ node.nodes, P m) :
    ∀ m ∈ (unwrapped node).nodes, P m := by
  unfold unwrapped
  split
  · next only => exact forall_mem_nodes_spliced h only (List.mem_singleton_self only)
  · exact h

/-- The nodes of a normal form have what every text has, and every node of the tree whatever its
parts are. -/
theorem forall_mem_nodes_normal (htext : ∀ s, P (text s)) (hnormal : ∀ n : Node, P n → P n.normal)
    (h : ∀ m ∈ node.nodes, P m) : ∀ m ∈ node.normal.nodes, P m := by
  have htexts (s : String) : ∀ m ∈ (text s).nodes, P m := List.forall_mem_singleton.2 (htext s)
  have hmerge (s t : String) : (∀ m ∈ (text (s ++ t)).nodes, P m) ↔
      (∀ m ∈ (text s).nodes, P m) ∧ ∀ m ∈ (text t).nodes, P m :=
    iff_of_true (htexts _) ⟨htexts s, htexts t⟩
  have hjoined {children : List Node}
      (ih : ∀ n ∈ children, (∀ m ∈ n.nodes, P m) → ∀ m ∈ n.normal.nodes, P m)
      (hchildren : ∀ n ∈ children, ∀ m ∈ n.nodes, P m) :
      ∀ n ∈ joined (normals children), ∀ m ∈ n.nodes, P m := by
    rw [forall_mem_joined hmerge, normals_eq_map, List.forall_mem_map]
    exact fun n hn => forall_mem_nodes_spliced (ih n hn (hchildren n hn))
  have hunwrapped {items : List Node}
      (ih : ∀ n ∈ items, (∀ m ∈ n.nodes, P m) → ∀ m ∈ n.normal.nodes, P m)
      (hitems : ∀ n ∈ items, ∀ m ∈ n.nodes, P m) :
      ∀ n ∈ (normals items).map unwrapped, ∀ m ∈ n.nodes, P m := by
    rw [normals_eq_map, List.forall_mem_map, List.forall_mem_map]
    exact fun n hn => forall_mem_nodes_unwrapped (ih n hn (hitems n hn))
  induction node with
    (simp only [nodes, List.forall_mem_cons, List.forall_mem_append, forall_mem_nodesOf,
      forall_mem_nodesOfRows] at h
     have hself := hnormal _ h.1)
  | text | rule | comment | image | code | notice => exact List.forall_mem_singleton.2 hself
  | group children ih | quote children ih | element tag attributes children ih
  | emphasis style children ih | codeSpan children ih | richCode language children ih
  | link target destination title children ih | paragraph children ih
  | heading level anchor children ih | page metadata children ih =>
    exact List.forall_mem_cons.2 ⟨hself, forall_mem_nodesOf.2 (hjoined ih h.2)⟩
  | list style items ih =>
    exact List.forall_mem_cons.2 ⟨hself, forall_mem_nodesOf.2 (hunwrapped ih h.2)⟩
  | table header rows ihheader ihrows =>
    have hheader := forall_mem_nodesOf.2 (hunwrapped ihheader h.2.1)
    have hrows : ∀ row ∈ normalRows rows, ∀ n ∈ row, ∀ m ∈ n.nodes, P m := by
      rw [normalRows_eq_map, List.forall_mem_map]
      intro row hrow
      rw [← normals_eq_map]
      exact hunwrapped (ihrows row hrow) (h.2.2 row hrow)
    exact List.forall_mem_cons.2
      ⟨hself, List.forall_mem_append.2 ⟨hheader, forall_mem_nodesOfRows.2 hrows⟩⟩
  | collapsible summary children ihsummary ih =>
    have hchildren := forall_mem_nodesOf.2 (hjoined ih h.2.2)
    exact List.forall_mem_cons.2
      ⟨hself, List.forall_mem_append.2 ⟨ihsummary h.2.1, hchildren⟩⟩

end Normal
end Node

namespace Markdown
open Render
variable {o o' : Options} {head head' : PageMetadata → Render Unit}

theorem Options.address_source (o : Options) (destination : String) :
    o.address .source destination =
      o.sourceBase.elim destination fun base => Site.joinUrl base destination := by
  unfold Options.address
  cases o.sourceBase <;> rfl

theorem readsAlike_normal {node : Node} (h : ReadsAlike o o' head head' node) :
    ReadsAlike o o' head head' node.normal := by
  cases node <;> exact h

/-- What a node takes from the options is the path of the page for a link to a page, the address of
the repository for one to a source, and whether it is left out for a comment that need not
persist. -/
theorem readsAlike_of {node : Node} (hpage : o.page = o'.page ∨ ¬ node.isLinkTo .page)
    (hsource : o.sourceBase = o'.sourceBase ∨ ¬ node.isLinkTo .source)
    (hcomments : o.stripComments = o'.stripComments ∨ ¬ node.isTransient) :
    ReadsAlike o o' (pageHead o) (pageHead o') node := by
  cases node with
  | comment s persist => simpa [ReadsAlike, Node.isTransient, or_comm] using hcomments
  | link target destination title children =>
    cases target with
    | address => rfl
    | page =>
      have hsame : o.page = o'.page := hpage.resolve_right fun h => h rfl
      simp only [ReadsAlike, Options.address, hsame]
    | source =>
      have hsame : o.sourceBase = o'.sourceBase := hsource.resolve_right fun h => h rfl
      simp only [ReadsAlike, Options.address_source, hsame]
  | page metadata children => exact congrFun (pageHead_alike o o') metadata
  | _ => exact trivial

/-- The Markdown of a tree depends on the path of the page only if the tree has links to pages, on
the address of the repository only if it has links to sources, and on whether comments are left
out only if one of them need not persist; tables of contents depend on none of them. So does the
error where there is no Markdown. -/
theorem toMarkdown_congr {node : Node}
    (hpage : o.page = o'.page ∨ ∀ m ∈ node.nodes, ¬ m.isLinkTo .page)
    (hsource : o.sourceBase = o'.sourceBase ∨ ∀ m ∈ node.nodes, ¬ m.isLinkTo .source)
    (hcomments : o.stripComments = o'.stripComments ∨ ∀ m ∈ node.nodes, ¬ m.isTransient) :
    toMarkdown o node = toMarkdown o' node := by
  have hnodes : ∀ m ∈ node.nodes, ReadsAlike o o' (pageHead o) (pageHead o') m := fun m hm =>
    readsAlike_of (hpage.imp_right fun h => h m hm) (hsource.imp_right fun h => h m hm)
      (hcomments.imp_right fun h => h m hm)
  have hnormal : render o node.normal = render o' node.normal :=
    renderNode_congr (Node.forall_mem_nodes_normal (fun _ => trivial)
      (fun _ => readsAlike_normal) hnodes)
  rw [toMarkdown, toMarkdown, renderRaw, renderRaw, hnormal]

/-- A page with kinds and an anchor that is no fragment in its table of contents, a source and a
comment that persists. -/
def listingPage : Node :=
  .page ⟨"t", ⟨[.mk "A" (some "a") [⟨"Class", "a#b/../c"⟩] [.mk "B" (some "#") [] []]]⟩⟩
    [.comment "c" true, .link .source "./src/a.ts" none [.text "a"],
      .list .unordered [.group [.link .address "d" none [.text "e"]]]]

theorem toMarkdown_congr_listingPage :
    (∀ m ∈ listingPage.nodes, ¬ m.isLinkTo .page) ∧ (∀ m ∈ listingPage.nodes, ¬ m.isTransient) ∧
      toMarkdown { page := "api/a.md", sourceBase := some "https://host" } listingPage =
        toMarkdown { page := "b.md", sourceBase := some "https://host", stripComments := true }
          listingPage := by
  have hpage : ∀ m ∈ listingPage.nodes, ¬ m.isLinkTo .page := by decide
  have hcomments : ∀ m ∈ listingPage.nodes, ¬ m.isTransient := by decide
  exact ⟨hpage, hcomments, toMarkdown_congr (.inr hpage) (.inl rfl) (.inr hcomments)⟩

end Markdown
end DocTree
