import DocTree.Proofs.Alike
import DocTree.Proofs.Cleared
import DocTree.Proofs.Position

/-! Leaving comments out and never having had them. Comments that need not persist are left out once
the normal form is made, so their neighbours have been taken for apart: two lists get no separator,
two texts are not one text, and emphasis of nothing but comments keeps its delimiters. Elsewhere the
Markdown is that of the tree without the comments. -/
namespace DocTree.Node

/-- Nodes that are written differently when the comments between them are gone: two lists, which are
to be kept apart, or a text that begins with a number sign behind a line that may be blank. -/
def clash : Node → Node → Bool
  | list _ _, list _ _ => true
  | text s, text t => !Markdown.continues s t
  | _, _ => false

/-- The first node behind the comments that the nodes begin with, if they begin with any. -/
def behindComments : List Node → Option Node
  | [] => none
  | node :: rest => if node.isTransient then rest.find? (!·.isTransient) else none

/-- No two siblings clash once the comments between them are gone. -/
def shedsAmong : List Node → Bool
  | [] => true
  | node :: rest => (behindComments rest).all (!node.clash ·) && shedsAmong rest

/-- A node that is written alike whether comments among its children are left out or have never been
there. -/
def shedsQuietly : Node → Bool
  | list _ _ => true
  | emphasis _ children => (children.isEmpty || !children.all isTransient) && shedsAmong children
  | node => (node.children?.all shedsAmong)

/-- Neighbours that can be merged if both are texts. -/
def GoesOn : Node → Node → Prop
  | text s, text t => Markdown.continues s t
  | _, _ => True

variable {node m : Node} {nodes children : List Node}

theorem goesOn_of_apart (h : Apart node m) : GoesOn node m := by
  cases node with
  | text s =>
    cases m with
    | text t => exact absurd ⟨rfl, rfl⟩ h
    | _ => trivial
  | _ => trivial

theorem goesOn_of_clash (h : node.clash m = false) : GoesOn node m := by
  cases node with
  | text s =>
    cases m with
    | text t => simpa [clash, GoesOn] using h
    | _ => trivial
  | _ => trivial

theorem goesOn_cleared (h : GoesOn node m) : GoesOn node.cleared.normal m.cleared.normal := by
  cases node with
  | text s =>
    cases m with
    | text t => exact h
    | comment s persist => cases persist <;> trivial
    | _ => trivial
  | comment s persist => cases persist <;> trivial
  | _ => trivial

theorem isList_normal (node : Node) : node.normal.isList = node.isList := by
  cases node <;> rfl

theorem not_isGroup_cleared (h : ¬ node.isTransient) (hgroup : ¬ node.isGroup) :
    ¬ node.cleared.normal.isGroup := by
  cases node with
  | comment s persist => cases persist <;> simp_all [isTransient, cleared, normal, isGroup]
  | group children => exact absurd rfl hgroup
  | _ => exact Bool.false_ne_true

/-- The children of a normal form are in normal form, and none of them is a group. -/
theorem normal_members (h : joined (normals children) = children) :
    ∀ n ∈ children, n.normal = n ∧ ¬ n.isGroup := by
  have hmembers := (settled_joined fun n (_ : n ∈ children) => settled_normal n).1
  rwa [h] at hmembers

theorem not_isGroup_kept (h : joined (normals children) = children) :
    ∀ n ∈ (children.filter (!·.isTransient)).map fun n => n.cleared.normal, ¬ n.isGroup := by
  rw [List.forall_mem_map]
  intro n hn
  obtain ⟨hmem, htransient⟩ := List.mem_filter.1 hn
  exact not_isGroup_cleared (by simpa using htransient) (normal_members h n hmem).2

theorem normal_items {items : List Node} (h : (normals items).map unwrapped = items) :
    ∀ n ∈ items, n.normal = n := by
  have hmembers : ∀ n ∈ (normals items).map unwrapped, n.normal = n := by
    rw [List.forall_mem_map, normals_eq_map, List.forall_mem_map]
    exact fun n _ => (settled_unwrapped (settled_normal n)).1
  rwa [h] at hmembers

theorem normal_rows {rows : List (List Node)} (h : normalRows rows = rows) :
    ∀ row ∈ rows, (normals row).map unwrapped = row := by
  have hrows : ∀ row ∈ rows, ((row.map normal).map unwrapped) = row := by
    rw [normalRows_eq_map] at h
    exact List.map_inj_left.1 (h.trans (List.map_id rows).symm)
  simpa only [normals_eq_map] using hrows

theorem joined_kept (nodes : List Node) : joined (normals (clearedAll nodes)) =
    joined ((nodes.filter (!·.isTransient)).map fun n => n.cleared.normal) := by
  have hkept : nodes.flatMap remnants = (nodes.filter (!·.isTransient)).flatMap remnants := by
    induction nodes with
    | nil => rfl
    | cons node rest ih =>
      by_cases htransient : node.isTransient
      · have hnone : remnants node = [] := by
          rw [remnants, cleared_of_transient htransient]
          rfl
        rw [List.filter_cons_of_neg (by simpa using htransient), List.flatMap_cons, hnone,
          List.nil_append, ih]
      · rw [List.filter_cons_of_pos (by simpa using htransient), List.flatMap_cons,
          List.flatMap_cons, ih]
  rw [joined_clearedAll, hkept, joined, List.flatMap_map]
  rfl

end DocTree.Node

namespace DocTree.Markdown
open Render Position
variable {o : Options} {head : PageMetadata → Render Unit} {nodes children : List Node}

theorem renderNodes_flag (h : ∀ n ∈ nodes.head?, ¬ n.isList) (afterList afterList' : Bool) :
    renderNodes o head afterList nodes = renderNodes o head afterList' nodes := by
  cases nodes with
  | nil => rfl
  | cons node rest =>
    have hlist : node.isList = false := Bool.eq_false_iff.2 (h node rfl)
    rw [renderNodes, renderNodes, hlist, separateLists_apart (Bool.and_false _),
      separateLists_apart (Bool.and_false _)]

/-- The empty groups that comments leave are not written. -/
theorem renderNodes_shed (hquiet : Node.shedsAmong nodes) (afterList : Bool)
    (h : afterList → ∀ n ∈ Node.behindComments nodes, ¬ n.isList) :
    renderNodes o head afterList (nodes.map Node.cleared) =
      renderNodes o head afterList ((nodes.filter (!·.isTransient)).map Node.cleared) := by
  induction nodes generalizing afterList with
  | nil => rfl
  | cons node rest ih =>
    rw [Node.shedsAmong, Bool.and_eq_true] at hquiet
    obtain ⟨hclash, hquiet⟩ := hquiet
    by_cases htransient : node.isTransient
    · have hnone : renderNodes o head afterList (.group [] :: rest.map Node.cleared) =
          renderNodes o head false (rest.map Node.cleared) := by
        have hlist : (Node.group []).isList = false := rfl
        rw [renderNodes, hlist, separateLists_apart (Bool.and_false _), pure_bind, renderNode,
          renderNodes, pure_bind]
      rw [List.map_cons, Node.cleared_of_transient htransient, hnone, ih hquiet false (by simp),
        List.filter_cons_of_neg (by simpa using htransient)]
      cases afterList with
      | false => rfl
      | true =>
        have hnext : ∀ n ∈ rest.find? (!·.isTransient), ¬ n.isList := by
          simpa [Node.behindComments, htransient] using h rfl
        refine renderNodes_flag ?_ false true
        simpa [List.head?_filter, Node.isList_cleared] using hnext
    · have hlist : node.isList → ∀ n ∈ Node.behindComments rest, ¬ n.isList := by
        intro hnode n hn hnlist
        rw [Option.mem_def.1 hn, Option.all_some] at hclash
        cases node <;> cases hnode
        cases n <;> cases hnlist
        cases hclash
      rw [List.filter_cons_of_pos (by simpa using htransient), List.map_cons, List.map_cons,
        renderNodes, renderNodes, Node.isList_cleared, ih hquiet _ hlist]

theorem renderNodes_alike {f g : Node → Node} (h : ∀ n ∈ nodes, (f n).isList = (g n).isList ∧
    (renderNode o head (f n)).outcome = (renderNode o head (g n)).outcome) (afterList : Bool) :
    (renderNodes o head afterList (nodes.map f)).outcome =
      (renderNodes o head afterList (nodes.map g)).outcome := by
  induction nodes generalizing afterList with
  | nil => rfl
  | cons node rest ih =>
    obtain ⟨⟨hlist, hnode⟩, hrest⟩ := List.forall_mem_cons.1 h
    rw [List.map_cons, List.map_cons, renderNodes, renderNodes, hlist]
    exact then_alike (bind_alike hnode fun _ => ih hrest _)

/-- Texts that go on one another can be merged. -/
theorem renderNodes_merged {before after : List Node} {s t : String} (h : continues s t)
    (afterList : Bool) :
    (renderNodes o head afterList (before ++ .text (s ++ t) :: after)).outcome =
      (renderNodes o head afterList (before ++ .text s :: .text t :: after)).outcome := by
  have htexts (flag : Bool) : (renderNodes o head flag (.text (s ++ t) :: after)).outcome =
      (renderNodes o head flag (.text s :: .text t :: after)).outcome := by
    simp only [renderNodes, Node.isList, separateLists_apart (Bool.and_false _), pure_bind,
      renderNode]
    rw [← bind_assoc]
    exact bind_alike (writeEscaped_append_alike h) fun _ => rfl
  induction before generalizing afterList with
  | nil => exact htexts afterList
  | cons node rest ih => exact then_alike (then_alike (ih _))

theorem goesOn_merged {before after : List Node} {s t : String}
    (h : (before ++ .text s :: .text t :: after).IsChain Node.GoesOn) :
    (before ++ .text (s ++ t) :: after).IsChain Node.GoesOn := by
  obtain ⟨hbefore, hst, hafter⟩ := List.isChain_append_cons_cons.1 h
  have hfront : (before ++ [Node.text (s ++ t)]).IsChain Node.GoesOn := by
    rw [List.isChain_append] at hbefore ⊢
    refine ⟨hbefore.1, .singleton _, fun last hlast next hnext => ?_⟩
    obtain rfl : Node.text (s ++ t) = next := by simpa using hnext
    have hgoes := hbefore.2.2 last hlast (.text s) rfl
    cases last with
    | text u => exact continues_append_right hgoes hst
    | _ => trivial
  have hback : (Node.text (s ++ t) :: after).IsChain Node.GoesOn := by
    rw [List.isChain_cons] at hafter ⊢
    refine ⟨fun next hnext => ?_, hafter.2⟩
    have hgoes := hafter.1 next hnext
    cases next with
    | text u => exact continues_append_left hgoes
    | _ => trivial
  exact List.isChain_split.2 ⟨hfront, hback⟩

theorem renderNodes_joined (hgroup : ∀ n ∈ nodes, ¬ n.isGroup) (h : nodes.IsChain Node.GoesOn)
    (afterList : Bool) : (renderNodes o head afterList (Node.joined nodes)).outcome =
      (renderNodes o head afterList nodes).outcome := by
  have hspliced : nodes.flatMap Node.spliced = nodes := Node.flatMap_spliced hgroup
  have hmerged : (Node.joined nodes).IsChain Node.GoesOn ∧
      (renderNodes o head afterList (Node.joined nodes)).outcome =
        (renderNodes o head afterList nodes).outcome := by
    refine Node.joined_induction (P := fun merged => merged.IsChain Node.GoesOn ∧
      (renderNodes o head afterList merged).outcome = (renderNodes o head afterList nodes).outcome)
      (by rw [hspliced]; exact ⟨h, rfl⟩) ?_
    rintro before s t after ⟨hchain, heq⟩
    have hcontinues : continues s t := (List.isChain_append_cons_cons.1 hchain).2.1
    exact ⟨goesOn_merged hchain, (renderNodes_merged hcontinues afterList).trans heq⟩
  exact hmerged.2

/-- Siblings that stand side by side once the comments between them are gone. -/
theorem goesOn_kept (hchain : nodes.IsChain Node.Apart) (hquiet : Node.shedsAmong nodes) :
    ((nodes.filter (!·.isTransient)).map fun n => n.cleared.normal).IsChain Node.GoesOn := by
  induction nodes with
  | nil => exact .nil
  | cons node rest ih =>
    rw [Node.shedsAmong, Bool.and_eq_true] at hquiet
    obtain ⟨hclash, hquiet⟩ := hquiet
    rw [List.isChain_cons] at hchain
    by_cases htransient : node.isTransient
    · rw [List.filter_cons_of_neg (by simpa using htransient)]
      exact ih hchain.2 hquiet
    · rw [List.filter_cons_of_pos (by simpa using htransient), List.map_cons, List.isChain_cons]
      refine ⟨fun next hnext => ?_, ih hchain.2 hquiet⟩
      rw [List.head?_map, List.head?_filter] at hnext
      obtain ⟨m, hm, rfl⟩ := Option.map_eq_some_iff.1 hnext
      apply Node.goesOn_cleared
      cases rest with
      | nil => cases hm
      | cons first rest =>
        rw [List.find?_cons] at hm
        split at hm
        · next hkept =>
          obtain rfl : first = m := Option.some.inj hm
          exact Node.goesOn_of_apart (hchain.1 _ rfl)
        · next hgone =>
          have hfirst : first.isTransient = true := by simpa using hgone
          rw [Node.behindComments, if_pos hfirst, hm, Option.all_some] at hclash
          exact Node.goesOn_of_clash (by simpa using hclash)

theorem children_shed (hnormal : Node.joined (Node.normals children) = children)
    (hquiet : Node.shedsAmong children)
    (h : ∀ n ∈ children,
      (renderNode o head n.cleared.normal).outcome = (renderNode o head n.cleared).outcome) :
    (renderNodes o head false (Node.joined (Node.normals (Node.clearedAll children)))).outcome =
      (renderNodes o head false (Node.clearedAll children)).outcome := by
  have hchain : children.IsChain Node.Apart := hnormal ▸ Node.isChain_joined _
  have hgroup := Node.not_isGroup_kept hnormal
  calc (renderNodes o head false (Node.joined (Node.normals (Node.clearedAll children)))).outcome
      = (renderNodes o head false (Node.joined
          ((children.filter (!·.isTransient)).map fun n => n.cleared.normal))).outcome := by
        rw [Node.joined_kept]
    _ = (renderNodes o head false
          ((children.filter (!·.isTransient)).map fun n => n.cleared.normal)).outcome :=
        renderNodes_joined hgroup (goesOn_kept hchain hquiet) false
    _ = (renderNodes o head false
          ((children.filter (!·.isTransient)).map Node.cleared)).outcome :=
        renderNodes_alike (fun n hn => ⟨Node.isList_normal _, h n (List.mem_of_mem_filter hn)⟩) false
    _ = (renderNodes o head false (Node.clearedAll children)).outcome := by
        rw [Node.clearedAll_eq_map, renderNodes_shed hquiet false (by simp)]

theorem element_void {tag : String} (h : Html.TagClass.ofTag tag = .void) (attributes : Dict String)
    (body : Render Unit) : element tag attributes body = openTag tag attributes true := by
  rw [element, h]

/-- Only of nothing but comments is nothing left. -/
theorem isEmpty_joined_clearedAll (hnormal : Node.joined (Node.normals children) = children)
    (h : children.isEmpty || !children.all Node.isTransient) :
    (Node.joined (Node.normals (Node.clearedAll children))).isEmpty = children.isEmpty := by
  have hgroup := Node.not_isGroup_kept hnormal
  have hmerged : Node.joined ((children.filter (!·.isTransient)).map fun n => n.cleared.normal) =
      [] ↔ children.filter (!·.isTransient) = [] :=
    Node.joined_induction (P := fun merged => merged = [] ↔ children.filter (!·.isTransient) = [])
      (by rw [Node.flatMap_spliced hgroup, List.map_eq_nil_iff])
      fun before s t after ih => by simpa using ih
  rw [Node.joined_kept, Bool.eq_iff_iff, List.isEmpty_iff, List.isEmpty_iff, hmerged]
  cases children with
  | nil => exact Iff.rfl
  | cons first rest =>
    rw [List.isEmpty_cons, Bool.false_or, Bool.not_eq_true', List.all_eq_false] at h
    obtain ⟨n, hn, htransient⟩ := h
    have hmem : n ∈ (first :: rest).filter (!·.isTransient) :=
      List.mem_filter.2 ⟨hn, by simpa using htransient⟩
    exact iff_of_false (List.ne_nil_of_mem hmem) (List.cons_ne_nil _ _)

/-- Without comments that keep nodes apart, a normal form without its comments is written as the
normal form of that tree is. -/
theorem shed_renderNode (hhead : ∀ metadata, Framed (head metadata)) {l : Bool} {node : Node}
    (hnormal : node.normal = node) (h : ∀ q, Rendered ⟨l, node⟩ q → q.node.shedsQuietly) :
    (renderNode o head node.cleared.normal).outcome = (renderNode o head node.cleared).outcome := by
  have hmembers {children : List Node} (l : Bool)
      (ih : ∀ n ∈ children, ∀ {l : Bool}, n.normal = n →
        (∀ q, Rendered ⟨l, n⟩ q → q.node.shedsQuietly) →
          (renderNode o head n.cleared.normal).outcome = (renderNode o head n.cleared).outcome)
      (hchildren : Node.joined (Node.normals children) = children)
      (hquiet : Node.shedsAmong children)
      (hparts : ∀ r ∈ children.map (mk l), ∀ q, Rendered r q → q.node.shedsQuietly) :
      (renderNodes o head false (Node.joined (Node.normals (Node.clearedAll children)))).outcome =
        (renderNodes o head false (Node.clearedAll children)).outcome := by
    rw [List.forall_mem_map] at hparts
    exact children_shed hchildren hquiet fun n hn =>
      ih n hn (Node.normal_members hchildren n hn).1 (hparts n hn)
  have hitems {items : List Node} {l : Bool}
      (ih : ∀ n ∈ items, ∀ {l : Bool}, n.normal = n →
        (∀ q, Rendered ⟨l, n⟩ q → q.node.shedsQuietly) →
          (renderNode o head n.cleared.normal).outcome = (renderNode o head n.cleared).outcome)
      (hnormal : (Node.normals items).map Node.unwrapped = items)
      (hparts : ∀ n ∈ items, ∀ q, Rendered ⟨l, n⟩ q → q.node.shedsQuietly) :
      ∀ n ∈ items, (renderNode o head (Node.unwrapped n.cleared.normal)).outcome =
        (renderNode o head n.cleared).outcome := by
    intro n hn
    rw [render_unwrapped]
    exact ih n hn (Node.normal_items hnormal n hn) (hparts n hn)
  induction node generalizing l with
    obtain ⟨hself, hparts⟩ := forall_rendered.1 h
  | text | rule | image | code | notice => rfl
  | comment s persist => cases persist <;> rfl
  | group children ih => exact hmembers l ih (Node.group.inj hnormal) hself hparts
  | quote children ih => exact quote_alike (hmembers l ih (Node.quote.inj hnormal) hself hparts)
  | element tag attributes children ih =>
    obtain ⟨-, -, hchildren⟩ := Node.element.inj hnormal
    rw [parts_element] at hparts
    by_cases hvoid : Html.TagClass.ofTag tag = .void
    · rw [Node.cleared, Node.normal, renderNode, renderNode, element_void hvoid, element_void hvoid]
    · rw [if_neg hvoid] at hparts
      exact element_alike (hmembers l ih hchildren hself hparts) tag attributes
  | emphasis style children ih =>
    obtain ⟨-, hchildren⟩ := Node.emphasis.inj hnormal
    obtain ⟨hempty, hquiet⟩ := Bool.and_eq_true_iff.1 hself
    rw [Node.cleared, Node.normal, renderNode, renderNode, Node.isEmpty_clearedAll,
      isEmpty_joined_clearedAll hchildren hempty]
    exact emphasis_alike (hmembers l ih hchildren hquiet hparts) style _
  | codeSpan children =>
    have htext := Node.textContent_normal (.codeSpan (Node.clearedAll children))
    rw [Node.normal, Node.textContent, Node.textContent] at htext
    rw [Node.cleared, Node.normal, renderNode, renderNode, htext]
  | richCode language children ih =>
    obtain ⟨-, hchildren⟩ := Node.richCode.inj hnormal
    have htext := Node.textContent_normal (.richCode language (Node.clearedAll children))
    have hlink := Node.containsLink_normal (.richCode language (Node.clearedAll children))
    have hcleared := Node.containsLink_cleared (.richCode language children)
    rw [Node.normal, Node.textContent, Node.textContent] at htext
    rw [Node.normal, Node.containsLink, Node.containsLink] at hlink
    rw [Node.cleared, Node.containsLink, Node.containsLink] at hcleared
    rw [Node.cleared, Node.normal, renderNode, renderNode, htext, hlink, hcleared]
    rw [parts_richCode] at hparts
    split
    · next hlinks =>
      rw [if_pos hlinks] at hparts
      exact linkedCode_alike (hmembers l ih hchildren hself hparts) language
    · rfl
  | link target destination title children ih =>
    obtain ⟨-, -, -, hchildren⟩ := Node.link.inj hnormal
    exact link_alike (hmembers l ih hchildren hself hparts) _ title
  | paragraph children ih =>
    exact element_alike (hmembers l ih (Node.paragraph.inj hnormal) hself hparts) "p" ∅
  | heading level anchor children ih =>
    obtain ⟨-, -, hchildren⟩ := Node.heading.inj hnormal
    exact heading_alike (hmembers true ih hchildren hself hparts) level anchor
  | list style items ih =>
    obtain ⟨-, hchildren⟩ := Node.list.inj hnormal
    simp only [parts, List.forall_mem_map] at hparts
    rw [Node.cleared, Node.normal, renderNode, renderNode]
    simp only [renderParts_eq_map, Node.normals_eq_map, Node.clearedAll_eq_map, List.map_map,
      Function.comp_def]
    exact list_alike (hitems ih hchildren hparts) style
  | table header rows ihheader ihrows =>
    obtain ⟨hheader, hrows⟩ := Node.table.inj hnormal
    simp only [parts, List.forall_mem_map, List.forall_mem_append, List.forall_mem_flatten] at hparts
    rw [Node.cleared, Node.normal, renderNode, renderNode]
    simp only [renderParts_eq_map, renderRows_eq_map, Node.normals_eq_map, Node.normalRows_eq_map,
      Node.clearedAll_eq_map, Node.clearedRows_eq_map, List.map_map, Function.comp_def]
    exact table_alike (hitems ihheader hheader hparts.1) fun row hrow =>
      hitems (ihrows row hrow) (Node.normal_rows hrows row hrow) (hparts.2 row hrow)
  | collapsible summary children ihsummary ih =>
    obtain ⟨hsummary, hchildren⟩ := Node.collapsible.inj hnormal
    rw [parts, List.forall_mem_cons] at hparts
    have hbody := hmembers l ih hchildren hself hparts.2
    rw [Node.cleared, Node.normal, renderNode, renderNode]
    exact (collapsible_alike hbody (framed_renderNode hhead _)).trans
      (summary_alike (ihsummary hsummary hparts.1) _)
  | page metadata children ih =>
    obtain ⟨-, hchildren⟩ := Node.page.inj hnormal
    exact then_alike (bind_alike (hmembers l ih hchildren hself hparts) fun _ => rfl)

/-- With comments left out, the Markdown of a tree is that of its normal form with an empty group for
every comment that need not persist. It is the Markdown of the tree with empty groups for these
comments, or fails with an error of the same kind, if none of them keeps two lists apart, or a text
that begins with a number sign behind a line that may be blank, and if no emphasis holds nothing
but them. -/
theorem toMarkdown_stripped (o : Options) (node : Node) :
    toMarkdown { o with stripComments := true } node =
        renderRaw { o with stripComments := false } node.normal.cleared ∧
      ((∀ q, Rendered ⟨false, node.normal⟩ q → q.node.shedsQuietly) →
        (toMarkdown { o with stripComments := true } node).mapError RenderError.variant =
          (toMarkdown { o with stripComments := false } node.cleared).mapError
            RenderError.variant) := by
  have hstripped : toMarkdown { o with stripComments := true } node =
      renderRaw { o with stripComments := false } node.normal.cleared :=
    renderRaw_stripped o node.normal
  refine ⟨hstripped, fun h => ?_⟩
  have hshed : (render { o with stripComments := false } node.normal.cleared.normal).outcome =
      (render { o with stripComments := false } node.normal.cleared).outcome :=
    shed_renderNode framed_pageHead (Node.settled_normal node).1 h
  rw [hstripped, toMarkdown, ← Node.normal_cleared_normal node]
  rw [renderRaw, renderRaw, mapError_toText, mapError_toText, hshed]

/-- Comments between texts, in front of a list and next to a word in emphasis. -/
def quietComments : Node :=
  .group [.text "a ", .comment "c" false, .text "b", .comment "d" false, .comment "e" true,
    .list .unordered [.group [.comment "f" false, .text "g"]],
    .emphasis .bold [.comment "h" false, .text "i"]]

theorem toMarkdown_stripped_quietComments :
    (∀ q, Rendered ⟨false, quietComments.normal⟩ q → q.node.shedsQuietly) ∧
      (toMarkdown { stripComments := true } quietComments).mapError RenderError.variant =
        (toMarkdown {} quietComments.cleared).mapError RenderError.variant := by
  have hnodes : ∀ m ∈ quietComments.normal.nodes, m.shedsQuietly := by decide
  have hquiet : ∀ q, Rendered ⟨false, quietComments.normal⟩ q → q.node.shedsQuietly :=
    fun q hq => hnodes _ hq.mem_nodes
  exact ⟨hquiet, (toMarkdown_stripped {} quietComments).2 hquiet⟩

/-- Two lists with a comment between them. -/
def keptApart : Node :=
  .group [.list .unordered [.text "a"], .comment "c" false, .list .unordered [.text "b"]]

theorem toMarkdown_keptApart :
    toMarkdown { stripComments := true } keptApart = .ok "\n- a\n\n- b\n" ∧
      toMarkdown {} keptApart.cleared = .ok "\n- a\n\n<!-- -->\n\n- b\n" ∧
      (toMarkdown { stripComments := true } keptApart).mapError RenderError.variant ≠
        (toMarkdown {} keptApart.cleared).mapError RenderError.variant := by
  have hcode : toMarkdown { stripComments := true } keptApart = .ok "\n- a\n\n- b\n" := by
    decide +kernel
  have hlists : toMarkdown {} keptApart.cleared = .ok "\n- a\n\n<!-- -->\n\n- b\n" := by
    decide +kernel
  refine ⟨hcode, hlists, ?_⟩
  rw [hcode, hlists]
  exact fun h => absurd (Except.ok.inj h) (by decide)

end DocTree.Markdown
