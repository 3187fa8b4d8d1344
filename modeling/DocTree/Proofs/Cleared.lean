import DocTree.Proofs.NormalForm

/-! Trees without comments that need not persist. Where such a comment stood, an empty group is
left. Leaving comments out as a tree is rendered is rendering the tree without them, and it makes no
difference to the normal form whether they are taken out before the pass or both before and behind
it. -/
namespace DocTree.Node

/-- A comment that need not persist. -/
def isTransient : Node → Bool
  | comment _ persist => !persist
  | _ => false

mutual

/-- The tree with an empty group in place of every comment that need not persist. -/
def cleared : Node → Node
  | comment s persist => if persist then comment s persist else group []
  | group children => group (clearedAll children)
  | quote children => quote (clearedAll children)
  | element tag attributes children => element tag attributes (clearedAll children)
  | emphasis style children => emphasis style (clearedAll children)
  | codeSpan children => codeSpan (clearedAll children)
  | richCode language children => richCode language (clearedAll children)
  | link target destination title children => link target destination title (clearedAll children)
  | paragraph children => paragraph (clearedAll children)
  | heading level anchor children => heading level anchor (clearedAll children)
  | list style items => list style (clearedAll items)
  | table header rows => table (clearedAll header) (clearedRows rows)
  | collapsible summary children => collapsible summary.cleared (clearedAll children)
  | page metadata children => page metadata (clearedAll children)
  | text s => text s
  | rule => rule
  | image src title alt => image src title alt
  | code language s => code language s
  | notice => notice

def clearedAll : List Node → List Node
  | [] => []
  | node :: rest => node.cleared :: clearedAll rest

def clearedRows : List (List Node) → List (List Node)
  | [] => []
  | row :: rest => clearedAll row :: clearedRows rest

end

variable {node : Node} {nodes children : List Node}

theorem clearedAll_eq_map (nodes : List Node) : clearedAll nodes = nodes.map cleared := by
  induction nodes with
  | nil => rfl
  | cons node rest ih => simp [clearedAll, ih]

theorem clearedRows_eq_map (rows : List (List Node)) :
    clearedRows rows = rows.map (·.map cleared) := by
  induction rows with
  | nil => rfl
  | cons row rest ih => simp [clearedRows, clearedAll_eq_map, ih]

theorem cleared_of_transient (h : node.isTransient) : node.cleared = group [] := by
  cases node with
  | comment s persist => simp_all [isTransient, cleared]
  | _ => cases h

theorem isList_cleared (node : Node) : node.cleared.isList = node.isList := by
  cases node with
  | comment s persist => cases persist <;> rfl
  | _ => rfl

theorem isEmpty_clearedAll (nodes : List Node) : (clearedAll nodes).isEmpty = nodes.isEmpty := by
  cases nodes <;> rfl

theorem textsContent_clearedAll (h : ∀ n ∈ nodes, n.cleared.textContent = n.textContent) :
    textsContent (clearedAll nodes) = textsContent nodes := by
  induction nodes with
  | nil => rfl
  | cons node rest ih =>
    obtain ⟨hnode, hrest⟩ := List.forall_mem_cons.1 h
    rw [clearedAll, textsContent, textsContent, hnode, ih hrest]

theorem textContent_cleared (node : Node) : node.cleared.textContent = node.textContent := by
  induction node with
  | text | rule | image | code | notice => rfl
  | comment s persist => cases persist <;> rfl
  | group children ih | quote children ih | element tag attributes children ih
  | emphasis style children ih | codeSpan children ih | richCode language children ih
  | link target destination title children ih | paragraph children ih
  | heading level anchor children ih | list style children ih | page metadata children ih =>
    exact textsContent_clearedAll ih
  | table header rows ihheader ihrows =>
    have hrows : rowsContent (clearedRows rows) = rowsContent rows := by
      induction rows with
      | nil => rfl
      | cons row rest ih =>
        obtain ⟨hrow, hrest⟩ := List.forall_mem_cons.1 ihrows
        rw [clearedRows, rowsContent, rowsContent, textsContent_clearedAll hrow, ih hrest]
    rw [cleared, textContent, textContent, textsContent_clearedAll ihheader, hrows]
  | collapsible summary children ihsummary ih =>
    rw [cleared, textContent, textContent, ihsummary, textsContent_clearedAll ih]

theorem anyContainsLink_clearedAll (h : ∀ n ∈ nodes, n.cleared.containsLink = n.containsLink) :
    anyContainsLink (clearedAll nodes) = anyContainsLink nodes := by
  induction nodes with
  | nil => rfl
  | cons node rest ih =>
    obtain ⟨hnode, hrest⟩ := List.forall_mem_cons.1 h
    rw [clearedAll, anyContainsLink, anyContainsLink, hnode, ih hrest]

theorem containsLink_cleared (node : Node) : node.cleared.containsLink = node.containsLink := by
  induction node with
  | text | rule | image | code | notice | table | link => rfl
  | comment s persist => cases persist <;> rfl
  | group children ih | quote children ih | element tag attributes children ih
  | emphasis style children ih | codeSpan children ih | richCode language children ih
  | paragraph children ih | heading level anchor children ih | list style children ih
  | page metadata children ih | collapsible summary children _ ih =>
    exact anyContainsLink_clearedAll ih

section Normal

theorem pushMerged_text_append (reversed : List Node) (s t : String) :
    pushMerged (pushMerged reversed (text s)) (text t) = pushMerged reversed (text (s ++ t)) := by
  cases reversed with
  | nil => rfl
  | cons last rest =>
    cases last with
    | text u => simp only [pushMerged, String.append_assoc]
    | _ => rfl

/-- Texts that are merged before the pass are merged by it. -/
theorem foldl_pushMerged_congr {before after : List Node}
    (h : Relation.ReflTransGen Merges before after) (reversed : List Node) :
    before.foldl pushMerged reversed = after.foldl pushMerged reversed := by
  induction h with
  | refl => rfl
  | tail _ hstep ih =>
    obtain ⟨front, s, t, back⟩ := hstep
    rw [ih, List.foldl_append, List.foldl_append, List.foldl_cons, List.foldl_cons, List.foldl_cons,
      pushMerged_text_append]

theorem joined_group_joined (children : List Node) :
    joined [group (joined children)] = joined children := by
  rw [joined, List.flatMap_singleton, spliced, ← foldl_pushMerged_congr (merges_joined children)]
  rfl

/-- The nodes that a child comes to once comments are gone. -/
def remnants (node : Node) : List Node := spliced node.cleared.normal

theorem joined_clearedAll (nodes : List Node) :
    joined (normals (clearedAll nodes)) =
      ((nodes.flatMap remnants).foldl pushMerged []).reverse := by
  rw [joined, normals_eq_map, clearedAll_eq_map, List.map_map, List.flatMap_map]
  rfl

theorem foldl_remnants_spliced (nodes reversed : List Node) :
    ((nodes.flatMap spliced).flatMap remnants).foldl pushMerged reversed =
      (nodes.flatMap remnants).foldl pushMerged reversed := by
  induction nodes generalizing reversed with
  | nil => rfl
  | cons node rest ih =>
    have hnode : ((spliced node).flatMap remnants).foldl pushMerged reversed =
        (remnants node).foldl pushMerged reversed := by
      by_cases hgroup : node.isGroup
      · cases node <;> cases hgroup
        next children =>
        have hremnants : remnants (group children) = joined (normals (clearedAll children)) := rfl
        rw [hremnants, joined_clearedAll, spliced,
          foldl_pushMerged_congr (merges_foldl (children.flatMap remnants))]
      · rw [spliced_eq_self hgroup, List.flatMap_singleton]
    simp only [List.flatMap_cons, List.flatMap_append, List.foldl_append]
    rw [hnode, ih]

/-- Joining siblings before comments are taken out makes no difference to what joining them
afterwards comes to. -/
theorem joined_clearedAll_joined (nodes : List Node) :
    joined (normals (clearedAll (joined nodes))) = joined (normals (clearedAll nodes)) := by
  rw [joined_clearedAll, joined_clearedAll]
  refine joined_induction (P := fun merged =>
    ((merged.flatMap remnants).foldl pushMerged []).reverse = _) ?_ ?_
  · rw [foldl_remnants_spliced]
  · intro before s t after ih
    have hstep : Merges ((before ++ text s :: text t :: after).flatMap remnants)
        ((before ++ text (s ++ t) :: after).flatMap remnants) := by
      simp only [List.flatMap_append, List.flatMap_cons]
      exact .texts _ s t _
    rw [← ih, foldl_pushMerged_congr (.single hstep)]

theorem unwrapped_group_joined (node : Node) :
    unwrapped (group (joined [node.normal])) = unwrapped node.normal := by
  cases node with
  | group children => rw [normal, joined_group_joined]
  | _ => rfl

theorem unwrapped_cleared (node : Node) :
    unwrapped (unwrapped node).cleared.normal = unwrapped node.cleared.normal := by
  cases node with
  | group children =>
    cases children with
    | nil => rfl
    | cons first rest =>
      cases rest with
      | nil => exact (unwrapped_group_joined first.cleared).symm
      | cons => rfl
  | _ => rfl

theorem joined_clearedAll_normals (h : ∀ n ∈ children, n.normal.cleared.normal = n.cleared.normal) :
    joined (normals (clearedAll (joined (normals children)))) =
      joined (normals (clearedAll children)) := by
  rw [joined_clearedAll_joined, normals_eq_map, normals_eq_map, normals_eq_map, clearedAll_eq_map,
    clearedAll_eq_map]
  simp only [List.map_map]
  exact congrArg joined (List.map_congr_left h)

theorem unwrapped_clearedAll_normals
    (h : ∀ n ∈ children, n.normal.cleared.normal = n.cleared.normal) :
    (normals (clearedAll ((normals children).map unwrapped))).map unwrapped =
      (normals (clearedAll children)).map unwrapped := by
  simp only [normals_eq_map, clearedAll_eq_map, List.map_map]
  refine List.map_congr_left fun n hn => ?_
  simp only [Function.comp_apply]
  rw [unwrapped_cleared, h n hn]

/-- Comments taken out of a normal form leave the normal form of the tree without them. -/
theorem normal_cleared_normal (node : Node) : node.normal.cleared.normal = node.cleared.normal := by
  induction node with
  | text | rule | image | code | notice => rfl
  | comment s persist => cases persist <;> rfl
  | group children ih | quote children ih | element tag attributes children ih
  | emphasis style children ih | codeSpan children ih | richCode language children ih
  | link target destination title children ih | paragraph children ih
  | heading level anchor children ih | page metadata children ih =>
    rw [normal, cleared, cleared, normal, normal, joined_clearedAll_normals ih]
  | list style items ih =>
    rw [normal, cleared, cleared, normal, normal, unwrapped_clearedAll_normals ih]
  | table header rows ihheader ihrows =>
    have hrows : normalRows (clearedRows (normalRows rows)) = normalRows (clearedRows rows) := by
      induction rows with
      | nil => rfl
      | cons row rest ih =>
        obtain ⟨hrow, hrest⟩ := List.forall_mem_cons.1 ihrows
        rw [normalRows, clearedRows, clearedRows, normalRows, normalRows,
          unwrapped_clearedAll_normals hrow, ih hrest]
    rw [normal, cleared, cleared, normal, normal, unwrapped_clearedAll_normals ihheader, hrows]
  | collapsible summary children ihsummary ih =>
    rw [normal, cleared, cleared, normal, normal, ihsummary, joined_clearedAll_normals ih]

end Normal

end DocTree.Node

namespace DocTree.Markdown
open Render
variable {head : PageMetadata → Render Unit}

/-- Leaving comments out on the way is rendering the tree without them. -/
theorem renderNode_cleared (o : Options) (node : Node) :
    renderNode { o with stripComments := true } head node =
      renderNode { o with stripComments := false } head node.cleared := by
  have hall {children : List Node}
      (ih : ∀ n ∈ children, renderNode { o with stripComments := true } head n =
        renderNode { o with stripComments := false } head n.cleared) (afterList : Bool) :
      renderNodes { o with stripComments := true } head afterList children =
        renderNodes { o with stripComments := false } head afterList (Node.clearedAll children) := by
    induction children generalizing afterList with
    | nil => rfl
    | cons node rest ihrest =>
      obtain ⟨hnode, hrest⟩ := List.forall_mem_cons.1 ih
      rw [Node.clearedAll, renderNodes, renderNodes, hnode, Node.isList_cleared, ihrest hrest]
  have hmap {items : List Node}
      (ih : ∀ n ∈ items, renderNode { o with stripComments := true } head n =
        renderNode { o with stripComments := false } head n.cleared) :
      renderParts { o with stripComments := true } head items =
        renderParts { o with stripComments := false } head (Node.clearedAll items) := by
    rw [renderParts_eq_map, renderParts_eq_map, Node.clearedAll_eq_map, List.map_map]
    exact List.map_congr_left ih
  induction node with
  | text | rule | image | code | notice => rfl
  | comment s persist => cases persist <;> rfl
  | group children ih | quote children ih | element tag attributes children ih
  | paragraph children ih | heading level anchor children ih | page metadata children ih =>
    rw [Node.cleared, renderNode, renderNode, hall ih]
  | link target destination title children ih =>
    rw [Node.cleared, renderNode, renderNode, hall ih]
    rfl
  | emphasis style children ih =>
    rw [Node.cleared, renderNode, renderNode, hall ih, Node.isEmpty_clearedAll]
  | codeSpan children =>
    rw [Node.cleared, renderNode, renderNode,
      Node.textsContent_clearedAll fun n _ => Node.textContent_cleared n]
  | richCode language children ih =>
    rw [Node.cleared, renderNode, renderNode, hall ih,
      Node.textsContent_clearedAll fun n _ => Node.textContent_cleared n,
      Node.anyContainsLink_clearedAll fun n _ => Node.containsLink_cleared n]
  | list style items ih => rw [Node.cleared, renderNode, renderNode, hmap ih]
  | table header rows ihheader ihrows =>
    have hrows : renderRows { o with stripComments := true } head rows =
        renderRows { o with stripComments := false } head (Node.clearedRows rows) := by
      induction rows with
      | nil => rfl
      | cons row rest ih =>
        obtain ⟨hrow, hrest⟩ := List.forall_mem_cons.1 ihrows
        rw [Node.clearedRows, renderRows, renderRows, hmap hrow, ih hrest]
    rw [Node.cleared, renderNode, renderNode, hmap ihheader, hrows]
  | collapsible summary children ihsummary ih =>
    rw [Node.cleared, renderNode, renderNode, ihsummary, hall ih]

theorem renderRaw_stripped (o : Options) (node : Node) :
    renderRaw { o with stripComments := true } node =
      renderRaw { o with stripComments := false } node.cleared := by
  rw [renderRaw, renderRaw, render, render, renderNode_cleared,
    pageHead_alike { o with stripComments := true } { o with stripComments := false }]

end DocTree.Markdown
