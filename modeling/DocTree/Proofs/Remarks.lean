import DocTree.Node.Check
import DocTree.Proofs.NormalForm

/-! What is remarked on a tree and on its normal form. Opening groups and merging texts leaves every
remark in its place, but an element that cannot have children may have had none but empty groups: then
the remark that its children are dropped is gone with them. -/
namespace DocTree

/-- The remark on an element that cannot have the children it has. -/
def Diagnostic.onDropped (d : Diagnostic) : Bool := d.severity = .warning ∧ d.code = "V020"

namespace Node
variable {after before after' before' : List Diagnostic} {nodes children : List Node}

/-- Remarks of which none but some on dropped children are left out. -/
structure Thinned (after before : List Diagnostic) : Prop where
  sublist : after.Sublist before
  rest : after.filter (!·.onDropped) = before.filter (!·.onDropped)

theorem Thinned.refl (remarks : List Diagnostic) : Thinned remarks remarks := ⟨.refl _, rfl⟩

theorem Thinned.append (h : Thinned after before) (h' : Thinned after' before') :
    Thinned (after ++ after') (before ++ before') :=
  ⟨h.sublist.append h'.sublist, by rw [List.filter_append, List.filter_append, h.rest, h'.rest]⟩

/-- What is left out are warnings, so the errors are the same. -/
theorem Thinned.errors (h : Thinned after before) :
    after.filter (·.severity = .error) = before.filter (·.severity = .error) := by
  have herrors (remarks : List Diagnostic) : remarks.filter (·.severity = .error) =
      (remarks.filter (!·.onDropped)).filter (·.severity = .error) := by
    rw [List.filter_filter]
    refine List.filter_congr fun d _ => ?_
    cases hseverity : d.severity <;> simp [Diagnostic.onDropped, hseverity]
  rw [herrors after, h.rest, ← herrors before]

theorem checks_eq_flatMap (nodes : List Node) : checks nodes = nodes.flatMap check := by
  induction nodes with
  | nil => rfl
  | cons node rest ih => rw [checks, ih, List.flatMap_cons]

theorem checks_append (before after : List Node) :
    checks (before ++ after) = checks before ++ checks after := by
  simp only [checks_eq_flatMap, List.flatMap_append]

theorem checks_spliced (node : Node) : checks (spliced node) = node.check := by
  cases node <;> simp [spliced, checks, check]

/-- A group is not remarked on and neither is a text, so nothing changes for siblings. -/
theorem checks_joined (nodes : List Node) : checks (joined nodes) = checks nodes := by
  have hspliced : checks (nodes.flatMap spliced) = checks nodes := by
    induction nodes with
    | nil => rfl
    | cons node rest ih => rw [List.flatMap_cons, checks_append, checks_spliced, ih, checks]
  refine joined_induction (P := fun merged => checks merged = _) hspliced
    fun before s t after ih => ?_
  rw [← ih]
  simp only [checks_append, checks, check, List.nil_append]

theorem check_unwrapped (node : Node) : (unwrapped node).check = node.check := by
  unfold unwrapped
  split
  · rw [check, checks, checks, List.append_nil]
  · rfl

theorem checks_unwrapped (nodes : List Node) : checks (nodes.map unwrapped) = checks nodes := by
  simp only [checks_eq_flatMap, List.flatMap_map, check_unwrapped]

theorem thinned_normals (h : ∀ n ∈ nodes, Thinned n.normal.check n.check) :
    Thinned (checks (normals nodes)) (checks nodes) := by
  induction nodes with
  | nil => exact .refl []
  | cons node rest ih =>
    obtain ⟨hnode, hrest⟩ := List.forall_mem_cons.1 h
    exact hnode.append (ih hrest)

theorem thinned_joined (h : ∀ n ∈ children, Thinned n.normal.check n.check) :
    Thinned (checks (joined (normals children))) (checks children) :=
  checks_joined (normals children) ▸ thinned_normals h

theorem thinned_unwrapped (h : ∀ n ∈ nodes, Thinned n.normal.check n.check) :
    Thinned (checks ((normals nodes).map unwrapped)) (checks nodes) :=
  checks_unwrapped (normals nodes) ▸ thinned_normals h

/-- Only the sizes of rows are remarked on in a table itself. -/
theorem checkTable_map {α β : Type} (f : α → β) (header : List α) (rows : List (List α)) :
    checkTable (header.map f) (rows.map (·.map f)) = checkTable header rows := by
  have hsizes (columns number : Nat) :
      checkRowSizes columns number (rows.map (·.map f)) = checkRowSizes columns number rows := by
    induction rows generalizing number with
    | nil => rfl
    | cons row rest ih => simp only [List.map_cons, checkRowSizes, List.length_map, ih]
  simp only [checkTable, columnCount_map, hsizes]

/-- An element that loses its children loses at most the remark on them. -/
theorem thinned_checkElement (tag : String) {had has : Bool} (h : has → had) :
    Thinned (checkElement tag has) (checkElement tag had) := by
  unfold checkElement
  split
  · exact .refl _
  · cases had with
    | false =>
      obtain rfl : has = false := Bool.eq_false_iff.2 fun hhas => Bool.false_ne_true (h hhas)
      exact .refl _
    | true =>
      cases has with
      | true => exact .refl _
      | false =>
        simp only [Bool.false_eq_true, and_false, if_false, and_true]
        split
        · exact ⟨List.nil_sublist _, rfl⟩
        · exact .refl []

theorem thinned_normal (node : Node) : Thinned node.normal.check node.check := by
  induction node with
  | text | rule | comment | image | code | notice => exact .refl _
  | group children ih | quote children ih | emphasis style children ih | codeSpan children ih
  | richCode language children ih | paragraph children ih => exact thinned_joined ih
  | heading level anchor children ih | page metadata children ih =>
    exact (Thinned.refl _).append (thinned_joined ih)
  | link target destination title children ih =>
    cases target <;> exact (Thinned.refl _).append (thinned_joined ih)
  | element tag attributes children ih =>
    refine (thinned_checkElement tag fun hhas => ?_).append (thinned_joined ih)
    cases children with
    | nil => exact hhas
    | cons => rfl
  | list style items ih => exact thinned_unwrapped ih
  | table header rows ihheader ihrows =>
    have hrows : Thinned (checkRows (normalRows rows)) (checkRows rows) := by
      induction rows with
      | nil => exact .refl []
      | cons row rest ih =>
        obtain ⟨hrow, hrest⟩ := List.forall_mem_cons.1 ihrows
        exact (thinned_unwrapped hrow).append (ih hrest)
    have hsizes : checkTable ((normals header).map unwrapped) (normalRows rows) =
        checkTable header rows := by
      rw [normals_eq_map, normalRows_eq_map, List.map_map]
      simp only [List.map_map]
      exact checkTable_map (unwrapped ∘ normal) header rows
    refine Thinned.append (Thinned.append ?_ (thinned_unwrapped ihheader)) hrows
    rw [hsizes]
    exact .refl _
  | collapsible summary children ihsummary ih => exact ihsummary.append (thinned_joined ih)

/-- A tree and its normal form, which is what is rendered, have the same remarks but for those on
dropped children, of which the normal form has no others than the tree. So they have the same errors. -/
theorem check_normal (node : Node) :
    node.normal.check.filter (!·.onDropped) = node.check.filter (!·.onDropped) ∧
      node.normal.check.Sublist node.check ∧
      node.normal.check.filter (·.severity = .error) = node.check.filter (·.severity = .error) ∧
      ∀ o, Markdown.toMarkdown o node = Markdown.renderRaw o node.normal := by
  have hthinned := thinned_normal node
  exact ⟨hthinned.rest, hthinned.sublist, hthinned.errors, fun _ => rfl⟩

/-- An empty group is a child of a tree and none of its normal form. -/
example : (element "br" .empty [group []]).check.any (·.onDropped) ∧
    (element "br" .empty [group []]).normal.check = [] := by cbv

end Node
end DocTree
