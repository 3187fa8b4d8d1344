import DocTree.Node.Check
import DocTree.Proofs.Failure

/-! What the remarks on a tree say about rendering it. A tree without errors among its remarks has
its headings and tables in order, but the remarks do not tell where its pages stand. -/
namespace DocTree
open Text Markdown

namespace Node
variable {node : Node} {children : List Node}

/-- No remark is an error. -/
def Passes (remarks : List Diagnostic) : Prop := ∀ d ∈ remarks, d.severity ≠ .error

theorem passes_append {first second : List Diagnostic} :
    Passes (first ++ second) ↔ Passes first ∧ Passes second := List.forall_mem_append

theorem passes_checks : Passes (checks children) ↔ ∀ n ∈ children, Passes n.check := by
  induction children with
  | nil => exact ⟨fun _ => List.forall_mem_nil _, fun _ => List.forall_mem_nil _⟩
  | cons child rest ih => rw [checks, passes_append, ih, List.forall_mem_cons]

theorem passes_checkRows {rows : List (List Node)} :
    Passes (checkRows rows) ↔ ∀ row ∈ rows, ∀ n ∈ row, Passes n.check := by
  induction rows with
  | nil => exact ⟨fun _ => List.forall_mem_nil _, fun _ => List.forall_mem_nil _⟩
  | cons row rest ih => rw [checkRows, passes_append, passes_checks, ih, List.forall_mem_cons]

theorem inOrder_of_checkHeading {level : UInt8} {anchor : Option String}
    (h : Passes (checkHeading level anchor)) : (heading level anchor children).inOrder := by
  obtain ⟨hlevel, hanchor⟩ := passes_append.1 h
  refine inOrder_heading.2 (headingError?_eq_none.2 ⟨?_, fun id hid => ?_⟩)
  · by_contra hout
    rw [if_neg hout] at hlevel
    exact hlevel _ (List.mem_singleton_self _) rfl
  · cases hid
    dsimp only at hanchor
    by_contra hinvalid
    rw [if_neg hinvalid] at hanchor
    exact hanchor _ (List.mem_singleton_self _) rfl

theorem inOrder_of_checkTable {header : List Node} {rows : List (List Node)}
    (h : Passes (checkTable header rows)) : (table header rows).inOrder := by
  have hcolumns := (passes_append.1 h).1
  refine bne_iff_ne.2 fun hnone => ?_
  rw [if_pos hnone] at hcolumns
  exact hcolumns _ (List.mem_singleton_self _) rfl

/-- Without an error among the remarks every heading and every table of a tree is in order. -/
theorem inOrder_of_check (h : Passes node.check) : ∀ m ∈ node.nodes, m.inOrder := by
  have hchildren {children : List Node}
      (ih : ∀ n ∈ children, Passes n.check → ∀ m ∈ n.nodes, m.inOrder)
      (hpass : Passes (checks children)) : ∀ n ∈ children, ∀ m ∈ n.nodes, m.inOrder :=
    fun n hn => ih n hn (passes_checks.1 hpass n hn)
  induction node with
    simp only [nodes, List.forall_mem_cons, List.forall_mem_append, forall_mem_nodesOf,
      forall_mem_nodesOfRows]
  | text | rule | comment | image | code | notice => exact ⟨rfl, List.forall_mem_nil _⟩
  | group children ih | quote children ih | emphasis style children ih | codeSpan children ih
  | richCode language children ih | paragraph children ih | list style children ih =>
    exact ⟨rfl, hchildren ih h⟩
  | element tag attributes children ih | link target destination title children ih
  | page metadata children ih => exact ⟨rfl, hchildren ih (passes_append.1 h).2⟩
  | heading level anchor children ih =>
    obtain ⟨hself, hparts⟩ := passes_append.1 h
    exact ⟨inOrder_of_checkHeading hself, hchildren ih hparts⟩
  | table header rows ihheader ihrows =>
    rw [check, passes_append, passes_append] at h
    obtain ⟨⟨hself, hheader⟩, hrows⟩ := h
    refine ⟨inOrder_of_checkTable hself, hchildren ihheader hheader, fun row hrow n hn => ?_⟩
    exact ihrows row hrow n hn (passes_checkRows.1 hrows row hrow n hn)
  | collapsible summary children ihsummary ih =>
    obtain ⟨hsummary, hparts⟩ := passes_append.1 h
    exact ⟨rfl, ihsummary hsummary, hchildren ih hparts⟩

theorem inOrder_normal (node : Node) : node.normal.inOrder = node.inOrder := by
  cases node with
  | table header rows =>
    have hcolumns := columnCount_map (fun n => (normal n).unwrapped) header rows
    simp only [normal, inOrder, normals_eq_map, normalRows_eq_map, List.map_map, ← hcolumns,
      Function.comp_def]
  | _ => rfl

theorem isPage_normal (node : Node) : node.normal.isPage = node.isPage := by cases node <;> rfl

theorem strings_normal (node : Node) : node.normal.strings = node.strings := by cases node <;> rfl

end Node

namespace Position
variable {node : Node} {l : Bool}

theorem strings_rendered_normal :
    (∀ q, Rendered ⟨l, node.normal⟩ q → ∀ s ∈ q.node.strings, OneLine s) ↔
      ∀ q, Rendered ⟨l, node⟩ q → ∀ s ∈ q.node.strings, OneLine s :=
  forall_rendered_normal (fun _ _ => List.forall_mem_nil _) (by simp [Node.strings])
    fun l node => by simp only [Node.strings_normal]

theorem inOrder_rendered_normal :
    (∀ q, Rendered ⟨l, node.normal⟩ q → q.InOrder) ↔ ∀ q, Rendered ⟨l, node⟩ q → q.InOrder := by
  have htext (l : Bool) (s : String) : InOrder ⟨l, .text s⟩ := inOrder_of rfl rfl
  exact forall_rendered_normal (fun _ _ => inOrder_of rfl rfl)
    (fun l s t => iff_of_true (htext l _) ⟨htext l s, htext l t⟩)
    fun l node => by simp only [InOrder, Node.inOrder_normal, Node.isPage_normal]

end Position

namespace Markdown
open Position
variable {o : Options} {node : Node}

/-- Where no text holds a line break and the remarks hold no error, a tree cannot be rendered
exactly if it has a page where no line may end: in a heading, in a cell of a table or in the
summary of a collapsible section. -/
theorem toMarkdown_error_iff (ho : o.OneLine)
    (hstrings : ∀ m ∈ node.nodes, ∀ s ∈ m.strings, OneLine s)
    (hcheck : ∀ d ∈ node.check, d.severity ≠ .error) :
    (∃ e, toMarkdown o node = .error e) ↔
      ∃ q, Rendered ⟨false, node⟩ q ∧ q.inLine ∧ q.node.isPage := by
  have hlines : ∀ q, Rendered ⟨false, node.normal⟩ q → ∀ s ∈ q.node.strings, OneLine s :=
    strings_rendered_normal.2 fun q hq => hstrings _ (Rendered.mem_nodes hq)
  have hfails : (∃ e, toMarkdown o node = .error e) ↔
      ¬ ∃ markdown, renderRaw o node.normal = .ok markdown := by
    rw [toMarkdown]
    cases renderRaw o node.normal <;> simp
  have horder : ∀ q, Rendered ⟨false, node⟩ q → (q.InOrder ↔ ¬ (q.inLine ∧ q.node.isPage)) :=
    fun q hq => and_iff_right (Node.inOrder_of_check hcheck _ (Rendered.mem_nodes hq))
  rw [hfails, renderRaw_ok_iff ho hlines, inOrder_rendered_normal, forall₂_congr horder]
  simp only [not_forall, not_not, exists_prop]

def pageInHeading : Node := .heading 2 none [.page ⟨"t", ⟨[]⟩⟩ []]

/-- Nothing is remarked on the page in the heading, and still it cannot be rendered. -/
theorem toMarkdown_pageInHeading :
    (∀ m ∈ pageInHeading.nodes, ∀ s ∈ m.strings, OneLine s) ∧ pageInHeading.check = [] ∧
      toMarkdown {} pageInHeading = .error (.newlineInSingleLine "\n") :=
  ⟨by decide, by decide, by decide +kernel⟩

def pageInCell : Node := .table [.group [.page ⟨"t", ⟨[]⟩⟩ []]] []

theorem toMarkdown_error_iff_pageInCell : ∃ e, toMarkdown {} pageInCell = .error e := by
  have ho : Options.OneLine {} := ⟨by decide, by simp⟩
  have hrendered : Rendered ⟨false, pageInCell⟩ ⟨true, .page ⟨"t", ⟨[]⟩⟩ []⟩ :=
    .head (List.mem_singleton_self _) (.single (List.mem_singleton_self _))
  exact (toMarkdown_error_iff ho (by decide) (by decide)).2 ⟨_, hrendered, rfl, rfl⟩

end Markdown
end DocTree
