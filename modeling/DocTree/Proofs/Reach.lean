import DocTree.Proofs.Failure
import DocTree.Proofs.OpenTag

/-! What a rendering that succeeds has written. Steps around a part of a tree fail with that part, or
never come to it and then do not need it; so when a tree has been rendered, each node at a position
that is rendered has been written to an output of its own. -/
namespace DocTree.Markdown
open Render Position

/-- The steps do not succeed from any output. -/
def Render.Stops (steps : Render Unit) : Prop := ∀ out, (steps out).1 ≠ .ok ()

/-- All errors are allowed. -/
def anyError : RenderError → Prop := fun _ => True

namespace Render
variable {P : Modes → Prop} {l : Bool} {s : String} {steps : Render Unit} {error : RenderError}

theorem covers_anyError : Covers anyError l s := fun _ => .inr fun _ => trivial

theorem Framed.accounts (h : Framed steps) : Accounts anyError P True steps := by
  intro out _
  refine ⟨(h out).modes, ?_⟩
  cases (steps out).1 with
  | ok => trivial
  | error => trivial

theorem accounts_stop : Accounts anyError P False (fail error : Render Unit) := accounts_fail trivial

/-- Steps whose success would be absurd do not succeed. -/
theorem stops_of_accounts (h : ∀ l, Accounts anyError (InLine l) False steps) : Stops steps := by
  intro out hok
  have hsettles := (h out.constrained out rfl).2
  rw [hok] at hsettles
  exact hsettles

/-- Among steps that are framed, those that fail make a list of them fail. -/
theorem accounts_or_stop {first : Render Unit} (h : Framed first ∨ first = fail error) :
    Accounts anyError P (first ≠ fail error) first := by
  by_cases heq : first = fail error
  · rw [heq]
    exact accounts_stop.mono False.elim
  · exact (h.resolve_right heq).accounts.mono fun _ => heq

end Render

variable {o : Options} {node tree : Node} {before after : List Node}

theorem accounts_among {P : Modes → Prop} {error : RenderError} (afterList : Bool) :
    Accounts anyError P False (among o node after afterList before (fail error)) := by
  have hseparate (isList : Bool) {afterList : Bool} :
      Accounts anyError P True (separateLists afterList isList) :=
    (framed_separateLists afterList isList).accounts
  have hafter : Framed (renderNodes o (pageHead o) node.isList after) :=
    framed_renderNodes (fun n _ => framed_render n) _
  induction before generalizing afterList with
  | nil => exact (hseparate _).then (accounts_stop.after hafter.accounts)
  | cons first rest ih => exact (hseparate _).then ((framed_render first).accounts.then (ih _))

/-- The parts around one that fails, and that one. -/
theorem framed_or_stop {error : RenderError} :
    ∀ first ∈ before.map (render o) ++ fail error :: after.map (render o),
      Framed first ∨ first = fail error := by
  intro first hfirst
  obtain hbefore | rfl | hafter := List.mem_append.1 hfirst |>.imp_right List.mem_cons.1
  · exact .inl (framed_renders before _ hbefore)
  · exact .inr rfl
  · exact .inl (framed_renders after _ hafter)

/-- A table succeeds only if none of its cells fails. -/
theorem accounts_table_stops {l : Bool} (error : RenderError) {header : List (Render Unit)}
    {rows : List (List (Render Unit))}
    (hheader : ∀ cell ∈ header, Accounts anyError (InLine true) (cell ≠ fail error) cell)
    (hrows : ∀ row ∈ rows, ∀ cell ∈ row,
      Accounts anyError (InLine true) (cell ≠ fail error) cell) :
    Accounts anyError (InLine l) ((∀ cell ∈ header, cell ≠ fail error) ∧
      ∀ row ∈ rows, ∀ cell ∈ row, cell ≠ fail error) (table header rows) := by
  have htable := accounts_table (l := l) (f := id) hheader hrows fun _ => trivial
  simp only [List.map_id, List.map_id'] at htable
  exact htable.mono And.right

theorem mem_parts_stop (error : RenderError) :
    (fail error : Render Unit) ∈ before.map (render o) ++ fail error :: after.map (render o) :=
  List.mem_append_right _ List.mem_cons_self

/-- A part at a position that is rendered is written by steps around it that fail if it does. -/
theorem exists_part {p q : Position} (hq : q ∈ p.parts) :
    ∃ steps, Part o p.node q.node steps ∧ ∀ error, Stops (steps (fail error)) := by
  obtain ⟨inLine, tree⟩ := p
  have hsplit {children : List Node} {line : Bool} (h : q ∈ children.map (mk line)) :
      ∃ before after, children = before ++ q.node :: after := by
    obtain ⟨n, hn, rfl⟩ := List.mem_map.1 h
    exact List.append_of_mem hn
  have hamong {l : Bool} {before after : List Node} {n : Node} {error : RenderError} :
      Accounts anyError (InLine l) False (among o n after false before (fail error)) :=
    accounts_among false
  have hparts {l : Bool} {before after : List Node} {error : RenderError} :
      ∀ first ∈ before.map (render o) ++ fail error :: after.map (render o),
        Accounts anyError (InLine l) (first ≠ fail error) first :=
    fun first hfirst => accounts_or_stop (framed_or_stop first hfirst)
  cases tree with
  | text | rule | comment | image | code | notice | codeSpan => cases hq
  | group children =>
    obtain ⟨before, after, rfl⟩ := hsplit hq
    exact ⟨_, .group .., fun _ => stops_of_accounts fun _ => hamong⟩
  | quote children =>
    obtain ⟨before, after, rfl⟩ := hsplit hq
    exact ⟨_, .quote .., fun _ => stops_of_accounts fun _ => hamong.quote⟩
  | element tag attributes children =>
    rw [parts_element] at hq
    split at hq
    · cases hq
    · next hclass =>
      obtain ⟨before, after, rfl⟩ := hsplit hq
      exact ⟨_, .element .., fun _ => stops_of_accounts fun _ =>
        hamong.element covers_anyError (fun _ _ => covers_anyError) hclass⟩
  | emphasis style children =>
    obtain ⟨before, after, rfl⟩ := hsplit hq
    exact ⟨_, .emphasis .., fun _ => stops_of_accounts fun _ => hamong.emphasis style false⟩
  | richCode language children =>
    rw [parts_richCode] at hq
    split at hq
    · next hlink =>
      obtain ⟨before, after, rfl⟩ := hsplit hq
      exact ⟨_, .richCode language before q.node after hlink, fun _ =>
        stops_of_accounts fun _ => hamong.linkedCode language⟩
    · cases hq
  | link target destination title children =>
    obtain ⟨before, after, rfl⟩ := hsplit hq
    exact ⟨_, .link .., fun _ => stops_of_accounts fun _ => hamong.link covers_anyError title⟩
  | paragraph children =>
    obtain ⟨before, after, rfl⟩ := hsplit hq
    have hclass : Html.TagClass.ofTag "p" ≠ .void := by decide +kernel
    exact ⟨_, .paragraph .., fun _ => stops_of_accounts fun _ =>
      hamong.element covers_anyError (fun _ _ => covers_anyError) hclass⟩
  | heading level anchor children =>
    obtain ⟨before, after, rfl⟩ := hsplit hq
    exact ⟨_, .heading .., fun _ => stops_of_accounts fun _ =>
      (hamong.heading fun _ _ => trivial).mono And.right⟩
  | list style items =>
    obtain ⟨before, after, rfl⟩ := hsplit hq
    refine ⟨_, .item .., fun error => stops_of_accounts fun l => ?_⟩
    have hitems : Accounts anyError (InLine l)
        (∀ first ∈ before.map (render o) ++ fail error :: after.map (render o), first ≠ fail error)
        (list style ((before.map (render o) ++ fail error :: after.map (render o)).map id)) :=
      accounts_list hparts style
    rw [List.map_id] at hitems
    exact hitems.mono fun h => h _ (mem_parts_stop error) rfl
  | table header rows =>
    have hframed {l : Bool} {error : RenderError} {cells : List Node} :
        ∀ first ∈ cells.map (render o), Accounts anyError (InLine l) (first ≠ fail error) first :=
      fun first hfirst => accounts_or_stop (.inl (framed_renders cells first hfirst))
    obtain ⟨n, hn, rfl⟩ := List.mem_map.1 hq
    obtain hheader | hcell := List.mem_append.1 hn
    · obtain ⟨before, after, rfl⟩ := List.append_of_mem hheader
      refine ⟨_, .header .., fun error => stops_of_accounts fun l => ?_⟩
      refine (accounts_table_stops error hparts ?_).mono fun h =>
        h.1 _ (mem_parts_stop error) rfl
      exact List.forall_mem_map.2 fun row _ => hframed
    · obtain ⟨row, hrow, hmem⟩ := List.mem_flatten.1 hcell
      obtain ⟨above, below, rfl⟩ := List.append_of_mem hrow
      obtain ⟨before, after, rfl⟩ := List.append_of_mem hmem
      refine ⟨_, .cell .., fun error => stops_of_accounts fun l => ?_⟩
      refine (accounts_table_stops error hframed ?_).mono fun h =>
        h.2 _ (List.mem_append_right _ List.mem_cons_self) _ (mem_parts_stop error) rfl
      refine List.forall_mem_append.2 ⟨List.forall_mem_map.2 fun row _ => hframed, ?_⟩
      exact List.forall_mem_cons.2 ⟨hparts, List.forall_mem_map.2 fun row _ => hframed⟩
  | collapsible summary children =>
    have hchildren {l : Bool} : Accounts anyError (InLine l) True
        (renderNodes o (pageHead o) false children) :=
      (framed_renderNodes (fun n _ => framed_render n) false).accounts
    obtain rfl | hchild := List.mem_cons.1 hq
    · exact ⟨_, .summary .., fun _ => stops_of_accounts fun _ =>
        (accounts_stop.collapsible hchildren).mono And.left⟩
    · obtain ⟨before, after, rfl⟩ := hsplit hchild
      exact ⟨_, .collapsible .., fun _ => stops_of_accounts fun _ =>
        ((framed_render summary).accounts.collapsible hamong).mono And.right⟩
  | page metadata children =>
    obtain ⟨before, after, rfl⟩ := hsplit hq
    exact ⟨_, .page .., fun _ => stops_of_accounts fun _ =>
      (framed_pageHead metadata).accounts.then (hamong.after framed_ensureNewLine.accounts)⟩

/-- When a tree has been rendered, so has what is written as a part of it. -/
theorem LeadsTo.ok {v w : Node × Output} (h : LeadsTo o v w) (hok : (render o v.1 v.2).1 = .ok ()) :
    (render o w.1 w.2).1 = .ok () := by
  obtain ⟨steps, hpart, hruns⟩ := h
  cases hresult : (render o w.1 w.2).1 with
  | ok => rfl
  | error error =>
    rw [hpart.render_eq, hruns.1, give_error hresult, hruns.2] at hok
    cases hok

theorem Path.ok {v w : Node × Output} {path : List (Node × Output)} (h : Path o v path w)
    (hok : (render o v.1 v.2).1 = .ok ()) : (render o w.1 w.2).1 = .ok () := by
  induction h with
  | nil => exact hok
  | cons hstep _ ih => exact ih (hstep.ok hok)

/-- When a tree has been rendered, every part of it that is rendered has been written. -/
theorem exists_leadsTo {out : Output} {p q : Position} (hok : (render o p.node out).1 = .ok ())
    (hq : q ∈ p.parts) : ∃ s, LeadsTo o (p.node, out) (q.node, s) := by
  obtain ⟨steps, hpart, hstops⟩ := exists_part (o := o) hq
  obtain hnever | ⟨s, hruns, -⟩ := hpart.carries out
  · rw [hpart.render_eq, hnever _ (fail .emptyTable)] at hok
    exact absurd hok (hstops _ out)
  · exact ⟨s, steps, hpart, hruns⟩

/-- When a tree has been rendered, every node that is rendered in it is the end of a path. -/
theorem exists_path_of_rendered {out : Output} {p q : Position} (h : Rendered p q)
    (hok : (render o p.node out).1 = .ok ()) : ∃ path s, Path o (p.node, out) path (q.node, s) := by
  induction h using Relation.ReflTransGen.head_induction_on generalizing out with
  | refl => exact ⟨[], out, .nil _⟩
  | head hstep _ ih =>
    obtain ⟨mid, hleads⟩ := exists_leadsTo hok hstep
    obtain ⟨path, s, hpath⟩ := ih (hleads.ok hok)
    exact ⟨_ :: path, s, .cons hleads hpath⟩

end DocTree.Markdown
