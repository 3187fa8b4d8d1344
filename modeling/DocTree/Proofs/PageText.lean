import DocTree.Api.Json
import DocTree.Command.Config
import DocTree.Proofs.Building
import DocTree.Proofs.Cell
import Mathlib.Data.List.Forall2

/-! The pages of a site are rendered one by one. Each begins with the notice, and no text that
begins so is a document in JSON: a page in the place of a configuration or of a model cannot be
read. -/
namespace DocTree

theorem exists_of_bind_ok {ε α β : Type} {x : Except ε α} {f : α → Except ε β} {b : β}
    (h : x >>= f = .ok b) : ∃ a, x = .ok a ∧ f a = .ok b := by
  cases x with
  | error e => cases h
  | ok a => exact ⟨a, rfl, h⟩

theorem error_of_bind {ε α β : Type} {x : Except ε α} {f : α → Except ε β} {e : ε}
    (h : x >>= f = .error e) : x = .error e ∨ ∃ a, x = .ok a ∧ f a = .error e := by
  cases x with
  | error e =>
    cases h
    exact .inl rfl
  | ok a => exact .inr ⟨a, rfl, h⟩

theorem forall_mem_of_forall₂ {α β : Type} {R : α → β → Prop} {P : α → Prop} {as : List α}
    {bs : List β} (h : List.Forall₂ R as bs) (hP : ∀ a b, R a b → P a) : ∀ a ∈ as, P a := by
  induction h with
  | nil => exact List.forall_mem_nil _
  | cons hab _ ih => exact List.forall_mem_cons.2 ⟨hP _ _ hab, ih⟩

theorem error_of_map {ε α β : Type} {x : Except ε α} {f : α → β} {e : ε}
    (h : x.map f = .error e) : x = .error e := by
  cases x with
  | error e =>
    cases h
    rfl
  | ok a => cases h

end DocTree

namespace DocTree.Json

theorem ofText?_of_angle {text : String} (h : text.toList.head? = some '<') :
    ofText? text = none := by
  obtain ⟨rest, hlist⟩ := List.head?_eq_some_iff.1 h
  have hnumber : readNumber ('<' :: rest) = none := rfl
  have hvalue (fuel : Nat) : readValue (fuel + 1) ('<' :: rest) = none := by
    rw [readValue]
    exact hnumber
  rw [ofText?, hlist, hvalue]
  rfl

theorem ofShallowText?_of_angle {text : String} (h : text.toList.head? = some '<') :
    ofShallowText? text = none := by
  rw [ofShallowText?, ofText?_of_angle h]
  rfl

end DocTree.Json

namespace DocTree.Markdown
open Render

theorem head?_of_prefix {out out' : Output} (h : out.Extends out')
    (hstart : out.text.toList.head? = some '<') : out'.text.toList.head? = some '<' := by
  obtain ⟨added, htext, -⟩ := h.buffer.text
  have hlist : out'.text.toList = out.text.toList ++ added.toList := by
    rw [← String.toList_append]
    exact congrArg String.toList htext
  rw [hlist, List.head?_append, hstart]
  rfl

/-- A page begins with the angle of its notice. -/
theorem toMarkdown_page {o : Options} {metadata : PageMetadata} {children : List Node}
    {text : String} (h : toMarkdown o (.page metadata children) = .ok text) :
    text.toList.head? = some '<' := by
  obtain ⟨out, hout, rfl⟩ := renderRaw_ok h
  have hopened : (notice {}).2.text.toList.head? = some '<' := by decide
  rw [Node.normal, render, renderNode] at hout
  obtain ⟨⟨⟩, titled, hhead, hbody⟩ := bind_eq_ok hout
  rw [pageHead] at hhead
  obtain ⟨⟨⟩, noted, hnotice, htitle⟩ := bind_eq_ok hhead
  rw [hnotice] at hopened
  have htitled : noted.Extends titled := by
    refine Framed.of_eq (((framed_writeEscaped _).heading 1 none).then ?_) htitle
    split
    · exact framed_pure ()
    · exact framed_renderNode (fun _ => framed_pure ()) _
  have hwritten : titled.Extends out :=
    Framed.of_eq ((framed_renderNodes (fun n _ => framed_renderNode framed_pageHead n) _).then
      framed_ensureNewLine) hbody
  exact head?_of_prefix (htitled.trans hwritten) hopened

end DocTree.Markdown

namespace DocTree.Site

theorem markdownPages_ok {config : Config} {nodes : List (String × Node)}
    {pages : List (String × String)} (h : markdownPages config nodes = .ok pages) :
    List.Forall₂ (fun node page => page.1 = node.1 ∧
      Markdown.toMarkdown (config.options node.1) node.2 = .ok page.2) nodes pages := by
  induction nodes generalizing pages with
  | nil =>
    obtain rfl := Except.ok.inj h
    exact .nil
  | cons node rest ih =>
    obtain ⟨path, node⟩ := node
    rw [markdownPages] at h
    obtain ⟨text, htext, h⟩ := exists_of_bind_ok h
    obtain ⟨more, hmore, h⟩ := exists_of_bind_ok h
    obtain rfl := Except.ok.inj h
    exact .cons ⟨rfl, htext⟩ (ih hmore)

/-- All pages are rendered, or it fails as one of them does. -/
theorem markdownPages_error {config : Config} {nodes : List (String × Node)} {e : RenderError}
    (h : markdownPages config nodes = .error e) :
    ∃ node ∈ nodes, Markdown.toMarkdown (config.options node.1) node.2 = .error e := by
  induction nodes with
  | nil => cases h
  | cons node rest ih =>
    obtain ⟨path, node⟩ := node
    rw [markdownPages] at h
    obtain hnode | ⟨text, -, h⟩ := error_of_bind h
    · exact ⟨_, List.mem_cons_self, hnode⟩
    · obtain hrest | ⟨more, -, h⟩ := error_of_bind h
      · obtain ⟨found, hfound, herror⟩ := ih hrest
        exact ⟨found, List.mem_cons_of_mem _ hfound, herror⟩
      · cases h

section Rendered
variable {model : Api.Model} {config : Config}

/-- What is rendered are the pages for the entries of the configuration. -/
theorem forall₂_of_renderPages {built : Built String} (h : renderPages model config = .ok built) :
    List.Forall₂ (fun entry page => page.1 = entry.path ∧
      Markdown.toMarkdown (config.options entry.path) (pageOf (context model config) entry).2 =
        .ok page.2) config.pages built.pages := by
  rw [renderPages] at h
  obtain ⟨nodes, hnodes, h⟩ := exists_of_bind_ok h
  obtain ⟨pages, hpages, h⟩ := exists_of_bind_ok h
  obtain rfl := Except.ok.inj h
  have hrendered := markdownPages_ok hpages
  rwa [buildPages_ok hnodes, List.forall₂_map_left_iff] at hrendered

theorem head?_of_renderPages {built : Built String} (h : renderPages model config = .ok built) :
    ∀ page ∈ built.pages, page.2.toList.head? = some '<' :=
  forall_mem_of_forall₂ (forall₂_of_renderPages h).flip fun _ _ hpage =>
    Markdown.toMarkdown_page hpage.2

end Rendered

end DocTree.Site

namespace DocTree.Command

theorem Config.ofJsonText?_of_angle {text : String} (h : text.toList.head? = some '<') :
    ofJsonText? text = none := by
  rw [ofJsonText?, Json.ofShallowText?_of_angle h]
  rfl

end DocTree.Command

namespace DocTree.Api

theorem Model.ofJsonText?_of_angle {text : String} (h : text.toList.head? = some '<') :
    ofJsonText? text = none := by
  rw [ofJsonText?, Json.ofShallowText?_of_angle h]
  rfl

end DocTree.Api
