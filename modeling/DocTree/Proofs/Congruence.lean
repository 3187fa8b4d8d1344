import DocTree.Proofs.OpenTag
import Mathlib.Data.List.Forall2

/-! Rendering as a composition. All that rendering does is put together from a few kinds of steps,
in a way that does not depend on the steps in the place of a part of the tree. What these few kinds
of steps keep therefore holds of every output to which a node of a tree is written. -/
namespace DocTree.Markdown
open Text Render Layout

namespace Render
variable {α : Type}

/-- Writes an item behind its marker. -/
def markedItem (style : ListStyle) (position : Nat) (item : Render Unit) : Render Unit := do
  ensureNewLine
  write (marker style position)
  withIndent (String.ofList (List.replicate (marker style position).length ' ')) <|
    withMode .listItem true do
      markFresh
      item

theorem markedItems_cons (style : ListStyle) (position : Nat) (item : Render Unit)
    (rest : List (Render Unit)) : markedItems style position (item :: rest) = (do
      markedItem style position item
      markedItems style (position + 1) rest) := by
  simp only [markedItems, markedItem, bind_assoc]

/-- The steps are put together from a few kinds of steps in the same way, but for given ones in the
same places. -/
inductive Congruent (given : Render Unit → Render Unit → Prop) : Render Unit → Render Unit → Prop
  | given {steps steps' : Render Unit} (h : given steps steps') : Congruent given steps steps'
  | done : Congruent given (pure ()) (pure ())
  | fail (error : RenderError) : Congruent given (fail error) (fail error)
  | write (s : String) : Congruent given (write s) (write s)
  | skip : Congruent given ensureSkippedLine ensureSkippedLine
  | look {α : Type} (view : Output → α) {next next' : α → Render Unit}
    (h : ∀ a, Congruent given (next a) (next' a)) :
    Congruent given (look view >>= next) (look view >>= next')
  | then {steps steps' next next' : Render Unit} (h : Congruent given steps steps')
    (hnext : Congruent given next next') :
    Congruent given (do steps; next) (do steps'; next')
  | inMode {steps steps' : Render Unit} (mode : Mode) (value : Bool)
    (h : Congruent given steps steps') :
    Congruent given (withMode mode value steps) (withMode mode value steps')
  | block {steps steps' : Render Unit} (h : Congruent given steps steps') :
    Congruent given (paragraphBreak steps) (paragraphBreak steps')
  | quote {body body' : Render Unit} (h : Congruent given body body') :
    Congruent given (quote body) (quote body')
  | item {item item' : Render Unit} (style : ListStyle) (position : Nat)
    (h : Congruent given item item') :
    Congruent given (markedItem style position item) (markedItem style position item')

section Congruent
variable {given : Render Unit → Render Unit → Prop} {steps steps' next next' : Render Unit}

theorem Congruent.ifConstrained (h : Congruent given steps steps')
    (hnext : Congruent given next next') :
    Congruent given (do if ← constrained then steps else next)
      (do if ← constrained then steps' else next') := by
  apply Congruent.look
  intro isConstrained
  cases isConstrained
  · exact hnext
  · exact h

theorem congruent_ensureNewLine : Congruent given ensureNewLine ensureNewLine := by
  apply Congruent.look
  intro atStart
  split
  · exact .done
  · exact .write "\n"

theorem congruent_writeEscaped (s : String) : Congruent given (writeEscaped s) (writeEscaped s) :=
  .look _ fun _ => .write _

theorem congruent_writeLine (s : String) : Congruent given (writeLine s) (writeLine s) :=
  .then (.write _) (.write _)

theorem Congruent.inTable (h : Congruent given steps steps') :
    Congruent given (inTable steps) (inTable steps') :=
  (h.inMode _ _).inMode _ _

theorem Congruent.inSingleLine (h : Congruent given steps steps') :
    Congruent given (inSingleLine steps) (inSingleLine steps') :=
  .look _ fun _ => (h.inMode _ _).inMode _ _

section Inline
variable {body body' : Render Unit}

theorem congruent_attributeValue (value : String) :
    Congruent given (attributeValue value) (attributeValue value) :=
  (((congruent_writeEscaped value).inMode _ _).inMode _ _).inMode _ _

theorem congruent_optionalAttribute (name : String) (value : Option String) :
    Congruent given (optionalAttribute name value) (optionalAttribute name value) := by
  cases value with
  | none => exact .done
  | some value => exact .then (.write _) ((congruent_attributeValue value).then (.write _))

theorem congruent_attributeList (attributes : List (String × String)) :
    Congruent given (attributeList attributes) (attributeList attributes) := by
  induction attributes with
  | nil => exact .done
  | cons e rest ih =>
    exact .then (.write _) <| .then (.write _) <| .then (.write _) <|
      (congruent_attributeValue _).then <| .then (.write _) ih

theorem congruent_openTag (tag : String) (attributes : Dict String) (selfClosing : Bool) :
    Congruent given (openTag tag attributes selfClosing) (openTag tag attributes selfClosing) :=
  .then (.write _) <| .then (.write _) <| (congruent_attributeList _).then (.write _)

theorem congruent_optionalAnchor (anchor : Option String) :
    Congruent given (optionalAnchor anchor) (optionalAnchor anchor) := by
  cases anchor with
  | none => exact .done
  | some id => exact .write _

theorem congruent_linkTail (destination : String) (title : Option String) :
    Congruent given (linkTail destination title) (linkTail destination title) := by
  refine .then (.write _) <| .look _ fun inTable => .then (.write _) ?_
  cases title with
  | none => exact .write _
  | some title => exact .then (.write _) (.write _)

theorem Congruent.link (h : Congruent given body body') (destination : String)
    (title : Option String) :
    Congruent given (link destination title body) (link destination title body') := by
  apply Congruent.look
  intro code
  split
  · exact h
  apply Congruent.look
  intro html
  split
  · exact .then (.write _) <| (congruent_attributeValue _).then <| .then (.write _) <|
      (congruent_optionalAttribute _ _).then <| .then (.write _) <| h.then (.write _)
  · exact .then (.write _) (h.then (congruent_linkTail _ _))

theorem Congruent.emphasis (h : Congruent given body body') (style : Emphasis) (isEmpty : Bool) :
    Congruent given (emphasis style isEmpty body) (emphasis style isEmpty body') := by
  apply Congruent.look
  intro code
  split
  · exact h
  apply Congruent.look
  intro html
  split <;> exact .then (.write _) (h.then (.write _))

theorem congruent_codeSpan (content : String) :
    Congruent given (codeSpan content) (codeSpan content) := by
  unfold codeSpan
  dsimp only
  split
  · exact .done
  apply Congruent.look
  intro html
  split
  · exact .then (.write _) ((congruent_writeEscaped _).then (.write _))
  · exact .then (.write _) <| .then (.write _) <|
      ((congruent_writeEscaped _).inMode _ _).then <| .then (.write _) (.write _)

theorem congruent_image (src : String) (title alt : Option String) :
    Congruent given (image src title alt) (image src title alt) := by
  apply Congruent.look
  intro html
  split
  · exact .then (.write _) <| (congruent_attributeValue _).then <| .then (.write _) <|
      (congruent_optionalAttribute _ _).then <| (congruent_optionalAttribute _ _).then (.write _)
  apply Congruent.then (.write _)
  cases alt with
  | none => exact congruent_linkTail _ _
  | some alt => exact (congruent_writeEscaped _).then (congruent_linkTail _ _)

theorem congruent_comment (s : String) : Congruent given (comment s) (comment s) :=
  .look _ fun _ => .then (.write _) (.then (.write _) (.write _))

end Inline

section Block
variable {body body' summary summary' : Render Unit}

theorem congruent_notice : Congruent given notice notice :=
  .then (.write _) (Congruent.done.ifConstrained congruent_ensureNewLine)

theorem congruent_rule : Congruent given rule rule :=
  (Congruent.write _).ifConstrained (.block (.then (.write _) congruent_ensureNewLine))

theorem Congruent.heading (h : Congruent given body body') (level : UInt8)
    (anchor : Option String) :
    Congruent given (heading level anchor body) (heading level anchor body') := by
  rw [heading_eq, heading_eq]
  split
  · exact .fail _
  apply Congruent.ifConstrained
  · exact .then (.write _) <|
      (((congruent_optionalAnchor anchor).then h).inMode _ _).then (.write _)
  · exact .block <| .then (.write _) <| .then (.write _) <|
      (congruent_optionalAnchor anchor).then <| h.inSingleLine.then congruent_ensureNewLine

theorem congruent_codeBlock (language : Option String) (code : String) :
    Congruent given (codeBlock language code) (codeBlock language code) := by
  have hcode : Congruent given (writeEscaped code) (writeEscaped code) :=
    congruent_writeEscaped code
  apply Congruent.ifConstrained
  · exact .then (.write _) (((hcode.inMode _ _).inMode _ _).then (.write _))
  · exact .block <| .then (.write _) <| .then (.write _) <| .then (.write _) <|
      (hcode.inMode _ _).then <| congruent_ensureNewLine.then <|
      .then (.write _) congruent_ensureNewLine

theorem Congruent.linkedCode (h : Congruent given body body') (language : String) :
    Congruent given (linkedCode language body) (linkedCode language body') := by
  apply Congruent.ifConstrained
  · exact .then (.write _) (((h.inMode _ _).inMode _ _).then (.write _))
  · exact .block <| .then (.write _) <| (congruent_attributeValue _).then <| .then (.write _) <|
      ((h.inMode _ _).inMode _ _).then <| .then (.write _) congruent_ensureNewLine

theorem Congruent.collapsible (hs : Congruent given summary summary')
    (h : Congruent given body body') :
    Congruent given (collapsible summary body) (collapsible summary' body') := by
  apply Congruent.ifConstrained
  · exact .then (.write _) (((hs.then (.then (.write _) h)).inMode _ _).then (.write _))
  · exact .block <| (congruent_writeLine _).then <| .then (.write _) <|
      (hs.inSingleLine.inMode _ _).then <| .then (.write _) <| Congruent.skip.then <| h.then <|
      Congruent.skip.then <| .then (.write _) congruent_ensureNewLine

theorem Congruent.element (h : Congruent given body body') (tag : String)
    (attributes : Dict String) :
    Congruent given (element tag attributes body) (element tag attributes body') := by
  have hopen (selfClosing : Bool) : Congruent given (openTag tag attributes selfClosing)
      (openTag tag attributes selfClosing) := congruent_openTag tag attributes selfClosing
  unfold Markdown.element
  split
  · exact hopen true
  · exact (hopen false).then (h.then (.write _))
  apply Congruent.look
  intro isConstrained
  split
  · exact h.block
  apply Congruent.look
  intro inBlock
  split
  · exact (hopen false).then ((h.inMode _ _).then (.write _))
  refine .block <| (hopen false).then <| .look _ fun start => (h.inMode _ _).then <|
    .look _ fun broken => ?_
  dsimp only
  split
  · exact Congruent.skip.then (.then (.write _) congruent_ensureNewLine)
  · exact .then (.write _) congruent_ensureNewLine

theorem congruent_separateLists (afterList isList : Bool) :
    Congruent given (separateLists afterList isList) (separateLists afterList isList) := by
  apply Congruent.look
  intro isConstrained
  split
  · exact Congruent.skip.then (.then (.write _) congruent_ensureNewLine)
  · exact .done

end Block

section Items
variable {items items' cells cells' header header' : List (Render Unit)}
  {rows rows' : List (List (Render Unit))}

theorem congruent_htmlItems (h : List.Forall₂ (Congruent given) items items') :
    Congruent given (htmlItems items) (htmlItems items') := by
  induction h with
  | nil => exact .done
  | cons hitem _ ih => exact .then (.write _) (hitem.then (.then (.write _) ih))

theorem congruent_markedItems (h : List.Forall₂ (Congruent given) items items')
    (style : ListStyle) (position : Nat) :
    Congruent given (markedItems style position items) (markedItems style position items') := by
  induction h generalizing position with
  | nil => exact .done
  | cons hitem _ ih =>
    rw [markedItems_cons, markedItems_cons]
    exact (hitem.item style position).then (ih _)

theorem congruent_list (h : List.Forall₂ (Congruent given) items items') (style : ListStyle) :
    Congruent given (list style items) (list style items') := by
  have hitems := ((congruent_markedItems h style 0).then congruent_ensureNewLine).inMode
    .htmlBlock false
  apply Congruent.ifConstrained
  · exact .then (.write _) (((congruent_htmlItems h).inMode _ _).then (.write _))
  refine .look _ fun fresh => .look _ fun inItem => ?_
  dsimp only
  split
  · exact congruent_ensureNewLine.then hitems
  · exact Congruent.skip.then hitems

theorem congruent_htmlCells (h : List.Forall₂ (Congruent given) cells cells') (tag : String)
    (columns : Nat) :
    Congruent given (htmlCells tag columns cells) (htmlCells tag columns cells') := by
  induction columns generalizing cells cells' with
  | zero => exact .done
  | succ columns ih =>
    cases h with
    | nil => exact .then (.write _) (.then (.write _) (ih .nil))
    | cons hcell hrest => exact .then (.write _) (hcell.then (.then (.write _) (ih hrest)))

theorem congruent_htmlRow (h : List.Forall₂ (Congruent given) cells cells') (tag : String)
    (columns : Nat) : Congruent given (htmlRow tag columns cells) (htmlRow tag columns cells') :=
  .then (.write _) ((congruent_htmlCells h tag columns).then (.write _))

theorem congruent_htmlRows (h : List.Forall₂ (List.Forall₂ (Congruent given)) rows rows')
    (columns : Nat) : Congruent given (htmlRows columns rows) (htmlRows columns rows') := by
  induction h with
  | nil => exact .done
  | cons hrow _ ih => exact (congruent_htmlRow hrow "td" columns).then ih

theorem congruent_markdownCells (h : List.Forall₂ (Congruent given) cells cells')
    (columns : Nat) :
    Congruent given (markdownCells columns cells) (markdownCells columns cells') := by
  induction columns generalizing cells cells' with
  | zero => exact .done
  | succ columns ih =>
    cases h with
    | nil => exact .then (.write _) (.then (.write _) (ih .nil))
    | cons hcell hrest => exact .then (.write _) (hcell.inTable.then (.then (.write _) (ih hrest)))

theorem congruent_markdownRow (h : List.Forall₂ (Congruent given) cells cells')
    (columns : Nat) : Congruent given (markdownRow columns cells) (markdownRow columns cells') :=
  .then (.write _) ((congruent_markdownCells h columns).then (.write _))

theorem congruent_markdownRows (h : List.Forall₂ (List.Forall₂ (Congruent given)) rows rows')
    (columns : Nat) : Congruent given (markdownRows columns rows) (markdownRows columns rows') := by
  induction h with
  | nil => exact .done
  | cons hrow _ ih => exact (congruent_markdownRow hrow columns).then ih

theorem congruent_divider (columns : Nat) : Congruent given (divider columns) (divider columns) := by
  induction columns with
  | zero => exact .done
  | succ columns ih => exact .then (.write _) ih

theorem columnCount_congr (hheader : header.length = header'.length)
    (hrows : List.Forall₂ (fun row row' => row.length = row'.length) rows rows') :
    columnCount header rows = columnCount header' rows' := by
  unfold columnCount
  rw [hheader]
  generalize header'.length = columns
  induction hrows generalizing columns with
  | nil => rfl
  | cons hrow _ ih => rw [List.foldl_cons, List.foldl_cons, hrow, ih]

theorem congruent_table (hheader : List.Forall₂ (Congruent given) header header')
    (hrows : List.Forall₂ (List.Forall₂ (Congruent given)) rows rows') :
    Congruent given (table header rows) (table header' rows') := by
  have hcolumns : columnCount header rows = columnCount header' rows' :=
    columnCount_congr hheader.length_eq (hrows.imp fun _ _ hrow => hrow.length_eq)
  rw [table_eq, table_eq, hcolumns]
  split
  · exact .fail _
  apply Congruent.ifConstrained
  · exact .then (.write _) <| (((congruent_htmlRow hheader "th" _).then
      (congruent_htmlRows hrows _)).inMode _ _).then (.write _)
  · exact Congruent.skip.then <| Congruent.inMode _ _ <| (congruent_markdownRow hheader _).then <|
      .then (.write _) <| (congruent_divider _).then <| .then (.write _) <|
      congruent_markdownRows hrows _

end Items
end Congruent
end Render

section Tree
variable {o : Options} {head : PageMetadata → Render Unit}
  {given : Render Unit → Render Unit → Prop}

theorem congruent_renderNodes {nodes : List Node}
    (h : ∀ n ∈ nodes, Congruent given (renderNode o head n) (renderNode o head n))
    (afterList : Bool) :
    Congruent given (renderNodes o head afterList nodes) (renderNodes o head afterList nodes) := by
  induction nodes generalizing afterList with
  | nil => exact .done
  | cons node rest ih =>
    obtain ⟨hnode, hrest⟩ := List.forall_mem_cons.1 h
    exact (congruent_separateLists _ _).then (hnode.then (ih hrest _))

theorem forall₂_render {nodes : List Node}
    (h : ∀ n ∈ nodes, Congruent given (renderNode o head n) (renderNode o head n)) :
    List.Forall₂ (Congruent given) (nodes.map (renderNode o head))
      (nodes.map (renderNode o head)) := List.forall₂_same.2 (List.forall_mem_map.2 h)

theorem congruent_renderNode
    (hhead : ∀ metadata, Congruent given (head metadata) (head metadata)) (node : Node) :
    Congruent given (renderNode o head node) (renderNode o head node) := by
  induction node with
  | text s => exact congruent_writeEscaped s
  | rule => exact congruent_rule
  | comment s persist =>
    rw [renderNode]
    split
    · exact .done
    · exact congruent_comment s
  | image src title alt => exact congruent_image src title alt
  | code language s => exact congruent_codeBlock language s
  | notice => exact congruent_notice
  | group children ih => exact congruent_renderNodes ih false
  | quote children ih => exact (congruent_renderNodes ih false).quote
  | element tag attributes children ih =>
    exact (congruent_renderNodes ih false).element tag attributes
  | emphasis style children ih => exact (congruent_renderNodes ih false).emphasis style _
  | codeSpan children => exact congruent_codeSpan _
  | richCode language children ih =>
    rw [renderNode]
    split
    · exact (congruent_renderNodes ih false).linkedCode language
    · exact congruent_codeBlock _ _
  | link target destination title children ih =>
    exact (congruent_renderNodes ih false).link _ title
  | paragraph children ih => exact (congruent_renderNodes ih false).element "p" ∅
  | heading level anchor children ih =>
    exact (congruent_renderNodes ih false).heading level anchor
  | list style items ih =>
    rw [renderNode, renderParts_eq_map]
    exact congruent_list (forall₂_render ih) style
  | table header rows ihheader ihrows =>
    rw [renderNode, renderParts_eq_map, renderRows_eq_map]
    refine congruent_table (forall₂_render ihheader) (List.forall₂_same.2 ?_)
    exact List.forall_mem_map.2 fun row hrow => forall₂_render (ihrows row hrow)
  | collapsible summary children ihsummary ih =>
    exact ihsummary.collapsible (congruent_renderNodes ih false)
  | page metadata children ih =>
    exact (hhead metadata).then ((congruent_renderNodes ih false).then congruent_ensureNewLine)

theorem congruent_pageHead (metadata : PageMetadata) :
    Congruent given (pageHead o metadata) (pageHead o metadata) := by
  refine congruent_notice.then <| ((congruent_writeEscaped _).heading 1 none).then ?_
  split
  · exact .done
  · exact congruent_renderNode (fun _ => .done) _

/-- Rendering a tree is put together from the few kinds of steps. -/
theorem congruent_render (o : Options) (node : Node) :
    Congruent given (render o node) (render o node) := congruent_renderNode congruent_pageHead node

section Part
variable {node tree : Node} {before after : List Node} {body body' : Render Unit}
  {steps : Render Unit → Render Unit}

theorem congruent_among (h : Congruent given body body') (afterList : Bool) :
    Congruent given (among o node after afterList before body)
      (among o node after afterList before body') := by
  induction before generalizing afterList with
  | nil =>
    exact (congruent_separateLists _ _).then <| h.then <|
      congruent_renderNodes (fun n _ => congruent_render o n) _
  | cons first rest ih =>
    exact (congruent_separateLists _ _).then ((congruent_render o first).then (ih _))

theorem forall₂_around (h : Congruent given body body') :
    List.Forall₂ (Congruent given) (before.map (render o) ++ body :: after.map (render o))
      (before.map (render o) ++ body' :: after.map (render o)) := by
  have hrenders (nodes : List Node) :
      List.Forall₂ (Congruent given) (nodes.map (render o)) (nodes.map (render o)) :=
    forall₂_render fun n _ => congruent_render o n
  exact List.rel_append (hrenders before) (.cons h (hrenders after))

/-- The steps around a part of a tree do not depend on the steps in its place. -/
theorem Part.congruent (h : Part o tree node steps) (hbody : Congruent given body body') :
    Congruent given (steps body) (steps body') := by
  have hnodes (nodes : List Node) :
      Congruent given (renderNodes o (pageHead o) false nodes)
        (renderNodes o (pageHead o) false nodes) :=
    congruent_renderNodes (fun n _ => congruent_render o n) false
  have hrows (rows : List (List Node)) : List.Forall₂ (List.Forall₂ (Congruent given))
      (rows.map (·.map (render o))) (rows.map (·.map (render o))) :=
    List.forall₂_same.2 (List.forall_mem_map.2 fun row _ =>
      forall₂_render fun n _ => congruent_render o n)
  cases h with
  | group => exact congruent_among hbody false
  | quote => exact (congruent_among hbody false).quote
  | element tag attributes => exact (congruent_among hbody false).element tag attributes
  | emphasis style => exact (congruent_among hbody false).emphasis style false
  | richCode language => exact (congruent_among hbody false).linkedCode language
  | link _ _ title => exact (congruent_among hbody false).link _ title
  | paragraph => exact (congruent_among hbody false).element "p" ∅
  | heading level anchor => exact (congruent_among hbody false).heading level anchor
  | item style => exact congruent_list (forall₂_around hbody) style
  | header before node after rows => exact congruent_table (forall₂_around hbody) (hrows rows)
  | cell header above before node after below =>
    refine congruent_table (forall₂_render fun n _ => congruent_render o n) ?_
    exact List.rel_append (hrows above) (.cons (forall₂_around hbody) (hrows below))
  | summary _ children => exact hbody.collapsible (hnodes children)
  | collapsible summary => exact (congruent_render o summary).collapsible (congruent_among hbody false)
  | page metadata =>
    exact (congruent_pageHead metadata).then <|
      (congruent_among hbody false).then congruent_ensureNewLine
  | contents metadata children =>
    exact congruent_notice.then <| ((congruent_writeEscaped _).heading 1 none).then <|
      hbody.then <| (hnodes children).then congruent_ensureNewLine

end Part

end Tree
end DocTree.Markdown
