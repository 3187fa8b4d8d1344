import DocTree.Proofs.Frame

/-! Cells of Markdown tables hold any tree. Every construct that would end a line has a form that
stays on it, and every text that is written loses its line breaks. -/
namespace DocTree
open Text

namespace Node

/-- What keeps a node from being written in a cell: a page, a level or an anchor that no heading
has, a table without columns, and line breaks in addresses and in the names of tags and
attributes. -/
def fitsCell : Node → Bool
  | page _ _ => false
  | heading level anchor _ => 1 ≤ level && level ≤ 6 && anchor.all isValidAnchor
  | table header rows => columnCount header rows != 0
  | link _ destination _ _ => OneLine destination
  | image src _ _ => OneLine src
  | element tag attributes _ => OneLine tag && attributes.entries.all fun e => OneLine e.1
  | _ => true

end Node

namespace Markdown

namespace Render
variable {α β : Type}

/-- In a cell the steps succeed and stay in the cell. -/
def FitsCell (steps : Render α) : Prop :=
  ∀ out : Output, out.modes.table → ∃ a out', steps out = (.ok a, out') ∧ out'.modes.table

theorem fitsCell_pure (a : α) : FitsCell (pure a) := fun out h => ⟨a, out, rfl, h⟩

theorem FitsCell.bind {steps : Render α} {next : α → Render β} (h : FitsCell steps)
    (hnext : ∀ a, FitsCell (next a)) : FitsCell (steps >>= next) := by
  intro out hout
  obtain ⟨a, mid, hmid, hin⟩ := h out hout
  obtain ⟨b, out', hout', hin'⟩ := hnext a mid hin
  exact ⟨b, out', by rw [bind_apply, hmid]; exact hout', hin'⟩

theorem FitsCell.then {steps : Render Unit} {next : Render α} (h : FitsCell steps)
    (hnext : FitsCell next) : FitsCell (do steps; next) := h.bind fun _ => hnext

/-- Steps that look at the output first see that it is in a cell. -/
theorem fitsCell_look {view : Output → α} {next : α → Render β}
    (h : ∀ out : Output, out.modes.table → FitsCell (next (view out))) :
    FitsCell (look view >>= next) := fun out hout => h out hout out hout

theorem FitsCell.ifConstrained {steps next : Render α} (h : FitsCell steps) :
    FitsCell (do if ← constrained then steps else next) := by
  refine fitsCell_look fun out hout => ?_
  rwa [if_pos (Output.constrained_of_table hout)]

theorem fitsCell_write {s : String} (h : OneLine s) : FitsCell (write s) := by
  intro out hout
  refine ⟨(), ⟨out.buffer.write s, out.modes, out.fresh && s.toList.all Unicode.isBlank⟩, ?_, hout⟩
  rw [write, if_neg]
  simpa [OneLine] using fun _ => h

theorem FitsCell.withMode {steps : Render α} (h : FitsCell steps) {mode : Mode} {value : Bool}
    (hmode : mode ≠ .table) : FitsCell (withMode mode value steps) := by
  intro out hout
  obtain ⟨a, out', hout', hin⟩ := h { out with modes := out.modes.set mode value } (by
    cases mode <;> simp_all [Modes.set])
  refine ⟨a, _, by rw [Render.withMode, hout'], ?_⟩
  cases mode <;> simp_all [Modes.set, Modes.get]

theorem fitsCell_writeEscaped (s : String) : FitsCell (writeEscaped s) :=
  fitsCell_look fun _ hout => fitsCell_write (EscapeContext.oneLine_escape_table hout s)

variable {body : Render Unit} {items header : List (Render Unit)}
  {rows : List (List (Render Unit))}

theorem fitsCell_attributeValue (value : String) : FitsCell (attributeValue value) :=
  (((fitsCell_writeEscaped value).withMode (by decide)).withMode (by decide)).withMode (by decide)

theorem fitsCell_attributeList {attributes : List (String × String)}
    (h : ∀ e ∈ attributes, OneLine e.1) : FitsCell (attributeList attributes) := by
  induction attributes with
  | nil => exact fitsCell_pure ()
  | cons e rest ih =>
    obtain ⟨hname, hrest⟩ := List.forall_mem_cons.1 h
    exact (fitsCell_write (by decide)).then <| (fitsCell_write hname).then <|
      (fitsCell_write (by decide)).then <| (fitsCell_attributeValue _).then <|
      (fitsCell_write (by decide)).then (ih hrest)

theorem fitsCell_openTag {tag : String} {attributes : Dict String} (htag : OneLine tag)
    (h : ∀ e ∈ attributes.entries, OneLine e.1) (selfClosing : Bool) :
    FitsCell (openTag tag attributes selfClosing) := by
  refine (fitsCell_write (by decide)).then <| (fitsCell_write htag).then <|
    (fitsCell_attributeList h).then (fitsCell_write ?_)
  cases selfClosing <;> decide

theorem fitsCell_closeTag {tag : String} (htag : OneLine tag) : FitsCell (closeTag tag) :=
  fitsCell_write (htag.between (by decide) (by decide))

theorem fitsCell_optionalAnchor {anchor : Option String} (h : ∀ id ∈ anchor, isValidAnchor id) :
    FitsCell (optionalAnchor anchor) := by
  cases anchor with
  | none => exact fitsCell_pure ()
  | some id =>
    have hid : OneLine id := oneLine_of_isValidAnchor (h id rfl)
    exact fitsCell_write (hid.between (by decide) (by decide))

theorem fitsCell_linkTail {destination : String} (h : OneLine destination)
    (title : Option String) : FitsCell (linkTail destination title) := by
  refine (fitsCell_write (by decide)).then <| fitsCell_look fun out _ =>
    (fitsCell_write (oneLine_escapeDestination h _)).then ?_
  cases title with
  | none => exact fitsCell_write (by decide)
  | some title =>
    have htitle := oneLine_escapeTitle title (out.modes.get .table)
    exact (fitsCell_write (htitle.between (by decide) (by decide))).then
      (fitsCell_write (by decide))

/-- In a cell links, emphasis and code spans are written as Markdown. -/
theorem FitsCell.unlessHtml {steps next : Render α} (h : FitsCell next) :
    FitsCell (do if ← usesHtml then steps else next) := by
  refine fitsCell_look fun out hout => ?_
  rwa [hout, Bool.not_true, Bool.and_false, if_neg Bool.false_ne_true]

theorem FitsCell.link (h : FitsCell body) {destination : String} (hd : OneLine destination)
    (title : Option String) : FitsCell (link destination title body) := by
  refine fitsCell_look fun out _ => ?_
  split
  · exact h
  · exact unlessHtml ((fitsCell_write (by decide)).then (h.then (fitsCell_linkTail hd title)))

theorem FitsCell.emphasis (h : FitsCell body) (style : Emphasis) (isEmpty : Bool) :
    FitsCell (emphasis style isEmpty body) := by
  have hmark : FitsCell (write (delimiter style)) := fitsCell_write (by cases style <;> decide)
  refine fitsCell_look fun out _ => ?_
  split
  · exact h
  · exact unlessHtml (hmark.then (h.then hmark))

theorem fitsCell_codeSpan (content : String) : FitsCell (codeSpan content) := by
  have hticks (n : Nat) : FitsCell (write (ticks n)) := fitsCell_write (oneLine_ticks n)
  have hpad (code : String) : FitsCell (write (tickPadding code)) :=
    fitsCell_write (oneLine_tickPadding code)
  unfold codeSpan
  dsimp only
  split
  · exact fitsCell_pure ()
  · exact FitsCell.unlessHtml <| (hticks _).then <| (hpad _).then <|
      ((fitsCell_writeEscaped _).withMode (by decide)).then <| (hpad _).then (hticks _)

theorem fitsCell_image {src : String} (h : OneLine src) (title alt : Option String) :
    FitsCell (image src title alt) := by
  refine FitsCell.unlessHtml ((fitsCell_write (by decide)).then ?_)
  cases alt with
  | none => exact fitsCell_linkTail h title
  | some alt => exact (fitsCell_writeEscaped _).then (fitsCell_linkTail h title)

theorem fitsCell_comment (s : String) : FitsCell (comment s) := by
  refine fitsCell_look fun out hout => ?_
  have hbody : OneLine (commentBody s out.constrained) := by
    rw [Output.constrained_of_table hout]
    exact oneLine_commentBody s
  exact (fitsCell_write (by decide)).then ((fitsCell_write hbody).then (fitsCell_write (by decide)))

theorem fitsCell_notice : FitsCell notice :=
  (fitsCell_write (by decide)).then (fitsCell_pure ()).ifConstrained

theorem fitsCell_rule : FitsCell rule := (fitsCell_write (by decide)).ifConstrained

theorem FitsCell.heading (h : FitsCell body) {level : UInt8} {anchor : Option String}
    (hl : 1 ≤ level ∧ level ≤ 6) (ha : ∀ id ∈ anchor, isValidAnchor id) :
    FitsCell (heading level anchor body) := by
  have hlevel : OneLine (toString level) := oneLine_repr level.toNat
  rw [heading_eq, headingError?_eq_none.2 ⟨hl, ha⟩]
  have hopen : FitsCell (write s!"<h{level}>") :=
    fitsCell_write (hlevel.between (by decide) (by decide))
  have hclose : FitsCell (write s!"</h{level}>") :=
    fitsCell_write (hlevel.between (by decide) (by decide))
  exact FitsCell.ifConstrained <| hopen.then <|
    (((fitsCell_optionalAnchor ha).then h).withMode (by decide)).then hclose

theorem fitsCell_htmlItems (h : ∀ item ∈ items, FitsCell item) : FitsCell (htmlItems items) := by
  induction items with
  | nil => exact fitsCell_pure ()
  | cons item rest ih =>
    obtain ⟨hitem, hrest⟩ := List.forall_mem_cons.1 h
    exact (fitsCell_write (by decide)).then <| hitem.then <|
      (fitsCell_write (by decide)).then (ih hrest)

theorem fitsCell_list (h : ∀ item ∈ items, FitsCell item) (style : ListStyle) :
    FitsCell (list style items) := by
  have hopen : OneLine (listOpenTag style) := by
    cases style with
    | unordered => decide
    | ordered start =>
      rw [listOpenTag]
      split
      · decide
      · exact (oneLine_repr start.toNat).between (by decide) (by decide)
  have hclose : OneLine (listCloseTag style) := by cases style <;> rw [listCloseTag] <;> decide
  exact FitsCell.ifConstrained <| (fitsCell_write hopen).then <|
    ((fitsCell_htmlItems h).withMode (by decide)).then (fitsCell_write hclose)

theorem fitsCell_htmlCells {tag : String} (htag : OneLine tag) (h : ∀ cell ∈ items, FitsCell cell)
    (columns : Nat) : FitsCell (htmlCells tag columns items) := by
  have hopen : FitsCell (write s!"<{tag}>") :=
    fitsCell_write (htag.between (by decide) (by decide))
  have hclose : FitsCell (write s!"</{tag}>") :=
    fitsCell_write (htag.between (by decide) (by decide))
  induction columns generalizing items with
  | zero => exact fitsCell_pure ()
  | succ columns ih =>
    cases items with
    | nil => exact hopen.then (hclose.then (ih h))
    | cons cell rest =>
      obtain ⟨hcell, hrest⟩ := List.forall_mem_cons.1 h
      exact hopen.then (hcell.then (hclose.then (ih hrest)))

theorem fitsCell_htmlRow {tag : String} (htag : OneLine tag) (h : ∀ cell ∈ items, FitsCell cell)
    (columns : Nat) : FitsCell (htmlRow tag columns items) :=
  (fitsCell_write (by decide)).then <|
    (fitsCell_htmlCells htag h columns).then (fitsCell_write (by decide))

theorem fitsCell_htmlRows (h : ∀ row ∈ rows, ∀ cell ∈ row, FitsCell cell) (columns : Nat) :
    FitsCell (htmlRows columns rows) := by
  induction rows with
  | nil => exact fitsCell_pure ()
  | cons row rest ih =>
    obtain ⟨hrow, hrest⟩ := List.forall_mem_cons.1 h
    exact (fitsCell_htmlRow (by decide) hrow columns).then (ih hrest)

theorem fitsCell_table (hheader : ∀ cell ∈ header, FitsCell cell)
    (hrows : ∀ row ∈ rows, ∀ cell ∈ row, FitsCell cell) (hc : columnCount header rows ≠ 0) :
    FitsCell (table header rows) := by
  rw [table_eq, if_neg hc]
  have hrow : FitsCell (htmlRow "th" (columnCount header rows) header) :=
    fitsCell_htmlRow (by decide) hheader _
  exact FitsCell.ifConstrained <| (fitsCell_write (by decide)).then <|
    ((hrow.then (fitsCell_htmlRows hrows _)).withMode (by decide)).then (fitsCell_write (by decide))

theorem FitsCell.quote (h : FitsCell body) : FitsCell (quote body) :=
  FitsCell.ifConstrained <| (fitsCell_write (by decide)).then <|
    (h.withMode (by decide)).then (fitsCell_write (by decide))

theorem fitsCell_codeBlock (language : Option String) (code : String) :
    FitsCell (codeBlock language code) :=
  FitsCell.ifConstrained <| (fitsCell_write (by decide)).then <|
    (((fitsCell_writeEscaped code).withMode (by decide)).withMode (by decide)).then
      (fitsCell_write (by decide))

theorem FitsCell.linkedCode (h : FitsCell body) (language : String) :
    FitsCell (linkedCode language body) :=
  FitsCell.ifConstrained <| (fitsCell_write (by decide)).then <|
    ((h.withMode (by decide)).withMode (by decide)).then (fitsCell_write (by decide))

theorem FitsCell.collapsible {summary : Render Unit} (hs : FitsCell summary) (h : FitsCell body) :
    FitsCell (collapsible summary body) :=
  FitsCell.ifConstrained <| (fitsCell_write (by decide)).then <|
    ((hs.then ((fitsCell_write (by decide)).then h)).withMode (by decide)).then
      (fitsCell_write (by decide))

theorem FitsCell.element (h : FitsCell body) {tag : String} {attributes : Dict String}
    (htag : OneLine tag) (hnames : ∀ e ∈ attributes.entries, OneLine e.1) :
    FitsCell (element tag attributes body) := by
  have hopen := fitsCell_openTag htag hnames
  unfold Markdown.element
  split
  · exact hopen true
  · exact (hopen false).then (h.then (fitsCell_closeTag htag))
  · refine fitsCell_look fun out hout => ?_
    have hc : out.constrained := Output.constrained_of_table hout
    simp only [hc, Bool.not_true, Bool.false_and, Bool.true_or, if_true]
    exact fitsCell_look fun _ _ =>
      (hopen false).then ((h.withMode (by decide)).then (fitsCell_closeTag htag))

theorem fitsCell_separateLists (afterList isList : Bool) :
    FitsCell (separateLists afterList isList) := by
  refine fitsCell_look fun out hout => ?_
  have hc : out.constrained := Output.constrained_of_table hout
  rw [hc, Bool.not_true, Bool.and_false]
  exact fitsCell_pure ()

end Render
open Render

section Tree
variable {o : Options} {head : PageMetadata → Render Unit}

theorem fitsCell_renderNodes {nodes : List Node}
    (h : ∀ n ∈ nodes, FitsCell (renderNode o head n)) (afterList : Bool) :
    FitsCell (renderNodes o head afterList nodes) := by
  induction nodes generalizing afterList with
  | nil => exact fitsCell_pure ()
  | cons node rest ih =>
    obtain ⟨hnode, hrest⟩ := List.forall_mem_cons.1 h
    exact (fitsCell_separateLists _ _).then (hnode.then (ih hrest _))

theorem fitsCell_children {children : List Node}
    (ih : ∀ n ∈ children, (∀ m ∈ n.nodes, m.fitsCell) → FitsCell (renderNode o head n))
    (h : ∀ n ∈ children, ∀ m ∈ n.nodes, m.fitsCell) :
    FitsCell (renderNodes o head false children) :=
  fitsCell_renderNodes (fun n hn => ih n hn (h n hn)) false

theorem fitsCell_renderNode (hpage : OneLine o.page) (hbase : ∀ base ∈ o.sourceBase, OneLine base)
    {node : Node} (h : ∀ m ∈ node.nodes, m.fitsCell) : FitsCell (renderNode o head node) := by
  induction node with
    simp only [Node.nodes, List.forall_mem_cons, List.forall_mem_append, Node.forall_mem_nodesOf,
      Node.forall_mem_nodesOfRows, Node.fitsCell, Bool.and_eq_true, decide_eq_true_eq] at h
  | text s => exact fitsCell_writeEscaped s
  | rule => exact fitsCell_rule
  | comment s persist =>
    rw [renderNode]
    split
    · exact fitsCell_pure ()
    · exact fitsCell_comment s
  | image src title alt => exact fitsCell_image h.1 title alt
  | code language s => exact fitsCell_codeBlock language s
  | notice => exact fitsCell_notice
  | group children ih => exact fitsCell_children ih h.2
  | quote children ih => exact (fitsCell_children ih h.2).quote
  | element tag attributes children ih =>
    obtain ⟨⟨htag, hnames⟩, hchildren⟩ := h
    exact (fitsCell_children ih hchildren).element htag (by simpa using hnames)
  | emphasis style children ih => exact (fitsCell_children ih h.2).emphasis style _
  | codeSpan children => exact fitsCell_codeSpan _
  | richCode language children ih =>
    rw [renderNode]
    split
    · exact (fitsCell_children ih h.2).linkedCode language
    · exact fitsCell_codeBlock _ _
  | link target destination title children ih =>
    exact (fitsCell_children ih h.2).link (Options.oneLine_address hpage hbase h.1 target) title
  | paragraph children ih =>
    exact (fitsCell_children ih h.2).element (by decide) (List.forall_mem_nil _)
  | heading level anchor children ih =>
    obtain ⟨⟨hlevel, hanchor⟩, hchildren⟩ := h
    have hvalid : ∀ id ∈ anchor, isValidAnchor id := by simpa [Option.all_eq_true] using hanchor
    exact (fitsCell_children ih hchildren).heading hlevel hvalid
  | list style items ih =>
    rw [renderNode, renderParts_eq_map]
    exact fitsCell_list (List.forall_mem_map.2 fun n hn => ih n hn (h.2 n hn)) style
  | table header rows ihheader ihrows =>
    obtain ⟨hcolumns, hheader, hrows⟩ := h
    rw [renderNode, renderParts_eq_map, renderRows_eq_map]
    refine fitsCell_table (List.forall_mem_map.2 fun n hn => ihheader n hn (hheader n hn))
      (List.forall_mem_map.2 fun row hrow => List.forall_mem_map.2 fun n hn =>
        ihrows row hrow n hn (hrows row hrow n hn)) ?_
    simpa [columnCount_map] using hcolumns
  | collapsible summary children ihsummary ih =>
    exact (ihsummary h.2.1).collapsible (fitsCell_children ih h.2.2)
  | page metadata children => exact absurd h.1 Bool.false_ne_true

/-- A tree without pages, whose headings and tables are in order and whose addresses and names
hold no line breaks, is written in a cell without an error and without a line break, whatever
its texts hold. -/
theorem render_inTable_ok (hpage : OneLine o.page) (hbase : ∀ base ∈ o.sourceBase, OneLine base)
    {node : Node} (h : ∀ m ∈ node.nodes, m.fitsCell) :
    ∃ out, inTable (render o node) {} = (.ok (), out) ∧ OneLine out.text := by
  have hframed : Framed (render o node) := framed_renderNode framed_pageHead node
  have hfits : FitsCell (render o node) := fitsCell_renderNode hpage hbase h
  obtain ⟨_, out, hout, -⟩ := hfits (Output.inCell {}) rfl
  obtain ⟨added, htext, hline⟩ := (hframed (Output.inCell {})).buffer.text
  rw [hout] at htext
  refine ⟨{ out with modes := {} }, ?_, ?_⟩
  · rw [hframed.inTable_apply, hout]
  · change OneLine out.buffer.text
    rw [htext]
    exact oneLine_append.2 ⟨by decide, hline rfl (by decide)⟩

/-- A heading, a list in a quote, fenced code, a table and a comment, with line breaks in every
text. -/
def crowdedCell : Node :=
  .group [.heading 2 (some "top") [.text "a\nb"], .quote [.list (.ordered 3) [.text "c\n# d"]],
    .code none "x\ny", .table [.text "e|\n"] [[.paragraph [.text "f"]]], .comment "g\nh" true,
    .link .page "other.md#top" (some "i\nj") [.codeSpan [.text "k\nl"]]]

theorem render_inTable_crowdedCell :
    (∀ m ∈ crowdedCell.nodes, m.fitsCell) ∧
      ∃ out, inTable (render {} crowdedCell) {} = (.ok (), out) ∧ OneLine out.text := by
  have hnodes : ∀ m ∈ crowdedCell.nodes, m.fitsCell := by decide
  exact ⟨hnodes, render_inTable_ok (by decide) (by simp) hnodes⟩

end Tree

end Markdown
end DocTree
