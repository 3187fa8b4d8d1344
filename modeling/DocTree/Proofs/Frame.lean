import DocTree.Proofs.Buffer
import DocTree.Proofs.Checked
import DocTree.Proofs.Tree

/-! What rendering leaves alone. Whether it succeeds or fails, the modes and the indentations are
afterwards what they were, what had been written stays in front of what is written, and a line
that may not end has not ended. -/
namespace DocTree.Markdown
open Text Layout

/-- A mode that forbids line breaks where it is set. -/
def Mode.constrains : Mode → Bool
  | .table | .singleLine => true
  | _ => false

theorem Modes.constrained_set {modes : Modes} {mode : Mode} {value : Bool}
    (hv : mode.constrains → value) (h : modes.constrained) : (modes.set mode value).constrained := by
  cases mode <;> simp_all [Modes.constrained, Modes.set, Mode.constrains]

theorem Output.constrained_of_table {out : Output} (h : out.modes.table) : out.constrained := by
  rw [constrained, Modes.constrained, h, Bool.true_or]

/-- The output `out'` is `out` with text added, in the same modes and under the same
indentations. -/
structure Output.Extends (out out' : Output) : Prop where
  modes : out'.modes = out.modes
  buffer : out.buffer.Extends out.constrained out'.buffer

theorem Output.Extends.refl (out : Output) : out.Extends out := ⟨rfl, .refl _⟩

theorem Output.constrained_congr {out out' : Output} (h : out'.modes = out.modes) :
    out'.constrained = out.constrained := by
  rw [constrained, constrained, h]

theorem Output.Extends.trans {a b c : Output} (hab : a.Extends b) (hbc : b.Extends c) :
    a.Extends c := by
  refine ⟨hbc.modes.trans hab.modes, hab.buffer.trans ?_⟩
  rw [← Output.constrained_congr hab.modes]
  exact hbc.buffer

/-- The modes in which the value of an attribute is written. -/
def Modes.inAttribute (modes : Modes) : Modes :=
  ((modes.set .htmlAttribute true).set .htmlBlock true).set .markdownCode false

/-- The output as the content of a cell finds it. -/
def Output.inCell (out : Output) : Output :=
  { out with modes := { out.modes with table := true, inlineMarkdown := true } }

namespace Render
variable {α β : Type}

theorem bind_eq_ok {steps : Render α} {next : α → Render β} {b : β}
    {out out' : Output} (h : (steps >>= next) out = (.ok b, out')) :
    ∃ a mid, steps out = (.ok a, mid) ∧ next a mid = (.ok b, out') := by
  rw [bind_apply] at h
  split at h
  · next a mid heq => exact ⟨a, mid, heq, h⟩
  · cases h

theorem bind_of_ok {first : Render α} {a : α} {out mid : Output} (h : first out = (.ok a, mid))
    (next : α → Render β) : (first >>= next) out = next a mid := by
  rw [bind_apply, h]

/-- The steps only extend the output, also when they fail. -/
def Framed (steps : Render α) : Prop := ∀ out : Output, out.Extends (steps out).2

theorem Framed.of_eq {steps : Render α} (h : Framed steps) {result : Except RenderError α}
    {out out' : Output} (heq : steps out = (result, out')) : out.Extends out' := by
  have hextends := h out
  rwa [heq] at hextends

theorem framed_pure (a : α) : Framed (pure a) := Output.Extends.refl

theorem framed_fail (error : RenderError) : Framed (fail error : Render α) := Output.Extends.refl

theorem framed_look (view : Output → α) : Framed (look view) := Output.Extends.refl

theorem Framed.bind {steps : Render α} {next : α → Render β} (h : Framed steps)
    (hnext : ∀ a, Framed (next a)) : Framed (steps >>= next) := by
  intro out
  have hfirst := h out
  rw [bind_apply]
  split
  · next a mid heq =>
    rw [heq] at hfirst
    exact hfirst.trans (hnext a mid)
  · next e mid heq =>
    rw [heq] at hfirst
    exact hfirst

theorem Framed.then {steps : Render Unit} {next : Render α} (h : Framed steps)
    (hnext : Framed next) : Framed (do steps; next) := h.bind fun _ => hnext

theorem framed_markFresh : Framed markFresh := fun _ => ⟨rfl, .refl _⟩

theorem framed_write (s : String) : Framed (write s) := by
  intro out
  unfold write
  split
  · exact .refl out
  · next h =>
    refine ⟨rfl, (out.buffer.extends_write s).mono fun hc => ?_⟩
    simpa [hc, OneLine] using h

theorem write_ok {s : String} {out out' : Output} (hok : write s out = (.ok (), out')) :
    out'.buffer = out.buffer.write s := by
  unfold write at hok
  split at hok
  · cases hok
  · cases hok
    rfl

theorem framed_ensureNewLine : Framed ensureNewLine := by
  refine (framed_look _).bind fun atStart => ?_
  split
  · exact framed_pure ()
  · exact framed_write "\n"

/-- A choice by whether a line may end. Only where it may are the second steps run. -/
theorem Framed.constrainedElse {steps next : Render α} (h : Framed steps)
    (hnext : ∀ out : Output, ¬ out.constrained → out.Extends (next out).2) :
    Framed (do if ← constrained then steps else next) := by
  intro out
  rw [bind_apply]
  simp only [constrained, look]
  split
  · exact h out
  · next hc => exact hnext out hc

theorem Framed.ifConstrained {steps next : Render α} (h : Framed steps) (hnext : Framed next) :
    Framed (do if ← constrained then steps else next) :=
  h.constrainedElse fun out _ => hnext out

theorem extends_skippedLine {out : Output} (h : ¬ out.constrained) :
    out.Extends { out with buffer := out.buffer.ensureSkippedLine } :=
  ⟨rfl, out.buffer.extends_ensureSkippedLine.mono h⟩

theorem framed_ensureSkippedLine : Framed ensureSkippedLine :=
  (framed_fail _).constrainedElse fun _ => extends_skippedLine

/-- Indentations are taken back whatever happens under them. -/
theorem Framed.withIndent {steps : Render α} (h : Framed steps) {indent : String}
    (hi : OneLine indent) : Framed (withIndent indent steps) := by
  intro out
  obtain ⟨hmodes, hbuffer⟩ := h { out with buffer := out.buffer.pushIndent indent }
  obtain ⟨added, htext, hline⟩ := hbuffer.text
  refine ⟨hmodes, ⟨congrArg List.tail hbuffer.indents, ⟨added, htext, fun hc ho => hline hc ?_⟩,
    hbuffer.begun⟩⟩
  rw [Buffer.indent_pushIndent]
  exact oneLine_append.2 ⟨ho, hi⟩

/-- Modes are taken back whatever happens in them. -/
theorem Framed.withMode {steps : Render α} (h : Framed steps) {mode : Mode} {value : Bool}
    (hv : mode.constrains → value) : Framed (withMode mode value steps) := by
  intro out
  obtain ⟨hmodes, hbuffer⟩ := h { out with modes := out.modes.set mode value }
  refine ⟨?_, hbuffer.mono (Modes.constrained_set hv)⟩
  simp [Render.withMode, hmodes, Modes.set_set, Modes.set_get]

theorem Framed.withMode_apply {steps : Render α} (h : Framed steps) (mode : Mode) (value : Bool)
    (out : Output) : Render.withMode mode value steps out =
      ((steps { out with modes := out.modes.set mode value }).1,
        { (steps { out with modes := out.modes.set mode value }).2 with modes := out.modes }) := by
  have hmodes := (h { out with modes := out.modes.set mode value }).modes
  simp [Render.withMode, hmodes, Modes.set_set, Modes.set_get]

theorem Framed.withMode_ok {steps : Render α} (h : Framed steps) {mode : Mode} {value : Bool}
    {a : α} {out out' : Output} (hrun : Render.withMode mode value steps out = (.ok a, out')) :
    ∃ last, steps { out with modes := out.modes.set mode value } = (.ok a, last) ∧
      out' = { last with modes := out.modes } := by
  rw [h.withMode_apply] at hrun
  obtain ⟨hresult, hend⟩ := Prod.mk.inj hrun
  exact ⟨_, Prod.ext hresult rfl, hend.symm⟩

theorem Framed.inTable {steps : Render α} (h : Framed steps) : Framed (inTable steps) :=
  (h.withMode fun _ => rfl).withMode nofun

theorem Framed.inTable_apply {steps : Render α} (h : Framed steps) (out : Output) :
    Render.inTable steps out =
      ((steps out.inCell).1, { (steps out.inCell).2 with modes := out.modes }) := by
  have hcell : Framed (Render.withMode .table true steps) := h.withMode fun _ => rfl
  rw [Render.inTable, hcell.withMode_apply, h.withMode_apply]
  rfl

theorem Framed.inSingleLine {steps : Render α} (h : Framed steps) : Framed (inSingleLine steps) :=
  (framed_look _).bind fun _ => (h.withMode fun _ => rfl).withMode nofun

/-- Behind a line that may end, a block only adds to the output. -/
theorem Framed.paragraphBreak {steps : Render α} (h : Framed steps) :
    Framed (paragraphBreak steps) := by
  refine (framed_fail _).constrainedElse fun out hc => ?_
  rw [bind_apply]
  simp only [look]
  split
  · exact h out
  · have hblock : Framed (Render.withMode .htmlBlock false (do markFresh; steps)) :=
      (framed_markFresh.then h).withMode (by decide)
    exact (extends_skippedLine hc).trans (hblock _)

theorem framed_writeEscaped (s : String) : Framed (writeEscaped s) :=
  (framed_look _).bind fun _ => framed_write _

theorem framed_writeLine (s : String) : Framed (writeLine s) :=
  (framed_write s).then (framed_write "\n")

section Inline
variable {body : Render Unit}

theorem framed_attributeValue (value : String) : Framed (attributeValue value) :=
  (((framed_writeEscaped value).withMode (by decide)).withMode (by decide)).withMode (by decide)

/-- A value is escaped in the modes of an attribute, which are taken back behind it. -/
theorem attributeValue_eq (value : String) (out : Output) :
    attributeValue value out =
      ((writeEscaped value { out with modes := out.modes.inAttribute }).1,
        { (writeEscaped value { out with modes := out.modes.inAttribute }).2 with
          modes := out.modes }) := by
  have hwrite := framed_writeEscaped value
  have hcode : Framed (withMode .markdownCode false (writeEscaped value)) :=
    hwrite.withMode (by decide)
  have hblock : Framed (withMode .htmlBlock true
      (withMode .markdownCode false (writeEscaped value))) := hcode.withMode (by decide)
  rw [attributeValue, hblock.withMode_apply, hcode.withMode_apply, hwrite.withMode_apply]
  rfl

theorem framed_optionalAttribute (name : String) (value : Option String) :
    Framed (optionalAttribute name value) := by
  cases value with
  | none => exact framed_pure ()
  | some value =>
    exact (framed_write _).then ((framed_attributeValue value).then (framed_write _))

theorem framed_attributeList (attributes : List (String × String)) :
    Framed (attributeList attributes) := by
  induction attributes with
  | nil => exact framed_pure ()
  | cons e rest ih =>
    exact (framed_write _).then <| (framed_write _).then <| (framed_write _).then <|
      (framed_attributeValue _).then <| (framed_write _).then ih

theorem framed_openTag (tag : String) (attributes : Dict String) (selfClosing : Bool) :
    Framed (openTag tag attributes selfClosing) :=
  (framed_write _).then <| (framed_write _).then <|
    (framed_attributeList _).then <| framed_write _

theorem framed_optionalAnchor (anchor : Option String) : Framed (optionalAnchor anchor) := by
  cases anchor with
  | none => exact framed_pure ()
  | some id => exact framed_write _

theorem framed_linkTail (destination : String) (title : Option String) :
    Framed (linkTail destination title) := by
  refine (framed_write _).then <| (framed_look _).bind fun inTable => (framed_write _).then ?_
  cases title with
  | none => exact framed_write _
  | some title => exact (framed_write _).then (framed_write _)

theorem Framed.link (h : Framed body) (destination : String) (title : Option String) :
    Framed (link destination title body) := by
  refine (framed_look _).bind fun code => ?_
  split
  · exact h
  refine (framed_look _).bind fun html => ?_
  split
  · exact (framed_write _).then <| (framed_attributeValue _).then <| (framed_write _).then <|
      (framed_optionalAttribute _ _).then <| (framed_write _).then <| h.then (framed_write _)
  · exact (framed_write _).then (h.then (framed_linkTail _ _))

theorem Framed.emphasis (h : Framed body) (style : Emphasis) (isEmpty : Bool) :
    Framed (emphasis style isEmpty body) := by
  refine (framed_look _).bind fun code => ?_
  split
  · exact h
  refine (framed_look _).bind fun html => ?_
  split <;> exact (framed_write _).then (h.then (framed_write _))

theorem framed_codeSpan (content : String) : Framed (codeSpan content) := by
  unfold codeSpan
  dsimp only
  split
  · exact framed_pure ()
  refine (framed_look _).bind fun html => ?_
  split
  · exact (framed_write _).then ((framed_writeEscaped _).then (framed_write _))
  · exact (framed_write _).then <| (framed_write _).then <|
      ((framed_writeEscaped _).withMode (by decide)).then <| (framed_write _).then (framed_write _)

theorem framed_image (src : String) (title alt : Option String) : Framed (image src title alt) := by
  refine (framed_look _).bind fun html => ?_
  split
  · exact (framed_write _).then <| (framed_attributeValue _).then <| (framed_write _).then <|
      (framed_optionalAttribute _ _).then <| (framed_optionalAttribute _ _).then (framed_write _)
  refine (framed_write _).then ?_
  cases alt with
  | none => exact framed_linkTail _ _
  | some alt => exact (framed_writeEscaped _).then (framed_linkTail _ _)

theorem framed_comment (s : String) : Framed (comment s) :=
  (framed_look _).bind fun _ => (framed_write _).then ((framed_write _).then (framed_write _))

end Inline

section Block
variable {body : Render Unit} {items header : List (Render Unit)}
  {rows : List (List (Render Unit))}

theorem framed_notice : Framed notice :=
  (framed_write _).then ((framed_pure ()).ifConstrained framed_ensureNewLine)

theorem framed_rule : Framed rule :=
  (framed_write _).ifConstrained ((framed_write _).then framed_ensureNewLine).paragraphBreak

theorem Framed.heading (h : Framed body) (level : UInt8) (anchor : Option String) :
    Framed (heading level anchor body) := by
  rw [heading_eq]
  split
  · exact framed_fail _
  refine Framed.ifConstrained ?_ (Framed.paragraphBreak ?_)
  · exact (framed_write _).then <| (((framed_optionalAnchor _).then h).withMode (by decide)).then
      (framed_write _)
  · exact (framed_write _).then <| (framed_write _).then <| (framed_optionalAnchor _).then <|
      h.inSingleLine.then framed_ensureNewLine

theorem framed_htmlItems (h : ∀ item ∈ items, Framed item) : Framed (htmlItems items) := by
  induction items with
  | nil => exact framed_pure ()
  | cons item rest ih =>
    obtain ⟨hitem, hrest⟩ := List.forall_mem_cons.1 h
    exact (framed_write _).then (hitem.then ((framed_write _).then (ih hrest)))

theorem oneLine_spaces (n : Nat) : OneLine (String.ofList (List.replicate n ' ')) := by
  simp [List.mem_replicate]

theorem framed_markedItems (h : ∀ item ∈ items, Framed item) (style : ListStyle)
    (position : Nat) : Framed (markedItems style position items) := by
  induction items generalizing position with
  | nil => exact framed_pure ()
  | cons item rest ih =>
    obtain ⟨hitem, hrest⟩ := List.forall_mem_cons.1 h
    exact framed_ensureNewLine.then <| (framed_write _).then <|
      (((framed_markFresh.then hitem).withMode (by decide)).withIndent (oneLine_spaces _)).then
        (ih hrest _)

theorem framed_list (h : ∀ item ∈ items, Framed item) (style : ListStyle) :
    Framed (list style items) := by
  have hitems : Framed (withMode .htmlBlock false do
      markedItems style 0 items
      ensureNewLine) :=
    ((framed_markedItems h style 0).then framed_ensureNewLine).withMode (by decide)
  refine Framed.ifConstrained ?_ ?_
  · exact (framed_write _).then <| ((framed_htmlItems h).withMode (by decide)).then (framed_write _)
  · refine (framed_look _).bind fun fresh => (framed_look _).bind fun inItem => ?_
    dsimp only
    split
    · exact framed_ensureNewLine.then hitems
    · exact framed_ensureSkippedLine.then hitems

theorem framed_markdownCells (h : ∀ cell ∈ items, Framed cell) (columns : Nat) :
    Framed (markdownCells columns items) := by
  induction columns generalizing items with
  | zero => exact framed_pure ()
  | succ columns ih =>
    cases items with
    | nil => exact (framed_write _).then ((framed_write _).then (ih h))
    | cons cell rest =>
      obtain ⟨hcell, hrest⟩ := List.forall_mem_cons.1 h
      exact (framed_write _).then (hcell.inTable.then ((framed_write _).then (ih hrest)))

theorem framed_markdownRow (h : ∀ cell ∈ items, Framed cell) (columns : Nat) :
    Framed (markdownRow columns items) :=
  (framed_write _).then ((framed_markdownCells h columns).then (framed_write _))

theorem framed_markdownRows (h : ∀ row ∈ rows, ∀ cell ∈ row, Framed cell) (columns : Nat) :
    Framed (markdownRows columns rows) := by
  induction rows with
  | nil => exact framed_pure ()
  | cons row rest ih =>
    obtain ⟨hrow, hrest⟩ := List.forall_mem_cons.1 h
    exact (framed_markdownRow hrow columns).then (ih hrest)

theorem framed_divider (columns : Nat) : Framed (divider columns) := by
  induction columns with
  | zero => exact framed_pure ()
  | succ columns ih => exact (framed_write _).then ih

theorem framed_htmlCells (h : ∀ cell ∈ items, Framed cell) (tag : String) (columns : Nat) :
    Framed (htmlCells tag columns items) := by
  induction columns generalizing items with
  | zero => exact framed_pure ()
  | succ columns ih =>
    cases items with
    | nil => exact (framed_write _).then ((framed_write _).then (ih h))
    | cons cell rest =>
      obtain ⟨hcell, hrest⟩ := List.forall_mem_cons.1 h
      exact (framed_write _).then (hcell.then ((framed_write _).then (ih hrest)))

theorem framed_htmlRow (h : ∀ cell ∈ items, Framed cell) (tag : String) (columns : Nat) :
    Framed (htmlRow tag columns items) :=
  (framed_write _).then ((framed_htmlCells h tag columns).then (framed_write _))

theorem framed_htmlRows (h : ∀ row ∈ rows, ∀ cell ∈ row, Framed cell) (columns : Nat) :
    Framed (htmlRows columns rows) := by
  induction rows with
  | nil => exact framed_pure ()
  | cons row rest ih =>
    obtain ⟨hrow, hrest⟩ := List.forall_mem_cons.1 h
    exact (framed_htmlRow hrow "td" columns).then (ih hrest)

theorem framed_table (hheader : ∀ cell ∈ header, Framed cell)
    (hrows : ∀ row ∈ rows, ∀ cell ∈ row, Framed cell) : Framed (table header rows) := by
  rw [table_eq]
  split
  · exact framed_fail _
  refine Framed.ifConstrained ?_ (framed_ensureSkippedLine.then (Framed.withMode ?_ nofun))
  · exact (framed_write _).then <|
      (((framed_htmlRow hheader "th" _).then (framed_htmlRows hrows _)).withMode (by decide)).then
        (framed_write _)
  · exact (framed_markdownRow hheader _).then <| (framed_write _).then <|
      (framed_divider _).then <| (framed_write _).then (framed_markdownRows hrows _)

theorem Framed.quote (h : Framed body) : Framed (quote body) := by
  refine Framed.ifConstrained ?_ (Framed.paragraphBreak ?_)
  · exact (framed_write _).then ((h.withMode (by decide)).then (framed_write _))
  refine (framed_look _).bind fun atStart => ?_
  have hquoted : Framed (Render.withIndent "> " do markFresh; body) :=
    (framed_markFresh.then h).withIndent (by decide)
  dsimp only
  split
  · exact hquoted.then framed_ensureNewLine
  · exact (framed_write _).then (hquoted.then framed_ensureNewLine)

theorem framed_codeBlock (language : Option String) (code : String) :
    Framed (codeBlock language code) := by
  have hcode : Framed (writeEscaped code) := framed_writeEscaped code
  refine Framed.ifConstrained ?_ (Framed.paragraphBreak ?_)
  · exact (framed_write _).then <|
      ((hcode.withMode (by decide)).withMode (by decide)).then (framed_write _)
  · exact (framed_write _).then <| (framed_write _).then <| (framed_write _).then <|
      (hcode.withMode (by decide)).then <| framed_ensureNewLine.then <|
        (framed_write _).then framed_ensureNewLine

theorem Framed.linkedCode (h : Framed body) (language : String) :
    Framed (linkedCode language body) := by
  refine Framed.ifConstrained ?_ (Framed.paragraphBreak ?_)
  · exact (framed_write _).then <|
      ((h.withMode (by decide)).withMode (by decide)).then (framed_write _)
  · exact (framed_write _).then <| (framed_attributeValue _).then <| (framed_write _).then <|
      ((h.withMode (by decide)).withMode (by decide)).then <|
        (framed_write _).then framed_ensureNewLine

theorem Framed.collapsible {summary : Render Unit} (hs : Framed summary) (h : Framed body) :
    Framed (collapsible summary body) := by
  refine Framed.ifConstrained ?_ (Framed.paragraphBreak ?_)
  · exact (framed_write _).then <|
      ((hs.then ((framed_write _).then h)).withMode (by decide)).then (framed_write _)
  · exact (framed_writeLine _).then <| (framed_write _).then <|
      (hs.inSingleLine.withMode (by decide)).then <|
      (framed_write _).then <| framed_ensureSkippedLine.then <| h.then <|
        framed_ensureSkippedLine.then <| (framed_write _).then framed_ensureNewLine

theorem Framed.element (h : Framed body) (tag : String) (attributes : Dict String) :
    Framed (element tag attributes body) := by
  have hopen (selfClosing : Bool) : Framed (openTag tag attributes selfClosing) :=
    framed_openTag tag attributes selfClosing
  unfold Markdown.element
  split
  · exact hopen true
  · exact (hopen false).then (h.then (framed_write _))
  refine (framed_look _).bind fun constrained => ?_
  split
  · exact h.paragraphBreak
  refine (framed_look _).bind fun inBlock => ?_
  split
  · exact (hopen false).then ((h.withMode (by decide)).then (framed_write _))
  refine Framed.paragraphBreak ((hopen false).then <| (framed_look _).bind fun start =>
    (h.withMode (by decide)).then <| (framed_look _).bind fun broken => ?_)
  dsimp only
  split
  · exact framed_ensureSkippedLine.then ((framed_write _).then framed_ensureNewLine)
  · exact (framed_write _).then framed_ensureNewLine

theorem framed_separateLists (afterList isList : Bool) : Framed (separateLists afterList isList) := by
  refine (framed_look _).bind fun constrained => ?_
  split
  · exact framed_ensureSkippedLine.then ((framed_write _).then framed_ensureNewLine)
  · exact framed_pure ()

end Block

end Render
open Render

section Tree
variable {o : Options} {head : PageMetadata → Render Unit}

theorem framed_renderNodes {nodes : List Node} (h : ∀ n ∈ nodes, Framed (renderNode o head n))
    (afterList : Bool) : Framed (renderNodes o head afterList nodes) := by
  induction nodes generalizing afterList with
  | nil => exact framed_pure ()
  | cons node rest ih =>
    obtain ⟨hnode, hrest⟩ := List.forall_mem_cons.1 h
    exact (framed_separateLists _ _).then (hnode.then (ih hrest _))

theorem framed_renderNode (hhead : ∀ metadata, Framed (head metadata)) (node : Node) :
    Framed (renderNode o head node) := by
  induction node with
  | text s => exact framed_writeEscaped s
  | rule => exact framed_rule
  | comment s persist =>
    rw [renderNode]
    split
    · exact framed_pure ()
    · exact framed_comment s
  | image src title alt => exact framed_image src title alt
  | code language s => exact framed_codeBlock language s
  | notice => exact framed_notice
  | group children ih => exact framed_renderNodes ih false
  | quote children ih => exact (framed_renderNodes ih false).quote
  | element tag attributes children ih =>
    exact (framed_renderNodes ih false).element tag attributes
  | emphasis style children ih => exact (framed_renderNodes ih false).emphasis style _
  | codeSpan children => exact framed_codeSpan _
  | richCode language children ih =>
    rw [renderNode]
    split
    · exact (framed_renderNodes ih false).linkedCode language
    · exact framed_codeBlock _ _
  | link target destination title children ih => exact (framed_renderNodes ih false).link _ title
  | paragraph children ih => exact (framed_renderNodes ih false).element "p" ∅
  | heading level anchor children ih => exact (framed_renderNodes ih false).heading level anchor
  | list style items ih =>
    rw [renderNode, renderParts_eq_map]
    exact framed_list (List.forall_mem_map.2 ih) style
  | table header rows ihheader ihrows =>
    rw [renderNode, renderParts_eq_map, renderRows_eq_map]
    refine framed_table (List.forall_mem_map.2 ihheader) (List.forall_mem_map.2 fun row hrow => ?_)
    exact List.forall_mem_map.2 (ihrows row hrow)
  | collapsible summary children ihsummary ih =>
    exact ihsummary.collapsible (framed_renderNodes ih false)
  | page metadata children ih =>
    exact (hhead metadata).then ((framed_renderNodes ih false).then framed_ensureNewLine)

theorem framed_pageHead (metadata : PageMetadata) : Framed (pageHead o metadata) := by
  refine framed_notice.then <| ((framed_writeEscaped _).heading 1 none).then ?_
  split
  · exact framed_pure ()
  · exact framed_renderNode (fun _ => framed_pure ()) _

theorem render_extends (o : Options) (node : Node) (out : Output) :
    out.Extends (render o node out).2 :=
  framed_renderNode framed_pageHead node out

/-- Rendering a tree to any output, whether it succeeds or fails, leaves the modes and the
indentations as they were and only adds text. Where the line may not end and the indentation
holds no line break, the text added holds none. -/
theorem render_frame (o : Options) (node : Node) (out : Output) :
    let out' := (render o node out).2
    out'.modes = out.modes ∧ out'.buffer.indents = out.buffer.indents ∧
      ∃ added, out'.text = out.text ++ added ∧
        (out.constrained → OneLine out.buffer.indent → OneLine added) := by
  obtain ⟨hmodes, hbuffer⟩ := render_extends o node out
  exact ⟨hmodes, hbuffer.indents, hbuffer.text⟩

end Tree

theorem renderRaw_ok {o : Options} {node : Node} {md : String} (h : renderRaw o node = .ok md) :
    ∃ out, render o node {} = (.ok (), out) ∧ out.text = md := by
  unfold renderRaw Render.toText at h
  split at h
  · next out heq =>
    cases h
    exact ⟨out, heq, rfl⟩
  · cases h

end DocTree.Markdown
