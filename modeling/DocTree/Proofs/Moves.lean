import DocTree.Proofs.Failure
import DocTree.Proofs.LineEnd

/-! Rendering as a run of moves. Where no text of a tree holds a line break, all that rendering ever
does to an output is to write such a text, to end a line that has content, to skip a line, and to
change modes and indentations. What each of these moves keeps is kept by every rendering. -/
namespace DocTree
open Text

namespace Node

/-- No text of the tree holds a line break. -/
def OneLine (node : Node) : Prop := ∀ m ∈ node.nodes, ∀ s ∈ m.strings, Text.OneLine s

instance (node : Node) : Decidable node.OneLine :=
  inferInstanceAs (Decidable (∀ m ∈ node.nodes, ∀ s ∈ m.strings, Text.OneLine s))

theorem oneLine_textsContent {children : List Node} (h : ∀ n ∈ children, Text.OneLine n.textContent) :
    Text.OneLine (textsContent children) := by
  induction children with
  | nil => exact (by decide : Text.OneLine "")
  | cons n rest ih =>
    obtain ⟨hn, hrest⟩ := List.forall_mem_cons.1 h
    exact oneLine_append.2 ⟨hn, ih hrest⟩

theorem oneLine_rowsContent {rows : List (List Node)}
    (h : ∀ row ∈ rows, ∀ n ∈ row, Text.OneLine n.textContent) :
    Text.OneLine (rowsContent rows) := by
  induction rows with
  | nil => exact (by decide : Text.OneLine "")
  | cons row rest ih =>
    obtain ⟨hrow, hrest⟩ := List.forall_mem_cons.1 h
    exact oneLine_append.2 ⟨oneLine_textsContent hrow, ih hrest⟩

theorem oneLine_textContent {node : Node} (h : node.OneLine) : Text.OneLine node.textContent := by
  have hparts {children : List Node}
      (ih : ∀ n ∈ children, n.OneLine → Text.OneLine n.textContent)
      (hchildren : ∀ n ∈ children, n.OneLine) : Text.OneLine (textsContent children) :=
    oneLine_textsContent fun n hn => ih n hn (hchildren n hn)
  induction node with
    simp only [OneLine, nodes, List.forall_mem_cons, List.forall_mem_append, forall_mem_nodesOf,
      forall_mem_nodesOfRows] at h
  | text s => exact h.1 s List.mem_cons_self
  | code language s => exact h.1 s (List.mem_append_right _ List.mem_cons_self)
  | rule | comment | image | notice => exact (by decide : Text.OneLine "")
  | group children ih | quote children ih | element tag attributes children ih
  | emphasis style children ih | codeSpan children ih | richCode language children ih
  | link target destination title children ih | paragraph children ih
  | heading level anchor children ih | list style children ih | page metadata children ih =>
    exact hparts ih h.2
  | table header rows ihheader ihrows =>
    refine oneLine_append.2 ⟨hparts ihheader h.2.1, oneLine_rowsContent fun row hrow n hn => ?_⟩
    exact ihrows row hrow n hn (h.2.2 row hrow n hn)
  | collapsible summary children ihsummary ih =>
    exact oneLine_append.2 ⟨ihsummary h.2.1, hparts ih h.2.2⟩

end Node

namespace Markdown
open Layout

/-- One move of an output. -/
inductive Move : Output → Output → Prop
  | wrote {out : Output} {s : String} (h : OneLine s) : Move out (out.wrote s)
  | ended {out : Output} (h : out.buffer.atLineStart = false) : Move out (out.wrote "\n")
  | skipped {out : Output} : Move out out.skipped
  | marked {out : Output} : Move out { out with fresh := true }
  | indented {out : Output} {indent : String} (h : OneLine indent) :
    Move out { out with buffer := out.buffer.pushIndent indent }
  | unindented {out : Output} : Move out { out with buffer := out.buffer.popIndent }
  | entered {out : Output} (modes : Modes) : Move out { out with modes := modes }

abbrev Moves : Output → Output → Prop := Relation.ReflTransGen Move

namespace Render
variable {α β : Type}

/-- Whatever becomes of them, the steps make moves. -/
def Runs (steps : Render α) : Prop := ∀ out, Moves out (steps out).2

theorem runs_pure (a : α) : Runs (pure a) := fun _ => .refl

theorem runs_fail (error : RenderError) : Runs (fail error : Render α) := fun _ => .refl

theorem Runs.bind {steps : Render α} {next : α → Render β} (h : Runs steps)
    (hnext : ∀ a, Runs (next a)) : Runs (steps >>= next) := by
  intro out
  have hfirst := h out
  rw [bind_apply]
  split
  · next a mid heq =>
    rw [heq] at hfirst
    exact hfirst.trans (hnext a mid)
  · next e mid heq =>
    rw [heq] at hfirst
    exact hfirst

theorem Runs.then {steps : Render Unit} {next : Render α} (h : Runs steps) (hnext : Runs next) :
    Runs (do steps; next) := h.bind fun _ => hnext

theorem runs_look {view : Output → α} {next : α → Render β}
    (h : ∀ out, Runs (next (view out))) : Runs (look view >>= next) := fun out => h out out

theorem Runs.ifConstrained {steps next : Render α} (h : Runs steps) (hnext : Runs next) :
    Runs (do if ← constrained then steps else next) := by
  apply runs_look
  intro out
  split
  · exact h
  · exact hnext

theorem runs_write {s : String} (hs : OneLine s) : Runs (write s) := by
  intro out
  rw [write_of_fits fun _ => hs]
  exact .single (.wrote hs)

theorem runs_writeEscaped {s : String} (hs : OneLine s) : Runs (writeEscaped s) :=
  runs_look fun _ => runs_write (EscapeContext.oneLine_escape_of (absurd hs))

/-- A line that has content is ended, if a line may end here. -/
theorem moves_break {out : Output} (h : out.buffer.atLineStart = false) :
    Moves out (write "\n" out).2 := by
  unfold write
  split
  · exact .refl
  · exact .single (.ended h)

theorem runs_ensureNewLine : Runs ensureNewLine := by
  intro out
  rw [ensureNewLine, bind_apply]
  simp only [look]
  split
  · exact .refl
  · next h => exact moves_break (Bool.eq_false_iff.2 h)

/-- A line that is begun and gone on with has content when it is ended. -/
theorem Runs.line {s : String} {steps : Render Unit} (h : Runs steps) (hstays : Stays steps)
    (hs : OneLine s) (hwritten : Written s) : Runs (do write s; steps; write "\n") := by
  intro out
  have hstart : Moves out (out.wrote s) := .single (.wrote hs)
  have hbegun : write s out = (.ok (), out.wrote s) := write_of_fits fun _ => hs
  have hbusy := busy_write hs hwritten hbegun
  have hbody := h (out.wrote s)
  rw [bind_apply, hbegun]
  dsimp only
  rw [bind_apply]
  cases hmid : steps (out.wrote s) with
  | mk result mid =>
    rw [hmid] at hbody
    cases result with
    | error e => exact hstart.trans hbody
    | ok => exact hstart.trans (hbody.trans (moves_break (hstays _ mid hbusy hmid).1))

theorem runs_ensureSkippedLine : Runs ensureSkippedLine :=
  (runs_fail _).ifConstrained fun _ => .single .skipped

theorem runs_markFresh : Runs markFresh := fun _ => .single .marked

theorem Runs.withIndent {steps : Render α} (h : Runs steps) {indent : String}
    (hi : OneLine indent) : Runs (withIndent indent steps) :=
  fun _ => .head (.indented hi) ((h _).tail .unindented)

theorem Runs.withMode {steps : Render α} (h : Runs steps) (mode : Mode) (value : Bool) :
    Runs (withMode mode value steps) :=
  fun _ => .head (.entered _) ((h _).tail (.entered _))

theorem Runs.inTable {steps : Render α} (h : Runs steps) : Runs (inTable steps) :=
  (h.withMode _ _).withMode _ _

theorem Runs.inSingleLine {steps : Render α} (h : Runs steps) : Runs (inSingleLine steps) :=
  runs_look fun _ => (h.withMode _ _).withMode _ _

theorem Runs.paragraphBreak {steps : Render α} (h : Runs steps) : Runs (paragraphBreak steps) := by
  apply (runs_fail _).ifConstrained
  apply runs_look
  intro out
  split
  · exact h
  · have hskip : Runs (modifyBuffer Buffer.ensureSkippedLine) := fun _ => .single .skipped
    exact hskip.then ((runs_markFresh.then h).withMode _ _)

section Inline
variable {body : Render Unit}

theorem runs_attributeValue {value : String} (h : OneLine value) : Runs (attributeValue value) :=
  (((runs_writeEscaped h).withMode _ _).withMode _ _).withMode _ _

theorem runs_optionalAttribute {name : String} (hname : OneLine name) {value : Option String}
    (h : ∀ s ∈ value, OneLine s) : Runs (optionalAttribute name value) := by
  cases value with
  | none => exact runs_pure ()
  | some value =>
    have hopen : OneLine (" " ++ name ++ "=\"") := hname.between (by decide) (by decide)
    exact (runs_write hopen).then ((runs_attributeValue (h value rfl)).then (runs_write (by decide)))

theorem runs_attributeList {attributes : List (String × String)}
    (h : ∀ e ∈ attributes, OneLine e.1 ∧ OneLine e.2) : Runs (attributeList attributes) := by
  induction attributes with
  | nil => exact runs_pure ()
  | cons e rest ih =>
    obtain ⟨⟨hname, hvalue⟩, hrest⟩ := List.forall_mem_cons.1 h
    exact (runs_write (by decide)).then <| (runs_write hname).then <|
      (runs_write (by decide)).then <| (runs_attributeValue hvalue).then <|
      (runs_write (by decide)).then (ih hrest)

theorem runs_openTag {tag : String} {attributes : Dict String} (htag : OneLine tag)
    (h : ∀ e ∈ attributes.entries, OneLine e.1 ∧ OneLine e.2) (selfClosing : Bool) :
    Runs (openTag tag attributes selfClosing) :=
  (runs_write (by decide)).then <| (runs_write htag).then <|
    (runs_attributeList h).then (runs_write (by cases selfClosing <;> decide))

theorem runs_closeTag {tag : String} (htag : OneLine tag) : Runs (closeTag tag) :=
  runs_write (htag.between (by decide) (by decide))

theorem runs_linkTail {destination : String} (h : OneLine destination) (title : Option String) :
    Runs (linkTail destination title) := by
  apply (runs_write (by decide)).then
  apply runs_look
  intro out
  apply (runs_write (oneLine_escapeDestination h _)).then
  cases title with
  | none => exact runs_write (by decide)
  | some title =>
    have htitle := oneLine_escapeTitle title (out.modes.get .table)
    exact (runs_write (htitle.between (by decide) (by decide))).then (runs_write (by decide))

theorem Runs.link (h : Runs body) {destination : String} (hd : OneLine destination)
    {title : Option String} (ht : ∀ s ∈ title, OneLine s) :
    Runs (link destination title body) := by
  apply runs_look
  intro _
  split
  · exact h
  apply runs_look
  intro _
  split
  · exact (runs_write (by decide)).then <| (runs_attributeValue hd).then <|
      (runs_write (by decide)).then <| (runs_optionalAttribute (by decide) ht).then <|
      (runs_write (by decide)).then (h.then (runs_write (by decide)))
  · exact (runs_write (by decide)).then (h.then (runs_linkTail hd title))

theorem Runs.emphasis (h : Runs body) (style : Emphasis) (isEmpty : Bool) :
    Runs (emphasis style isEmpty body) := by
  have hmark : Runs (write (delimiter style)) := runs_write (by cases style <;> decide)
  have htag : OneLine (emphasisTag style) := by cases style <;> decide
  apply runs_look
  intro _
  split
  · exact h
  apply runs_look
  intro _
  split
  · have hopen : OneLine s!"<{emphasisTag style}>" := htag.between (by decide) (by decide)
    exact (runs_write hopen).then (h.then (runs_closeTag htag))
  · exact hmark.then (h.then hmark)

theorem runs_codeSpan (content : String) : Runs (codeSpan content) := by
  have hcode : OneLine (Text.replaceChar '\n' " " content) :=
    oneLine_replaceChar (by decide) (.inr rfl)
  unfold codeSpan
  dsimp only
  split
  · exact runs_pure ()
  apply runs_look
  intro _
  split
  · exact (runs_write (by decide)).then ((runs_writeEscaped hcode).then (runs_write (by decide)))
  · exact (runs_write (oneLine_ticks _)).then <| (runs_write (oneLine_tickPadding _)).then <|
      ((runs_writeEscaped hcode).withMode _ _).then <|
      (runs_write (oneLine_tickPadding _)).then (runs_write (oneLine_ticks _))

theorem runs_image {src : String} (h : OneLine src) {title alt : Option String}
    (ht : ∀ s ∈ title, OneLine s) (ha : ∀ s ∈ alt, OneLine s) : Runs (image src title alt) := by
  apply runs_look
  intro _
  split
  · exact (runs_write (by decide)).then <| (runs_attributeValue h).then <|
      (runs_write (by decide)).then <| (runs_optionalAttribute (by decide) ha).then <|
      (runs_optionalAttribute (by decide) ht).then (runs_write (by decide))
  apply (runs_write (by decide)).then
  cases alt with
  | none => exact runs_linkTail h title
  | some alt =>
    have halt : OneLine (Text.replaceChar '\n' " " alt) :=
      oneLine_replaceChar (by decide) (.inr rfl)
    exact (runs_writeEscaped halt).then (runs_linkTail h title)

theorem runs_comment {s : String} (hs : OneLine s) : Runs (comment s) := by
  apply runs_look
  intro out
  exact (runs_write (by decide)).then <|
    (runs_write (oneLine_commentBody_of_oneLine hs _)).then (runs_write (by decide))

end Inline

section Items
variable {items header : List (Render Unit)} {rows : List (List (Render Unit))}

theorem runs_htmlItems (h : ∀ item ∈ items, Runs item) : Runs (htmlItems items) := by
  induction items with
  | nil => exact runs_pure ()
  | cons item rest ih =>
    obtain ⟨hitem, hrest⟩ := List.forall_mem_cons.1 h
    exact (runs_write (by decide)).then (hitem.then ((runs_write (by decide)).then (ih hrest)))

theorem oneLine_marker (style : ListStyle) (position : Nat) : OneLine (marker style position) := by
  cases style with
  | unordered => exact (by decide : OneLine "- ")
  | ordered start => exact oneLine_append.2 ⟨oneLine_repr _, by decide⟩

theorem runs_markedItems (h : ∀ item ∈ items, Runs item) (style : ListStyle) (position : Nat) :
    Runs (markedItems style position items) := by
  induction items generalizing position with
  | nil => exact runs_pure ()
  | cons item rest ih =>
    obtain ⟨hitem, hrest⟩ := List.forall_mem_cons.1 h
    exact runs_ensureNewLine.then <| (runs_write (oneLine_marker style position)).then <|
      (((runs_markFresh.then hitem).withMode _ _).withIndent (oneLine_spaces _)).then (ih hrest _)

theorem runs_list (h : ∀ item ∈ items, Runs item) (style : ListStyle) :
    Runs (list style items) := by
  have hopen : OneLine (listOpenTag style) := by
    cases style with
    | unordered => decide
    | ordered start =>
      unfold listOpenTag
      dsimp only
      split
      · decide
      · exact (oneLine_repr start.toNat).between (by decide) (by decide)
  have hclose : OneLine (listCloseTag style) := by
    cases style with
    | unordered => exact (by decide : OneLine "</ul>")
    | ordered start => exact (by decide : OneLine "</ol>")
  have hitems : Runs (withMode .htmlBlock false do
      markedItems style 0 items
      ensureNewLine) := ((runs_markedItems h style 0).then runs_ensureNewLine).withMode _ _
  apply Runs.ifConstrained
  · exact (runs_write hopen).then <| ((runs_htmlItems h).withMode _ _).then (runs_write hclose)
  apply runs_look
  intro _
  apply runs_look
  intro _
  dsimp only
  split
  · exact runs_ensureNewLine.then hitems
  · exact runs_ensureSkippedLine.then hitems

theorem runs_htmlCells (h : ∀ cell ∈ items, Runs cell) {tag : String} (htag : OneLine tag)
    (columns : Nat) : Runs (htmlCells tag columns items) := by
  have hopen : Runs (write s!"<{tag}>") := runs_write (htag.between (by decide) (by decide))
  have hclose : Runs (write s!"</{tag}>") := runs_write (htag.between (by decide) (by decide))
  induction columns generalizing items with
  | zero => exact runs_pure ()
  | succ columns ih =>
    cases items with
    | nil => exact hopen.then (hclose.then (ih h))
    | cons cell rest =>
      obtain ⟨hcell, hrest⟩ := List.forall_mem_cons.1 h
      exact hopen.then (hcell.then (hclose.then (ih hrest)))

theorem runs_htmlRow (h : ∀ cell ∈ items, Runs cell) {tag : String} (htag : OneLine tag)
    (columns : Nat) : Runs (htmlRow tag columns items) :=
  (runs_write (by decide)).then ((runs_htmlCells h htag columns).then (runs_write (by decide)))

theorem runs_htmlRows (h : ∀ row ∈ rows, ∀ cell ∈ row, Runs cell) (columns : Nat) :
    Runs (htmlRows columns rows) := by
  induction rows with
  | nil => exact runs_pure ()
  | cons row rest ih =>
    obtain ⟨hrow, hrest⟩ := List.forall_mem_cons.1 h
    exact (runs_htmlRow hrow (by decide) columns).then (ih hrest)

theorem runs_markdownCells (h : ∀ cell ∈ items, Runs cell) (columns : Nat) :
    Runs (markdownCells columns items) := by
  induction columns generalizing items with
  | zero => exact runs_pure ()
  | succ columns ih =>
    cases items with
    | nil => exact (runs_write (by decide)).then ((runs_write (by decide)).then (ih h))
    | cons cell rest =>
      obtain ⟨hcell, hrest⟩ := List.forall_mem_cons.1 h
      exact (runs_write (by decide)).then <| hcell.inTable.then <|
        (runs_write (by decide)).then (ih hrest)

theorem runs_divider (columns : Nat) : Runs (divider columns) := by
  induction columns with
  | zero => exact runs_pure ()
  | succ columns ih => exact (runs_write (by decide)).then ih

variable (hfits : ∀ cell ∈ header, Fits cell) (hrowsfit : ∀ row ∈ rows, ∀ cell ∈ row, Fits cell)

include hfits in
theorem runs_markdownRow (h : ∀ cell ∈ header, Runs cell) (columns : Nat) :
    Runs (markdownRow columns header) :=
  (runs_markdownCells h columns).line (stays_markdownCells hfits columns) (by decide) written_bar

include hrowsfit in
theorem runs_markdownRows (h : ∀ row ∈ rows, ∀ cell ∈ row, Runs cell) (columns : Nat) :
    Runs (markdownRows columns rows) := by
  induction rows with
  | nil => exact runs_pure ()
  | cons row rest ih =>
    obtain ⟨hrow, hrest⟩ := List.forall_mem_cons.1 h
    obtain ⟨hrowfits, hrestfit⟩ := List.forall_mem_cons.1 hrowsfit
    exact (runs_markdownRow hrowfits hrow columns).then (ih hrestfit hrest)

include hfits hrowsfit in
theorem runs_table (hheader : ∀ cell ∈ header, Runs cell)
    (hrows : ∀ row ∈ rows, ∀ cell ∈ row, Runs cell) : Runs (table header rows) := by
  rw [table_eq]
  split
  · exact runs_fail _
  generalize columnCount header rows = columns
  apply Runs.ifConstrained
  · have hlines := (runs_htmlRow hheader (by decide : OneLine "th") columns).then
      (runs_htmlRows hrows columns)
    exact (runs_write (by decide)).then ((hlines.withMode _ _).then (runs_write (by decide)))
  · have hrule : Runs (do write "|"; divider columns; write "\n") :=
      (runs_divider columns).line (stays_divider columns) (by decide) written_bar
    have hlines := (runs_markdownRow hfits hheader columns).then <|
      hrule.then (runs_markdownRows hrowsfit hrows columns)
    simp only [bind_assoc] at hlines
    exact runs_ensureSkippedLine.then (hlines.withMode _ _)

end Items

section Block
variable {body : Render Unit}

theorem runs_notice : Runs notice :=
  (runs_write (by decide)).then ((runs_pure ()).ifConstrained runs_ensureNewLine)

theorem runs_rule : Runs rule :=
  (runs_write (by decide)).ifConstrained
    ((runs_write (by decide)).then runs_ensureNewLine).paragraphBreak

theorem Runs.heading (h : Runs body) (level : UInt8) {anchor : Option String}
    (ha : ∀ id ∈ anchor, OneLine id) : Runs (heading level anchor body) := by
  have hlevel : OneLine (toString level) := oneLine_repr level.toNat
  have hopen : OneLine s!"<h{level}>" := hlevel.between (by decide) (by decide)
  have hclose : OneLine s!"</h{level}>" := hlevel.between (by decide) (by decide)
  have hmark : OneLine (headingMark level) := by simp [headingMark, List.mem_replicate]
  have hanchor : Runs (optionalAnchor anchor) := by
    cases anchor with
    | none => exact runs_pure ()
    | some id => exact runs_write ((ha id rfl).between (by decide) (by decide))
  rw [heading_eq]
  split
  · exact runs_fail _
  apply Runs.ifConstrained
  · exact (runs_write hopen).then (((hanchor.then h).withMode _ _).then (runs_write hclose))
  · exact ((runs_write hmark).then <| (runs_write (by decide)).then <| hanchor.then <|
      h.inSingleLine.then runs_ensureNewLine).paragraphBreak

theorem Runs.quote (h : Runs body) : Runs (quote body) := by
  have hquoted : Runs (do
      Render.withIndent "> " do
        markFresh
        body
      ensureNewLine) := ((runs_markFresh.then h).withIndent (by decide)).then runs_ensureNewLine
  apply Runs.ifConstrained
  · exact (runs_write (by decide)).then ((h.withMode _ _).then (runs_write (by decide)))
  apply Runs.paragraphBreak
  apply runs_look
  intro _
  dsimp only
  split
  · exact hquoted
  · exact (runs_write (by decide)).then hquoted

theorem runs_codeBlock {language : Option String} (hl : ∀ s ∈ language, OneLine s) {code : String}
    (hc : OneLine code) : Runs (codeBlock language code) := by
  obtain ⟨hfence, hwritten⟩ : OneLine (ticks (fenceLength code '\x60')) ∧
      Written (ticks (fenceLength code '\x60')) :=
    line_replicate (by simp [fenceLength]) (by decide) (by decide)
  have hlanguage : OneLine (language.getD "") := by
    cases language with
    | none => decide
    | some language => exact hl language rfl
  apply Runs.ifConstrained
  · exact (runs_write (by decide)).then <|
      (((runs_writeEscaped hc).withMode _ _).withMode _ _).then (runs_write (by decide))
  · have hopen := (runs_write hlanguage).line (stays_write hlanguage) hfence hwritten
    have hlines := hopen.then <| ((runs_writeEscaped hc).withMode .markdownCode true).then <|
      runs_ensureNewLine.then <| (runs_write hfence).then runs_ensureNewLine
    simp only [bind_assoc] at hlines
    exact hlines.paragraphBreak

theorem Runs.linkedCode (h : Runs body) {language : String} (hl : OneLine language) :
    Runs (linkedCode language body) := by
  apply Runs.ifConstrained
  · exact (runs_write (by decide)).then <|
      ((h.withMode _ _).withMode _ _).then (runs_write (by decide))
  · exact ((runs_write (by decide)).then <| (runs_attributeValue hl).then <|
      (runs_write (by decide)).then <| ((h.withMode _ _).withMode _ _).then <|
      (runs_write (by decide)).then runs_ensureNewLine).paragraphBreak

theorem Runs.collapsible {summary : Render Unit} (hs : Runs summary) (h : Runs body) :
    Runs (collapsible summary body) := by
  apply Runs.ifConstrained
  · have hinside := hs.then ((runs_write (by decide : OneLine "</summary>")).then h)
    exact (runs_write (by decide)).then ((hinside.withMode _ _).then (runs_write (by decide)))
  · have hopen : Runs (writeLine "<details>") :=
      (runs_pure ()).line stays_pure (by decide) ⟨'<', by decide, by decide⟩
    exact (hopen.then <| (runs_write (by decide)).then <| (hs.inSingleLine.withMode _ _).then <|
      (runs_write (by decide)).then <| runs_ensureSkippedLine.then <| h.then <|
      runs_ensureSkippedLine.then <| (runs_write (by decide)).then
        runs_ensureNewLine).paragraphBreak

theorem Runs.element (h : Runs body) {tag : String} {attributes : Dict String}
    (htag : OneLine tag) (hattributes : ∀ e ∈ attributes.entries, OneLine e.1 ∧ OneLine e.2) :
    Runs (element tag attributes body) := by
  have hopen (selfClosing : Bool) : Runs (openTag tag attributes selfClosing) :=
    runs_openTag htag hattributes selfClosing
  have hclose := runs_closeTag htag
  unfold Markdown.element
  split
  · exact hopen true
  · exact (hopen false).then (h.then hclose)
  apply runs_look
  intro _
  split
  · exact h.paragraphBreak
  apply runs_look
  intro _
  split
  · exact (hopen false).then ((h.withMode _ _).then hclose)
  apply Runs.paragraphBreak
  apply (hopen false).then
  apply runs_look
  intro _
  apply (h.withMode _ _).then
  apply runs_look
  intro _
  dsimp only
  split
  · exact runs_ensureSkippedLine.then (hclose.then runs_ensureNewLine)
  · exact hclose.then runs_ensureNewLine

theorem runs_separateLists (afterList isList : Bool) : Runs (separateLists afterList isList) := by
  apply runs_look
  intro _
  split
  · exact runs_ensureSkippedLine.then ((runs_write (by decide)).then runs_ensureNewLine)
  · exact runs_pure ()

end Block
end Render
open Render

section Tree
variable {o : Options} {head : PageMetadata → Render Unit}

theorem runs_renderNodes {nodes : List Node} (h : ∀ n ∈ nodes, Runs (renderNode o head n))
    (afterList : Bool) : Runs (renderNodes o head afterList nodes) := by
  induction nodes generalizing afterList with
  | nil => exact runs_pure ()
  | cons node rest ih =>
    obtain ⟨hnode, hrest⟩ := List.forall_mem_cons.1 h
    exact (runs_separateLists _ _).then (hnode.then (ih hrest _))

/-- If what a page begins with makes moves, then so does a tree that holds no line break. -/
theorem runs_renderNode (ho : o.OneLine) (hfits : ∀ node, Fits (renderNode o head node))
    (hhead : ∀ metadata : PageMetadata, (∀ s ∈ metadata.strings, OneLine s) → Runs (head metadata))
    {node : Node} (h : node.OneLine) : Runs (renderNode o head node) := by
  have hnodes {children : List Node} (ih : ∀ n ∈ children, n.OneLine → Runs (renderNode o head n))
      (hchildren : ∀ n ∈ children, n.OneLine) : Runs (renderNodes o head false children) :=
    runs_renderNodes (fun n hn => ih n hn (hchildren n hn)) false
  have hcells (cells : List Node) : ∀ cell ∈ cells.map (renderNode o head), Fits cell :=
    List.forall_mem_map.2 fun n _ => hfits n
  induction node with
    simp only [Node.OneLine, Node.nodes, List.forall_mem_cons, List.forall_mem_append,
      Node.forall_mem_nodesOf, Node.forall_mem_nodesOfRows] at h
  | text s => exact runs_writeEscaped (h.1 s List.mem_cons_self)
  | rule => exact runs_rule
  | notice => exact runs_notice
  | comment s persist =>
    rw [renderNode]
    split
    · exact runs_pure ()
    · exact runs_comment (h.1 s List.mem_cons_self)
  | image src title alt =>
    simp only [Node.strings, List.cons_append, List.forall_mem_cons, List.forall_mem_append,
      Option.mem_toList] at h
    obtain ⟨⟨hsrc, htitle, halt⟩, -⟩ := h
    exact runs_image hsrc htitle halt
  | code language s =>
    simp only [Node.strings, List.forall_mem_append, Option.mem_toList, List.mem_singleton,
      forall_eq] at h
    obtain ⟨⟨hlanguage, hcode⟩, -⟩ := h
    exact runs_codeBlock hlanguage hcode
  | group children ih => exact hnodes ih h.2
  | quote children ih => exact (hnodes ih h.2).quote
  | element tag attributes children ih =>
    simp only [Node.strings, List.forall_mem_cons, List.forall_mem_flatMap] at h
    obtain ⟨⟨htag, hattributes⟩, hchildren⟩ := h
    exact (hnodes ih hchildren).element htag fun e he => (hattributes e he).imp_right And.left
  | emphasis style children ih => exact (hnodes ih h.2).emphasis style _
  | codeSpan children => exact runs_codeSpan _
  | richCode language children ih =>
    obtain ⟨hstrings, hchildren⟩ := h
    have hlanguage : OneLine language := hstrings _ List.mem_cons_self
    rw [renderNode]
    split
    · exact (hnodes ih hchildren).linkedCode hlanguage
    · exact runs_codeBlock (by simpa using hlanguage)
        (Node.oneLine_textsContent fun n hn => Node.oneLine_textContent (hchildren n hn))
  | link target destination title children ih =>
    simp only [Node.strings, List.forall_mem_cons, Option.mem_toList] at h
    obtain ⟨⟨hdestination, htitle⟩, hchildren⟩ := h
    exact (hnodes ih hchildren).link
      (Options.oneLine_address ho.1 ho.2 hdestination target) htitle
  | paragraph children ih => exact (hnodes ih h.2).element (by decide) (List.forall_mem_nil _)
  | heading level anchor children ih =>
    simp only [Node.strings, Option.mem_toList] at h
    exact (hnodes ih h.2).heading level h.1
  | list style items ih =>
    rw [renderNode, renderParts_eq_map]
    exact runs_list (List.forall_mem_map.2 fun n hn => ih n hn (h.2 n hn)) style
  | table header rows ihheader ihrows =>
    rw [renderNode, renderParts_eq_map, renderRows_eq_map]
    exact runs_table (hcells header) (List.forall_mem_map.2 fun row _ => hcells row)
      (List.forall_mem_map.2 fun n hn => ihheader n hn (h.2.1 n hn))
      (List.forall_mem_map.2 fun row hrow => List.forall_mem_map.2 fun n hn =>
        ihrows row hrow n hn (h.2.2 row hrow n hn))
  | collapsible summary children ihsummary ih =>
    exact (ihsummary h.2.1).collapsible (hnodes ih h.2.2)
  | page metadata children ih =>
    exact (hhead metadata h.1).then ((hnodes ih h.2).then runs_ensureNewLine)

theorem composes_oneLine : Composes OneLine fun m => ∀ s ∈ m.strings, OneLine s where
  marks := by decide
  text _ hs := List.forall_mem_singleton.2 hs
  link _ _ ha _ := List.forall_mem_singleton.2 (oneLine_append.2 ⟨by decide, ha⟩)
  group _ := List.forall_mem_nil _
  list _ _ := List.forall_mem_nil _

theorem runs_pageHead (ho : o.OneLine) {metadata : PageMetadata}
    (h : ∀ s ∈ metadata.strings, OneLine s) : Runs (pageHead o metadata) := by
  obtain ⟨htitle, hentries⟩ := List.forall_mem_cons.1 h
  have hcontents : metadata.contents.toNode.OneLine :=
    composes_oneLine.of_contents metadata.contents hentries
  have hplainFits (node : Node) : Fits (renderNode o (fun _ => pure ()) node) :=
    ⟨respects_renderNode (fun _ _ => respects_pure ()) node true,
      framed_renderNode (fun _ => framed_pure ()) node⟩
  apply runs_notice.then
  apply ((runs_writeEscaped htitle).heading 1 (by simp)).then
  split
  · exact runs_pure ()
  · exact runs_renderNode ho hplainFits (fun _ _ => runs_pure ()) hcontents

/-- A tree that holds no line break is rendered by moves. -/
theorem runs_render (ho : o.OneLine) {node : Node} (h : node.OneLine) : Runs (render o node) :=
  runs_renderNode ho fits_render (fun _ => runs_pageHead ho) h

end Tree
end Markdown
end DocTree
