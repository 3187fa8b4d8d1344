import DocTree.Proofs.Frame

/-! Rendering keeps what a tree says. Each step adds a text, and the letters and digits that it was
given stand in this text in their order, whatever escapes, tags and indentation stand between
them. -/
namespace DocTree

/-- The letters and digits of a text. -/
def letters (s : String) : List Char := s.toList.filter Unicode.isAlphanumeric

@[simp] theorem letters_empty : letters "" = [] := rfl

@[simp] theorem letters_append (s t : String) : letters (s ++ t) = letters s ++ letters t := by
  simp [letters]

theorem letters_replaceChar {old : Char} {new : String} (hold : ¬ Unicode.isAlphanumeric old)
    (hnew : letters new = []) (s : String) : letters (Text.replaceChar old new s) = letters s := by
  unfold letters at hnew ⊢
  rw [Text.replaceChar, String.toList_ofList]
  induction s.toList with
  | nil => rfl
  | cons c rest ih =>
    by_cases hc : c = old
    · simp [hc, hold, hnew, ih]
    · simp [hc, ih, List.filter_cons]

namespace Node

/-- An element that is written without content although it has children. -/
def dropsChildren : Node → Bool
  | element tag _ children => Html.TagClass.ofTag tag == .void && !children.isEmpty
  | _ => false

theorem letters_textsContent (nodes : List Node) :
    letters (textsContent nodes) = nodes.flatMap fun n => letters n.textContent := by
  induction nodes with
  | nil => rfl
  | cons node rest ih => simp [textsContent, ih]

theorem letters_rowsContent (rows : List (List Node)) :
    letters (rowsContent rows) = rows.flatMap fun row => row.flatMap fun n => letters n.textContent := by
  induction rows with
  | nil => rfl
  | cons row rest ih => simp [rowsContent, letters_textsContent, ih]

end Node

namespace Layout.Buffer

theorem exists_put_text (b : Buffer) (c : Char) :
    ∃ added, (b.put c).text = b.text ++ added ∧ c ∈ added.toList := by
  by_cases hc : c = '\n'
  · subst hc
    rw [put_newline]
    cases hb : b.content with
    | none =>
      refine ⟨(String.ofList (Unicode.dropBlankEnd b.indent.toList)).push '\n', ?_, by simp⟩
      simp [newline, hb, push_append]
    | some s => exact ⟨"\n", by rw [newline_begun hb], by simp⟩
  · cases hb : b.content with
    | none => exact ⟨b.indent.push c, by simp [put_atStart hc hb, push_append], by simp⟩
    | some s => exact ⟨.singleton c, by rw [put_begun hc hb, String.push_eq_append], by simp⟩

/-- What is written stands in the text that is added, with indentation between its lines. -/
theorem exists_write_text (b : Buffer) (s : String) :
    ∃ added, (b.write s).text = b.text ++ added ∧ s.toList.Sublist added.toList := by
  rw [← String.ofList_toList (s := s)]
  induction s.toList generalizing b with
  | nil => exact ⟨"", by simp, by simp⟩
  | cons c cs ih =>
    obtain ⟨first, hfirst, hc⟩ := b.exists_put_text c
    obtain ⟨more, hmore, hcs⟩ := ih (b.put c)
    refine ⟨first ++ more, ?_, ?_⟩
    · rw [write_ofList_cons, hmore, hfirst, String.append_assoc]
    · simpa using (List.singleton_sublist.2 hc).append hcs

end Layout.Buffer

namespace Markdown

theorem EscapeContext.sublist_escapeChar (ctx : EscapeContext) (blank : Bool) {c : Char}
    (hc : Unicode.isAlphanumeric c) : [c].Sublist (ctx.escapeChar blank c) := by
  have hentity : entity? c = none := by
    unfold entity?
    split <;> first | rfl | exact absurd hc (by decide +kernel)
  have hbreak : c ≠ '\n' := by
    rintro rfl
    exact absurd hc (by decide +kernel)
  rw [List.singleton_sublist]
  simp only [escapeChar, hentity, ite_self, hbreak, if_false]
  split
  · next hbar => simp [hbar.1]
  · split <;> simp

/-- Escaping puts backslashes and entities between letters. -/
theorem EscapeContext.letters_escape (ctx : EscapeContext) (s : String) :
    (letters s).Sublist (ctx.escape s).toList := by
  rw [letters, escape, String.toList_ofList]
  generalize ctx.lineIsBlank = blank
  induction s.toList generalizing blank with
  | nil => simp [escapeFrom]
  | cons c rest ih =>
    by_cases hc : Unicode.isAlphanumeric c
    · rw [List.filter_cons_of_pos hc, escapeFrom, ← List.singleton_append]
      exact (ctx.sublist_escapeChar blank hc).append (ih _)
    · rw [List.filter_cons_of_neg hc, escapeFrom]
      exact (ih _).trans (List.sublist_append_right _ _)

namespace Render
variable {cs ds : List Char} {steps next : Render Unit}

/-- If the steps succeed then the given characters stand in what they add, in their order. -/
def Shows (cs : List Char) (steps : Render Unit) : Prop :=
  ∀ out out' : Output, steps out = (.ok (), out') →
    ∃ added, out'.text = out.text ++ added ∧ cs.Sublist added.toList

theorem Framed.shows (h : Framed steps) : Shows [] steps := by
  intro out out' hok
  obtain ⟨added, htext, -⟩ := (h.of_eq hok).buffer.text
  exact ⟨added, htext, List.nil_sublist _⟩

theorem Shows.then (h : Shows cs steps) (hnext : Shows ds next) :
    Shows (cs ++ ds) (do steps; next) := by
  intro out out' hok
  obtain ⟨_, mid, hfirst, hsecond⟩ := bind_eq_ok hok
  obtain ⟨s, hs, hcs⟩ := h out mid hfirst
  obtain ⟨t, ht, hds⟩ := hnext mid out' hsecond
  refine ⟨s ++ t, by rw [ht, hs, String.append_assoc], ?_⟩
  rw [String.toList_append]
  exact hcs.append hds

theorem Shows.behind (h : Shows cs next) (hf : Framed steps) : Shows cs (do steps; next) :=
  hf.shows.then h

theorem Shows.before (h : Shows cs steps) (hf : Framed next) : Shows cs (do steps; next) := by
  simpa using h.then hf.shows

theorem shows_fail (error : RenderError) : Shows cs (fail error) := by
  intro out out' hok
  cases hok

theorem shows_look {α : Type} {view : Output → α} {next : α → Render Unit}
    (h : ∀ a, Shows cs (next a)) : Shows cs (look view >>= next) :=
  fun out out' hok => h (view out) out out' hok

theorem Shows.ifConstrained (h : Shows cs steps) (hnext : Shows cs next) :
    Shows cs (do if ← constrained then steps else next) := by
  apply shows_look
  intro line
  cases line with
  | true => simpa using h
  | false => simpa using hnext

theorem Shows.withMode (h : Shows cs steps) (mode : Mode) (value : Bool) :
    Shows cs (withMode mode value steps) := by
  intro out out' hok
  obtain ⟨hfirst, rfl⟩ := Prod.mk.inj hok
  let inner : Output := { out with modes := out.modes.set mode value }
  have hrun : steps inner = (.ok (), (steps inner).2) := Prod.ext hfirst rfl
  exact h inner (steps inner).2 hrun

theorem Shows.withIndent (h : Shows cs steps) (indent : String) :
    Shows cs (withIndent indent steps) := by
  intro out out' hok
  obtain ⟨hfirst, rfl⟩ := Prod.mk.inj hok
  let inner : Output := { out with buffer := out.buffer.pushIndent indent }
  have hrun : steps inner = (.ok (), (steps inner).2) := Prod.ext hfirst rfl
  exact h inner (steps inner).2 hrun

theorem Shows.inTable (h : Shows cs steps) : Shows cs (inTable steps) :=
  (h.withMode _ _).withMode _ _

theorem Shows.inSingleLine (h : Shows cs steps) : Shows cs (inSingleLine steps) :=
  shows_look fun _ => (h.withMode _ _).withMode _ _

theorem shows_skipLine : Shows [] (modifyBuffer Layout.Buffer.ensureSkippedLine) := by
  rintro out _ ⟨⟩
  obtain ⟨added, htext, -⟩ := out.buffer.extends_ensureSkippedLine.text
  exact ⟨added, htext, List.nil_sublist _⟩

theorem Shows.paragraphBreak (h : Shows cs steps) : Shows cs (paragraphBreak steps) := by
  apply (shows_fail _).ifConstrained
  apply shows_look
  intro fresh
  have hblock : Shows cs (Render.withMode .htmlBlock false do markFresh; steps) :=
    (h.behind framed_markFresh).withMode _ _
  cases fresh with
  | true => simpa using h
  | false => simpa using shows_skipLine.then hblock

theorem shows_write (s : String) : Shows s.toList (write s) := by
  intro out out' hok
  rw [Output.text, write_ok hok]
  exact out.buffer.exists_write_text s

theorem shows_writeEscaped (s : String) : Shows (letters s) (writeEscaped s) := by
  intro out out' hok
  obtain ⟨added, htext, hsub⟩ := shows_write (out.escapeContext.escape s) out out' hok
  exact ⟨added, htext, (out.escapeContext.letters_escape s).trans hsub⟩

section Inline
variable {body : Render Unit}

/-- Steps that write something in front of others and something behind them. -/
theorem Shows.between (h : Shows cs body) (before after : String) :
    Shows cs (do write before; body; write after) :=
  (h.before (framed_write after)).behind (framed_write before)

theorem Shows.link (h : Shows cs body) (destination : String) (title : Option String) :
    Shows cs (link destination title body) := by
  apply shows_look
  intro code
  split
  · exact h
  apply shows_look
  intro html
  split
  · have hopen := h.between ">" "</a>"
    exact (((hopen.behind (framed_optionalAttribute "title" title)).behind (framed_write _)).behind
      (framed_attributeValue destination)).behind (framed_write _)
  · exact (h.before (framed_linkTail destination title)).behind (framed_write _)

theorem Shows.emphasis (h : Shows cs body) (style : Emphasis) (isEmpty : Bool) :
    Shows cs (emphasis style isEmpty body) := by
  apply shows_look
  intro code
  split
  · exact h
  apply shows_look
  intro html
  split <;> exact h.between _ _

theorem shows_codeSpan (content : String) : Shows (letters content) (codeSpan content) := by
  have hcode : letters (Text.replaceChar '\n' " " content) = letters content :=
    letters_replaceChar (by decide +kernel) (by decide +kernel) content
  unfold codeSpan
  dsimp only
  generalize Text.replaceChar '\n' " " content = code at hcode
  rw [← hcode]
  split
  · next hempty => simpa [String.isEmpty_iff.1 hempty] using (framed_pure ()).shows
  apply shows_look
  intro html
  split
  · exact (shows_writeEscaped code).between _ _
  · exact (((((shows_writeEscaped code).withMode _ _).before
      ((framed_write _).then (framed_write _))).behind (framed_write _)).behind (framed_write _))

end Inline

section Items
variable {ι : Type} {items header : List ι} {rows : List (List ι)} {f : ι → Render Unit}
  {g : ι → List Char}

theorem shows_htmlItems (h : ∀ i ∈ items, Shows (g i) (f i)) :
    Shows (items.flatMap g) (htmlItems (items.map f)) := by
  induction items with
  | nil => exact (framed_pure ()).shows
  | cons i rest ih =>
    obtain ⟨hi, hrest⟩ := List.forall_mem_cons.1 h
    exact (hi.then ((ih hrest).behind (framed_write _))).behind (framed_write _)

theorem shows_markedItems (h : ∀ i ∈ items, Shows (g i) (f i)) (style : ListStyle) (position : Nat) :
    Shows (items.flatMap g) (markedItems style position (items.map f)) := by
  induction items generalizing position with
  | nil => exact (framed_pure ()).shows
  | cons i rest ih =>
    obtain ⟨hi, hrest⟩ := List.forall_mem_cons.1 h
    have hitem := ((hi.behind framed_markFresh).withMode .listItem true).withIndent
      (String.ofList (List.replicate (marker style position).length ' '))
    exact ((hitem.then (ih hrest _)).behind (framed_write _)).behind framed_ensureNewLine

theorem shows_list (h : ∀ i ∈ items, Shows (g i) (f i)) (style : ListStyle) :
    Shows (items.flatMap g) (list style (items.map f)) := by
  have hmarked : Shows (items.flatMap g) (withMode .htmlBlock false do
      markedItems style 0 (items.map f)
      ensureNewLine) :=
    ((shows_markedItems h style 0).before framed_ensureNewLine).withMode _ _
  apply Shows.ifConstrained
  · exact ((shows_htmlItems h).withMode .htmlBlock true).between _ _
  apply shows_look
  intro fresh
  apply shows_look
  intro inItem
  dsimp only
  split
  · exact hmarked.behind framed_ensureNewLine
  · exact hmarked.behind framed_ensureSkippedLine

/-- A row has room for its cells. -/
theorem shows_markdownCells (h : ∀ i ∈ items, Shows (g i) (f i)) {columns : Nat}
    (hcolumns : items.length ≤ columns) :
    Shows (items.flatMap g) (markdownCells columns (items.map f)) := by
  induction columns generalizing items with
  | zero =>
    rw [List.eq_nil_of_length_eq_zero (Nat.le_zero.1 hcolumns)]
    exact (framed_pure ()).shows
  | succ columns ih =>
    cases items with
    | nil =>
      have hmore := ih (List.forall_mem_nil _) (Nat.zero_le columns)
      exact (hmore.behind (framed_write _)).behind (framed_write _)
    | cons i rest =>
      obtain ⟨hi, hrest⟩ := List.forall_mem_cons.1 h
      have hmore := ih hrest (Nat.le_of_succ_le_succ hcolumns)
      exact (hi.inTable.then (hmore.behind (framed_write _))).behind (framed_write _)

theorem shows_markdownRow (h : ∀ i ∈ items, Shows (g i) (f i)) {columns : Nat}
    (hcolumns : items.length ≤ columns) :
    Shows (items.flatMap g) (markdownRow columns (items.map f)) :=
  (shows_markdownCells h hcolumns).between _ _

theorem shows_markdownRows (h : ∀ row ∈ rows, ∀ i ∈ row, Shows (g i) (f i)) {columns : Nat}
    (hcolumns : ∀ row ∈ rows, row.length ≤ columns) :
    Shows (rows.flatMap (·.flatMap g)) (markdownRows columns (rows.map (·.map f))) := by
  induction rows with
  | nil => exact (framed_pure ()).shows
  | cons row rest ih =>
    obtain ⟨hrow, hrest⟩ := List.forall_mem_cons.1 h
    obtain ⟨hlength, hlengths⟩ := List.forall_mem_cons.1 hcolumns
    exact (shows_markdownRow hrow hlength).then (ih hrest hlengths)

theorem shows_htmlCells (h : ∀ i ∈ items, Shows (g i) (f i)) (tag : String) {columns : Nat}
    (hcolumns : items.length ≤ columns) :
    Shows (items.flatMap g) (htmlCells tag columns (items.map f)) := by
  induction columns generalizing items with
  | zero =>
    rw [List.eq_nil_of_length_eq_zero (Nat.le_zero.1 hcolumns)]
    exact (framed_pure ()).shows
  | succ columns ih =>
    cases items with
    | nil =>
      have hmore := ih (List.forall_mem_nil _) (Nat.zero_le columns)
      exact (hmore.behind (framed_write _)).behind (framed_write _)
    | cons i rest =>
      obtain ⟨hi, hrest⟩ := List.forall_mem_cons.1 h
      have hmore := ih hrest (Nat.le_of_succ_le_succ hcolumns)
      exact (hi.then (hmore.behind (framed_write _))).behind (framed_write _)

theorem shows_htmlRow (h : ∀ i ∈ items, Shows (g i) (f i)) (tag : String) {columns : Nat}
    (hcolumns : items.length ≤ columns) :
    Shows (items.flatMap g) (htmlRow tag columns (items.map f)) :=
  (shows_htmlCells h tag hcolumns).between _ _

theorem shows_htmlRows (h : ∀ row ∈ rows, ∀ i ∈ row, Shows (g i) (f i)) {columns : Nat}
    (hcolumns : ∀ row ∈ rows, row.length ≤ columns) :
    Shows (rows.flatMap (·.flatMap g)) (htmlRows columns (rows.map (·.map f))) := by
  induction rows with
  | nil => exact (framed_pure ()).shows
  | cons row rest ih =>
    obtain ⟨hrow, hrest⟩ := List.forall_mem_cons.1 h
    obtain ⟨hlength, hlengths⟩ := List.forall_mem_cons.1 hcolumns
    exact (shows_htmlRow hrow "td" hlength).then (ih hrest hlengths)

/-- No row is longer than the table is wide, so every cell is written. -/
theorem shows_table (hheader : ∀ i ∈ header, Shows (g i) (f i))
    (hrows : ∀ row ∈ rows, ∀ i ∈ row, Shows (g i) (f i)) :
    Shows (header.flatMap g ++ rows.flatMap (·.flatMap g))
      (table (header.map f) (rows.map (·.map f))) := by
  obtain ⟨hfirst, hlengths⟩ := length_le_columnCount header rows
  rw [table_eq, columnCount_map]
  split
  · exact shows_fail _
  apply Shows.ifConstrained
  · have hcells := (shows_htmlRow hheader "th" hfirst).then (shows_htmlRows hrows hlengths)
    exact (hcells.withMode .htmlBlock true).between _ _
  · have hbody := (((shows_markdownRows hrows hlengths).behind (framed_write "\n")).behind
      (framed_divider (columnCount header rows))).behind (framed_write "|")
    have hcells := (shows_markdownRow hheader hfirst).then hbody
    exact (hcells.withMode .htmlBlock false).behind framed_ensureSkippedLine

end Items

section Block
variable {body : Render Unit}

theorem Shows.heading (h : Shows cs body) (level : UInt8) (anchor : Option String) :
    Shows cs (heading level anchor body) := by
  rw [heading_eq]
  split
  · exact shows_fail _
  apply Shows.ifConstrained
  · exact ((h.behind (framed_optionalAnchor anchor)).withMode .htmlBlock true).between _ _
  · have hline := (h.inSingleLine.before framed_ensureNewLine).behind (framed_optionalAnchor anchor)
    exact ((hline.behind (framed_write " ")).behind (framed_write _)).paragraphBreak

theorem Shows.quote (h : Shows cs body) : Shows cs (quote body) := by
  have hquoted : Shows cs (do
      Render.withIndent "> " do
        markFresh
        body
      ensureNewLine) :=
    ((h.behind framed_markFresh).withIndent "> ").before framed_ensureNewLine
  apply Shows.ifConstrained
  · exact (h.withMode .htmlBlock true).between _ _
  apply Shows.paragraphBreak
  apply shows_look
  intro atStart
  dsimp only
  split
  · exact hquoted
  · exact hquoted.behind (framed_write "> ")

theorem shows_codeBlock (language : Option String) (code : String) :
    Shows (letters code) (codeBlock language code) := by
  have hcode : Shows (letters code) (writeEscaped code) := shows_writeEscaped code
  apply Shows.ifConstrained
  · exact ((hcode.withMode .singleLineCode true).withMode .htmlBlock true).between _ _
  · apply Shows.paragraphBreak
    have hend : Framed (do
        ensureNewLine
        write (ticks (fenceLength code '\x60'))
        ensureNewLine) :=
      framed_ensureNewLine.then ((framed_write _).then framed_ensureNewLine)
    exact ((((hcode.withMode .markdownCode true).before hend).behind (framed_write "\n")).behind
      (framed_write _)).behind (framed_write _)

theorem Shows.linkedCode (h : Shows cs body) (language : String) :
    Shows cs (linkedCode language body) := by
  apply Shows.ifConstrained
  · exact ((h.withMode .singleLineCode true).withMode .htmlBlock true).between _ _
  · apply Shows.paragraphBreak
    have hend : Framed (do write "</code></pre>"; ensureNewLine) :=
      (framed_write _).then framed_ensureNewLine
    have hpre := (h.withMode .preformatted true).withMode .htmlBlock true
    exact (((hpre.before hend).behind (framed_write "\">")).behind
      (framed_attributeValue language)).behind (framed_write _)

theorem Shows.collapsible {summary : Render Unit} (hs : Shows cs summary) (h : Shows ds body) :
    Shows (cs ++ ds) (collapsible summary body) := by
  apply Shows.ifConstrained
  · have hinside := hs.then (h.behind (framed_write "</summary>"))
    exact (hinside.withMode .htmlBlock true).between _ _
  · apply Shows.paragraphBreak
    have hend : Framed (do ensureSkippedLine; write "</details>"; ensureNewLine) :=
      framed_ensureSkippedLine.then ((framed_write _).then framed_ensureNewLine)
    have hbody := ((h.before hend).behind framed_ensureSkippedLine).behind (framed_write "</summary>")
    exact (((hs.inSingleLine.withMode .htmlBlock true).then hbody).behind
      (framed_write "<summary>")).behind (framed_writeLine "<details>")

theorem Shows.element (h : Shows cs body) {tag : String} (htag : Html.TagClass.ofTag tag ≠ .void)
    (attributes : Dict String) : Shows cs (element tag attributes body) := by
  have hopen : Framed (openTag tag attributes false) := framed_openTag tag attributes false
  have hclose : Framed (closeTag tag) := framed_write _
  unfold Markdown.element
  split
  · next hvoid => exact absurd hvoid htag
  · exact (h.before hclose).behind hopen
  apply shows_look
  intro constrained
  split
  · exact h.paragraphBreak
  apply shows_look
  intro inBlock
  split
  · exact ((h.withMode .htmlBlock true).before hclose).behind hopen
  · apply Shows.paragraphBreak
    apply Shows.behind _ hopen
    apply shows_look
    intro start
    have hend : Framed (do
        if ← look (brokenSince start) then ensureSkippedLine else pure ()
        closeTag tag
        ensureNewLine) := by
      apply (framed_look _).bind
      intro broken
      have hlast := hclose.then framed_ensureNewLine
      split
      · exact framed_ensureSkippedLine.then hlast
      · exact hlast
    exact (h.withMode .htmlBlock true).before hend

end Block

end Render
open Render

section Tree
variable {o : Options} {head : PageMetadata → Render Unit}

theorem shows_renderNodes {nodes : List Node}
    (h : ∀ n ∈ nodes, Shows (letters n.textContent) (renderNode o head n)) (afterList : Bool) :
    Shows (letters (Node.textsContent nodes)) (renderNodes o head afterList nodes) := by
  rw [Node.letters_textsContent]
  induction nodes generalizing afterList with
  | nil => exact (framed_pure ()).shows
  | cons node rest ih =>
    obtain ⟨hnode, hrest⟩ := List.forall_mem_cons.1 h
    exact (hnode.then (ih hrest _)).behind (framed_separateLists _ _)

theorem shows_renderNode (hhead : ∀ metadata, Framed (head metadata)) {node : Node}
    (h : ∀ m ∈ node.nodes, ¬ m.dropsChildren) :
    Shows (letters node.textContent) (renderNode o head node) := by
  have hnodes {children : List Node}
      (ih : ∀ n ∈ children, (∀ m ∈ n.nodes, ¬ m.dropsChildren) →
        Shows (letters n.textContent) (renderNode o head n))
      (hchildren : ∀ n ∈ children, ∀ m ∈ n.nodes, ¬ m.dropsChildren) :
      Shows (letters (Node.textsContent children)) (renderNodes o head false children) :=
    shows_renderNodes (fun n hn => ih n hn (hchildren n hn)) false
  induction node with
    simp only [Node.nodes, List.forall_mem_cons, List.forall_mem_append, Node.forall_mem_nodesOf,
      Node.forall_mem_nodesOfRows] at h
  | text s => exact shows_writeEscaped s
  | rule => exact framed_rule.shows
  | comment s persist =>
    rw [renderNode]
    split
    · exact (framed_pure ()).shows
    · exact (framed_comment s).shows
  | image src title alt => exact (framed_image src title alt).shows
  | code language s => exact shows_codeBlock language s
  | notice => exact framed_notice.shows
  | group children ih => exact hnodes ih h.2
  | quote children ih => exact (hnodes ih h.2).quote
  | element tag attributes children ih =>
    by_cases hvoid : Html.TagClass.ofTag tag = .void
    · have hempty : children = [] := by simpa [Node.dropsChildren, hvoid] using h.1
      rw [renderNode, Markdown.element, hvoid, hempty]
      exact (framed_openTag tag attributes true).shows
    · exact (hnodes ih h.2).element hvoid attributes
  | emphasis style children ih => exact (hnodes ih h.2).emphasis style _
  | codeSpan children => exact shows_codeSpan _
  | richCode language children ih =>
    rw [renderNode]
    split
    · exact (hnodes ih h.2).linkedCode language
    · exact shows_codeBlock _ _
  | link target destination title children ih => exact (hnodes ih h.2).link _ title
  | paragraph children ih => exact (hnodes ih h.2).element (by decide +kernel) ∅
  | heading level anchor children ih => exact (hnodes ih h.2).heading level anchor
  | list style items ih =>
    rw [renderNode, renderParts_eq_map, Node.textContent, Node.letters_textsContent]
    exact shows_list (fun n hn => ih n hn (h.2 n hn)) style
  | table header rows ihheader ihrows =>
    rw [renderNode, renderParts_eq_map, renderRows_eq_map, Node.textContent, letters_append,
      Node.letters_textsContent, Node.letters_rowsContent]
    exact shows_table (fun n hn => ihheader n hn (h.2.1 n hn))
      fun row hrow n hn => ihrows row hrow n hn (h.2.2 row hrow n hn)
  | collapsible summary children ihsummary ih =>
    rw [renderNode, Node.textContent, letters_append]
    exact (ihsummary h.2.1).collapsible (hnodes ih h.2.2)
  | page metadata children ih =>
    exact ((hnodes ih h.2).before framed_ensureNewLine).behind (hhead metadata)

/-- If a tree in which no element drops its children is written, to whatever output, then the
letters and digits of its text stand in what is added, in their order. -/
theorem render_letters {node : Node} (h : ∀ m ∈ node.nodes, ¬ m.dropsChildren) {out out' : Output}
    (hok : render o node out = (.ok (), out')) :
    ∃ added, out'.text = out.text ++ added ∧ (letters node.textContent).Sublist added.toList :=
  shows_renderNode framed_pageHead h out out' hok

/-- Escaped text, a code span in a cell, code in a list in a cell, and a summary in front of
code. -/
def manyRoutes : Node :=
  .group [.paragraph [.text "a*1", .element "br" ∅ []],
    .table [.codeSpan [.text "b|2"]] [[.list (.ordered 1) [.text "c", .code none "d\n3"]]],
    .collapsible (.text "e") [.richCode "ts" [.text "f<4"]]]

def inQuote : Output := { buffer := { text := "> x", indents := ["> "], content := some "x" } }

theorem render_letters_manyRoutes :
    (∀ m ∈ manyRoutes.nodes, ¬ m.dropsChildren) ∧
      letters manyRoutes.textContent = "a1b2cd3ef4".toList ∧
      ∃ out, render {} manyRoutes inQuote = (.ok (), out) ∧
        ∃ added, out.text = inQuote.text ++ added ∧
          (letters manyRoutes.textContent).Sublist added.toList := by
  have hnodes : ∀ m ∈ manyRoutes.nodes, ¬ m.dropsChildren := by decide +kernel
  have hok : render {} manyRoutes inQuote = (.ok (), (render {} manyRoutes inQuote).2) :=
    Prod.ext (by decide +kernel) rfl
  exact ⟨hnodes, by decide +kernel, _, hok, render_letters hnodes hok⟩

end Tree
end Markdown
end DocTree
