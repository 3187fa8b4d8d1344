import DocTree.Proofs.CellText
import DocTree.Proofs.Guarded

/-! Text in a cell stays literal. Whatever HTML a block falls back to there, its texts are escaped
as Markdown: each marker stands behind an odd number of backslashes, and no text leaves a backslash
that would take the one of the next text away. -/
namespace DocTree
open Text

namespace Node

/-- The blocks and texts whose forms in a cell have no marker of their own. -/
def isLiteral : Node → Bool
  | text _ | group _ | paragraph _ | quote _ | list _ _ | collapsible _ _ | code _ _ => true
  | heading level anchor _ => 1 ≤ level && level ≤ 6 && anchor.isNone
  | table header rows => columnCount header rows != 0
  | _ => false

end Node

namespace Markdown
open Render

/-- The markers of emphasis, links and images. -/
def markers : List Char := ['*', '_', '[', ']', '(', ')']

section Quiet
variable {cs : List Char} {c : Char}

/-- Neither a marker nor a backslash nor a line break. -/
def isQuiet (c : Char) : Bool := c ∉ '\n' :: '\\' :: markers

theorem isQuiet_iff : isQuiet c ↔ c ≠ '\n' ∧ c ≠ '\\' ∧ c ∉ markers := by simp [isQuiet]

theorem oneLine_of_quiet {s : String} (h : s.toList.all isQuiet) : OneLine s := by
  intro hbreak
  exact (isQuiet_iff.1 (List.all_eq_true.1 h _ hbreak)).1 rfl

theorem guarded_quiet (h : cs.all isQuiet) : Guarded markers cs := by
  refine guarded_plain fun c hc hmem => ?_
  obtain ⟨-, hbackslash, hmarker⟩ := isQuiet_iff.1 (List.all_eq_true.1 h c hc)
  exact (List.mem_cons.1 hmem).elim hbackslash hmarker

end Quiet

namespace EscapeContext
variable {ctx : EscapeContext} {c : Char}

theorem escapeChar_marked (hm : ctx.isMarkdown) (hc : c ∈ markdownChars) (blank : Bool) :
    ctx.escapeChar blank c = ['\\', c] := by
  have hplain : markdownChars.all fun c => entity? c = none ∧ c ≠ '|' ∧ c ≠ '\n' := by decide
  obtain ⟨hentity, hbar, hbreak⟩ : entity? c = none ∧ c ≠ '|' ∧ c ≠ '\n' :=
    of_decide_eq_true (List.all_eq_true.1 hplain c hc)
  simp [escapeChar, hentity, hbar, hbreak, hm, hc]

/-- Where Markdown is read in a table, what is written for a character is guarded. -/
theorem guarded_escapeChar (ht : ctx.table) (hm : ctx.isMarkdown) (blank : Bool) (c : Char) :
    Guarded markers (ctx.escapeChar blank c) := by
  have hoff : ctx.markdownCode = false ∧ ctx.htmlAttribute = false := by
    simp only [isMarkdown, Bool.and_eq_true, Bool.not_eq_true'] at hm
    tauto
  by_cases hc : c ∈ markdownChars
  · exact escapeChar_marked hm hc blank ▸ guarded_backslash (by decide) c
  by_cases hbreak : c = '\n'
  · simp only [hbreak, escapeChar_break, lineBreak, hoff.2, ht, Bool.false_eq_true, if_false,
      Bool.true_or, if_true]
    split <;> exact guarded_quiet (by decide)
  have hmarkers : '\\' :: markers ⊆ markdownChars := by decide
  have hquiet : isQuiet c :=
    isQuiet_iff.2 ⟨hbreak, fun heq => hc (heq ▸ hmarkers List.mem_cons_self),
      fun hmem => hc (hmarkers (List.mem_cons_of_mem _ hmem))⟩
  have hentities : ∀ entity ∈ entities, entity.toList.all isQuiet := by decide
  cases hentity : entity? c with
  | some entity =>
    rw [escapeChar_entity hoff.1 hentity]
    exact guarded_quiet (hentities entity (mem_entities hentity))
  | none =>
    rcases ctx.escapeChar_other hentity hbreak blank with h | h
    · exact h ▸ guarded_backslash (by decide) c
    · exact h ▸ guarded_quiet (by simpa using hquiet)

theorem guarded_escape (ht : ctx.table) (hm : ctx.isMarkdown) (text : String) :
    Guarded markers (ctx.escape text).toList := by
  have hfrom (cs : List Char) (blank : Bool) : Guarded markers (ctx.escapeFrom blank cs) := by
    induction cs generalizing blank with
    | nil => exact guarded_quiet rfl
    | cons c rest ih => exact (guarded_escapeChar ht hm blank c).append (ih _)
  rw [escape, String.toList_ofList]
  exact hfrom text.toList ctx.lineIsBlank

end EscapeContext

/-- In a cell where texts are read as Markdown, under no indentation. -/
structure Output.ReadsCell (out : Output) : Prop where
  indents : out.buffer.indents = []
  table : out.modes.table
  inlineMarkdown : out.modes.inlineMarkdown
  markdownCode : out.modes.markdownCode = false
  preformatted : out.modes.preformatted = false
  htmlAttribute : out.modes.htmlAttribute = false

namespace Render
variable {steps next body : Render Unit} {items header : List (Render Unit)}
  {rows : List (List (Render Unit))}

/-- In a cell the steps succeed, they stay in the cell, and the text they add is guarded. -/
def Guards (steps : Render Unit) : Prop :=
  ∀ out : Output, out.ReadsCell → ∃ out', steps out = (.ok (), out') ∧ out'.ReadsCell ∧
    ∃ added, out'.text = out.text ++ added ∧ Guarded markers added.toList

theorem guards_pure : Guards (pure ()) :=
  fun out hout => ⟨out, rfl, hout, "", by simp, guarded_quiet rfl⟩

theorem Guards.then (h : Guards steps) (hnext : Guards next) : Guards (do steps; next) := by
  intro out hout
  obtain ⟨mid, hsteps, hmid, s, hs, hguarded⟩ := h out hout
  obtain ⟨out', hnext', hout', t, ht, htguarded⟩ := hnext mid hmid
  refine ⟨out', by rw [bind_apply, hsteps]; exact hnext', hout', s ++ t, ?_, ?_⟩
  · rw [ht, hs, String.append_assoc]
  · rw [String.toList_append]
    exact hguarded.append htguarded

theorem guards_look {α : Type} {view : Output → α} {next : α → Render Unit}
    (h : ∀ out : Output, out.ReadsCell → Guards (next (view out))) :
    Guards (look view >>= next) := fun out hout => h out hout out hout

/-- In a cell every block is written in its form for a single line. -/
theorem Guards.ifConstrained (h : Guards steps) :
    Guards (do if ← constrained then steps else next) := by
  refine guards_look fun out hout => ?_
  rwa [if_pos (Output.constrained_of_table hout.table)]

theorem guards_write {s : String} (hline : OneLine s) (hs : Guarded markers s.toList) :
    Guards (write s) := by
  intro out hout
  refine ⟨out.wrote s, write_of_fits fun _ => hline, ?_, s, ?_, hs⟩
  · obtain ⟨hindents, htable, hmarkdown, hcode, hpre, hattr⟩ := hout
    exact ⟨(out.buffer.extends_write s).indents.trans hindents, htable, hmarkdown, hcode, hpre,
      hattr⟩
  · exact Layout.Buffer.write_text hout.indents s

/-- A tag is quiet. -/
theorem guards_tag {s : String} (h : s.toList.all isQuiet) : Guards (write s) :=
  guards_write (oneLine_of_quiet h) (guarded_quiet h)

theorem guards_writeEscaped (s : String) : Guards (writeEscaped s) := by
  refine guards_look fun out hout =>
    guards_write (EscapeContext.oneLine_escape_table hout.table s)
      (EscapeContext.guarded_escape hout.table ?_ s)
  simp [EscapeContext.isMarkdown, Output.escapeContext, hout.inlineMarkdown, hout.markdownCode,
    hout.preformatted, hout.htmlAttribute]

/-- The modes of the fallbacks leave the way texts are read alone. -/
theorem Guards.withMode (h : Guards steps) {mode : Mode} {value : Bool}
    (hmode : mode ∈ [.htmlBlock, .singleLineCode]) : Guards (withMode mode value steps) := by
  have hkeep {out : Output} (hout : out.ReadsCell) (v : Bool) :
      Output.ReadsCell { out with modes := out.modes.set mode v } := by
    obtain ⟨hindents, htable, hmarkdown, hcode, hpre, hattr⟩ := hout
    cases mode <;> simp at hmode <;> exact ⟨hindents, htable, hmarkdown, hcode, hpre, hattr⟩
  intro out hout
  obtain ⟨out', hsteps, hout', hadded⟩ := h _ (hkeep hout value)
  exact ⟨_, by rw [Render.withMode, hsteps], hkeep hout' _, hadded⟩

/-- Steps between two tags. -/
theorem Guards.between (h : Guards steps) {before after : String}
    (hb : before.toList.all isQuiet) (ha : after.toList.all isQuiet) :
    Guards (do write before; steps; write after) :=
  (guards_tag hb).then (h.then (guards_tag ha))

theorem quiet_repr (n : Nat) : n.repr.toList.all isQuiet := by
  refine all_repr (fun c hc => ?_) n
  have hmarkers : ('\n' :: '\\' :: markers).all fun d => ¬ d.isDigit := by decide
  exact decide_eq_true fun hmem => of_decide_eq_true (List.all_eq_true.1 hmarkers c hmem) hc

theorem Guards.heading (h : Guards body) {level : UInt8} (hl : 1 ≤ level ∧ level ≤ 6) :
    Guards (heading level none body) := by
  have hdigits : (toString level).toList.all isQuiet := quiet_repr level.toNat
  rw [heading_eq, headingError?_eq_none.2 ⟨hl, by simp⟩]
  exact (((guards_pure.then h).withMode (by decide)).between
    (all_between hdigits (by decide) (by decide))
    (all_between hdigits (by decide) (by decide))).ifConstrained

theorem guards_htmlItems (h : ∀ item ∈ items, Guards item) : Guards (htmlItems items) := by
  induction items with
  | nil => exact guards_pure
  | cons item rest ih =>
    obtain ⟨hitem, hrest⟩ := List.forall_mem_cons.1 h
    exact (guards_tag (by decide)).then (hitem.then ((guards_tag (by decide)).then (ih hrest)))

theorem guards_list (h : ∀ item ∈ items, Guards item) (style : ListStyle) :
    Guards (list style items) := by
  have hopen : (listOpenTag style).toList.all isQuiet := by
    cases style with
    | unordered => decide
    | ordered start =>
      rw [listOpenTag]
      split
      · decide
      · exact all_between (quiet_repr start.toNat) (by decide) (by decide)
  have hclose : (listCloseTag style).toList.all isQuiet := by
    cases style <;> rw [listCloseTag] <;> decide
  exact (((guards_htmlItems h).withMode (by decide)).between hopen hclose).ifConstrained

theorem guards_htmlCells {tag : String} (htag : tag = "th" ∨ tag = "td")
    (h : ∀ cell ∈ items, Guards cell) (columns : Nat) : Guards (htmlCells tag columns items) := by
  have hopen : Guards (write s!"<{tag}>") := by
    rcases htag with rfl | rfl <;> exact guards_tag (by decide)
  have hclose : Guards (write s!"</{tag}>") := by
    rcases htag with rfl | rfl <;> exact guards_tag (by decide)
  induction columns generalizing items with
  | zero => exact guards_pure
  | succ columns ih =>
    cases items with
    | nil => exact hopen.then (hclose.then (ih h))
    | cons cell rest =>
      obtain ⟨hcell, hrest⟩ := List.forall_mem_cons.1 h
      exact hopen.then (hcell.then (hclose.then (ih hrest)))

theorem guards_htmlRow {tag : String} (htag : tag = "th" ∨ tag = "td")
    (h : ∀ cell ∈ items, Guards cell) (columns : Nat) : Guards (htmlRow tag columns items) :=
  (guards_htmlCells htag h columns).between (by decide) (by decide)

theorem guards_htmlRows (h : ∀ row ∈ rows, ∀ cell ∈ row, Guards cell) (columns : Nat) :
    Guards (htmlRows columns rows) := by
  induction rows with
  | nil => exact guards_pure
  | cons row rest ih =>
    obtain ⟨hrow, hrest⟩ := List.forall_mem_cons.1 h
    exact (guards_htmlRow (.inr rfl) hrow columns).then (ih hrest)

theorem guards_table (hheader : ∀ cell ∈ header, Guards cell)
    (hrows : ∀ row ∈ rows, ∀ cell ∈ row, Guards cell) (hc : columnCount header rows ≠ 0) :
    Guards (table header rows) := by
  rw [table_eq, if_neg hc]
  have hlines := (guards_htmlRow (.inl rfl) hheader (columnCount header rows)).then
    (guards_htmlRows hrows (columnCount header rows))
  exact ((hlines.withMode (by decide)).between (by decide) (by decide)).ifConstrained

theorem Guards.quote (h : Guards body) : Guards (quote body) :=
  ((h.withMode (by decide)).between (by decide) (by decide)).ifConstrained

theorem guards_codeBlock (language : Option String) (code : String) :
    Guards (codeBlock language code) :=
  ((((guards_writeEscaped code).withMode (by decide)).withMode (by decide)).between (by decide)
    (by decide)).ifConstrained

theorem Guards.collapsible {summary : Render Unit} (hs : Guards summary) (h : Guards body) :
    Guards (collapsible summary body) := by
  have hend : Guards (write "</summary>") := guards_tag (by decide)
  exact (((hs.then (hend.then h)).withMode (by decide)).between (by decide)
    (by decide)).ifConstrained

/-- In a cell a paragraph keeps its tags. -/
theorem Guards.paragraph (h : Guards body) : Guards (element "p" ∅ body) := by
  have hclass : Html.TagClass.ofTag "p" = .block := by decide +kernel
  have hopen : Guards (openTag "p" ∅ false) :=
    (guards_tag (by decide)).then <| (guards_tag (by decide)).then <|
      guards_pure.then (guards_tag (by decide))
  have hclose : Guards (closeTag "p") := guards_tag (by decide)
  rw [element, hclass]
  refine guards_look fun out hout => ?_
  have hc : out.constrained := Output.constrained_of_table hout.table
  simp only [hc, Bool.not_true, Bool.false_and, Bool.true_or, if_true]
  exact guards_look fun _ _ => hopen.then ((h.withMode (by decide)).then hclose)

theorem guards_separateLists (afterList isList : Bool) :
    Guards (separateLists afterList isList) := by
  refine guards_look fun out hout => ?_
  have hc : out.constrained := Output.constrained_of_table hout.table
  rw [hc, Bool.not_true, Bool.and_false]
  exact guards_pure

end Render
open Render

section Tree
variable {o : Options} {head : PageMetadata → Render Unit}

theorem guards_renderNodes {nodes : List Node} (h : ∀ n ∈ nodes, Guards (renderNode o head n))
    (afterList : Bool) : Guards (renderNodes o head afterList nodes) := by
  induction nodes generalizing afterList with
  | nil => exact guards_pure
  | cons node rest ih =>
    obtain ⟨hnode, hrest⟩ := List.forall_mem_cons.1 h
    exact (guards_separateLists _ _).then (hnode.then (ih hrest _))

theorem guards_children {children : List Node}
    (ih : ∀ n ∈ children, (∀ m ∈ n.nodes, m.isLiteral) → Guards (renderNode o head n))
    (h : ∀ n ∈ children, ∀ m ∈ n.nodes, m.isLiteral) :
    Guards (renderNodes o head false children) :=
  guards_renderNodes (fun n hn => ih n hn (h n hn)) false

theorem guards_renderNode {node : Node} (h : ∀ m ∈ node.nodes, m.isLiteral) :
    Guards (renderNode o head node) := by
  induction node with
    simp only [Node.nodes, List.forall_mem_cons, List.forall_mem_append, Node.forall_mem_nodesOf,
      Node.forall_mem_nodesOfRows, Node.isLiteral, Bool.and_eq_true, decide_eq_true_eq] at h
  | text s => exact guards_writeEscaped s
  | code language s => exact guards_codeBlock language s
  | group children ih => exact guards_children ih h.2
  | quote children ih => exact (guards_children ih h.2).quote
  | paragraph children ih => exact (guards_children ih h.2).paragraph
  | heading level anchor children ih =>
    obtain ⟨⟨hlevel, hanchor⟩, hchildren⟩ := h
    obtain rfl := Option.isNone_iff_eq_none.1 hanchor
    exact (guards_children ih hchildren).heading hlevel
  | list style items ih =>
    rw [renderNode, renderParts_eq_map]
    exact guards_list (List.forall_mem_map.2 fun n hn => ih n hn (h.2 n hn)) style
  | table header rows ihheader ihrows =>
    obtain ⟨hcolumns, hheader, hrows⟩ := h
    rw [renderNode, renderParts_eq_map, renderRows_eq_map]
    refine guards_table (List.forall_mem_map.2 fun n hn => ihheader n hn (hheader n hn))
      (List.forall_mem_map.2 fun row hrow => List.forall_mem_map.2 fun n hn =>
        ihrows row hrow n hn (hrows row hrow n hn)) ?_
    simpa [columnCount_map] using hcolumns
  | collapsible summary children ihsummary ih =>
    exact (ihsummary h.2.1).collapsible (guards_children ih h.2.2)
  | rule | comment | image | notice | element | emphasis | codeSpan | richCode | link | page =>
    simp at h

/-- A tree of texts and of blocks whose forms have no marker of their own is written in a cell with
every marker of its texts behind an odd number of backslashes. -/
theorem inTable_literal {node : Node} (h : ∀ m ∈ node.nodes, m.isLiteral) :
    ∃ out, inTable (render o node) {} = (.ok (), out) ∧
      ∀ before c after, out.text.toList = before ++ c :: after → c ∈ markers →
        Odd (backslashes before) := by
  have hframed : Framed (render o node) := framed_renderNode framed_pageHead node
  have hguards : Guards (render o node) := guards_renderNode h
  obtain ⟨out, hout, -, added, htext, hguarded⟩ :=
    hguards (Output.inCell {}) ⟨rfl, rfl, rfl, rfl, rfl, rfl⟩
  refine ⟨{ out with modes := {} }, ?_, fun before c after hsplit hc => ?_⟩
  · rw [hframed.inTable_apply, hout]
  · have hadded : out.text = added := htext.trans String.empty_append
    exact (hadded ▸ hguarded).behind before c after hsplit hc

/-- Markers between backslashes in a list in a quote, in a table and in code over two lines. -/
def markedCell : Node :=
  .collapsible (.text "a\\") [.heading 2 none [.text "*b*"],
    .table [.text "_"] [[.quote [.list (.ordered 3) [.text "[c](d)\\"]], .text "\\_"]],
    .paragraph [.group [.code none "\\\\*x\n*y"]]]

theorem inTable_literal_markedCell :
    (∀ m ∈ markedCell.nodes, m.isLiteral) ∧
      ∃ out, inTable (render {} markedCell) {} = (.ok (), out) ∧
        ∀ before c after, out.text.toList = before ++ c :: after → c ∈ markers →
          Odd (backslashes before) := by
  have hnodes : ∀ m ∈ markedCell.nodes, m.isLiteral := by decide
  exact ⟨hnodes, inTable_literal hnodes⟩

end Tree
end Markdown
end DocTree
