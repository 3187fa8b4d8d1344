import DocTree.Proofs.Alike
import DocTree.Proofs.LineEnd
import DocTree.Proofs.TableRows

/-! Blocks one after the other. A block finds a line that is over or one that goes on, and begins
with a break either way. What it writes behind that does not depend on the text before, so headings,
rules, tables, blocks of code and paragraphs of one line stand in a document as each of them is
written alone, with one empty line between two of them. -/
namespace DocTree

/-- A node that stands inside a line. -/
def Node.isInline : Node → Bool
  | text _ | emphasis _ _ | codeSpan _ | link _ _ _ _ | image _ _ _ => true
  | _ => false

/-- What stands behind the last line of a block. A paragraph leaves the line open. -/
def Node.lineEnd : Node → String
  | paragraph _ => ""
  | _ => "\n"

namespace Layout.Buffer
variable {b : Buffer}

/-- The buffer with a text in front of what has been written. -/
def behind (p : String) (b : Buffer) : Buffer := { b with text := p ++ b.text }

theorem newline_behind (p : String) (b : Buffer) : (b.behind p).newline = b.newline.behind p := by
  cases hb : b.content with
  | none => simp [newline, behind, hb, push_append, String.append_assoc, indent]
  | some s => simp [newline, behind, hb, push_append]

theorem put_behind (p : String) (b : Buffer) (c : Char) :
    (b.behind p).put c = (b.put c).behind p := by
  by_cases hc : c = '\n'
  · rw [hc, put_newline, put_newline, newline_behind]
  · cases hb : b.content with
    | none =>
      rw [put_atStart hc hb, put_atStart (b := b.behind p) hc hb]
      simp [behind, indent, push_append, String.append_assoc]
    | some s =>
      rw [put_begun hc hb, put_begun (b := b.behind p) hc hb]
      simp [behind, push_append]

theorem write_behind (p : String) (b : Buffer) (s : String) :
    (b.behind p).write s = (b.write s).behind p := by
  rw [← String.ofList_toList (s := s)]
  induction s.toList generalizing b with
  | nil => rfl
  | cons c cs ih => rw [write_ofList_cons, write_ofList_cons, put_behind, ih]

theorem ensureNewLine_behind (p : String) (b : Buffer) :
    (b.behind p).ensureNewLine = b.ensureNewLine.behind p := by
  cases hb : b.content with
  | none => simp [ensureNewLine, atLineStart, behind, hb]
  | some s => simpa [ensureNewLine, atLineStart, behind, hb] using newline_behind p b

theorem ensureSkippedLine_behind (p : String) (b : Buffer) :
    (b.behind p).ensureSkippedLine = b.ensureSkippedLine.behind p := by
  unfold ensureSkippedLine
  dsimp only
  rw [ensureNewLine_behind]
  cases hb : b.ensureNewLine.afterBlank with
  | true => simp [behind, hb]
  | false => simpa [behind, hb] using newline_behind p b.ensureNewLine

end Layout.Buffer

namespace Markdown
open Render Layout Text

/-- The output with a text in front of what has been written. -/
def Output.behind (p : String) (out : Output) : Output := { out with buffer := out.buffer.behind p }

theorem Output.skipped_closed (out : Output) : out.closed.skipped = out.skipped := by
  rw [skipped, skipped, closed, Buffer.ensureSkippedLine_ensureNewLine]

theorem Output.skipped_behind (p : String) (out : Output) :
    (out.behind p).skipped = out.skipped.behind p := by
  rw [skipped, behind, Buffer.ensureSkippedLine_behind]
  rfl

theorem Output.closed_behind (p : String) (out : Output) :
    (out.behind p).closed = out.closed.behind p := by
  rw [closed, behind, Buffer.ensureNewLine_behind]
  rfl

theorem Output.behind_behind (p q : String) (out : Output) :
    (out.behind q).behind p = out.behind (p ++ q) := by
  simp [behind, Buffer.behind, String.append_assoc]

instance (p : String) : Stable fun a b => b = a.behind p where
  modes h := h ▸ rfl
  fresh h := h ▸ rfl
  atLineStart h := h ▸ rfl
  lineIsBlank h := h ▸ rfl
  wrote := by
    rintro a _ s rfl _
    simp [Output.wrote, Output.behind, Buffer.write_behind]
  setMode := by
    rintro a _ mode value rfl _
    rfl
  restore := by
    rintro a _ c _ rfl rfl
    rfl
  skipLine := by
    rintro a _ rfl _
    simp [Output.behind, Buffer.ensureSkippedLine_behind]
  markFresh := by
    rintro a _ rfl _
    rfl
  pushIndent := by
    rintro a _ indent rfl _
    rfl
  popIndent := by
    rintro a _ rfl _
    rfl
  broken := by
    rintro a _ c _ rfl rfl _
    simp [brokenSince, Output.text, Output.behind, Buffer.behind, ← String.length_toList]

/-- What is written does not depend on the text before. -/
theorem render_behind (o : Options) (node : Node) (p : String) (out : Output) :
    render o node (out.behind p) = ((render o node out).1, (render o node out).2.behind p) := by
  obtain ⟨hresult, hend, -⟩ :=
    respects_render (R := fun a b => b = a.behind p) o node out.constrained out _ rfl rfl
  exact Prod.ext hresult hend

section Blocks
variable {o : Options} {node : Node} {out out' : Output}

section Inline
variable {R : Output → Output → Prop} {l : Bool}

theorem respects_inlines {nodes : List Node}
    (h : ∀ n ∈ nodes, n.isInline ∧ Respects R l (render o n)) (afterList : Bool) :
    Respects R l (renderNodes o (pageHead o) afterList nodes) := by
  induction nodes generalizing afterList with
  | nil => exact respects_pure ()
  | cons first rest ih =>
    obtain ⟨⟨hinline, hfirst⟩, hrest⟩ := List.forall_mem_cons.1 h
    have hlist : first.isList = false := by
      cases first <;> first | rfl | cases hinline
    rw [renderNodes, separateLists_apart (by rw [hlist, Bool.and_false])]
    exact (respects_pure ()).then (hfirst.then (ih hrest _))

theorem respects_inline [OnLine R] (h : ∀ m ∈ node.nodes, m.isInline) :
    Respects R l (render o node) := by
  have hnodes {children : List Node}
      (ih : ∀ n ∈ children, (∀ m ∈ n.nodes, m.isInline) → Respects R l (render o n))
      (h : ∀ n ∈ children, ∀ m ∈ n.nodes, m.isInline) :
      Respects R l (renderNodes o (pageHead o) false children) :=
    respects_inlines (fun n hn => ⟨h n hn n n.mem_nodes_self, ih n hn (h n hn)⟩) false
  induction node with
  | text s => exact respects_writeEscaped s
  | image src title alt => exact respects_image src title alt
  | codeSpan children => exact respects_codeSpan _
  | emphasis style children ih =>
    simp only [Node.nodes, List.forall_mem_cons, Node.forall_mem_nodesOf] at h
    exact (hnodes ih h.2).emphasis style _
  | link target destination title children ih =>
    simp only [Node.nodes, List.forall_mem_cons, Node.forall_mem_nodesOf] at h
    exact (hnodes ih h.2).link _ title
  | _ => cases h _ (Node.mem_nodes_self _)

end Inline

/-- Nothing has been done to the output but that a text was written to it. -/
def Output.OnlyWrote (start out : Output) : Prop :=
  ∃ s, out.buffer = start.buffer.write s ∧ out.fresh = (start.fresh && s.toList.all Unicode.isBlank)

instance (start : Output) : KeptOnLine start.OnlyWrote where
  wrote := by
    rintro out s ⟨t, hbuffer, hfresh⟩ _
    refine ⟨t ++ s, ?_, ?_⟩
    · rw [Buffer.write_append, ← hbuffer]
      rfl
    · simp [Output.wrote, hfresh, Bool.and_assoc]
  setMode h _ := h
  restore h _ := h

section Paragraph
variable {children : List Node} (hinline : ∀ m ∈ Node.nodesOf children, m.isInline)
include hinline

/-- A paragraph of inline nodes writes a text behind a break. -/
theorem onlyWrote_paragraph (hrun : render o (.paragraph children) {} = (.ok (), out)) :
    Output.OnlyWrote { ({} : Output).skipped with fresh := true } out := by
  have hclass : Html.TagClass.ofTag "p" = .block := by decide +kernel
  have hbare : (Dict.isEmpty (∅ : Dict String) && Html.lowerAscii "p" == "p") = true := by
    decide +kernel
  let start : Output := { ({} : Output).skipped with fresh := true }
  let inside : Render Unit := renderNodes o (pageHead o) false children
  have hframed : Framed (do markFresh; inside) :=
    framed_markFresh.then (framed_renderNodes (fun n _ => framed_renderNode framed_pageHead n) _)
  have hinside : Respects (Keeping start.OnlyWrote) start.constrained inside := by
    rw [Node.forall_mem_nodesOf] at hinline
    exact respects_inlines (fun n hn => ⟨hinline n hn n n.mem_nodes_self,
      respects_inline (hinline n hn)⟩) false
  rw [render, renderNode, element_apply hclass ∅ _ rfl, if_pos hbare] at hrun
  have hblock : withMode .htmlBlock false (do markFresh; inside) ({} : Output).skipped =
      (.ok (), out) := hrun
  obtain ⟨last, hlast, rfl⟩ := hframed.withMode_ok hblock
  have hkept : start.OnlyWrote (inside start).2 := hinside.kept ⟨"", rfl, rfl⟩
  have hsame : (inside start).2 = last := congrArg Prod.snd hlast
  exact hsame ▸ hkept

/-- If it writes a single line it leaves that open. -/
theorem busy_paragraph (hrun : render o (.paragraph children) {} = (.ok (), out))
    (hline : '\n' ∉ out.text.toList.tail) (hwritten : Written out.text) : out.Busy := by
  obtain ⟨s, hbuffer, hfresh⟩ := onlyWrote_paragraph hinline hrun
  have htext : out.text = "\n" ++ s := by
    rw [Output.text, hbuffer, Buffer.write_text rfl]
    rfl
  rw [htext, String.toList_append] at hline
  obtain ⟨c, hc, hblank⟩ := hwritten
  have hmem : c ∈ s.toList := by
    rw [htext, String.toList_append, List.mem_append] at hc
    apply hc.resolve_left
    intro hbreak
    rw [List.mem_singleton.1 hbreak] at hblank
    exact hblank (by decide)
  have hall : s.toList.all Unicode.isBlank = false := List.all_eq_false.2 ⟨c, hmem, hblank⟩
  constructor
  · rw [hbuffer]
    exact Buffer.begun_write _ hline (List.ne_nil_of_mem hmem)
  · rw [hfresh, hall, Bool.and_false]

end Paragraph

/-- A heading, a rule, a block of code or a table, or a paragraph that writes a single line with
something on it. -/
def IsBlock (o : Options) : Node → Prop
  | .paragraph children => (∀ m ∈ Node.nodesOf children, m.isInline) ∧
    ∀ md, renderRaw o (.paragraph children) = .ok md → '\n' ∉ md.toList.tail ∧ Written md
  | node => node.endsLine

/-- Alone the block is written as a line break, the body, and what ends its last line. Once that is
over the output is as at the start, but for the text. -/
structure Alone (o : Options) (block : Node) (body : String) : Prop where
  apart : block.isList = false
  skips : ∀ out : Output, out.modes = {} → out.fresh = false →
    render o block out.skipped = render o block out
  run : ∃ out, render o block {} = (.ok (), out) ∧ out.text = "\n" ++ body ++ block.lineEnd ∧
    out.closed = ({} : Output).behind ("\n" ++ body ++ "\n")

/-- The text written behind a break, from the start of a document. -/
theorem exists_body (hframe : ({} : Output).skipped.Extends out) (hbusy : out.Busy) :
    ∃ body, out.text = "\n" ++ body ∧
      out.closed = ({} : Output).behind ("\n" ++ body ++ "\n") := by
  obtain ⟨hmodes, hbuffer⟩ := hframe
  obtain ⟨body, hbody, -⟩ := hbuffer.text
  obtain ⟨content, hcontent⟩ := Buffer.exists_content hbusy.1
  have htext : out.buffer.text = "\n" ++ body := hbody
  have hindents : out.buffer.indents = [] := hbuffer.indents
  have hbegin : out.modes = {} := hmodes
  refine ⟨body, htext, ?_⟩
  rw [Output.closed, Buffer.ensureNewLine, if_neg (by simp [hbusy.1]),
    Buffer.newline_begun hcontent]
  simp [Output.behind, Buffer.behind, htext, hindents, hbegin, hbusy.2]

/-- A block that is written without an error somewhere begins with a break everywhere. -/
theorem skips_of_ok (hbreaks : node.breaksLine false) (hrun : render o node {} = (.ok (), out)) :
    ∀ out : Output, out.modes = {} → out.fresh = false →
      render o node out.skipped = render o node out := by
  cases breaks_render (o := o) hbreaks with
  | inl hfails =>
    obtain ⟨error, hfails⟩ := hfails
    cases (hfails {} rfl rfl).symm.trans hrun
  | inr hskips => exact hskips

theorem alone_endsLine (hends : node.endsLine) (hrun : render o node {} = (.ok (), out)) :
    ∃ body, Alone o node body := by
  obtain ⟨hapart, hbreaks, hend⟩ : node.isList = false ∧ node.breaksLine false = true ∧
      node.lineEnd = "\n" := by
    cases node <;> first | exact ⟨rfl, rfl, rfl⟩ | cases hends
  have hskips := skips_of_ok hbreaks hrun
  have hskipped : render o node ({} : Output).skipped = (.ok (), out) :=
    (hskips {} rfl rfl).trans hrun
  obtain ⟨mid, hframe, hbusy, rfl⟩ := endsLine_render hends _ out rfl hskipped
  obtain ⟨body, -, hclosed⟩ := exists_body hframe hbusy
  refine ⟨body, hapart, hskips, mid.closed, hrun, ?_, ?_⟩
  · rw [hclosed, hend]
    simp [Output.text, Output.behind, Buffer.behind]
  · rw [Output.closed_closed, hclosed]

theorem alone_paragraph {children : List Node} (hblock : IsBlock o (.paragraph children))
    (hrun : render o (.paragraph children) {} = (.ok (), out))
    (hraw : renderRaw o (.paragraph children) = .ok out.text) :
    ∃ body, Alone o (.paragraph children) body := by
  obtain ⟨hinline, hsingle⟩ := hblock
  obtain ⟨hline, hwritten⟩ := hsingle out.text hraw
  have hbusy : out.Busy := busy_paragraph hinline hrun hline hwritten
  have hskips := skips_of_ok rfl hrun
  have hframe : ({} : Output).skipped.Extends out :=
    Framed.of_eq (framed_renderNode framed_pageHead _) ((hskips {} rfl rfl).trans hrun)
  obtain ⟨body, htext, hclosed⟩ := exists_body hframe hbusy
  exact ⟨body, rfl, hskips, out, hrun, by simpa [Node.lineEnd] using htext, hclosed⟩

theorem exists_alone (hblock : IsBlock o node) (hrenders : ∃ md, renderRaw o node = .ok md) :
    ∃ body, Alone o node body := by
  obtain ⟨md, hmd⟩ := hrenders
  obtain ⟨out, hrun, rfl⟩ := renderRaw_ok hmd
  cases node with
  | paragraph children => exact alone_paragraph hblock hrun hmd
  | _ => exact alone_endsLine hblock hrun

/-- Behind other blocks a block writes what it writes alone. -/
theorem Alone.follow {body p : String} (h : Alone o node body)
    (hout : out.closed = ({} : Output).behind p) :
    ∃ out', render o node out = (.ok (), out') ∧
      out'.text = p ++ "\n" ++ body ++ node.lineEnd ∧
      out'.closed = ({} : Output).behind (p ++ "\n" ++ body ++ "\n") := by
  obtain ⟨alone, hrun, htext, hclosed⟩ := h.run
  have hmodes : out.modes = {} := congrArg Output.modes hout
  have hfresh : out.fresh = false := congrArg Output.fresh hout
  have hstart : out.skipped = ({} : Output).skipped.behind p := by
    rw [← Output.skipped_closed, hout, Output.skipped_behind]
  refine ⟨alone.behind p, ?_, ?_, ?_⟩
  · rw [← h.skips out hmodes hfresh, hstart, render_behind, h.skips {} rfl rfl, hrun]
  · change p ++ alone.text = _
    simp only [htext, String.append_assoc]
  · rw [Output.closed_behind, hclosed, Output.behind_behind]
    simp only [String.append_assoc]

/-- Blocks in a row, from an output that is as at the start once its line is over. -/
theorem follow_renderNodes {bodies : List String} {blocks : List Node} {p : String}
    (h : List.Forall₂ (Alone o) blocks bodies) (hne : blocks ≠ [])
    (hout : out.closed = ({} : Output).behind p) (afterList : Bool) :
    ∃ out', renderNodes o (pageHead o) afterList blocks out = (.ok (), out') ∧
      out'.text = p ++ "\n" ++ "\n\n".intercalate bodies ++ (blocks.getLast hne).lineEnd := by
  induction h generalizing out p afterList with
  | nil => exact absurd rfl hne
  | @cons block body rest more hblock hrest ih =>
    obtain ⟨mid, hmid, htext, hclosed⟩ := hblock.follow hout
    have hfirst : renderNodes o (pageHead o) afterList (block :: rest) out =
        renderNodes o (pageHead o) block.isList rest mid := by
      rw [renderNodes, separateLists_apart (by rw [hblock.apart, Bool.and_false]), pure_bind,
        bind_apply]
      rw [render] at hmid
      rw [hmid]
    cases hrest with
    | nil =>
      refine ⟨mid, hfirst, ?_⟩
      simpa using htext
    | @cons second next rest more hsecond hrest =>
      obtain ⟨out', hrun, hend⟩ := ih (List.cons_ne_nil _ _) hclosed block.isList
      refine ⟨out', hfirst.trans hrun, ?_⟩
      rw [hend, String.intercalate_cons_cons, List.getLast_cons_cons]
      simp only [← String.toList_inj, String.toList_append, List.append_assoc]
      rfl

/-- Blocks that are written alone are written in a row, each as it is alone, with one empty line
between two of them. -/
theorem renderRaw_blocks {blocks : List Node} (hne : blocks ≠ [])
    (hblocks : ∀ block ∈ blocks, IsBlock o block)
    (hrenders : ∀ block ∈ blocks, ∃ md, renderRaw o block = .ok md) :
    ∃ bodies, List.Forall₂ (fun block body =>
        renderRaw o block = .ok ("\n" ++ body ++ block.lineEnd)) blocks bodies ∧
      renderRaw o (.group blocks) =
        .ok ("\n" ++ "\n\n".intercalate bodies ++ (blocks.getLast hne).lineEnd) := by
  have hraw {node : Node} {out : Output} (hrun : render o node {} = (.ok (), out)) :
      renderRaw o node = .ok out.text := by
    rw [renderRaw, toText, hrun]
  have hstart : Output.closed {} = ({} : Output).behind "" := rfl
  obtain ⟨bodies, halone⟩ : ∃ bodies, List.Forall₂ (Alone o) blocks bodies := by
    choose! body hbody using fun block hb => exists_alone (hblocks block hb) (hrenders block hb)
    exact ⟨blocks.map body, List.forall₂_map_right_iff.2 (List.forall₂_same.2 hbody)⟩
  refine ⟨bodies, halone.imp fun block body h => ?_, ?_⟩
  · obtain ⟨out, hrun, htext, -⟩ := h.run
    rw [hraw hrun, htext]
  · obtain ⟨out, hrun, htext⟩ := follow_renderNodes halone hne hstart false
    have hgroup : render o (.group blocks) {} = (.ok (), out) := hrun
    rw [hraw hgroup, htext, String.empty_append]

/-- A paragraph between a heading and a table, and one at the end. -/
def fourBlocks : List Node :=
  [.heading 2 none [.text "a"], .paragraph [.text "b ", .emphasis .bold [.text "c"]],
    .table [.text "d"] [], .paragraph [.text "e"]]

theorem renderRaw_blocks_four : (∀ block ∈ fourBlocks, IsBlock {} block) ∧
    (∀ block ∈ fourBlocks, ∃ md, renderRaw {} block = .ok md) ∧
    ∃ bodies, List.Forall₂ (fun block body =>
        renderRaw {} block = .ok ("\n" ++ body ++ block.lineEnd)) fourBlocks bodies ∧
      renderRaw {} (.group fourBlocks) = .ok ("\n" ++ "\n\n".intercalate bodies ++ "") := by
  have hfirst : renderRaw {} (.paragraph [.text "b ", .emphasis .bold [.text "c"]]) =
      .ok "\nb **c**" := by decide +kernel
  have hlast : renderRaw {} (.paragraph [.text "e"]) = .ok "\ne" := by decide +kernel
  have hheading : renderRaw {} (.heading 2 none [.text "a"]) = .ok "\n## a\n" := by decide +kernel
  have htable : renderRaw {} (.table [.text "d"] []) = .ok "\n| d |\n| --- |\n" := by
    decide +kernel
  have hblocks : ∀ block ∈ fourBlocks, IsBlock {} block := by
    simp only [fourBlocks, List.forall_mem_cons]
    refine ⟨rfl, ⟨by decide, fun md hmd => ?_⟩, rfl, ⟨by decide, fun md hmd => ?_⟩,
      List.forall_mem_nil _⟩
    · cases hfirst.symm.trans hmd
      exact ⟨by decide, 'b', by decide, by decide⟩
    · cases hlast.symm.trans hmd
      exact ⟨by decide, 'e', by decide, by decide⟩
  have hrenders : ∀ block ∈ fourBlocks, ∃ md, renderRaw {} block = .ok md := by
    simp only [fourBlocks, List.forall_mem_cons]
    exact ⟨⟨_, hheading⟩, ⟨_, hfirst⟩, ⟨_, htable⟩, ⟨_, hlast⟩, List.forall_mem_nil _⟩
  exact ⟨hblocks, hrenders, renderRaw_blocks (List.cons_ne_nil _ _) hblocks hrenders⟩

end Blocks
end Markdown
end DocTree
