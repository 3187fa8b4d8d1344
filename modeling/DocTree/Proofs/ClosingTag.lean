import DocTree.Proofs.Interruption
import DocTree.Proofs.Reach
import DocTree.Proofs.Verbatim

/-! Where the closing tag of a block stands. A block that begins where no HTML block is open closes on
a line of its own behind a blank line, as soon as a line has ended since its opening tag. One that
begins in an open HTML block closes right behind what its children have written. -/
namespace DocTree.Text

/-- White space or the mark of a quote. -/
def IsMark (c : Char) : Prop := Unicode.isBlank c ∨ c = '>'

/-- The last line of the text is over, and nothing stands on it but marks. -/
def EndsInBlankLine (cs : List Char) : Prop :=
  ∃ above blank, cs = above ++ '\n' :: blank ++ ['\n'] ∧ ∀ c ∈ blank, IsMark c

/-- What is written next stands on a line of its own, under an indentation and behind a blank line. -/
def ReopensBlock (cs : List Char) : Prop :=
  ∃ above indent, cs = above ++ indent ∧ EndsInBlankLine above ∧ ∀ c ∈ indent, IsMark c

end DocTree.Text

namespace DocTree.Markdown
open Text Render Layout

/-- The output begins with `front`, behind which a line has ended wherever a line begins, and a blank
one if the line before has had no content. Indentations are marks. -/
structure Output.Since (front : List Char) (out : Output) : Prop where
  marks : ∀ indent ∈ out.buffer.indents, ∀ c ∈ indent.toList, IsMark c
  written : ∃ between, out.text.toList = front ++ between ∧ (out.buffer.content = none →
    (∃ above, between = above ++ ['\n']) ∧ (out.buffer.afterBlank → EndsInBlankLine between))

namespace Output.Since
variable {front : List Char} {out : Output}

theorem indent (h : out.Since front) : ∀ c ∈ out.buffer.indent.toList, IsMark c := by
  rw [Buffer.indent_eq_join, String.toList_join]
  intro c hc
  obtain ⟨indent, hmem, hin⟩ := List.mem_flatMap.1 hc
  exact h.marks indent (List.mem_reverse.1 hmem) c hin

/-- Behind the front a line has been begun. -/
theorem begun {between : List Char} (hmarks : ∀ indent ∈ out.buffer.indents,
      ∀ c ∈ indent.toList, IsMark c)
    (htext : out.text.toList = front ++ between) (hbegun : out.buffer.atLineStart = false) :
    out.Since front := by
  refine ⟨hmarks, between, htext, fun hnone => ?_⟩
  rw [Buffer.atLineStart, hnone] at hbegun
  cases hbegun

theorem put (h : out.Since front) (c : Char) : (out.wrote (.singleton c)).Since front := by
  obtain ⟨between, htext, hlines⟩ := h.written
  have hmarks : ∀ indent ∈ (out.wrote (.singleton c)).buffer.indents,
      ∀ c ∈ indent.toList, IsMark c := (out.buffer.extends_write _).indents ▸ h.marks
  by_cases hc : c = '\n'
  · subst hc
    rw [wrote_break] at hmarks ⊢
    cases hb : out.buffer.content with
    | none =>
      obtain ⟨⟨above, rfl⟩, -⟩ := hlines hb
      -- The line that ends has no content, so only its marks are written.
      let visible := Unicode.dropBlankEnd out.buffer.indent.toList
      have hvisible : EndsInBlankLine (above ++ '\n' :: visible ++ ['\n']) :=
        ⟨above, visible, rfl, fun c hc => h.indent c (Unicode.mem_of_mem_dropBlankEnd hc)⟩
      refine ⟨hmarks, above ++ '\n' :: visible ++ ['\n'], ?_, fun _ => ⟨⟨_, rfl⟩, fun _ => hvisible⟩⟩
      have hended : out.buffer.newline.text.toList = out.text.toList ++ visible ++ ['\n'] := by
        simp [Buffer.newline, hb, Output.text, visible]
      rw [Output.text, hended, htext]
      simp
    | some content =>
      refine ⟨hmarks, between ++ ['\n'], ?_, fun _ => ⟨⟨between, rfl⟩, fun hafter => ?_⟩⟩
      · rw [Output.text, Buffer.newline_begun hb, String.toList_append, ← List.append_assoc, ← htext]
        rfl
      · rw [Buffer.newline_begun hb] at hafter
        cases hafter
  · obtain ⟨added, hadded, -⟩ := (out.buffer.extends_write (.singleton c)).text
    have hwritten : (out.wrote (.singleton c)).text.toList = front ++ (between ++ added.toList) := by
      rw [← List.append_assoc, ← htext, Output.text, ← String.toList_append]
      exact congrArg String.toList hadded
    refine begun hmarks hwritten ?_
    rw [wrote_singleton]
    exact Buffer.atLineStart_put hc _

theorem wrote (h : out.Since front) (s : String) : (out.wrote s).Since front :=
  Output.wrote_induction (fun c hmid => hmid.put c) h s

theorem skipped (h : out.Since front) : out.skipped.Since front := by
  obtain ⟨s, hs⟩ := out.exists_skipped
  exact hs ▸ h.wrote s

theorem inItem (h : out.Since front) (style : ListStyle) (position : Nat) :
    (out.inItem style position).Since front := by
  obtain ⟨between, htext, -⟩ := (h.wrote (marker style position)).written
  refine begun ?_ htext
    (out.buffer.begun_write (oneLine_marker style position) (marker_ne_nil style position))
  refine List.forall_mem_cons.2 ⟨fun c hc => ?_, (h.wrote (marker style position)).marks⟩
  rw [String.toList_ofList] at hc
  rw [List.eq_of_mem_replicate hc]
  exact .inl (by decide)

theorem inQuote (h : out.Since front) : out.inQuote.Since front := by
  unfold Output.inQuote
  split
  · exact ⟨List.forall_mem_cons.2 ⟨mark_quote, h.marks⟩, h.written⟩
  · have hmarked := h.wrote "> "
    exact ⟨List.forall_mem_cons.2 ⟨mark_quote, hmarked.marks⟩, hmarked.written⟩

/-- Behind a break stands a blank line. -/
theorem exists_skipped (h : out.Since front) :
    ∃ above, out.skipped.text.toList = front ++ above ∧ EndsInBlankLine above := by
  obtain ⟨above, htext, hlines⟩ := h.skipped.written
  obtain ⟨hnone, hblank⟩ := out.buffer.ensureSkippedLine_blank
  exact ⟨above, htext, (hlines hnone).2 hblank⟩

end Output.Since

instance (front : List Char) : Maintained (Output.Since front) where
  wrote s h := h.wrote s
  skipped h := h.skipped
  begun h := ⟨h.skipped.marks, h.skipped.written⟩
  inItem style position h _ := h.inItem style position
  inQuote h _ := h.inQuote
  entered _ h := ⟨h.marks, h.written⟩
  left hbefore h hindents :=
    ⟨fun indent hmem => hbefore.marks indent (by rwa [← hindents]), h.written⟩

/-- The indentation that a text gets in front if it is written next. -/
def Output.pending (out : Output) : List Char :=
  if out.buffer.atLineStart then out.buffer.indent.toList else []

theorem text_wrote_line {out : Output} {s : String} (hone : OneLine s) (hne : s.toList ≠ []) :
    (out.wrote s).text.toList = out.text.toList ++ out.pending ++ s.toList := by
  unfold Output.pending
  cases hline : out.buffer.atLineStart with
  | true =>
    rw [if_pos rfl, Output.text, ← String.toList_append, ← String.toList_append]
    exact congrArg String.toList (Buffer.text_write_atStart hline hone hne)
  | false =>
    obtain ⟨content, hcontent⟩ := Buffer.exists_content hline
    rw [if_neg Bool.false_ne_true, List.append_nil, Output.text, ← String.toList_append]
    exact congrArg (fun b => b.text.toList) (Buffer.write_begun hcontent hone)

section Tags
variable {tag : String} {attributes : Dict String} {body : Render Unit} {out out' : Output}

/-- The closing tag of a block. -/
def closing (tag : String) : String := s!"</{tag}>"

theorem oneLine_of_block (hclass : Html.TagClass.ofTag tag = .block) : OneLine tag := by
  have hnames : Html.blockTags.all fun name => !name.toList.contains '\n' := by decide +kernel
  have hblock : Html.lowerAscii tag ∈ Html.blockTags := by
    simp only [Html.TagClass.ofTag] at hclass
    split at hclass
    · cases hclass
    · split at hclass
      · next h => simpa using h
      · cases hclass
  intro hbreak
  have hlower : '\n' ∈ (Html.lowerAscii tag).toList := by
    rw [Html.lowerAscii, String.toList_map]
    exact List.mem_map.2 ⟨'\n', hbreak, by decide⟩
  have hname := List.all_eq_true.1 hnames _ hblock
  rw [List.contains_iff_mem.2 hlower] at hname
  cases hname

/-- A block with tags, where lines may end. -/
theorem tags_apply (hclass : Html.TagClass.ofTag tag = .block)
    (hbare : (attributes.isEmpty && Html.lowerAscii tag == "p") = false)
    (hline : out.constrained = false) :
    element tag attributes body out =
      if out.modes.htmlBlock then
        (do openTag tag attributes false; withMode .htmlBlock true body; closeTag tag : Render Unit) out
      else blockElement tag attributes body out := by
  have hguard : (!out.constrained && attributes.isEmpty && Html.lowerAscii tag == "p") = false := by
    rw [Bool.and_assoc, hbare, Bool.and_false]
  unfold element
  rw [hclass]
  change (if (!out.constrained && attributes.isEmpty && Html.lowerAscii tag == "p") = true then _
    else _ : Render Unit) out = _
  rw [hguard, if_neg Bool.false_ne_true]
  change (if (out.constrained || out.modes.htmlBlock) = true then _ else _ : Render Unit) out = _
  rw [hline, Bool.false_or]
  split <;> rfl

theorem oneLine_closing (hclass : Html.TagClass.ofTag tag = .block) :
    OneLine (closing tag) ∧ (closing tag).toList ≠ [] := by
  have hne : ("</" ++ tag ++ ">").toList ≠ [] := by simp
  exact ⟨(oneLine_of_block hclass).between (by decide) (by decide), hne⟩

/-- The tags of a block that begins in an open HTML block are written around its body, and nothing
else. -/
theorem tags_ok (hclass : Html.TagClass.ofTag tag = .block)
    (hbare : (attributes.isEmpty && Html.lowerAscii tag == "p") = false)
    (hline : out.constrained = false) (hopen : out.modes.htmlBlock) (hbody : Framed body)
    (h : element tag attributes body out = (.ok (), out')) :
    ∃ opened inner, openTag tag attributes false out = (.ok (), opened) ∧
      body { opened with modes := opened.modes.set .htmlBlock true } = (.ok (), inner) ∧
      out'.text.toList = inner.text.toList ++ inner.pending ++ (closing tag).toList := by
  obtain ⟨hone, hne⟩ := oneLine_closing hclass
  rw [tags_apply hclass hbare hline, if_pos hopen] at h
  obtain ⟨_, opened, hopened, hrest⟩ := bind_eq_ok h
  obtain ⟨_, behind, hbehind, hclose⟩ := bind_eq_ok hrest
  obtain ⟨inner, hinner, rfl⟩ := hbody.withMode_ok hbehind
  refine ⟨opened, inner, hopened, hinner, ?_⟩
  rw [Output.text, write_ok hclose]
  exact text_wrote_line hone hne

/-- The end of a block whose lines may end: the closing tag and the end of its line, behind a break if
one is due. -/
theorem closeBlock_ok {start : Nat} (hclass : Html.TagClass.ofTag tag = .block)
    (hline : out.constrained = false)
    (h : (do
      if ← look (brokenSince start) then ensureSkippedLine else pure ()
      closeTag tag
      ensureNewLine : Render Unit) out = (.ok (), out')) :
    ∃ before, before = (if brokenSince start out then out.skipped else out) ∧
      out'.text.toList = before.text.toList ++ before.pending ++ (closing tag).toList ++ ['\n'] := by
  obtain ⟨hone, hne⟩ := oneLine_closing hclass
  have hclose {before : Output}
      (h : (do closeTag tag; ensureNewLine : Render Unit) before = (.ok (), out')) :
      out'.text.toList = before.text.toList ++ before.pending ++ (closing tag).toList ++ ['\n'] := by
    have hwrite : closeTag tag before = (.ok (), before.wrote (closing tag)) :=
      write_of_fits fun _ => hone
    have hbegun : (before.wrote (closing tag)).buffer.atLineStart = false :=
      before.buffer.begun_write hone hne
    rw [bind_of_ok hwrite] at h
    rw [ensureNewLine_ok h, Output.closed_begun _ hbegun, ← text_wrote_line hone hne]
    exact text_wrote_begun hbegun '\n'
  refine ⟨_, rfl, ?_⟩
  obtain ⟨broken, mid, hlook, hrest⟩ := bind_eq_ok h
  cases hlook
  split at hrest
  · next hbroken =>
    rw [if_pos hbroken]
    rw [bind_of_ok (ensureSkippedLine_apply hline)] at hrest
    exact hclose hrest
  · next hwhole =>
    rw [if_neg hwhole]
    exact hclose hrest

/-- The tags of a block that begins where no HTML block is open. The closing tag stands behind a break
if a line has ended since the opening one, and ends its line. -/
theorem blockElement_ok (hclass : Html.TagClass.ofTag tag = .block) (hbody : Framed body)
    (h : blockElement tag attributes body out = (.ok (), out')) :
    ∃ opened inner, openTag tag attributes false out.block = (.ok (), opened) ∧
      body { opened with modes := opened.modes.set .htmlBlock true } = (.ok (), inner) ∧
      ∃ before, before = (if brokenSince opened.text.length inner then inner.skipped else inner) ∧
        out'.text.toList = before.text.toList ++ before.pending ++ (closing tag).toList ++ ['\n'] := by
  have hframed : Framed (do
      openTag tag attributes false
      let start ← look fun out => out.text.length
      withMode .htmlBlock true body
      if ← look (brokenSince start) then ensureSkippedLine else pure ()
      closeTag tag
      ensureNewLine) := by
    have hclose : Framed (do closeTag tag; ensureNewLine) :=
      (framed_write _).then framed_ensureNewLine
    refine (framed_openTag _ _ _).then <| (framed_look _).bind fun start =>
      (hbody.withMode (by decide)).then <| (framed_look _).bind fun broken => ?_
    dsimp only
    split
    · exact framed_ensureSkippedLine.then hclose
    · exact hclose
  obtain ⟨hline, last, hlast, rfl⟩ := paragraphBreak_ok hframed h
  obtain ⟨_, opened, hopened, hrest⟩ := bind_eq_ok hlast
  obtain ⟨_, behind, hbehind, hclose⟩ := bind_eq_ok (show (do
      withMode .htmlBlock true body
      if ← look (brokenSince opened.text.length) then ensureSkippedLine else pure ()
      closeTag tag
      ensureNewLine : Render Unit) opened = _ from hrest)
  obtain ⟨inner, hinner, rfl⟩ := hbody.withMode_ok hbehind
  have hmodes : opened.modes = out.block.modes := ((framed_openTag _ _ _).of_eq hopened).modes
  have hmid : ({ inner with modes := opened.modes } : Output).constrained = false := by
    rw [Output.constrained, hmodes]
    exact Output.block_unconstrained hline
  obtain ⟨_, rfl, htext⟩ := closeBlock_ok hclass hmid hclose
  refine ⟨opened, inner, hopened, hinner, _, rfl, htext.trans ?_⟩
  have hsame : brokenSince opened.text.length { inner with modes := opened.modes } =
      brokenSince opened.text.length inner := rfl
  rw [hsame]
  split <;> rfl

theorem Output.Since.pending {front : List Char} (h : out.Since front) :
    ∀ c ∈ out.pending, IsMark c := by
  unfold Output.pending
  split
  · exact h.indent
  · exact List.forall_mem_nil _

end Tags

section Tree
variable {o : Options} {tree : Node} {tag : String} {attributes : Dict String} {children : List Node}
  {path : List (Node × Output)} {out opened inner st : Output}

/-- Behind an opening tag the line is begun, under the indentations of before. -/
theorem since_openTag (hmarks : ∀ indent ∈ out.buffer.indents, ∀ c ∈ indent.toList, IsMark c)
    (h : openTag tag attributes false out = (.ok (), opened)) :
    opened.Since opened.text.toList := by
  have hindents : opened.buffer.indents = out.buffer.indents :=
    ((framed_openTag _ _ _).of_eq h).buffer.indents
  obtain ⟨_, _, -, hrest⟩ := bind_eq_ok h
  obtain ⟨_, _, -, hrest⟩ := bind_eq_ok hrest
  obtain ⟨_, mid, -, hend⟩ := bind_eq_ok hrest
  have hbegun : opened.buffer.atLineStart = false := by
    rw [write_ok hend]
    exact mid.buffer.begun_write (by decide) (by decide)
  exact .begun (hindents ▸ hmarks) (List.append_nil _).symm hbegun

/-- What is written between the tags of a block, where the closing tag stands behind a break if a line
has ended: as soon as one has, the closing tag stands on a line of its own. -/
theorem between_reopens (h : inner.Since opened.text.toList) {before : Output}
    (hbefore : before = if brokenSince opened.text.length inner then inner.skipped else inner) :
    ∃ between, before.text.toList ++ before.pending = opened.text.toList ++ between ∧
      ('\n' ∈ between → ReopensBlock between) := by
  obtain ⟨between, htext, hlines⟩ := h.written
  have hbroken : brokenSince opened.text.length inner ↔ '\n' ∈ between := by
    rw [brokenSince, htext, ← String.length_toList, List.drop_left, List.contains_iff_mem]
  split at hbefore
  · subst hbefore
    obtain ⟨above, habove, hblank⟩ := h.exists_skipped
    refine ⟨above ++ inner.skipped.pending, by rw [habove, List.append_assoc], fun _ => ?_⟩
    exact ⟨above, _, rfl, hblank, h.skipped.pending⟩
  · next hwhole =>
    subst hbefore
    rw [hbroken] at hwhole
    -- No line has ended, so the one with the opening tag goes on.
    have hbegun : ¬ before.buffer.atLineStart := by
      intro hstart
      obtain ⟨⟨above, rfl⟩, -⟩ := hlines (Buffer.atLineStart_iff.1 hstart)
      exact hwhole (List.mem_append_right _ (List.mem_singleton_self _))
    exact ⟨between, by rw [Output.pending, if_neg hbegun, List.append_nil, htext],
      fun hmem => absurd hmem hwhole⟩

/-- A block with tags anywhere in a tree, where lines may end. If no HTML block is open around it, its
closing tag ends its line and, once a line has ended between the tags, stands behind a blank line. In
an open HTML block the closing tag stands right behind what the children have written. Which of the
two it is can be told from the way down the tree. -/
theorem closingTag_reopens (hpath : Path o (tree, {}) path (.element tag attributes children, st))
    (htags : (Node.element tag attributes children).hasBlockTags) (hline : st.constrained = false)
    {text : String} (hrun : renderRaw o tree = .ok text) :
    ∃ opened inner between rest,
      openTag tag attributes false (if st.modes.htmlBlock then st else st.block) =
        (.ok (), opened) ∧
      renderNodes o (pageHead o) false children
        { opened with modes := opened.modes.set .htmlBlock true } = (.ok (), inner) ∧
      text.toList = opened.text.toList ++ between ++ (closing tag).toList ++ rest ∧
      (st.modes.htmlBlock = false →
        (∃ more, rest = '\n' :: more) ∧ ('\n' ∈ between → ReopensBlock between)) ∧
      (st.modes.htmlBlock →
        opened.text.toList ++ between = inner.text.toList ++ inner.pending) ∧
      (st.modes.preformatted = false → (st.modes.htmlBlock = false ↔
        ∀ outer v inside, path = outer ++ v :: inside → v.1.hasBlockTags →
          ∃ w ∈ inside, startsBlock w.1 w.2)) := by
  obtain ⟨hclass, hbare⟩ : Html.TagClass.ofTag tag = .block ∧
      (attributes.isEmpty && Html.lowerAscii tag == "p") = false := by
    rw [Node.hasBlockTags, Bool.and_eq_true, beq_iff_eq, Bool.not_eq_true'] at htags
    exact htags
  have hlaid : st.Laid := hpath.maintained (P := Output.Laid) laid_start
  have hframed : Framed (renderNodes o (pageHead o) false children) :=
    framed_renderNodes (fun n _ => framed_render n) false
  -- What the children write begins behind the opening tag.
  have hsince {first opened inner : Output} (hindents : first.buffer.indents = st.buffer.indents)
      (hopened : openTag tag attributes false first = (.ok (), opened))
      (hinner : renderNodes o (pageHead o) false children
        { opened with modes := opened.modes.set .htmlBlock true } = (.ok (), inner)) :
      inner.Since opened.text.toList := by
    have hkept := maintained_render o (.group children)
      (Maintained.entered (opened.modes.set .htmlBlock true)
        (since_openTag (hindents ▸ hlaid.marks) hopened))
    rwa [show render o (.group children) = renderNodes o (pageHead o) false children from rfl,
      hinner] at hkept
  obtain ⟨final, hfinal, rfl⟩ := renderRaw_ok hrun
  have hok := hpath.ok (by rw [hfinal])
  obtain ⟨rest, hrest⟩ := hpath.beginsWith
  rw [hfinal] at hrest
  obtain ⟨out, hout⟩ : ∃ out, element tag attributes (renderNodes o (pageHead o) false children) st =
      (.ok (), out) := ⟨_, Prod.ext hok rfl⟩
  have htext : final.text.toList = out.text.toList ++ rest.toList := by
    rw [hrest, String.toList_append]
    exact congrArg (fun outcome => outcome.2.text.toList ++ rest.toList) hout
  have hpathed (hpre : st.modes.preformatted = false) := hpath.htmlBlock_iff hline hpre
  cases hopen : st.modes.htmlBlock with
  | true =>
    rw [hopen] at hpathed
    obtain ⟨opened, inner, hopened, hinner, hend⟩ := tags_ok hclass hbare hline hopen hframed hout
    obtain ⟨between, hbetween, -⟩ := (hsince rfl hopened hinner).written
    refine ⟨opened, inner, between ++ inner.pending, rest.toList, hopened, hinner, ?_, ?_, ?_, hpathed⟩
    · rw [htext, hend, hbetween]
      simp
    · intro hclosed
      cases hclosed
    · rw [hbetween, List.append_assoc]
      exact fun _ => rfl
  | false =>
    rw [hopen] at hpathed
    rw [tags_apply hclass hbare hline, hopen, if_neg Bool.false_ne_true] at hout
    obtain ⟨opened, inner, hopened, hinner, before, hbefore, hend⟩ :=
      blockElement_ok hclass hframed hout
    obtain ⟨between, hbetween, hreopens⟩ :=
      between_reopens (hsince st.indents_block hopened hinner) hbefore
    refine ⟨opened, inner, between, '\n' :: rest.toList, hopened, hinner, ?_,
      fun _ => ⟨⟨_, rfl⟩, hreopens⟩, ?_, hpathed⟩
    · rw [htext, hend, hbetween]
      simp
    · intro hclosed
      cases hclosed

end Tree

/-- A block that holds a paragraph. -/
def paragraphSection : Node := .element "section" ∅ [.paragraph [.text "x"]]

/-- In a quote the section begins where no HTML block is open, although the quote stands between the
tags of another block. -/
theorem closingTag_reopens_quoted :
    Path {} (.element "div" ∅ [.quote [paragraphSection]], {})
        [(.element "div" ∅ [.quote [paragraphSection]], {}), (.quote [paragraphSection], behindTag)]
        (paragraphSection, atQuotedFence) ∧
      paragraphSection.hasBlockTags ∧ atQuotedFence.constrained = false ∧
      renderRaw {} (.element "div" ∅ [.quote [paragraphSection]]) =
        .ok "\n<div>\n\n> <section>\n>\n> x\n>\n> </section>\n\n</div>\n" ∧
      ∃ between more, "\n<div>\n\n> <section>\n>\n> x\n>\n> </section>\n\n</div>\n".toList =
          "\n<div>\n\n> <section>".toList ++ between ++ (closing "section").toList ++ '\n' :: more ∧
        ReopensBlock between := by
  have hquote : LeadsTo {} (.element "div" ∅ [.quote [paragraphSection]], {})
      (.quote [paragraphSection], behindTag) := by
    have hpart : Part {} (.element "div" ∅ [.quote [paragraphSection]]) (.quote [paragraphSection]) _ :=
      .element "div" ∅ [] _ []
    exact ⟨_, hpart, (hpart.carries {}).runsAt_of_probe (by decide +kernel) (by decide +kernel)⟩
  have hsection : LeadsTo {} (.quote [paragraphSection], behindTag)
      (paragraphSection, atQuotedFence) := by
    have hpart : Part {} (.quote [paragraphSection]) paragraphSection _ := .quote [] _ []
    exact ⟨_, hpart, (hpart.carries behindTag).runsAt_of_probe (by decide +kernel) (by decide +kernel)⟩
  have hpath := Path.cons hquote (.cons hsection (.nil _))
  have hrun : renderRaw {} (.element "div" ∅ [.quote [paragraphSection]]) =
      .ok "\n<div>\n\n> <section>\n>\n> x\n>\n> </section>\n\n</div>\n" := by
    decide +kernel
  have htags : paragraphSection.hasBlockTags := by decide +kernel
  refine ⟨hpath, htags, rfl, hrun, ?_⟩
  obtain ⟨opened, -, between, rest, hopened, -, htext, hclosed, -⟩ :=
    closingTag_reopens hpath htags rfl hrun
  obtain ⟨⟨more, rfl⟩, hreopens⟩ := hclosed rfl
  have hfront : opened.text = "\n<div>\n\n> <section>" := by
    have hprobe : (openTag "section" ∅ false atQuotedFence.block).2.text =
        "\n<div>\n\n> <section>" := by
      decide +kernel
    have hplace : (if atQuotedFence.modes.htmlBlock then atQuotedFence else atQuotedFence.block) =
        atQuotedFence.block := rfl
    rw [hplace] at hopened
    rwa [hopened] at hprobe
  rw [hfront] at htext
  refine ⟨between, more, htext, hreopens ?_⟩
  -- A line break follows the opening tag, and the closing tag begins with none.
  have hclosing : (closing "section").toList = "</section>".toList := by decide +kernel
  rw [hclosing] at htext
  cases between with
  | nil => simp at htext
  | cons c between =>
    obtain ⟨hc, -⟩ : '\n' = c ∧ _ = between ++ "</section>".toList ++ '\n' :: more := by
      simpa only [String.reduceToList, List.cons_append, List.nil_append, List.cons.injEq,
        true_and] using htext
    exact hc ▸ List.mem_cons_self

/-- The section begins right behind the tag of the block around it, and its closing tag stands in the
line of the paragraph. -/
theorem renderRaw_closedLate :
    renderRaw {} (.element "div" ∅ [paragraphSection]) =
        .ok "\n<div><section>\n\nx</section>\n\n</div>\n" ∧
      ¬ ReopensBlock "\n\nx".toList := by
  refine ⟨by decide +kernel, ?_⟩
  rintro ⟨above, indent, htext, ⟨front, blank, rfl, -⟩, hindent⟩
  have hlast : ("\n\nx".toList).getLast? = some 'x' := by decide
  rw [htext] at hlast
  cases hend : indent.getLast? with
  | none =>
    rw [List.getLast?_eq_none_iff] at hend
    rw [hend, List.append_nil, List.getLast?_concat] at hlast
    cases hlast
  | some c =>
    rw [List.getLast?_append, hend] at hlast
    obtain rfl : c = 'x' := by simpa using hlast
    obtain hblank | hmark := hindent 'x' (List.mem_of_getLast? hend)
    · revert hblank
      decide
    · cases hmark

end DocTree.Markdown
