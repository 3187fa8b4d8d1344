import DocTree.Proofs.ItemStart
import DocTree.Proofs.Stripping

/-! What stands between two lists. A reader takes lists for one if nothing shows between them. The
writer puts a separator between a list and a list right behind it. Behind siblings in between, and
behind the table of contents of a page, it is left to what the siblings show. -/
namespace DocTree.Markdown
open Text Render Layout

/-- Where a writer stands at the start of a line. -/
def Output.place (out : Output) : Place where
  begun := false
  afterBlank := out.buffer.afterBlank
  fresh := out.fresh

/-- The columns of the indentation in force. -/
def Output.width (out : Output) : Nat := out.buffer.indent.length

section Between
variable {o : Options} {nodes between before : List Node} {style : ListStyle} {items : List Node}
  {st out last mid : Output}

/-- At the start of a line. -/
def lineStand (out : Output) (hindents : ∀ indent ∈ out.buffer.indents, OneLine indent) : Stand where
  front := out.text.toList
  marker := none
  indents := out.buffer.indents
  margin := out.width
  oneLine := hindents

theorem width_lineStand (hindents : ∀ indent ∈ out.buffer.indents, OneLine indent) :
    (lineStand out hindents).width = out.width := by
  rw [Stand.width, Stand.indent, lineStand, ← Buffer.indent_eq_join, String.length_toList,
    Output.width]

theorem quiet_place (hindents : ∀ indent ∈ out.buffer.indents, OneLine indent)
    (hstart : out.buffer.atLineStart) : (lineStand out hindents).Quiet out.modes out.place out := by
  refine ⟨rfl, rfl, hstart, fun _ => rfl, ⟨0, rfl, by simp [Output.place]⟩, nofun, nofun, [],
    (List.append_nil _).symm, fun more => ?_, ?_⟩
  · rw [List.nil_append, Stand.line?, width_lineStand]
    rfl
  · exact fun more => rfl

/-- From the start of a line, the line of the first thing that nodes show is what the abstract writer
says. -/
theorem render_between (hindents : ∀ indent ∈ out.buffer.indents, OneLine indent)
    (hline : out.constrained = false) (hstart : out.buffer.atLineStart)
    (hrun : render o (.group nodes) out = (.ok (), mid)) :
    ∃ gap, mid.text.toList = out.text.toList ++ gap ∧
      contentLine out.width out.width 0 gap =
        (leadOver o out.modes false nodes (.quiet out.place)).line? := by
  have hquiet : (lineStand out hindents).Follows out.modes (.quiet out.place) out :=
    quiet_place hindents hstart
  have hfollows := (simulates_render (.group nodes)).run hline hquiet hrun
  have hopen (dashes : Nat) : leadOf o out.modes (.group nodes) (.quiet out.place) ≠
      .dashed dashes := by
    intro hdashed
    rw [hdashed] at hfollows
    cases hfollows.marker
  obtain ⟨gap, htext, hread, -⟩ := hfollows.read hopen
  rw [Stand.line?, width_lineStand] at hread
  exact ⟨gap, htext, hread⟩

theorem atLineStart_list (hline : out.constrained = false)
    (hrun : render o (.list style items) out = (.ok (), last)) : last.buffer.atLineStart := by
  rw [render, renderNode, renderParts_eq_map] at hrun
  obtain ⟨behind, hbehind, rfl⟩ := list_ok hline (framed_renders items) hrun
  obtain ⟨_, end', -, hend⟩ := bind_eq_ok hbehind
  obtain rfl := ensureNewLine_ok hend
  exact end'.buffer.atLineStart_ensureNewLine

/-- What a skipped line is under an indentation, unless there is one already. -/
def IsSkip (indent : String) (blank : List Char) : Prop :=
  blank = [] ∨ blank = Unicode.dropBlankEnd indent.toList ++ ['\n']

theorem text_skipped (hstart : out.buffer.atLineStart) :
    ∃ blank, IsSkip out.buffer.indent blank ∧
      out.skipped.text.toList = out.text.toList ++ blank := by
  have hcontent : out.buffer.content = none := Buffer.atLineStart_iff.1 hstart
  rw [Output.skipped, Buffer.ensureSkippedLine, Buffer.ensureNewLine, if_pos hstart]
  split
  · exact ⟨[], .inl rfl, (List.append_nil _).symm⟩
  · refine ⟨_, .inr rfl, ?_⟩
    simp [Output.text, Buffer.newline, hcontent]

/-- The list separator stands on a line of its own, behind a skipped one. -/
theorem separateLists_text (hline : out.constrained = false) (hatStart : out.buffer.atLineStart)
    (hrun : separateLists true true out = (.ok (), mid)) :
    ∃ blank, IsSkip out.buffer.indent blank ∧ mid.text.toList =
      out.text.toList ++ (blank ++ (out.buffer.indent ++ listSeparator ++ "\n").toList) := by
  have hstart : out.skipped.buffer.atLineStart := out.buffer.atLineStart_ensureSkippedLine
  have hindent : out.skipped.buffer.indent = out.buffer.indent :=
    Buffer.indent_congr out.buffer.extends_ensureSkippedLine.indents
  obtain ⟨blank, hblank, hskipped⟩ := text_skipped hatStart
  rw [separateLists_apply hline, Bool.and_self, if_pos rfl,
    bind_of_ok (ensureSkippedLine_apply hline)] at hrun
  obtain ⟨_, written, hwritten, hend⟩ := bind_eq_ok hrun
  obtain rfl := ensureNewLine_ok hend
  have hbuffer : written.buffer = out.skipped.buffer.write listSeparator := write_ok hwritten
  have htext : written.text = out.skipped.text ++ out.buffer.indent ++ listSeparator := by
    rw [Output.text, hbuffer, Buffer.text_write_atStart hstart (by decide) (by decide), hindent]
    rfl
  have hbegun : written.buffer.atLineStart = false := by
    rw [hbuffer]
    exact Buffer.begun_write _ (by decide) (by decide)
  have hclosed : written.closed.text.toList = written.text.toList ++ ['\n'] := by
    rw [written.closed_begun hbegun]
    exact text_wrote_begun hbegun '\n'
  refine ⟨blank, hblank, ?_⟩
  rw [hclosed, htext, String.toList_append, String.toList_append, hskipped]
  simp only [String.toList_append, List.append_assoc]
  rfl

/-- Behind siblings that are no lists, a list is not set apart. -/
theorem turn_between (hbetween : ∀ n ∈ between, ¬ n.isList) (list : Node)
    (hline : out.constrained = false) (hrun : turn o between list out = (.ok (), mid)) :
    render o (.group between) out = (.ok (), mid) := by
  obtain ⟨_, start, hstart, hsep⟩ := bind_eq_ok hrun
  have hlast : between.getLast?.any Node.isList = false := by
    cases hgiven : between.getLast? with
    | none => rfl
    | some n => exact Bool.eq_false_iff.2 (hbetween n (List.mem_of_getLast? hgiven))
  have hsame : start.constrained = false :=
    (Output.constrained_congr ((framed_render _).of_eq hstart).modes).trans hline
  rw [separateLists_apply hsame, hlast, Bool.false_and, if_neg Bool.false_ne_true] at hsep
  rw [hstart, (Prod.mk.inj hsep).2]

/-- Behind the table of contents of a page, which is a list, a line begins. -/
theorem atLineStart_pageHead {metadata : PageMetadata} (hline : st.constrained = false)
    (hentries : metadata.contents.entries.isEmpty = false)
    (hrun : pageHead o metadata st = (.ok (), last)) : last.buffer.atLineStart := by
  obtain ⟨_, noticed, hnotice, hrest⟩ := bind_eq_ok hrun
  obtain ⟨_, titled, htitle, hlist⟩ := bind_eq_ok hrest
  have hmodes : titled.modes = st.modes :=
    ((((framed_writeEscaped _).heading 1 none).of_eq htitle).modes).trans
      (framed_notice.of_eq hnotice).modes
  rw [hentries, if_neg Bool.false_ne_true, renderPlain_contents, TableOfContents.toNode] at hlist
  exact atLineStart_list ((Output.constrained_congr hmodes).trans hline) hlist

/-- Siblings are written up to a list and then on behind it. -/
theorem render_behind_list (before between : List Node) (style : ListStyle) (items : List Node) :
    render o (.group (before ++ .list style items :: between)) = (do
      render o (.group (before ++ [.list style items]))
      renderNodes o (pageHead o) true between) := by
  have hlast : (before ++ [Node.list style items]).getLast?.elim false Node.isList = true := by
    simp [Node.isList]
  have hsplit : before ++ .list style items :: between =
      before ++ [Node.list style items] ++ between := by simp
  rw [render, renderNode, hsplit, renderNodes_append, hlast]
  rfl

theorem atLineStart_behind_list (hline : st.constrained = false)
    (hrun : render o (.group (before ++ [.list style items])) st = (.ok (), last)) :
    last.buffer.atLineStart := by
  rw [render, renderNode, renderNodes_append] at hrun
  obtain ⟨_, mid, hmid, hlist⟩ := bind_eq_ok hrun
  obtain ⟨_, start, hstart, hrest⟩ := bind_eq_ok hlist
  obtain ⟨_, behind, hbehind, hend⟩ := bind_eq_ok hrest
  obtain rfl : behind = last := (Prod.mk.inj hend).2
  have hmodes : start.modes = st.modes := by
    rw [((framed_separateLists _ _).of_eq hstart).modes]
    exact ((framed_renderNodes (fun n _ => framed_render n) false).of_eq hmid).modes
  exact atLineStart_list ((Output.constrained_congr hmodes).trans hline) hbehind

/-- What siblings show behind a list, whether it is one of them or not. -/
theorem shown_behind (hst : st.Tidy) (hline : st.constrained = false) (hextends : st.Extends last)
    (hstart : last.buffer.atLineStart) (hrun : render o (.group nodes) last = (.ok (), mid)) :
    ∃ gap, mid.text.toList = last.text.toList ++ gap ∧ contentLine st.width st.width 0 gap =
      (leadOver o st.modes false nodes (.quiet last.place)).line? := by
  have hindents : ∀ indent ∈ last.buffer.indents, OneLine indent :=
    hextends.buffer.indents ▸ hst.oneLine
  have hwidth : last.width = st.width := by
    rw [Output.width, Output.width, Buffer.indent_congr hextends.buffer.indents]
  obtain ⟨gap, htext, hread⟩ := render_between hindents
    ((Output.constrained_congr hextends.modes).trans hline) hstart hrun
  rw [hwidth, hextends.modes] at hread
  exact ⟨gap, htext, hread⟩

/-- A list right behind a list is set apart. -/
theorem turn_adjacent {styleB : ListStyle} {itemsB : List Node} (hline : st.constrained = false)
    (hrun : turn o (before ++ [.list style items]) (.list styleB itemsB) st = (.ok (), mid)) :
    ∃ last, render o (.group (before ++ [.list style items])) st = (.ok (), last) ∧
      ∃ blank, IsSkip st.buffer.indent blank ∧ mid.text.toList =
        last.text.toList ++ (blank ++ (st.buffer.indent ++ listSeparator ++ "\n").toList) := by
  have hlists : (before ++ [Node.list style items]).getLast?.any Node.isList = true := by
    simp [Node.isList]
  obtain ⟨_, last, hlast, hbehind⟩ := bind_eq_ok hrun
  have hextends : st.Extends last := (framed_render _).of_eq hlast
  rw [hlists] at hbehind
  obtain ⟨blank, hblank, htext⟩ := separateLists_text
    ((Output.constrained_congr hextends.modes).trans hline)
    (atLineStart_behind_list hline hlast) hbehind
  rw [Buffer.indent_congr hextends.buffer.indents] at hblank htext
  exact ⟨last, hlast, blank, hblank, htext⟩

/-- Behind a list and further siblings stands what the latter show. -/
theorem turn_behind_list {next : Node} {rest : List Node} {styleB : ListStyle} {itemsB : List Node}
    (hst : st.Tidy) (hline : st.constrained = false) (hbetween : ∀ n ∈ next :: rest, ¬ n.isList)
    (hrun : turn o (before ++ .list style items :: next :: rest) (.list styleB itemsB) st =
      (.ok (), mid)) :
    ∃ last gap, render o (.group (before ++ [.list style items])) st = (.ok (), last) ∧
      mid.text.toList = last.text.toList ++ gap ∧ contentLine st.width st.width 0 gap =
        (leadOver o st.modes false (next :: rest) (.quiet last.place)).line? := by
  have hflag : renderNodes o (pageHead o) true (next :: rest) = render o (.group (next :: rest)) :=
    renderNodes_flag (by simpa using hbetween next List.mem_cons_self) true false
  have hlists : (before ++ .list style items :: next :: rest).getLast?.any Node.isList =
      (next :: rest).getLast?.any Node.isList := by
    simp [List.getLast?_append, List.getLast?_cons]
  rw [turn, render_behind_list, bind_assoc] at hrun
  obtain ⟨_, last, hlast, hbehind⟩ := bind_eq_ok hrun
  have hextends : st.Extends last := (framed_render _).of_eq hlast
  rw [hflag, hlists] at hbehind
  have hbody := turn_between hbetween (.list styleB itemsB)
    ((Output.constrained_congr hextends.modes).trans hline) hbehind
  obtain ⟨gap, htext, hread⟩ := shown_behind hst hline hextends
    (atLineStart_behind_list hline hlast) hbody
  exact ⟨last, gap, hlast, htext, hread⟩

/-- Lists that are siblings are kept apart by a separator where one comes right behind the other.
What else stands between them, and between the table of contents of a page and the first list behind
it, is what the siblings in between show, which may be nothing. -/
theorem lists_apart (hst : st.Tidy) (hline : st.constrained = false)
    (hbetween : ∀ n ∈ between, ¬ n.isList) :
    (∀ before styleA itemsA styleB itemsB mid,
      turn o (before ++ .list styleA itemsA :: between) (.list styleB itemsB) st = (.ok (), mid) →
        ∃ last gap, render o (.group (before ++ [.list styleA itemsA])) st = (.ok (), last) ∧
          mid.text.toList = last.text.toList ++ gap ∧
          (between = [] →
            ∃ blank, IsSkip st.buffer.indent blank ∧
              gap = blank ++ (st.buffer.indent ++ listSeparator ++ "\n").toList) ∧
          (between ≠ [] → contentLine st.width st.width 0 gap =
            (leadOver o st.modes false between (.quiet last.place)).line?)) ∧
    ∀ metadata styleB itemsB mid, metadata.contents.entries.isEmpty = false →
      (do pageHead o metadata; turn o between (.list styleB itemsB)) st = (.ok (), mid) →
        ∃ last gap, pageHead o metadata st = (.ok (), last) ∧
          mid.text.toList = last.text.toList ++ gap ∧
          contentLine st.width st.width 0 gap =
            (leadOver o st.modes false between (.quiet last.place)).line? := by
  constructor
  · intro before styleA itemsA styleB itemsB mid hrun
    cases between with
    | nil =>
      obtain ⟨last, hlast, blank, hblank, htext⟩ := turn_adjacent hline hrun
      exact ⟨last, _, hlast, htext, fun _ => ⟨blank, hblank, rfl⟩, fun hne => absurd rfl hne⟩
    | cons next rest =>
      obtain ⟨last, gap, hlast, htext, hread⟩ := turn_behind_list hst hline hbetween hrun
      exact ⟨last, gap, hlast, htext, fun hnil => absurd hnil (List.cons_ne_nil _ _),
        fun _ => hread⟩
  · intro metadata styleB itemsB mid hentries hrun
    obtain ⟨_, last, hlast, hturn⟩ := bind_eq_ok hrun
    have hextends : st.Extends last := (framed_pageHead metadata).of_eq hlast
    have hbody := turn_between hbetween _
      ((Output.constrained_congr hextends.modes).trans hline) hturn
    obtain ⟨gap, htext, hread⟩ := shown_behind hst hline hextends
      (atLineStart_pageHead hline hentries hlast) hbody
    exact ⟨last, gap, hlast, htext, hread⟩

end Between

/-- The output at the start of a quote. -/
def atQuoted : Output where
  buffer := { text := "\n", indents := ["> "], afterBlank := true }
  fresh := true

def listed (s : String) : Node := .list (.ordered 1) [.text s]

/-- A page with one entry in its table of contents. -/
def onePage : PageMetadata := ⟨"T", ⟨[.mk "a" (some "a") [] []]⟩⟩

/-- Nothing, in two ways. -/
def blankNodes : List Node := [.codeSpan [.text ""], .text " "]

/-- The output between two lists in the quote. -/
def betweenQuoted : Output where
  buffer := { text := "\n> p\n>\n> 1. a\n>\n> <!-- -->\n", indents := ["> "] }

/-- The output behind the table of contents. -/
def behindContents : Output where
  buffer := { text := noticeText ++ "\n\n# T\n\n1. [a](#a)\n" }

/-- The output between the table of contents and a list. -/
def betweenContents : Output where
  buffer := { text := noticeText ++ "\n\n# T\n\n1. [a](#a)\n ", content := some " " }

theorem lists_apart_quoted :
    (∃ last gap, render {} (.group [.text "p", listed "a"]) atQuoted = (.ok (), last) ∧
      betweenQuoted.text.toList = last.text.toList ++ gap ∧
      ∃ blank, IsSkip "> " blank ∧ gap = blank ++ "> <!-- -->\n".toList) ∧
    ∃ last gap, pageHead {} onePage {} = (.ok (), last) ∧
      betweenContents.text.toList = last.text.toList ++ gap ∧ contentLine 0 0 0 gap = none := by
  have htidy : atQuoted.Tidy := ⟨fun _ => .inr ⟨"", rfl⟩, by simp [atQuoted, OneLine]⟩
  have hpair : turn {} [.text "p", listed "a"] (listed "b") atQuoted = (.ok (), betweenQuoted) := by
    decide +kernel
  have hpage : (do pageHead {} onePage; turn {} blankNodes (.list (.ordered 1) [.text "b"])) {} =
      (.ok (), betweenContents) := by decide +kernel
  have hblank : ∀ n ∈ blankNodes, ¬ n.isList := by simp [blankNodes, Node.isList]
  have hwidth : ({} : Output).width = 0 := by decide +kernel
  constructor
  · obtain ⟨last, gap, hlast, htext, hgap, -⟩ :=
      (lists_apart htidy rfl (List.forall_mem_nil _)).1 [.text "p"] (.ordered 1) [.text "a"]
        (.ordered 1) [.text "b"] betweenQuoted hpair
    exact ⟨last, gap, hlast, htext, hgap rfl⟩
  · obtain ⟨last, gap, hlast, htext, hread⟩ := (lists_apart tidy_start rfl hblank).2 onePage
      (.ordered 1) [.text "b"] betweenContents rfl hpage
    have hbehind : last = behindContents := by
      have hhead : pageHead {} onePage {} = (.ok (), behindContents) := by decide +kernel
      exact (Prod.mk.inj (hlast.symm.trans hhead)).2
    have hlead : (leadOver {} ({} : Output).modes false blankNodes
        (.quiet behindContents.place)).line? = none := by decide +kernel
    rw [hwidth, hbehind, hlead] at hread
    exact ⟨last, gap, hlast, htext, hread⟩

/-- The table of contents and the list of the page are read as one list, and so are two lists with
an empty span of code in between. -/
theorem toMarkdown_oneList :
    toMarkdown {} (.page onePage [listed "x"]) =
        .ok (noticeText ++ "\n\n# T\n\n1. [a](#a)\n\n1. x\n") ∧
      toMarkdown {} (.group [listed "a", .codeSpan [.text ""], listed "b"]) =
        .ok "\n1. a\n\n1. b\n" :=
  ⟨by decide +kernel, by decide +kernel⟩

end DocTree.Markdown
