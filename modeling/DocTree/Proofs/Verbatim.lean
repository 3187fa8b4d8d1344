import DocTree.Proofs.FencedCode
import DocTree.Proofs.Lasting

/-! Fenced code anywhere in a tree. The lines between the fences are those of the code, each behind the
indentation, unless a line break of the code is written as a tag: where the fence stands in a block of
HTML that is still open, because the block it begins in is still empty and opened no new one. -/
namespace DocTree.Text
variable {cs line : List Char} {info code : String}

theorem endLines_pieces (cs : List Char) : endLines (pieces (· == '\n') cs) = cs ++ ['\n'] := by
  induction cs with
  | nil => rfl
  | cons c rest ih =>
    by_cases hc : c = '\n'
    · rw [hc, pieces, if_pos (by rfl), List.cons_append, ← ih]
      rfl
    cases hrest : pieces (· == '\n') rest with
    | nil => exact absurd hrest (pieces_ne_nil _ rest)
    | cons piece more =>
      rw [hrest] at ih
      rw [pieces, if_neg (by simpa using hc), hrest, List.cons_append, ← ih]
      rfl

/-- Behind a last line that is not ended there is one more piece than lines have been ended. -/
theorem codeLines_eq_pieces (h : completed cs = cs ++ ['\n']) :
    codeLines cs = pieces (· == '\n') cs := by
  have hcut := pieces_endLines (oneLine_codeLines cs)
  rw [endLines_codeLines, h, pieces_append_cons (by rfl)] at hcut
  exact (List.append_cancel_right hcut).symm

theorem mem_pieces_of_codeLines (h : line ∈ codeLines cs) : line ∈ pieces (· == '\n') cs := by
  by_cases hend : cs.getLast?.all (· == '\n')
  · have hcut := pieces_endLines (oneLine_codeLines cs)
    rw [endLines_codeLines, completed, if_pos hend] at hcut
    rw [hcut]
    exact List.mem_append_left _ h
  · rwa [← codeLines_eq_pieces (if_neg hend)]

theorem length_le_replaceChar {old : Char} {new : String} (hnew : new ≠ "") (s : String) :
    s.toList.length ≤ (replaceChar old new s).toList.length := by
  have hone (c : Char) : 1 ≤ (if c = old then new.toList else [c]).length := by
    split
    · exact List.length_pos_iff.2 fun hnil => hnew (String.toList_eq_nil_iff.1 hnil)
    · exact Nat.le_refl 1
  rw [replaceChar, String.toList_ofList]
  induction s.toList with
  | nil => exact Nat.le_refl 0
  | cons c cs ih =>
    rw [List.flatMap_cons, List.length_append, List.length_cons]
    have hc := hone c
    omega

/-- The lines between the fences when an info string and a text have been written. -/
def insideFence (info written : String) : List (List Char) :=
  (pieces (· == '\n') info.toList).tail ++ codeLines written.toList

theorem tail_pieces_iff : (pieces (· == '\n') info.toList).tail = [] ↔ OneLine info := by
  constructor
  · intro htail
    cases hpieces : pieces (· == '\n') info.toList with
    | nil => exact absurd hpieces (pieces_ne_nil _ _)
    | cons first more =>
      rw [hpieces] at htail
      have hmore : more = [] := htail
      have hinfo := endLines_pieces info.toList
      rw [hpieces, hmore] at hinfo
      have hfirst : first = info.toList := by simpa [endLines] using hinfo
      have hmem : info.toList ∈ pieces (· == '\n') info.toList := by simp [hpieces, hfirst]
      exact fun hbreak => not_sep_of_mem_pieces hmem hbreak (by rfl)
  · intro hline
    have hone : pieces (· == '\n') info.toList = [info.toList] := by
      refine pieces_eq_singleton fun c hc hbreak => hline ?_
      rwa [← show c = '\n' by simpa using hbreak]
    rw [hone]
    rfl

/-- Every line of a text that is not one line itself is shorter than the text. -/
theorem length_lt_of_codeLines (h : line ∈ codeLines cs) (hbreak : '\n' ∈ cs) :
    line.length < cs.length := by
  have hinfix : line <:+: cs := infix_of_mem_pieces (mem_pieces_of_codeLines h)
  refine lt_of_le_of_ne hinfix.length_le fun hlength => ?_
  rw [← hinfix.eq_of_length hlength] at hbreak
  exact oneLine_codeLines cs line h hbreak

theorem codeLines_oneLine (hne : cs ≠ []) (hline : '\n' ∉ cs) : codeLines cs = [cs] := by
  have hopen : completed cs = cs ++ ['\n'] := by
    refine if_neg fun hend => ?_
    obtain ⟨before, c, rfl⟩ := (List.eq_nil_or_concat cs).resolve_left hne
    have hbreak : c = '\n' := by simpa using hend
    exact hline (by simp [hbreak])
  rw [codeLines_eq_pieces hopen]
  exact pieces_eq_singleton fun c hc hbreak => hline (eq_of_beq hbreak ▸ hc)

theorem insideFence_self_iff : insideFence info code = codeLines code.toList ↔ OneLine info := by
  rw [insideFence, List.append_left_eq_self, tail_pieces_iff]

/-- With its line breaks made tags, the code comes to one line, which is no shorter than the code and
so longer than any line of it. -/
theorem oneLine_of_insideFence
    (h : insideFence info (replaceChar '\n' "<br>" code) = codeLines code.toList) : OneLine code := by
  intro hbreak
  have hone : OneLine (replaceChar '\n' "<br>" code) := oneLine_replaceChar (by decide) (.inr rfl)
  have hlong : code.toList.length ≤ (replaceChar '\n' "<br>" code).toList.length :=
    length_le_replaceChar (by decide) code
  have hne : (replaceChar '\n' "<br>" code).toList ≠ [] :=
    List.length_pos_iff.1 ((List.length_pos_of_mem hbreak).trans_le hlong)
  have hmem : (replaceChar '\n' "<br>" code).toList ∈ codeLines code.toList := by
    rw [← h, insideFence, codeLines_oneLine hne hone]
    exact List.mem_append_right _ (List.mem_singleton.2 rfl)
  exact absurd hlong (Nat.not_le_of_lt (length_lt_of_codeLines hmem hbreak))

/-- Between the fences stand the lines of the code if and only if the info string is one line and the
line breaks of the code are not written as tags. -/
theorem insideFence_eq_iff (tagged : Bool) :
    insideFence info (if tagged then replaceChar '\n' "<br>" code else code) =
        codeLines code.toList ↔
      OneLine info ∧ (OneLine code ∨ tagged = false) := by
  cases tagged with
  | false => simpa using insideFence_self_iff
  | true =>
    simp only [if_true, Bool.true_eq_false, or_false]
    constructor
    · intro hinside
      have hcode : OneLine code := oneLine_of_insideFence hinside
      rw [replaceChar_of_notMem hcode] at hinside
      exact ⟨insideFence_self_iff.1 hinside, hcode⟩
    · rintro ⟨hinfo, hcode⟩
      rw [replaceChar_of_notMem hcode]
      exact insideFence_self_iff.2 hinfo

end DocTree.Text

namespace DocTree.Layout

/-- A line as it is written under an indentation. -/
def underIndent (indent line : List Char) : List Char :=
  if line = [] then Unicode.dropBlankEnd indent else indent ++ line

/-- The lines can be told from what is written. -/
theorem drop_underIndent (indent line : List Char) :
    (underIndent indent line).drop indent.length = line := by
  unfold underIndent
  split
  · next hnil =>
    have hshort : (Unicode.dropBlankEnd indent).length ≤ indent.length := by
      have hdropped := (List.dropWhile_sublist (l := indent.reverse) Unicode.isBlank).length_le
      rw [List.length_reverse] at hdropped
      rwa [Unicode.dropBlankEnd, List.length_reverse]
    rw [hnil, List.drop_eq_nil_of_le hshort]
  · rw [List.drop_left]

theorem map_drop_underIndent (indent : List Char) (lines : List (List Char)) :
    (lines.map (underIndent indent)).map (·.drop indent.length) = lines := by
  rw [List.map_map]
  exact (List.map_congr_left fun line _ => drop_underIndent indent line).trans (List.map_id lines)

namespace Buffer
open Text
variable {b : Buffer} {first line : List Char} {lines : List (List Char)}

theorem text_newline_begun (hb : b.atLineStart = false) :
    b.newline.text.toList = b.text.toList ++ ['\n'] := by
  obtain ⟨content, hcontent⟩ := exists_content hb
  rw [newline_begun hcontent]
  simp

theorem indent_newline_write (b : Buffer) (s : String) : (b.write s).newline.indent = b.indent :=
  indent_congr ((extends_newline _).indents.trans (b.extends_write s).indents)

theorem write_endLines_cons (b : Buffer) (line : List Char) (lines : List (List Char)) :
    b.write (.ofList (endLines (line :: lines))) =
      (b.write (.ofList line)).newline.write (.ofList (endLines lines)) := by
  have hsplit : String.ofList (endLines (line :: lines)) =
      String.ofList line ++ "\n" ++ .ofList (endLines lines) := by
    rw [← String.toList_inj]
    simp [endLines]
  rw [hsplit, write_append, write_append]
  exact congrArg (write · _) (put_newline _)

/-- A line that is written from its start on. -/
theorem text_write_line (hb : b.atLineStart) (hline : '\n' ∉ line) :
    (b.write (.ofList line)).newline.text.toList =
      b.text.toList ++ underIndent b.indent.toList line ++ ['\n'] := by
  by_cases hnil : line = []
  · rw [hnil]
    show b.newline.text.toList = _
    rw [newline, atLineStart_iff.1 hb]
    simp [underIndent]
  have hone : OneLine (.ofList line) := oneLine_ofList.2 hline
  have hne : (String.ofList line).toList ≠ [] := by rwa [String.toList_ofList]
  rw [text_newline_begun (begun_write b hone hne), text_write_atStart hb hone hne, underIndent,
    if_neg hnil]
  simp

/-- Lines that are written one after the other, each under the indentation. -/
theorem text_write_lines (hb : b.atLineStart) (hlines : ∀ line ∈ lines, '\n' ∉ line) :
    (b.write (.ofList (endLines lines))).text.toList =
      b.text.toList ++ endLines (lines.map (underIndent b.indent.toList)) := by
  induction lines generalizing b with
  | nil => simp [endLines]
  | cons line lines ih =>
    obtain ⟨hline, hrest⟩ := List.forall_mem_cons.1 hlines
    rw [write_endLines_cons, ih (atLineStart_newline _) hrest, indent_newline_write,
      text_write_line hb hline]
    simp [endLines]

/-- Lines of which the first one may go on with a line that is begun. -/
theorem text_write_lines_on (hfirst : '\n' ∉ first) (hne : first ≠ [])
    (hlines : ∀ line ∈ lines, '\n' ∉ line) :
    (b.write (.ofList (endLines (first :: lines)))).text.toList =
      b.text.toList ++ (if b.atLineStart then b.indent.toList else []) ++ first ++
        '\n' :: endLines (lines.map (underIndent b.indent.toList)) := by
  have hopening : (b.write (.ofList first)).newline.text.toList =
      b.text.toList ++ (if b.atLineStart then b.indent.toList else []) ++ first ++ ['\n'] := by
    cases hb : b.atLineStart with
    | true =>
      rw [text_write_line hb hfirst, underIndent, if_neg hne]
      simp
    | false =>
      obtain ⟨content, hcontent⟩ := exists_content hb
      rw [write_begun hcontent (oneLine_ofList.2 hfirst), text_newline_begun rfl]
      simp
  rw [write_endLines_cons, text_write_lines (atLineStart_newline _) hlines, indent_newline_write,
    hopening]
  simp

end Buffer
end DocTree.Layout

namespace DocTree.Markdown
open Text Render Layout

/-- Where lines may end, text stands neither in a quoted attribute nor in code that is written as
elements on one line. -/
def Modes.KeepsLines (modes : Modes) : Prop :=
  modes.constrained = false → modes.htmlAttribute = false ∧ modes.singleLineCode = false

theorem Modes.keepsLines_set {modes : Modes} {mode : Mode} (h : modes.KeepsLines)
    (hmode : mode ∈ [.htmlBlock, .preformatted, .listItem]) (value : Bool) :
    (modes.set mode value).KeepsLines := by
  simp only [List.mem_cons, List.not_mem_nil, or_false] at hmode
  rcases hmode with rfl | rfl | rfl <;> exact h

variable {o : Options} {tree : Node} {v last : Node × Output} {path : List (Node × Output)}
  {out st : Output} {language : Option String} {code : String}

theorem Path.keepsLines (h : Path o v path last) (hv : v.2.modes.KeepsLines) :
    last.2.modes.KeepsLines := by
  induction h with
  | nil v => exact hv
  | @cons v w last path hstep _ ih =>
    obtain ⟨steps, hpart, hruns⟩ := hstep
    have hblock : v.2.blockModes.KeepsLines := by
      unfold Output.blockModes
      split
      · exact hv
      · exact Modes.keepsLines_set hv (by simp) false
    have hcarries : Carries steps v.2 Modes.KeepsLines := by
      refine hpart.carries_of v.2 ?_ (fun _ _ => hv) (fun _ _ => hblock) ?_ ?_ ?_
      · exact fun modes hconstrained hline => absurd hconstrained (by simp [hline])
      · exact fun _ => Modes.keepsLines_set hv (by simp) true
      · exact fun _ _ => Modes.keepsLines_set (Modes.keepsLines_set hv (by simp) false) (by simp) true
      · exact Modes.keepsLines_set (Modes.keepsLines_set hblock (by simp) true) (by simp) true
    exact ih (hcarries.of_runsAt hruns)

/-- Whether a line break in code that begins a block here is written as a tag: the block is one that
is still empty, in HTML that is open around it. -/
def Output.tagsBreaks (out : Output) : Bool :=
  out.fresh && out.modes.htmlBlock && !out.modes.preformatted

/-- Code as it is written between fences. -/
def Output.fencedCode (out : Output) (code : String) : String :=
  if out.tagsBreaks then replaceChar '\n' "<br>" code else code

theorem Output.modes_block (out : Output) : out.block.modes = out.blockModes := by
  unfold Output.block Output.blockModes
  split <;> rfl

theorem Output.lineBreak_block (hkeeps : out.modes.KeepsLines) (hline : out.constrained = false) :
    out.block.escapeContext.lineBreak = if out.tagsBreaks then "<br>".toList else ['\n'] := by
  obtain ⟨hattribute, hcode⟩ := hkeeps hline
  have htable : out.modes.table = false := Output.table_of_unconstrained hline
  simp only [Output.escapeContext, EscapeContext.lineBreak, out.modes_block, tagsBreaks]
  by_cases hfresh : out.fresh
  · simp [blockModes, hfresh, hattribute, hcode, htable]
  · simp [blockModes, hfresh, Modes.set, hattribute, hcode, htable]

theorem Output.replaceChar_block (hkeeps : out.modes.KeepsLines) (hline : out.constrained = false)
    (code : String) :
    replaceChar '\n' (.ofList out.block.escapeContext.lineBreak) code = out.fencedCode code := by
  rw [Output.lineBreak_block hkeeps hline, Output.fencedCode]
  split
  · rw [String.ofList_toList]
  · rw [replaceChar_self]

/-- The line of a fence that opens code, with what stands on it of the info string. -/
def openingLine (fence info : String) : List Char :=
  fence.toList ++ (pieces (· == '\n') info.toList).headD []

/-- What stands in front of a fence that is written here. -/
def Output.fenceFront (out : Output) : List Char :=
  out.block.text.toList ++ if out.block.buffer.atLineStart then out.buffer.indent.toList else []

theorem fenceText_eq_endLines (fence info written : String) :
    (fenceText fence info written).toList =
      endLines (openingLine fence info :: (insideFence info written ++ [fence.toList])) := by
  obtain ⟨first, more, hpieces⟩ := List.exists_cons_of_ne_nil (pieces_ne_nil (· == '\n') info.toList)
  have hinfo : first ++ '\n' :: endLines more = info.toList ++ ['\n'] := by
    rw [← endLines_pieces, hpieces]
    simp [endLines]
  have hlines : endLines (openingLine fence info :: (insideFence info written ++ [fence.toList])) =
      fence.toList ++ (first ++ '\n' :: endLines more) ++ endLines (codeLines written.toList) ++
        fence.toList ++ ['\n'] := by
    simp [endLines, openingLine, insideFence, hpieces]
  rw [hlines, hinfo, endLines_codeLines]
  simp [fenceText]

theorem oneLine_insideFence (info written : String) :
    ∀ line ∈ insideFence info written, '\n' ∉ line := by
  intro line hmem
  rw [insideFence, List.mem_append] at hmem
  obtain hinfo | hcode := hmem
  · exact fun hbreak => not_sep_of_mem_pieces (List.mem_of_mem_tail hinfo) hbreak (by rfl)
  · exact oneLine_codeLines _ line hcode

theorem oneLine_openingLine {fence : String} (hfence : OneLine fence) (info : String) :
    '\n' ∉ openingLine fence info := by
  obtain ⟨first, more, hpieces⟩ := List.exists_cons_of_ne_nil (pieces_ne_nil (· == '\n') info.toList)
  have hfirst : '\n' ∉ first := fun hbreak =>
    not_sep_of_mem_pieces (hpieces ▸ List.mem_cons_self) hbreak (by rfl)
  rw [openingLine, hpieces, List.headD_cons, List.mem_append, not_or]
  exact ⟨hfence, hfirst⟩

/-- What code comes to, in the text of the tree around it. -/
theorem Path.text_code (hpath : Path o (tree, {}) path (.code language code, st))
    (hline : st.constrained = false) :
    ∃ rest, (render o tree {}).2.text.toList = st.fenceFront ++
      openingLine (ticks (fenceLength code '\x60')) (language.getD "") ++ '\n' ::
        endLines ((insideFence (language.getD "") (st.fencedCode code) ++
          [(ticks (fenceLength code '\x60')).toList]).map (underIndent st.buffer.indent.toList)) ++
            rest := by
  generalize hfence : ticks (fenceLength code '\x60') = fence
  have hone : OneLine fence := by
    rw [← hfence, OneLine, ticks, String.toList_ofList]
    simp
  have hne : fence.toList ≠ [] := by
    rw [← hfence, ticks, String.toList_ofList, fenceLength]
    simp
  have hkeeps : st.modes.KeepsLines := hpath.keepsLines fun _ => ⟨rfl, rfl⟩
  have hrun : (render o (.code language code) st).2.text =
      (st.block.buffer.write (fenceText fence (language.getD "") (st.fencedCode code))).text := by
    have happly : codeBlock language code st = _ :=
      codeBlock_apply hline (Output.replaceChar_block hkeeps hline code)
    rw [hfence] at happly
    exact congrArg (fun outcome => outcome.2.text) happly
  obtain ⟨rest, hrest⟩ := hpath.beginsWith
  have hlines : ∀ line ∈ insideFence (language.getD "") (st.fencedCode code) ++ [fence.toList],
      '\n' ∉ line := by
    intro line hmem
    obtain hinside | hclosing := List.mem_append.1 hmem
    · exact oneLine_insideFence _ _ line hinside
    · rwa [List.mem_singleton.1 hclosing]
  have hopening : openingLine fence (language.getD "") ≠ [] := by simp [openingLine, hne]
  have hindent : st.block.buffer.indent = st.buffer.indent := Buffer.indent_congr st.indents_block
  refine ⟨rest.toList, ?_⟩
  rw [hrest, String.toList_append, hrun, ← String.ofList_toList (s := fenceText ..),
    fenceText_eq_endLines, Buffer.text_write_lines_on (oneLine_openingLine hone _) hopening hlines,
    hindent, Output.fenceFront, Output.text]

/-- A line break is kept in preformatted text, in a block that is not the first thing in another one,
and where no HTML is open around the block: behind every tag of a block on the way down a block is
started. -/
theorem Path.tagsBreaks_iff {node : Node} (hpath : Path o (tree, {}) path (node, st))
    (hline : st.constrained = false) :
    st.tagsBreaks = false ↔ st.modes.preformatted ∨ st.fresh = false ∨
      ∀ outer v inner, path = outer ++ v :: inner → v.1.hasBlockTags →
        ∃ w ∈ inner, startsBlock w.1 w.2 := by
  cases hpre : st.modes.preformatted with
  | true => simp [Output.tagsBreaks, hpre]
  | false =>
    rw [← hpath.htmlBlock_iff hline hpre, Output.tagsBreaks, hpre]
    cases st.fresh <;> simp

/-- Code that is written between fences anywhere in a tree. The lines between the fences, without the
indentation in front of each, are those of the code if and only if the info string is one line and,
unless the code is one line, its line breaks are not written as tags. -/
theorem code_verbatim_iff (hpath : Path o (tree, {}) path (.code language code, st))
    (hline : st.constrained = false) :
    ∃ written rest, written = (insideFence (language.getD "") (st.fencedCode code)).map
        (underIndent st.buffer.indent.toList) ∧
      (render o tree {}).2.text.toList = st.fenceFront ++
        openingLine (ticks (fenceLength code '\x60')) (language.getD "") ++ '\n' ::
          endLines (written ++ [underIndent st.buffer.indent.toList
            (ticks (fenceLength code '\x60')).toList]) ++ rest ∧
      (written.map (·.drop st.buffer.indent.length) = codeLines code.toList ↔
        OneLine (language.getD "") ∧
          (OneLine code ∨ st.modes.preformatted ∨ st.fresh = false ∨
            ∀ outer v inner, path = outer ++ v :: inner → v.1.hasBlockTags →
              ∃ w ∈ inner, startsBlock w.1 w.2)) := by
  obtain ⟨rest, htext⟩ := hpath.text_code hline
  rw [List.map_append] at htext
  refine ⟨_, rest, rfl, htext, ?_⟩
  rw [← String.length_toList, map_drop_underIndent, ← hpath.tagsBreaks_iff hline]
  exact insideFence_eq_iff st.tagsBreaks

/-- Code over three lines in a quote. -/
def quotedFence : Node := .quote [.code none "a\n\nb"]

/-- The output behind the tag of the block around the quote. -/
def behindTag : Output where
  buffer := { text := "\n<div>", content := some "<div>", afterBlank := true }
  modes := { htmlBlock := true }

/-- The output where the code begins. -/
def atQuotedFence : Output where
  buffer := { text := "\n<div>\n\n", indents := ["> "], afterBlank := true }
  fresh := true

theorem code_verbatim_iff_quotedFence :
    Path {} (.element "div" ∅ [quotedFence], {})
        [(.element "div" ∅ [quotedFence], {}), (quotedFence, behindTag)]
        (.code none "a\n\nb", atQuotedFence) ∧
      atQuotedFence.constrained = false ∧
      ∃ written rest, (render {} (.element "div" ∅ [quotedFence]) {}).2.text.toList =
          "\n<div>\n\n> \x60\x60\x60\n".toList ++ endLines (written ++ ["> \x60\x60\x60".toList]) ++
            rest ∧
        written = ["> a".toList, ['>'], "> b".toList] ∧
        written.map (·.drop 2) = codeLines "a\n\nb".toList := by
  have hquote : LeadsTo {} (.element "div" ∅ [quotedFence], {}) (quotedFence, behindTag) := by
    have hpart : Part {} (.element "div" ∅ [quotedFence]) quotedFence _ := .element "div" ∅ [] _ []
    exact ⟨_, hpart, (hpart.carries {}).runsAt_of_probe (by decide +kernel) (by decide +kernel)⟩
  have hcode : LeadsTo {} (quotedFence, behindTag) (.code none "a\n\nb", atQuotedFence) := by
    have hpart : Part {} quotedFence (.code none "a\n\nb") _ := .quote [] _ []
    exact ⟨_, hpart, (hpart.carries behindTag).runsAt_of_probe (by decide +kernel) (by decide +kernel)⟩
  have hpath : Path {} (.element "div" ∅ [quotedFence], {})
      [(.element "div" ∅ [quotedFence], {}), (quotedFence, behindTag)]
      (.code none "a\n\nb", atQuotedFence) := .cons hquote (.cons hcode (.nil _))
  -- The quote starts a block behind the tag.
  have hclosed : [(Node.element "div" ∅ [quotedFence], {}), (quotedFence, behindTag)].foldl stepDown
      false = false := by
    decide +kernel
  obtain ⟨hstarted, -⟩ := foldl_stepDown.1 hclosed
  obtain ⟨written, rest, hwritten, htext, hverbatim⟩ := code_verbatim_iff hpath rfl
  have hfront : atQuotedFence.fenceFront ++ openingLine (ticks (fenceLength "a\n\nb" '\x60')) "" ++
      ['\n'] = "\n<div>\n\n> \x60\x60\x60\n".toList := by
    decide +kernel
  refine ⟨hpath, rfl, written, rest, ?_, hwritten.trans (by decide +kernel),
    hverbatim.2 ⟨by decide, .inr (.inr (.inr hstarted))⟩⟩
  have hclosing : underIndent atQuotedFence.buffer.indent.toList
      (ticks (fenceLength "a\n\nb" '\x60')).toList = "> \x60\x60\x60".toList := by
    decide +kernel
  rw [htext, ← hfront, ← hclosing]
  simp

/-- Code behind an empty paragraph, between the tags of a block. -/
def taggedFence : Node := .element "div" ∅ [.paragraph [], .code none "a\nb"]

/-- The blank line above the fence is that of the paragraph, and the line break is written as a tag. -/
theorem renderRaw_taggedFence : renderRaw {} taggedFence =
    .ok "\n<div>\n\n\x60\x60\x60\na<br>b\n\x60\x60\x60\n\n</div>\n" := by
  decide +kernel

end DocTree.Markdown