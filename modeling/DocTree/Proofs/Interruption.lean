import DocTree.Proofs.ItemStart
import Mathlib.Data.List.DropRight

/-! What stands above a list. A list that is not put behind an empty line stands below a line of
nothing but markers, or it is one that may interrupt a paragraph. To a reader it does so only if its
first marker has content on its line, which is left to the first item. -/
namespace DocTree.Text

/-- The text behind the last line break. -/
def lastLine (cs : List Char) : List Char := cs.rtakeWhile (· ≠ '\n')

theorem lastLine_append {line : List Char} (h : '\n' ∉ line) (cs : List Char) :
    lastLine (cs ++ line) = lastLine cs ++ line := by
  have hline : ∀ c ∈ line.reverse, decide (c ≠ '\n') = true := by
    intro c hc
    rw [decide_eq_true_eq]
    rintro rfl
    exact h (List.mem_reverse.1 hc)
  rw [lastLine, lastLine, List.rtakeWhile, List.reverse_append,
    List.takeWhile_append_of_pos hline, List.reverse_append, List.reverse_reverse, List.rtakeWhile]

theorem lastLine_break (cs : List Char) : lastLine (cs ++ ['\n']) = [] :=
  List.rtakeWhile_concat_neg (· ≠ '\n') cs '\n' (by decide)

end DocTree.Text

namespace DocTree.Markdown
open Text Render Layout

/-- A line with nothing on it but white space, marks of quotes and markers of lists. -/
inductive Bare : List Char → Prop
  | empty : Bare []
  | mark {line : List Char} {c : Char} (h : Bare line) (hc : Unicode.isBlank c ∨ c = '>') :
    Bare (line ++ [c])
  | item {line : List Char} (h : Bare line) (style : ListStyle) (position : Nat) :
    Bare (line ++ (marker style position).toList)

theorem Bare.marks {line cs : List Char} (h : Bare line)
    (hcs : ∀ c ∈ cs, Unicode.isBlank c ∨ c = '>') : Bare (line ++ cs) := by
  induction cs generalizing line with
  | nil => rwa [List.append_nil]
  | cons c rest ih =>
    obtain ⟨hc, hrest⟩ := List.forall_mem_cons.1 hcs
    rw [← List.singleton_append, ← List.append_assoc]
    exact ih (h.mark hc) hrest

theorem mark_quote : ∀ c ∈ ['>', ' '], Unicode.isBlank c ∨ c = '>' :=
  List.forall_mem_cons.2 ⟨.inr rfl, List.forall_mem_singleton.2 (.inl (by decide))⟩

/-- The line that has been begun, or else the one that has ended last. -/
def Output.lineAbove (out : Output) : List Char :=
  lastLine (if out.buffer.atLineStart then out.text.toList.dropLast else out.text.toList)

/-- Indentations are marks of quotes and spaces. A line without content is bare, and so is the line
on which a block has just begun. -/
structure Output.Laid (out : Output) : Prop where
  tidy : out.Tidy
  marks : ∀ indent ∈ out.buffer.indents, ∀ c ∈ indent.toList, Unicode.isBlank c ∨ c = '>'
  blank : out.buffer.content = none → out.buffer.afterBlank → Bare out.lineAbove
  fresh : out.fresh → Bare out.lineAbove

theorem laid_start : ({} : Output).Laid :=
  ⟨tidy_start, by simp, nofun, nofun⟩

section LineAbove
variable {out : Output} {c : Char}

theorem lineAbove_begun (h : out.buffer.atLineStart = false) :
    out.lineAbove = lastLine out.text.toList := by
  rw [Output.lineAbove, h, if_neg Bool.false_ne_true]

theorem lineAbove_start (above : List Char) (h : out.buffer.atLineStart)
    (htext : out.text.toList = above ++ ['\n']) : out.lineAbove = lastLine above := by
  rw [Output.lineAbove, if_pos h, htext, List.dropLast_concat]

/-- At the start of a line no text stands behind the last line break. -/
theorem Output.Tidy.lastLine_eq_nil (h : out.Tidy) (hstart : out.buffer.atLineStart) :
    lastLine out.text.toList = [] := by
  obtain hempty | ⟨above, habove⟩ := h.breaks hstart
  · rw [hempty]
    rfl
  · rw [habove, lastLine_break]

end LineAbove

namespace Output.Laid
variable {out : Output} {c : Char}

theorem indent (h : out.Laid) :
    '\n' ∉ out.buffer.indent.toList ∧
      ∀ c ∈ out.buffer.indent.toList, Unicode.isBlank c ∨ c = '>' := by
  refine ⟨Buffer.oneLine_indent h.tidy.oneLine, ?_⟩
  rw [Buffer.indent_eq_join, String.toList_join]
  intro c hc
  obtain ⟨indent, hmem, hin⟩ := List.mem_flatMap.1 hc
  exact h.marks indent (List.mem_reverse.1 hmem) c hin

theorem putBreak (h : out.Laid) : Bare (out.wrote (.singleton '\n')).lineAbove ∨
    (out.wrote (.singleton '\n')).buffer.afterBlank = false ∧
      (out.wrote (.singleton '\n')).lineAbove = out.lineAbove := by
  cases hb : out.buffer.content with
  | none =>
    obtain ⟨hone, hmarks⟩ := h.indent
    have hstart : out.buffer.atLineStart := Buffer.atLineStart_iff.2 hb
    have hline : '\n' ∉ Unicode.dropBlankEnd out.buffer.indent.toList :=
      Unicode.notMem_dropBlankEnd hone
    left
    rw [wrote_break,
      lineAbove_start (out.text.toList ++ Unicode.dropBlankEnd out.buffer.indent.toList)
        out.buffer.atLineStart_newline,
      lastLine_append hline, h.tidy.lastLine_eq_nil hstart]
    · exact Bare.empty.marks fun c hc => hmarks c (Unicode.mem_of_mem_dropBlankEnd hc)
    · simp [Output.text, Buffer.newline, hb]
  | some content =>
    have hbegun : out.buffer.atLineStart = false := by rw [Buffer.atLineStart, hb]; rfl
    have hended := text_wrote_begun hbegun '\n'
    right
    rw [wrote_break] at hended ⊢
    rw [lineAbove_begun hbegun,
      lineAbove_start out.text.toList out.buffer.atLineStart_newline hended]
    simp [Buffer.newline, hb]

/-- A line that goes on with white space where nothing else has been written. -/
theorem putBlank (h : out.Laid) (hfresh : out.fresh) (hc : c ≠ '\n') (hblank : Unicode.isBlank c) :
    Bare (out.wrote (.singleton c)).lineAbove := by
  have hbreak : '\n' ∉ [c] := by simpa using Ne.symm hc
  have hbegins : (out.wrote (.singleton c)).buffer.atLineStart = false := by
    rw [wrote_singleton]
    exact Buffer.atLineStart_put hc _
  rw [lineAbove_begun hbegins]
  cases hb : out.buffer.content with
  | none =>
    obtain ⟨hone, hmarks⟩ := h.indent
    have hstart : out.buffer.atLineStart := Buffer.atLineStart_iff.2 hb
    have htext : (out.wrote (.singleton c)).text.toList =
        out.text.toList ++ out.buffer.indent.toList ++ [c] := by
      rw [wrote_singleton]
      simp [Buffer.put_atStart hc hb, Output.text]
    rw [htext, lastLine_append hbreak, lastLine_append hone, h.tidy.lastLine_eq_nil hstart]
    exact (Bare.empty.marks hmarks).mark (.inl hblank)
  | some content =>
    have hbegun : out.buffer.atLineStart = false := by rw [Buffer.atLineStart, hb]; rfl
    rw [text_wrote_begun hbegun, lastLine_append hbreak, ← lineAbove_begun hbegun]
    exact (h.fresh hfresh).mark (.inl hblank)

theorem put (h : out.Laid) (c : Char) : (out.wrote (.singleton c)).Laid := by
  have hindents : (out.wrote (.singleton c)).buffer.indents = out.buffer.indents :=
    (out.buffer.extends_write _).indents
  have hfresh : (out.wrote (.singleton c)).fresh → out.fresh ∧ Unicode.isBlank c := by
    rw [wrote_singleton]
    exact Bool.and_eq_true_iff.1
  refine ⟨h.tidy.wrote _, hindents ▸ h.marks, ?_, fun hstays => ?_⟩
  · intro hnone hafter
    by_cases hc : c = '\n'
    · subst hc
      obtain hbare | ⟨hcontent, -⟩ := h.putBreak
      · exact hbare
      · rw [hcontent] at hafter
        cases hafter
    · rw [wrote_singleton] at hnone
      have hbegun : (out.buffer.put c).atLineStart = false := Buffer.atLineStart_put hc _
      rw [Buffer.atLineStart, hnone] at hbegun
      cases hbegun
  · obtain ⟨hbefore, hblank⟩ := hfresh hstays
    by_cases hc : c = '\n'
    · subst hc
      obtain hbare | ⟨-, hline⟩ := h.putBreak
      · exact hbare
      · rw [hline]
        exact h.fresh hbefore
    · exact h.putBlank hbefore hc hblank

theorem wrote (h : out.Laid) (s : String) : (out.wrote s).Laid :=
  Output.wrote_induction (fun c hmid => hmid.put c) h s

theorem skipped (h : out.Laid) : out.skipped.Laid := by
  obtain ⟨s, hs⟩ := out.exists_skipped
  exact hs ▸ h.wrote s

theorem bare_skipped (h : out.Laid) : Bare out.skipped.lineAbove :=
  h.skipped.blank out.buffer.ensureSkippedLine_blank.1 out.buffer.ensureSkippedLine_blank.2

theorem inItem (h : out.Laid) (hnone : out.buffer.content = none) (style : ListStyle)
    (position : Nat) : (out.inItem style position).Laid := by
  have hstart : out.buffer.atLineStart := Buffer.atLineStart_iff.2 hnone
  have hbegun : (out.inItem style position).buffer.atLineStart = false :=
    out.buffer.begun_write (oneLine_marker style position) (marker_ne_nil style position)
  have hindents : (out.inItem style position).buffer.indents =
      .ofList (List.replicate (marker style position).length ' ') :: out.buffer.indents :=
    congrArg _ (out.buffer.extends_write _).indents
  refine ⟨Maintained.inItem style position h.tidy hnone, ?_, fun hcontent => ?_, fun _ => ?_⟩
  · rw [hindents]
    refine List.forall_mem_cons.2 ⟨fun c hc => ?_, h.marks⟩
    rw [String.toList_ofList] at hc
    rw [List.eq_of_mem_replicate hc]
    exact .inl (by decide)
  · rw [Buffer.atLineStart, hcontent] at hbegun
    cases hbegun
  · obtain ⟨hone, hmarks⟩ := h.indent
    rw [lineAbove_begun hbegun, text_inItem hstart, String.toList_append, String.toList_append,
      ← List.append_assoc, lastLine_append (oneLine_marker style position), lastLine_append hone,
      h.tidy.lastLine_eq_nil hstart]
    exact (Bare.empty.marks hmarks).item style position

theorem inQuote (h : out.Laid) (hfresh : out.fresh) : out.inQuote.Laid := by
  have htidy : out.inQuote.Tidy := Maintained.inQuote h.tidy hfresh
  have hmarks : ∀ indent ∈ out.inQuote.buffer.indents,
      ∀ c ∈ indent.toList, Unicode.isBlank c ∨ c = '>' := by
    rw [out.indents_inQuote]
    exact List.forall_mem_cons.2 ⟨mark_quote, h.marks⟩
  unfold Output.inQuote at htidy hmarks ⊢
  cases hline : out.buffer.atLineStart with
  | true =>
    rw [if_pos hline] at htidy hmarks
    rw [if_pos rfl]
    exact ⟨htidy, hmarks, h.blank, fun _ => h.fresh hfresh⟩
  | false =>
    rw [if_neg (by rw [hline]; decide)] at htidy hmarks
    rw [if_neg Bool.false_ne_true]
    obtain ⟨content, hcontent⟩ := Buffer.exists_content hline
    have hwritten : out.buffer.write "> " =
        { out.buffer with text := out.buffer.text ++ "> ", content := some (content ++ "> ") } :=
      Buffer.write_begun hcontent (by decide)
    rw [hwritten] at htidy hmarks ⊢
    refine ⟨htidy, hmarks, nofun, fun _ => ?_⟩
    have htext : (out.buffer.text ++ "> ").toList = out.text.toList ++ ['>', ' '] := by
      rw [String.toList_append]
      rfl
    have habove : Bare (lastLine (out.buffer.text ++ "> ").toList) := by
      rw [htext, lastLine_append (by decide), ← lineAbove_begun hline]
      exact (h.fresh hfresh).marks mark_quote
    exact habove

end Output.Laid

instance : Maintained Output.Laid where
  wrote s h := h.wrote s
  skipped h := h.skipped
  begun h := ⟨Maintained.begun h.tidy, h.skipped.marks, h.skipped.blank, fun _ => h.bare_skipped⟩
  inItem style position h hnone := h.inItem hnone style position
  inQuote h hfresh := h.inQuote hfresh
  entered _ h := ⟨Maintained.entered _ h.tidy, h.marks, h.blank, h.fresh⟩
  left hbefore h hindents := ⟨Maintained.left hbefore.tidy h.tidy hindents,
    fun indent hmem => hbefore.marks indent (by rwa [← hindents]), h.blank, h.fresh⟩

section Above
variable {o : Options} {tree first : Node} {rest : List Node} {style : ListStyle}
  {path : List (Node × Output)} {st out : Output}

theorem lineAbove_closed (out : Output) : out.closed.lineAbove = out.lineAbove := by
  cases hline : out.buffer.atLineStart with
  | true => rw [out.closed_atStart hline]
  | false =>
    have htext : out.closed.text.toList = out.text.toList ++ ['\n'] := by
      rw [out.closed_begun hline]
      exact text_wrote_begun hline '\n'
    rw [lineAbove_start _ out.buffer.atLineStart_ensureNewLine htext, lineAbove_begun hline]

/-- Right below a list that may not interrupt a paragraph there is no more than a marker. -/
theorem bare_atList (h : st.Laid) (hstyle : interruptsParagraph style = false) :
    Bare (st.atList style).lineAbove := by
  unfold Output.atList
  rw [hstyle, Bool.false_or]
  split
  · next hfresh =>
    rw [lineAbove_closed]
    exact h.fresh (Bool.and_eq_true_iff.1 hfresh).2
  · exact h.bare_skipped

/-- The first marker of a list stands at the start of the text, below a bare line, or in front of a
list that may interrupt a paragraph. What the first item shows decides whether the marker has content
on its line. -/
theorem list_above (hpath : Path o (tree, {}) path (.list style (first :: rest), st))
    (hline : st.constrained = false)
    (hrun : render o (.list style (first :: rest)) st = (.ok (), out)) :
    ∃ front written, WritesItem o style 0 first st out front written ∧
      (front = [] ∨ ∃ above, front = above ++ ['\n'] ∧
        (Bare (lastLine above) ∨ interruptsParagraph style)) ∧
      (contentLine (st.buffer.indent ++ marker style 0).length 0 0 written = some 0 ↔
        (itemLead o st.modes style first).line? = some 0) := by
  have hlaid : st.Laid := hpath.maintained (P := Output.Laid) laid_start
  have hitems : render o (.list style ([] ++ first :: rest)) st = (.ok (), out) := hrun
  obtain ⟨line, written, hkept, hstart, hfirst, hwrites, hread, -⟩ :=
    exists_item hlaid Output.Laid.tidy hline hitems
  refine ⟨line.text.toList, written, hwrites, ?_, by rw [← hread]; rfl⟩
  obtain hempty | ⟨above, habove⟩ := hkept.tidy.breaks hstart
  · exact .inl hempty
  refine .inr ⟨above, habove, ?_⟩
  cases hstyle : interruptsParagraph style with
  | true => exact .inr rfl
  | false =>
    have hbare := bare_atList hlaid hstyle
    rw [hfirst rfl] at habove
    rw [lineAbove_start above (st.atLineStart_atList style) habove] at hbare
    exact .inl hbare

end Above

/-- A list that begins with a paragraph. -/
def lowerItems : List Node := [.paragraph [.text "c"], .text "d"]

def nestedList : Node := .list .unordered [.group [.text "a\nb", .list (.ordered 1) lowerItems]]

/-- The output behind the marker of the upper list. -/
def atUpper : Output where
  buffer := { text := "\n- ", indents := ["  "], content := some "- ", afterBlank := true }
  modes := { listItem := true }
  fresh := true

/-- The output behind the text above the lower list. -/
def atLower : Output where
  buffer := { text := "\n- a\n  b", indents := ["  "], content := some "b" }
  modes := { listItem := true }

/-- The output behind the lower list. -/
def behindLower : Output where
  buffer := { text := "\n- a\n  b\n  1. c\n  2. d\n", indents := ["  "] }
  modes := { listItem := true }

theorem list_above_lower :
    ∃ path, Path {} (nestedList, {}) path (.list (.ordered 1) lowerItems, atLower) ∧
      ∃ front written : List Char,
        WritesItem {} (.ordered 1) 0 (.paragraph [.text "c"]) atLower behindLower front written ∧
        (front = [] ∨ ∃ above, front = above ++ ['\n'] ∧
          (Bare (lastLine above) ∨ interruptsParagraph (.ordered 1))) ∧
        contentLine 5 0 0 written = some 0 := by
  let lower : Node := .list (.ordered 1) lowerItems
  have hitem : Part {} nestedList (.group [.text "a\nb", lower]) _ := .item .unordered [] _ []
  have hinside : Part {} (.group [.text "a\nb", lower]) lower _ := .group [.text "a\nb"] lower []
  have hupper : LeadsTo {} (nestedList, {}) (.group [.text "a\nb", lower], atUpper) :=
    ⟨_, hitem, (hitem.carries {}).runsAt_of_probe (by decide +kernel) (by decide +kernel)⟩
  have hlower : LeadsTo {} (.group [.text "a\nb", lower], atUpper) (lower, atLower) :=
    ⟨_, hinside, (hinside.carries atUpper).runsAt_of_probe (by decide +kernel) (by decide +kernel)⟩
  have hpath := Path.cons hupper (.cons hlower (.nil _))
  have hrun : render {} lower atLower = (.ok (), behindLower) := by decide +kernel
  obtain ⟨front, written, hwrites, habove, hread⟩ := list_above hpath rfl hrun
  have hlead : (itemLead {} atLower.modes (.ordered 1) (.paragraph [.text "c"])).line? = some 0 := by
    decide +kernel
  exact ⟨_, hpath, front, written, hwrites, habove, hread.2 hlead⟩

/-- The first item of the lower list is a list. Below the paragraph its marker stands alone on the
line, as the underline of a heading does. -/
theorem renderRaw_underline :
    renderRaw {} (.list .unordered
        [.group [.text "a", .list .unordered [.list .unordered [.text "b"]]]]) =
      .ok "\n- a\n  - \n    - b\n" ∧
      contentLine 4 0 0 "\n    - b\n".toList = some 1 :=
  ⟨by decide +kernel, by decide +kernel⟩

end DocTree.Markdown
