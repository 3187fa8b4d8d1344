import DocTree.Proofs.Strokes

/-! Line breaks in a buffer. A text is written line by line, with the indentation put in front of a line
when its first character comes, and it makes no difference where the text is cut into parts. To skip a
line is to write at most two line breaks: one that ends the line, if it has been begun, and one for a
line without content, if the last line has any. -/
namespace DocTree.Layout
open Text

namespace Buffer
variable {b : Buffer} {c : Char} {s : String}

/-- Adds a text without line breaks to the line. The indentation goes in front of it if the line has
nothing on it yet, and an empty text leaves the line alone. -/
def addSegment (b : Buffer) (s : String) : Buffer :=
  if s = "" then b
  else
    match b.content with
    | none => { b with text := b.text ++ b.indent ++ s, content := some s }
    | some content => { b with text := b.text ++ s, content := some (content ++ s) }

/-- Adds texts without line breaks, and ends the line between any two of them. -/
def addSegments (b : Buffer) : List String → Buffer
  | [] => b
  | s :: rest => rest.foldl (fun b s => b.newline.addSegment s) (b.addSegment s)

theorem addSegment_begun {content : String} (hb : b.content = some content) (s : String) :
    b.addSegment s = { b with text := b.text ++ s, content := some (content ++ s) } := by
  rw [addSegment, hb]
  split
  · next hs => rw [hs, String.append_empty, String.append_empty, ← hb]
  · rfl

/-- The first character of a text brings the indentation, if any, and the others go behind it. -/
theorem addSegment_cons (hc : c ≠ '\n') (b : Buffer) (cs : List Char) :
    b.addSegment (.ofList (c :: cs)) = (b.put c).addSegment (.ofList cs) := by
  have hpush (t : String) : t.push c ++ String.ofList cs = t ++ String.ofList (c :: cs) := by
    simp [← String.toList_inj]
  cases hb : b.content with
  | none =>
    have hput := put_atStart hc hb
    have hfirst : String.singleton c ++ String.ofList cs = String.ofList (c :: cs) := by simp
    rw [addSegment_begun (congrArg content hput), hput, addSegment, if_neg (by simp), hb]
    simp only [hpush, hfirst]
  | some content =>
    have hput := put_begun hc hb
    rw [addSegment_begun (congrArg Buffer.content hput), hput, addSegment_begun hb, hpush, hpush]

/-- A text is added line by line. -/
theorem write_eq_addSegments (b : Buffer) (s : String) :
    b.write s = b.addSegments (splitAt '\n' s) := by
  obtain ⟨cs, rfl⟩ := s.exists_eq_ofList
  rw [splitAt, String.toList_ofList]
  induction cs generalizing b with
  | nil => rfl
  | cons c cs ih =>
    obtain ⟨first, rest, hpieces⟩ := List.exists_cons_of_ne_nil (pieces_ne_nil (· == '\n') cs)
    rw [write_ofList_cons, ih, pieces, hpieces]
    by_cases hc : c = '\n'
    · subst hc
      rfl
    · rw [if_neg (by simpa using hc), List.map_cons, List.map_cons, addSegments, addSegments,
        addSegment_cons hc]

/-- A text may be cut anywhere, inside a line, at a line break or at its ends: its parts, written one
after the other, leave the buffer as the whole does, in its text and indentations, in where the content
of the line begins and in what it remembers of the last one. Each of them is written line by line. -/
theorem write_cut (b : Buffer) (s t : String) :
    (b.write s).write t = b.write (s ++ t) ∧ b.write s = b.addSegments (splitAt '\n' s) :=
  ⟨(b.write_append s t).symm, b.write_eq_addSegments s⟩

/-- How many line breaks there have to be until a line without content has been ended last. -/
def breaksDue (b : Buffer) : Nat := if b.atLineStart then if b.afterBlank then 0 else 1 else 2

theorem ensureSkippedLine_eq_write (b : Buffer) :
    b.ensureSkippedLine = b.write (.ofList (List.replicate b.breaksDue '\n')) := by
  have hbreak (b : Buffer) (cs : List Char) :
      b.write (.ofList ('\n' :: cs)) = b.newline.write (.ofList cs) := by
    rw [write_ofList_cons, put_newline]
  rw [ensureSkippedLine, ensureNewLine, breaksDue]
  by_cases hstart : b.atLineStart
  · rw [if_pos hstart, if_pos hstart]
    by_cases hblank : b.afterBlank
    · rw [if_pos hblank, if_pos hblank]
      rfl
    · rw [if_neg hblank, if_neg hblank, List.replicate_one, hbreak]
      rfl
  · obtain ⟨content, hb⟩ := exists_content (Bool.eq_false_iff.2 hstart)
    have hfilled : ¬ b.newline.afterBlank := by
      rw [newline_begun hb]
      exact Bool.false_ne_true
    rw [if_neg hstart, if_neg hstart, if_neg hfilled, List.replicate_succ, List.replicate_one, hbreak,
      hbreak]
    rfl

/-- No indentation brings a line break, so one is added where one is written. -/
theorem exists_added_put (hi : OneLine b.indent) (c : Char) :
    ∃ added, (b.put c).text = b.text ++ added ∧ added.toList.count '\n' = [c].count '\n' := by
  by_cases hc : c = '\n'
  · subst hc
    rw [put_newline]
    cases hb : b.content with
    | none =>
      have hvisible : '\n' ∉ Unicode.dropBlankEnd b.indent.toList := Unicode.notMem_dropBlankEnd hi
      refine ⟨(String.ofList (Unicode.dropBlankEnd b.indent.toList)).push '\n', ?_, ?_⟩
      · simp [newline, hb, push_append]
      · simp [List.count_eq_zero.2 hvisible]
    | some content => exact ⟨"\n", by rw [newline_begun hb], rfl⟩
  · cases hb : b.content with
    | none =>
      refine ⟨b.indent.push c, by rw [put_atStart hc hb, push_append], ?_⟩
      rw [String.toList_push, List.count_append, List.count_eq_zero.2 hi, Nat.zero_add]
    | some content =>
      exact ⟨.singleton c, by rw [put_begun hc hb, String.push_eq_append], by simp⟩

theorem exists_added (hi : OneLine b.indent) (s : String) :
    ∃ added, (b.write s).text = b.text ++ added ∧ added.toList.count '\n' = s.toList.count '\n' := by
  obtain ⟨cs, rfl⟩ := s.exists_eq_ofList
  rw [String.toList_ofList]
  induction cs generalizing b with
  | nil => exact ⟨"", by simp, rfl⟩
  | cons c cs ih =>
    obtain ⟨first, hfirst, hcount⟩ := exists_added_put hi c
    obtain ⟨rest, hrest, hcounts⟩ := ih (indent_congr (b.extends_put c).indents ▸ hi)
    refine ⟨first ++ rest, ?_, ?_⟩
    · rw [write_ofList_cons, hrest, hfirst, String.append_assoc]
    · rw [String.toList_append, List.count_append, hcount, hcounts, ← List.count_append,
        List.singleton_append]

end Buffer

namespace Logged
variable {l : Logged}

/-- To skip a line leads to the start of a line behind a line without content, and from there nowhere
else. It adds at most two line breaks behind what is there, and none if that is where the buffer is. -/
structure Settles (l : Logged) : Prop where
  atLineStart : l.ensureSkippedLine.buffer.atLineStart ∧ l.ensureSkippedLine.sheet.rest = []
  afterBlank : l.ensureSkippedLine.buffer.afterBlank ∧ l.ensureSkippedLine.sheet.EndsBlank
  again : l.ensureSkippedLine.ensureSkippedLine = l.ensureSkippedLine
  text : ∃ added, l.ensureSkippedLine.buffer.text = l.buffer.text ++ added ∧
    added.toList.count '\n' ≤ 2
  idle : l.buffer.atLineStart → l.sheet.EndsBlank → l.ensureSkippedLine = l

theorem ensureSkippedLine_of_blank (hstart : l.buffer.atLineStart) (hblank : l.buffer.afterBlank) :
    l.ensureSkippedLine = l := by
  have hline : l.buffer.ensureNewLine = l.buffer := if_pos hstart
  have hskip : l.buffer.ensureSkippedLine = l.buffer := by
    rw [Buffer.ensureSkippedLine, hline]
    exact if_pos hblank
  rw [ensureSkippedLine, hskip, ensureNewLine, hline, if_pos hstart, if_pos hblank, List.append_nil,
    List.append_nil]

theorem Holds.settles (h : l.Holds) : l.Settles := by
  obtain ⟨hcontent, hblank⟩ := l.buffer.ensureSkippedLine_blank
  have hstart : l.ensureSkippedLine.buffer.atLineStart := Buffer.atLineStart_iff.2 hcontent
  have hafter := h.ensureSkippedLine
  refine ⟨⟨hstart, hafter.begun.1 hstart⟩, ⟨hblank, hafter.afterBlank.1 hblank⟩,
    ensureSkippedLine_of_blank hstart hblank, ?_, fun hl hended =>
      ensureSkippedLine_of_blank hl (h.afterBlank.2 hended)⟩
  obtain ⟨added, htext, hcount⟩ := l.buffer.exists_added (Buffer.oneLine_indent h.indents)
    (.ofList (List.replicate l.buffer.breaksDue '\n'))
  rw [String.toList_ofList, List.count_replicate_self] at hcount
  refine ⟨added, (congrArg Buffer.text l.buffer.ensureSkippedLine_eq_write).trans htext, ?_⟩
  rw [hcount, Buffer.breaksDue]
  split_ifs <;> decide

end Logged

/-- After any steps of a program that begins with an empty buffer and whose indentations hold no line
break, to skip a line settles the buffer. -/
theorem ensureSkippedLine_settles {program : Program} (h : program.OneLine) :
    ∀ l ∈ {} :: program.trail {}, l.Settles := by
  have hholds : ∀ l ∈ {} :: program.trail {}, l.Holds :=
    List.forall_mem_cons.2 ⟨Logged.holds_empty, Program.holds_trail Logged.holds_empty h⟩
  exact fun l hl => (hholds l hl).settles

/-- A line that is begun in a quote. -/
def quotedLine : Program := .withIndent "> " (.write "a" .done) .done

/-- The line without content still shows the mark of the quote. -/
theorem ensureSkippedLine_settles_quotedLine :
    quotedLine.OneLine ∧ ∃ l ∈ {} :: quotedLine.trail {}, l.Settles ∧
      l.ensureSkippedLine.buffer.text = "> a\n>\n" := by
  have hfree : quotedLine.OneLine := ⟨by decide, trivial, trivial⟩
  have hmem : (Logged.pushIndent {} "> ").write "a" ∈ {} :: quotedLine.trail {} := by
    simp [quotedLine, Program.trail]
  exact ⟨hfree, _, hmem, ensureSkippedLine_settles hfree _ hmem, by decide⟩

end DocTree.Layout
