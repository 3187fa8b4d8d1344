import DocTree.Proofs.Moves

/-! Blank lines do not pile up. At most two line breaks stand in a row, and at most one at the start
of a text: the start counts as a line that has ended. What a buffer remembers of its last line
bounds the line breaks at its end, and every move keeps to that bound. -/
namespace DocTree.Text
variable {n m : Nat} {cs : List Char} {c : Char}

/-- How many line breaks stand at the end of a text that goes on behind `n` of them, if there are
never more than two in a row. -/
def breaksAfter : Nat → List Char → Option Nat
  | n, [] => some n
  | n, c :: rest =>
    if c = '\n' then if n < 2 then breaksAfter (n + 1) rest else none else breaksAfter 0 rest

theorem breaksAfter_append (n : Nat) (cs ds : List Char) :
    breaksAfter n (cs ++ ds) = (breaksAfter n cs).bind fun m => breaksAfter m ds := by
  fun_induction breaksAfter n cs <;> simp_all [breaksAfter]

theorem breaksAfter_push (h : breaksAfter n cs = some m) (hc : c ≠ '\n') :
    breaksAfter n (cs ++ [c]) = some 0 := by
  simp [breaksAfter_append, h, breaksAfter, hc]

theorem breaksAfter_break (h : breaksAfter n cs = some m) (hm : m < 2) :
    breaksAfter n (cs ++ ['\n']) = some (m + 1) := by
  rw [breaksAfter_append, h, Option.bind_some, breaksAfter, if_pos rfl, if_pos hm, breaksAfter]

theorem breaksAfter_of_free (n : Nat) (h : '\n' ∉ cs) : ∃ m ≤ n, breaksAfter n cs = some m := by
  induction cs generalizing n with
  | nil => exact ⟨n, le_rfl, rfl⟩
  | cons c rest ih =>
    rw [List.mem_cons, not_or] at h
    obtain ⟨m, hm, hrest⟩ := ih 0 h.2
    exact ⟨m, hm.trans n.zero_le, by simp [breaksAfter, Ne.symm h.1, hrest]⟩

theorem not_infix_of_breaksAfter (h : breaksAfter n cs = some m) :
    ¬ ['\n', '\n', '\n'] <:+: cs := by
  rintro ⟨before, after, rfl⟩
  have hpile (k : Nat) : breaksAfter k (['\n', '\n', '\n'] ++ after) = none := by
    simp only [List.cons_append, breaksAfter, if_true]
    split_ifs <;> first | rfl | omega
  rw [List.append_assoc, breaksAfter_append] at h
  obtain ⟨k, -, hk⟩ := Option.bind_eq_some_iff.1 h
  cases (hpile k).symm.trans hk

theorem not_prefix_of_breaksAfter (h : breaksAfter 1 cs = some m) : ¬ ['\n', '\n'] <+: cs := by
  rintro ⟨after, rfl⟩
  simp [breaksAfter] at h

end DocTree.Text

namespace DocTree.Layout.Buffer
open Text
variable {b : Buffer}

/-- The most line breaks that may stand at the end of the text: none on a line with content, and
behind a line without content one more than behind any other. -/
def room (b : Buffer) : Nat := if b.atLineStart then if b.afterBlank then 2 else 1 else 0

/-- Blank lines have not piled up, and no indentation can add to them. -/
structure Spaced (b : Buffer) : Prop where
  indents : ∀ indent ∈ b.indents, OneLine indent
  breaks : ∃ n ≤ b.room, breaksAfter 1 b.text.toList = some n

theorem Spaced.oneLine_indent (h : b.Spaced) : OneLine b.indent := Buffer.oneLine_indent h.indents

theorem Spaced.put (h : b.Spaced) {c : Char} (hc : c ≠ '\n') : (b.put c).Spaced := by
  obtain ⟨n, -, hn⟩ := h.breaks
  cases hb : b.content with
  | none =>
    obtain ⟨m, -, hm⟩ := breaksAfter_of_free n h.oneLine_indent
    have hindented : breaksAfter 1 (b.text ++ b.indent).toList = some m := by
      rw [String.toList_append, breaksAfter_append, hn, Option.bind_some, hm]
    rw [put_atStart hc hb]
    exact ⟨h.indents, 0, Nat.zero_le _, by simpa using breaksAfter_push hindented hc⟩
  | some s =>
    rw [put_begun hc hb]
    exact ⟨h.indents, 0, Nat.zero_le _, by simpa using breaksAfter_push hn hc⟩

theorem Spaced.write (h : b.Spaced) {s : String} (hs : OneLine s) : (b.write s).Spaced := by
  obtain ⟨cs, rfl⟩ := s.exists_eq_ofList
  induction cs generalizing b with
  | nil => exact h
  | cons c cs ih =>
    simp only [oneLine_ofList, List.mem_cons, not_or] at hs ih
    rw [write_ofList_cons]
    exact ih (h.put (Ne.symm hs.1)) hs.2

/-- A line may end if it has content or if the line before it has. -/
theorem Spaced.newline (h : b.Spaced) (hline : b.atLineStart = false ∨ b.afterBlank = false) :
    b.newline.Spaced := by
  obtain ⟨n, hroom, hn⟩ := h.breaks
  cases hb : b.content with
  | none =>
    have hone : n ≤ 1 := by simp_all [room, atLineStart]
    have hvisible : '\n' ∉ Unicode.dropBlankEnd b.indent.toList :=
      Unicode.notMem_dropBlankEnd h.oneLine_indent
    obtain ⟨m, hm, hrest⟩ := breaksAfter_of_free n hvisible
    have hshown : breaksAfter 1 (b.text.toList ++ Unicode.dropBlankEnd b.indent.toList) = some m := by
      rw [breaksAfter_append, hn, Option.bind_some, hrest]
    have hbreaks := breaksAfter_break hshown (by omega)
    refine ⟨by simpa [Buffer.newline, hb] using h.indents, m + 1, ?_, ?_⟩
    · simp only [Buffer.newline, hb, room, atLineStart, Option.isNone_none, if_true]
      omega
    · simpa [Buffer.newline, hb] using hbreaks
  | some s =>
    have hnone : n = 0 := by simp_all [room, atLineStart]
    have hbreaks := breaksAfter_break hn (by omega)
    rw [newline_begun hb]
    refine ⟨h.indents, n + 1, ?_, by simpa using hbreaks⟩
    simp [room, atLineStart, hnone]

theorem Spaced.ensureNewLine (h : b.Spaced) : b.ensureNewLine.Spaced := by
  unfold Buffer.ensureNewLine
  split
  · exact h
  · next hline => exact h.newline (.inl (Bool.eq_false_iff.2 hline))

theorem Spaced.ensureSkippedLine (h : b.Spaced) : b.ensureSkippedLine.Spaced := by
  unfold Buffer.ensureSkippedLine
  dsimp only
  split
  · exact h.ensureNewLine
  · next hblank => exact h.ensureNewLine.newline (.inr (Bool.eq_false_iff.2 hblank))

theorem Spaced.pushIndent (h : b.Spaced) {indent : String} (hi : OneLine indent) :
    (b.pushIndent indent).Spaced :=
  ⟨List.forall_mem_cons.2 ⟨hi, h.indents⟩, h.breaks⟩

theorem Spaced.popIndent (h : b.Spaced) : b.popIndent.Spaced :=
  ⟨fun indent hi => h.indents indent (List.mem_of_mem_tail hi), h.breaks⟩

theorem spaced_empty : Spaced {} := ⟨List.forall_mem_nil _, 1, le_rfl, rfl⟩

end DocTree.Layout.Buffer

namespace DocTree.Markdown
open Text Layout Render
variable {o : Options} {node : Node} {out out' : Output}

/-- No move makes blank lines pile up. -/
theorem Move.spaced (h : Move out out') (hout : out.buffer.Spaced) : out'.buffer.Spaced := by
  cases h with
  | wrote hs => exact hout.write hs
  | ended hline =>
    have hbreak : out.buffer.write "\n" = out.buffer.newline := Buffer.put_newline _
    rw [Output.wrote, hbreak]
    exact hout.newline (.inl hline)
  | skipped => exact hout.ensureSkippedLine
  | marked | entered => exact hout
  | indented hi => exact hout.pushIndent hi
  | unindented => exact hout.popIndent

theorem Moves.spaced (h : Moves out out') (hout : out.buffer.Spaced) : out'.buffer.Spaced := by
  induction h with
  | refl => exact hout
  | tail _ hmove ih => exact hmove.spaced ih

/-- Where no text and no setting holds a line break, the Markdown of a tree has no two blank lines
in a row, nor two line breaks at its start. -/
theorem renderRaw_blankLines {markdown : String} (ho : o.OneLine) (h : node.OneLine)
    (hok : renderRaw o node = .ok markdown) :
    ¬ ['\n', '\n', '\n'] <:+: markdown.toList ∧ ¬ ['\n', '\n'] <+: markdown.toList := by
  have hspaced := Moves.spaced (runs_render ho h {}) Buffer.spaced_empty
  obtain ⟨n, -, hbreaks⟩ := hspaced.breaks
  rw [renderRaw, toText] at hok
  cases hrun : render o node {} with
  | mk result out =>
    rw [hrun] at hok hbreaks
    cases result with
    | error e => cases hok
    | ok =>
      obtain rfl : out.text = markdown := Except.ok.inj hok
      exact ⟨not_infix_of_breaksAfter hbreaks, not_prefix_of_breaksAfter hbreaks⟩

/-- A page that begins with a quote that holds an empty paragraph, a collapsible section in a list
and two lists in a row. -/
def manyBreaks : Node :=
  .page ⟨"t", ⟨[.mk "A" (some "a") [] []]⟩⟩
    [.quote [.paragraph [], .rule],
      .list .unordered [.collapsible (.text "s") [.paragraph [.text "b"], .code none ""]],
      .list (.ordered 2) [.table [.text "c"] [], .text " "]]

/-- What the page looks like in Markdown. -/
def manyBreaksText : String :=
  "<!-- Do not edit this file. It is automatically generated by apidoc. -->\n\n# t\n\n1. [A](#a)\n" ++
  "\n> ---\n\n- <details>\n  <summary>s</summary>\n\n  b\n\n  ```\n  ```\n\n  </details>\n" ++
  "\n<!-- -->\n\n2. \n\n   | c |\n   | --- |\n3.  \n"

theorem renderRaw_blankLines_manyBreaks :
    Options.OneLine {} ∧ manyBreaks.OneLine ∧ renderRaw {} manyBreaks = .ok manyBreaksText ∧
      ¬ ['\n', '\n', '\n'] <:+: manyBreaksText.toList ∧
      ¬ ['\n', '\n'] <+: manyBreaksText.toList := by
  have ho : Options.OneLine {} := ⟨by decide, by simp⟩
  have htree : manyBreaks.OneLine := by decide
  have hok : renderRaw {} manyBreaks = .ok manyBreaksText := by decide +kernel
  exact ⟨ho, htree, hok, renderRaw_blankLines ho htree hok⟩

end DocTree.Markdown
