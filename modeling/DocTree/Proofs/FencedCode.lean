import DocTree.Preview.Document
import DocTree.Proofs.CodeText
import DocTree.Proofs.Inside
import DocTree.Proofs.Stand
import DocTree.Proofs.TableRows

/-! Fenced code is read back. The fence is longer than any run of ticks in the code, so no line of the
code closes it, and each line between the fences is a line of the code. -/
namespace DocTree.Text
variable {cs ds line : List Char}

/-- A text in which every line is ended. -/
def completed (cs : List Char) : List Char := if cs.getLast?.all (· == '\n') then cs else cs ++ ['\n']

/-- The lines of a text, with or without a line break behind the last one. -/
def codeLines : List Char → List (List Char)
  | [] => []
  | c :: rest =>
    if c = '\n' then [] :: codeLines rest
    else
      match codeLines rest with
      | [] => [[c]]
      | line :: more => (c :: line) :: more

theorem prefix_of_pieces {sep : Char → Bool} {more : List (List Char)}
    (h : pieces sep cs = line :: more) : line <+: cs ∧ ∀ other ∈ more, other <:+: cs := by
  induction cs generalizing line more with
  | nil =>
    obtain ⟨rfl, rfl⟩ := List.cons.inj h
    exact ⟨List.prefix_rfl, by simp⟩
  | cons c rest ih =>
    cases hrest : pieces sep rest with
    | nil => exact absurd hrest (pieces_ne_nil sep rest)
    | cons piece others =>
      obtain ⟨hpiece, hothers⟩ := ih hrest
      have hback : rest <:+: c :: rest := (List.suffix_cons c rest).isInfix
      rw [pieces, hrest] at h
      split at h
      · obtain ⟨rfl, rfl⟩ := List.cons.inj h
        refine ⟨List.nil_prefix, List.forall_mem_cons.2 ⟨hpiece.isInfix.trans hback, ?_⟩⟩
        exact fun other hother => (hothers other hother).trans hback
      · obtain ⟨rfl, rfl⟩ := List.cons.inj h
        exact ⟨List.prefix_cons_inj c |>.2 hpiece, fun other hother => (hothers other hother).trans hback⟩

theorem infix_of_mem_pieces {sep : Char → Bool} (h : line ∈ pieces sep cs) : line <:+: cs := by
  cases hpieces : pieces sep cs with
  | nil => exact absurd hpieces (pieces_ne_nil sep cs)
  | cons first more =>
    obtain ⟨hfirst, hmore⟩ := prefix_of_pieces hpieces
    rw [hpieces] at h
    obtain rfl | hline := List.mem_cons.1 h
    · exact hfirst.isInfix
    · exact hmore line hline

theorem completed_break (cs : List Char) : completed ('\n' :: cs) = '\n' :: completed cs := by
  cases cs with
  | nil => rfl
  | cons c rest =>
    rw [completed, completed, List.getLast?_cons_cons]
    split <;> rfl

theorem completed_cons (c : Char) (h : cs ≠ []) : completed (c :: cs) = c :: completed cs := by
  cases cs with
  | nil => exact absurd rfl h
  | cons d rest =>
    rw [completed, completed, List.getLast?_cons_cons]
    split <;> rfl

theorem codeLines_cons {c : Char} (hc : c ≠ '\n') (d : Char) (cs : List Char) :
    ∃ line more, codeLines (d :: cs) = line :: more ∧
      codeLines (c :: d :: cs) = (c :: line) :: more := by
  cases hlines : codeLines (d :: cs) with
  | nil =>
    rw [codeLines] at hlines
    split at hlines
    · cases hlines
    · split at hlines <;> cases hlines
  | cons line more => exact ⟨line, more, rfl, by rw [codeLines, if_neg hc, hlines]⟩

theorem endLines_codeLines (cs : List Char) : endLines (codeLines cs) = completed cs := by
  induction cs with
  | nil => rfl
  | cons c rest ih =>
    by_cases hc : c = '\n'
    · rw [hc, completed_break, ← ih, codeLines, if_pos rfl]
      rfl
    cases rest with
    | nil => simp [codeLines, completed, endLines, hc]
    | cons d rest =>
      obtain ⟨line, more, hrest, hlines⟩ := codeLines_cons hc d rest
      rw [completed_cons _ (by simp), ← ih, hlines, hrest]
      rfl

theorem oneLine_codeLines (cs : List Char) : ∀ line ∈ codeLines cs, '\n' ∉ line := by
  induction cs with
  | nil => simp [codeLines]
  | cons c rest ih =>
    by_cases hc : c = '\n'
    · rw [codeLines, if_pos hc]
      exact List.forall_mem_cons.2 ⟨List.not_mem_nil, ih⟩
    cases rest with
    | nil => simpa [codeLines, hc] using Ne.symm hc
    | cons d rest =>
      obtain ⟨line, more, hrest, hlines⟩ := codeLines_cons hc d rest
      rw [hrest] at ih
      obtain ⟨hline, hmore⟩ := List.forall_mem_cons.1 ih
      rw [hlines]
      exact List.forall_mem_cons.2 ⟨by simpa [hline] using Ne.symm hc, hmore⟩

end DocTree.Text

namespace DocTree.Layout.Buffer
variable {b : Buffer}
open Text

/-- A text that begins at the start of a line and whose last line is ended behind it. -/
theorem ensureNewLine_write (hb : b.atLineStart) (s : String) :
    (b.write s).ensureNewLine = b.write (.ofList (completed s.toList)) := by
  obtain hnil | ⟨before, c, hs⟩ := List.eq_nil_or_concat s.toList
  · obtain rfl := String.toList_eq_nil_iff.1 hnil
    rw [write_empty, ensureNewLine, if_pos hb]
    rfl
  have hwrite : b.write s = (b.write (.ofList before)).put c := by
    rw [write, write, hs, String.toList_ofList, List.concat_eq_append, List.foldl_concat]
  by_cases hc : c = '\n'
  · have hcomplete : completed s.toList = s.toList := by
      rw [completed, if_pos (by simp [hs, hc])]
    rw [hcomplete, String.ofList_toList, hwrite, hc, put_newline, ensureNewLine,
      if_pos (atLineStart_newline _)]
  · have hcomplete : completed s.toList = s.toList ++ ['\n'] := by
      rw [completed, if_neg (by simp [hs, hc])]
    have hbegun : (b.write s).atLineStart = false := by
      rw [hwrite, atLineStart_put hc]
    have hend : b.write (.ofList (s.toList ++ ['\n'])) = (b.write s).newline := by
      rw [write, String.toList_ofList, List.foldl_concat, ← write, put_newline]
    rw [hcomplete, hend, ensureNewLine, if_neg (by simp [hbegun])]

end DocTree.Layout.Buffer

namespace DocTree.Markdown
open Text Render Layout

section Writing
variable {out : Output} {language : Option String} {code written : String}

theorem Output.closed_wrote (hstart : out.buffer.atLineStart) (s : String) :
    (out.wrote s).closed = out.wrote (.ofList (completed s.toList)) := by
  have hblank : (completed s.toList).all Unicode.isBlank = s.toList.all Unicode.isBlank := by
    rw [completed]
    split
    · rfl
    · rw [List.all_append]
      exact Bool.and_true _
  rw [closed, wrote, wrote, Buffer.ensureNewLine_write hstart, String.toList_ofList, hblank]

theorem Output.atLineStart_break (out : Output) (s : String) :
    (out.wrote (s ++ "\n")).buffer.atLineStart := by
  rw [wrote, Buffer.write_append]
  exact Buffer.atLineStart_newline _

theorem completed_ticks (n : Nat) :
    String.ofList (completed (ticks (n + 1)).toList) = ticks (n + 1) ++ "\n" := by
  have hlast : (ticks (n + 1)).toList.getLast? = some '\x60' := by
    simp [ticks, List.getLast?_replicate]
  rw [completed, hlast, if_neg (by decide), String.ofList_append, String.ofList_toList]

/-- A fence, the info string behind it, the code and the fence that closes it, on lines of their
own. -/
def fenceText (fence info written : String) : String :=
  fence ++ (info ++ ("\n" ++ (.ofList (completed written.toList) ++ (fence ++ "\n"))))

theorem Output.table_of_unconstrained (hline : out.constrained = false) :
    out.modes.table = false := by
  simp only [Output.constrained, Modes.constrained, Bool.or_eq_false_iff] at hline
  exact hline.1

/-- The steps that write a fenced block. -/
def fencedSteps (fence info code : String) : Render Unit := do
  write fence
  write info
  write "\n"
  withMode .markdownCode true (writeEscaped code)
  ensureNewLine
  write fence
  ensureNewLine

theorem codeBlock_eq (language : Option String) (code : String) :
    codeBlock language code = (do
      if ← constrained then
        write "<code>"
        withMode .htmlBlock true <| withMode .singleLineCode true <| writeEscaped code
        write "</code>"
      else
        paragraphBreak (fencedSteps (ticks (fenceLength code '\x60')) (language.getD "") code)) :=
  rfl

theorem framed_fencedSteps (fence info code : String) : Framed (fencedSteps fence info code) :=
  (framed_write _).then <| (framed_write _).then <| (framed_write _).then <|
    ((framed_writeEscaped code).withMode (by decide)).then <| framed_ensureNewLine.then <|
      (framed_write _).then framed_ensureNewLine

theorem fencedSteps_apply {fence info : String} (hline : out.constrained = false)
    (hwritten : replaceChar '\n' (.ofList out.escapeContext.lineBreak) code = written)
    (hfence : String.ofList (completed fence.toList) = fence ++ "\n") :
    fencedSteps fence info code out = (.ok (), out.wrote (fenceText fence info written)) := by
  have hwrite (s : String) {mid : Output} (hmid : mid.constrained = false) :
      write s mid = (.ok (), mid.wrote s) :=
    write_of_fits fun hc => absurd (hmid.symm.trans hc) (by decide)
  have hhead : (out.wrote (fence ++ info ++ "\n")).buffer.atLineStart := out.atLineStart_break _
  have hcode : withMode .markdownCode true (writeEscaped code) (out.wrote (fence ++ info ++ "\n")) =
      (.ok (), (out.wrote (fence ++ info ++ "\n")).wrote written) :=
    codeText_apply (Output.table_of_unconstrained hline) hwritten fun hc => absurd (hline.symm.trans hc) (by decide)
  have hbody : ((out.wrote (fence ++ info ++ "\n")).wrote
      (.ofList (completed written.toList))).buffer.atLineStart := by
    rw [← Output.closed_wrote hhead, Output.closed, Buffer.atLineStart, Buffer.ensureNewLine_content]
    rfl
  rw [fencedSteps, bind_of_ok (hwrite fence hline), bind_of_ok (hwrite info (by exact hline)),
    bind_of_ok (hwrite "\n" (by exact hline)), Output.wrote_wrote, Output.wrote_wrote,
    ← String.append_assoc, bind_of_ok hcode, bind_of_ok (ensureNewLine_apply (by exact hline)),
    Output.closed_wrote hhead, bind_of_ok (hwrite fence (by exact hline)),
    ensureNewLine_apply (by exact hline), Output.closed_wrote hbody, hfence]
  simp only [Output.wrote_wrote, fenceText, String.append_assoc]

/-- Where lines may end, code is written between fences; the modes decide what its line breaks
become. -/
theorem codeBlock_apply (hline : out.constrained = false)
    (hwritten : replaceChar '\n' (.ofList out.block.escapeContext.lineBreak) code = written) :
    codeBlock language code out = (.ok (), { out.block.wrote
      (fenceText (ticks (fenceLength code '\x60')) (language.getD "") written) with
        modes := out.modes }) := by
  have hblock : out.block.constrained = false := Output.block_unconstrained hline
  have hrun : fencedSteps (ticks (fenceLength code '\x60')) (language.getD "") code out.block =
      (.ok (), out.block.wrote
        (fenceText (ticks (fenceLength code '\x60')) (language.getD "") written)) :=
    fencedSteps_apply hblock hwritten (completed_ticks _)
  rw [codeBlock_eq, ifConstrained_apply, if_neg (by rw [hline]; decide),
    (framed_fencedSteps _ _ _).paragraphBreak_apply hline, hrun]

end Writing
end DocTree.Markdown

namespace DocTree.Preview
open Text

namespace Line
variable {line rest : List Char}

/-- A line from its start on. -/
def whole (line : List Char) : Line := ⟨0, 0, line, true⟩

end Line

section Fence
variable {fence : Fence} {n : Nat} {l : Line} {info : List Char} {lines : List (List Char)}

end Fence
end DocTree.Preview

namespace DocTree.Markdown
open Text Render Layout Preview

section Reading
variable {o : Options} {language : Option String} {code : String} {n : Nat} {cs : List Char}

/-- The output behind the line that a block at the start of a text leaves blank. -/
theorem block_fresh :
    ({} : Output).block = { buffer := { text := "\n", afterBlank := true }, fresh := true } := by
  decide

end Reading
end DocTree.Markdown
