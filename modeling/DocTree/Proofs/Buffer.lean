import DocTree.Proofs.OneLine
import DocTree.Layout.Buffer

/-! How a buffer grows: each step adds text behind what is there and keeps the indentations. -/
namespace DocTree.Unicode

theorem mem_of_mem_dropBlankEnd {cs : List Char} {c : Char} (h : c ∈ dropBlankEnd cs) : c ∈ cs :=
  List.mem_reverse.1 ((List.dropWhile_sublist _).mem (List.mem_reverse.1 h))

theorem notMem_dropBlankEnd {cs : List Char} {c : Char} (h : c ∉ cs) : c ∉ dropBlankEnd cs :=
  mt mem_of_mem_dropBlankEnd h

end DocTree.Unicode

namespace DocTree.Layout.Buffer
open Text
variable {line : Prop} {a b c : Buffer}

theorem put_newline (b : Buffer) : b.put '\n' = b.newline := by simp [put.eq_def]

/-- The first character of a line goes behind the indentation. -/
theorem put_atStart {ch : Char} (h : ch ≠ '\n') (hb : b.content = none) :
    b.put ch = { b with text := (b.text ++ b.indent).push ch, content := some (.singleton ch) } := by
  obtain ⟨text, indents, content, afterBlank⟩ := b
  subst hb
  simp [put.eq_def, h, indent]

theorem put_begun {ch : Char} {s : String} (h : ch ≠ '\n') (hb : b.content = some s) :
    b.put ch = { b with text := b.text.push ch, content := some (s.push ch) } := by
  obtain ⟨text, indents, content, afterBlank⟩ := b
  subst hb
  simp [put.eq_def, h]

theorem indent_pushIndent (b : Buffer) (s : String) : (b.pushIndent s).indent = b.indent ++ s := by
  have h (indents : List String) (inner : String) :
      indents.foldl (fun inner outer => outer ++ inner) inner
        = indents.foldl (fun inner outer => outer ++ inner) "" ++ inner := by
    induction indents generalizing inner with
    | nil => simp
    | cons outer rest ih =>
      rw [List.foldl_cons, List.foldl_cons, ih (outer ++ inner), ih (outer ++ "")]
      simp [String.append_assoc]
  simpa [indent, pushIndent] using h b.indents s

/-- The indentation is that of the whole stack, from the outermost one on. -/
theorem indent_eq_join (b : Buffer) : b.indent = String.join b.indents.reverse := by
  obtain ⟨text, indents, content, afterBlank⟩ := b
  induction indents with
  | nil => rfl
  | cons inner rest ih =>
    have hpushed := indent_pushIndent ⟨text, rest, content, afterBlank⟩ inner
    rw [List.reverse_cons, String.join_append, String.join_cons, String.join_nil,
      String.append_empty, ← ih]
    exact hpushed

theorem oneLine_indent (h : ∀ indent ∈ b.indents, OneLine indent) : OneLine b.indent := by
  rw [indent_eq_join, OneLine, String.toList_join, List.mem_flatMap]
  rintro ⟨indent, hmem, hbreak⟩
  exact h indent (List.mem_reverse.1 hmem) hbreak

theorem push_append (s t : String) (ch : Char) : (s ++ t).push ch = s ++ t.push ch := by
  rw [String.push_eq_append, String.push_eq_append, String.append_assoc]

@[simp] theorem write_empty (b : Buffer) : b.write "" = b := rfl

theorem write_ofList_cons (b : Buffer) (ch : Char) (cs : List Char) :
    b.write (.ofList (ch :: cs)) = (b.put ch).write (.ofList cs) := by
  simp [write]

/-- The buffer `b'` is `b` with text added, under the same indentations. If `line` holds then no
line has ended on the way. -/
structure Extends (line : Prop) (b b' : Buffer) : Prop where
  indents : b'.indents = b.indents
  text : ∃ added, b'.text = b.text ++ added ∧ (line → OneLine b.indent → OneLine added)
  begun : line → b.atLineStart = false → b'.atLineStart = false

theorem indent_congr (h : b.indents = a.indents) : b.indent = a.indent := by
  rw [indent, indent, h]

theorem Extends.refl (b : Buffer) : b.Extends line b :=
  ⟨rfl, ⟨"", by simp, fun _ _ => by decide⟩, fun _ h => h⟩

theorem Extends.trans (hab : a.Extends line b) (hbc : b.Extends line c) : a.Extends line c := by
  obtain ⟨s, hs, hsl⟩ := hab.text
  obtain ⟨t, ht, htl⟩ := hbc.text
  refine ⟨hbc.indents.trans hab.indents, ⟨s ++ t, by rw [ht, hs, String.append_assoc], ?_⟩,
    fun hl => hbc.begun hl ∘ hab.begun hl⟩
  intro hl hi
  exact oneLine_append.2 ⟨hsl hl hi, htl hl (indent_congr hab.indents ▸ hi)⟩

theorem Extends.mono {line' : Prop} (h : a.Extends line b) (hl : line' → line) :
    a.Extends line' b := by
  obtain ⟨s, hs, hone⟩ := h.text
  exact ⟨h.indents, ⟨s, hs, hone ∘ hl⟩, h.begun ∘ hl⟩

theorem extends_newline (b : Buffer) : b.Extends False b.newline := by
  refine ⟨?_, ?_, nofun⟩
  · cases hb : b.content <;> simp [newline, hb]
  · cases hb : b.content with
    | none =>
      refine ⟨(String.ofList (Unicode.dropBlankEnd b.indent.toList)).push '\n', ?_, nofun⟩
      simp [newline, hb, push_append]
    | some s => exact ⟨"\n", by simp only [newline, hb]; rfl, nofun⟩

theorem extends_put (b : Buffer) (ch : Char) : b.Extends (ch ≠ '\n') (b.put ch) := by
  by_cases hc : ch = '\n'
  · rw [hc, put_newline]
    exact b.extends_newline.mono fun h => h rfl
  · cases hb : b.content with
    | none =>
      rw [put_atStart hc hb]
      refine ⟨rfl, ⟨b.indent.push ch, by simp [push_append], ?_⟩, fun _ _ => rfl⟩
      intro _ hi
      exact oneLine_push.2 ⟨hi, hc⟩
    | some s =>
      rw [put_begun hc hb]
      refine ⟨rfl, ⟨.singleton ch, String.push_eq_append .., ?_⟩, fun _ _ => rfl⟩
      intro _ _
      simpa [OneLine] using Ne.symm hc

theorem extends_write (b : Buffer) (s : String) : b.Extends (OneLine s) (b.write s) := by
  rw [← String.ofList_toList (s := s)]
  induction s.toList generalizing b with
  | nil => exact .refl b
  | cons ch cs ih =>
    rw [write_ofList_cons]
    refine .trans ((b.extends_put ch).mono fun h => ?_) ((ih _).mono fun h => ?_) <;>
      simp_all [OneLine, eq_comm]

theorem begun_write (b : Buffer) {s : String} (hs : OneLine s) (hne : s.toList ≠ []) :
    (b.write s).atLineStart = false := by
  obtain ⟨ch, cs, hcons⟩ := List.exists_cons_of_ne_nil hne
  obtain rfl : s = String.ofList (ch :: cs) := by rw [← hcons, String.ofList_toList]
  rw [oneLine_ofList, List.mem_cons, not_or] at hs
  have hput : (b.put ch).atLineStart = false := by
    cases hb : b.content with
    | none => rw [put_atStart (Ne.symm hs.1) hb]; rfl
    | some content => rw [put_begun (Ne.symm hs.1) hb]; rfl
  rw [write_ofList_cons]
  exact ((b.put ch).extends_write (.ofList cs)).begun (oneLine_ofList.2 hs.2) hput

theorem atLineStart_iff {b : Buffer} : b.atLineStart ↔ b.content = none :=
  Option.isNone_iff_eq_none

theorem exists_content {b : Buffer} (h : b.atLineStart = false) :
    ∃ content, b.content = some content := by
  rw [atLineStart, Option.isNone_eq_false_iff] at h
  exact Option.isSome_iff_exists.1 h

/-- Behind the start of a line, text without a line break is added as it is. -/
theorem write_begun {content s : String} (hb : b.content = some content) (hs : OneLine s) :
    b.write s = { b with text := b.text ++ s, content := some (content ++ s) } := by
  obtain ⟨cs, rfl⟩ := s.exists_eq_ofList
  induction cs generalizing b content with
  | nil => simp [← hb]
  | cons ch cs ih =>
    simp only [oneLine_ofList, List.mem_cons, not_or] at hs ih
    have hpush (t : String) : t.push ch ++ String.ofList cs = t ++ String.ofList (ch :: cs) := by
      rw [← String.toList_inj]
      simp
    rw [write_ofList_cons, put_begun (Ne.symm hs.1) hb, ih rfl hs.2, hpush, hpush]

theorem extends_ensureNewLine (b : Buffer) : b.Extends False b.ensureNewLine := by
  unfold ensureNewLine
  split
  · exact .refl b
  · exact b.extends_newline

theorem extends_ensureSkippedLine (b : Buffer) : b.Extends False b.ensureSkippedLine := by
  unfold ensureSkippedLine
  dsimp only
  split
  · exact b.extends_ensureNewLine
  · exact b.extends_ensureNewLine.trans (extends_newline _)

theorem newline_begun {s : String} (hb : b.content = some s) :
    b.newline = { b with text := b.text ++ "\n", content := none, afterBlank := false } := by
  rw [newline, hb]
  rfl

theorem newline_atStart (hb : b.content = none) (hindents : b.indents = []) :
    b.newline = { b with text := b.text ++ "\n", afterBlank := true } := by
  have hindent : b.indent = "" := by rw [indent, hindents, List.foldl_nil]
  have hvisible : String.ofList (Unicode.dropBlankEnd "".toList) = "" := by decide
  rw [newline, hb]
  simp only [hindent, hvisible, String.append_empty]
  rfl

theorem ensureNewLine_content (b : Buffer) : b.ensureNewLine.content = none := by
  cases hb : b.content with
  | none => simp [ensureNewLine, atLineStart, hb]
  | some s => simp [ensureNewLine, atLineStart, hb, newline_begun hb]

theorem ensureNewLine_again (b : Buffer) : b.ensureNewLine.ensureNewLine = b.ensureNewLine :=
  if_pos (by rw [atLineStart, ensureNewLine_content]; rfl)

theorem ensureSkippedLine_begun {s : String} (hb : b.content = some s) (hindents : b.indents = []) :
    b.ensureSkippedLine =
      { b with text := b.text ++ "\n" ++ "\n", content := none, afterBlank := true } := by
  have hline : b.ensureNewLine = b.newline := if_neg (by simp [atLineStart, hb])
  have hnone : b.newline.content = none := by rw [newline_begun hb]
  have hkept : b.newline.indents = [] := by rw [newline_begun hb, hindents]
  rw [ensureSkippedLine, hline, newline_atStart hnone hkept, newline_begun hb]
  rfl

theorem ensureSkippedLine_atStart (hb : b.content = none) (hblank : b.afterBlank = false)
    (hindents : b.indents = []) :
    b.ensureSkippedLine = { b with text := b.text ++ "\n", afterBlank := true } := by
  have hline : b.ensureNewLine = b := if_pos (by simp [atLineStart, hb])
  rw [ensureSkippedLine, hline, if_neg (by simp [hblank])]
  exact newline_atStart hb hindents

/-- Behind a break no line is begun, and the last one had no content. -/
theorem ensureSkippedLine_blank (b : Buffer) :
    b.ensureSkippedLine.content = none ∧ b.ensureSkippedLine.afterBlank = true := by
  have hnone := ensureNewLine_content b
  unfold ensureSkippedLine
  dsimp only
  split
  · next h => exact ⟨hnone, h⟩
  · simp [newline, hnone]

theorem ensureSkippedLine_again (b : Buffer) :
    b.ensureSkippedLine.ensureSkippedLine = b.ensureSkippedLine := by
  have hblank := b.ensureSkippedLine_blank
  generalize b.ensureSkippedLine = skipped at hblank
  simp [ensureSkippedLine, ensureNewLine, atLineStart, hblank]

theorem ensureSkippedLine_ensureNewLine (b : Buffer) :
    b.ensureNewLine.ensureSkippedLine = b.ensureSkippedLine := by
  rw [ensureSkippedLine, ensureNewLine_again, ensureSkippedLine]

/-- Without indentation the text grows by what is written. -/
theorem write_text (hindents : b.indents = []) (s : String) : (b.write s).text = b.text ++ s := by
  rw [← String.ofList_toList (s := s)]
  induction s.toList generalizing b with
  | nil => simp
  | cons c cs ih =>
    have hput : (b.put c).text = b.text.push c := by
      by_cases hc : c = '\n'
      · rw [hc, put_newline]
        cases hb : b.content with
        | none => rw [newline_atStart hb hindents]; rfl
        | some s => rw [newline_begun hb]; rfl
      · cases hb : b.content with
        | none => simp [put_atStart hc hb, indent, hindents]
        | some s => simp [put_begun hc hb]
    have hkept : (b.put c).indents = [] := (b.extends_put c).indents.trans hindents
    rw [write_ofList_cons, ih hkept, hput, ← String.toList_inj]
    simp

/-- A line with something on it goes on with something on it. -/
theorem lineIsBlank_write {s : String} (hb : b.lineIsBlank = false) (hs : OneLine s) :
    (b.write s).lineIsBlank = false := by
  cases hcontent : b.content with
  | none => simp [lineIsBlank, hcontent] at hb
  | some content =>
    rw [lineIsBlank, hcontent] at hb
    rw [write_begun hcontent hs, lineIsBlank]
    simp only [String.toList_append, List.all_append, hb, Bool.false_and]

theorem atLineStart_of_written (hb : b.lineIsBlank = false) :
    b.atLineStart = false := by
  cases hcontent : b.content with
  | none => simp [lineIsBlank, hcontent] at hb
  | some content => simp [atLineStart, hcontent]

end DocTree.Layout.Buffer
