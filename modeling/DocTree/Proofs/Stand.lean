import DocTree.Proofs.Lead

/-! Following a writer through a text. A stand is where the writer begins. From there the abstract
writer tells of each step what has been shown by then, and on which line. -/
namespace DocTree.Layout.Buffer

theorem atLineStart_newline (b : Buffer) : b.newline.atLineStart = true := by
  cases hb : b.content <;> simp [newline, atLineStart, hb]

theorem atLineStart_put {c : Char} (hc : c ≠ '\n') (b : Buffer) : (b.put c).atLineStart = false := by
  cases hb : b.content with
  | none => rw [put_atStart hc hb]; rfl
  | some content => rw [put_begun hc hb]; rfl

theorem atLineStart_ensureSkippedLine (b : Buffer) : b.ensureSkippedLine.atLineStart = true := by
  rw [atLineStart, b.ensureSkippedLine_blank.1]
  rfl

theorem text_write_atStart {b : Buffer} (hb : b.atLineStart) {s : String} (hs : Text.OneLine s)
    (hne : s.toList ≠ []) : (b.write s).text = b.text ++ b.indent ++ s := by
  have hcontent : b.content = none := atLineStart_iff.1 hb
  obtain ⟨c, cs, hcons⟩ := List.exists_cons_of_ne_nil hne
  obtain rfl : s = String.ofList (c :: cs) := by rw [← hcons, String.ofList_toList]
  rw [Text.oneLine_ofList, List.mem_cons, not_or] at hs
  rw [write_ofList_cons, put_atStart (Ne.symm hs.1) hcontent,
    write_begun rfl (Text.oneLine_ofList.2 hs.2), ← String.toList_inj]
  simp

end DocTree.Layout.Buffer

namespace DocTree.Markdown
open Text Render Layout

theorem wrote_singleton (out : Output) (c : Char) : out.wrote (.singleton c) =
    { out with buffer := out.buffer.put c, fresh := out.fresh && Unicode.isBlank c } := by
  simp [Output.wrote, Buffer.write]

theorem wrote_break (out : Output) :
    out.wrote (.singleton '\n') = { out with buffer := out.buffer.newline } := out.wrote_newline

theorem wrote_ofList_nil (out : Output) : out.wrote (.ofList []) = out := by
  simp [Output.wrote]

theorem wrote_ofList_cons (out : Output) (c : Char) (cs : List Char) :
    out.wrote (.ofList (c :: cs)) = (out.wrote (.singleton c)).wrote (.ofList cs) := by
  rw [wrote_singleton]
  simp [Output.wrote, Buffer.write, Bool.and_assoc]

/-- What a character keeps is kept by a text. -/
theorem Output.wrote_induction {P : Output → Prop}
    (hput : ∀ {mid : Output} (c : Char), P mid → P (mid.wrote (.singleton c))) {out : Output}
    (h : P out) (s : String) : P (out.wrote s) := by
  obtain ⟨cs, rfl⟩ := s.exists_eq_ofList
  induction cs generalizing out with
  | nil => rwa [wrote_ofList_nil]
  | cons c cs ih =>
    rw [wrote_ofList_cons]
    exact ih (hput c h)

/-- A line that has been begun goes on with what is written to it. -/
theorem text_wrote_begun {out : Output} (hbegun : out.buffer.atLineStart = false) (c : Char) :
    (out.wrote (.singleton c)).text.toList = out.text.toList ++ [c] := by
  obtain ⟨content, hcontent⟩ := Buffer.exists_content hbegun
  rw [wrote_singleton, Output.text, Output.text]
  by_cases hc : c = '\n'
  · simp [hc, Buffer.put_newline, Buffer.newline_begun hcontent]
  · simp [Buffer.put_begun hc hcontent]

theorem Output.atLineStart_atList (out : Output) (style : ListStyle) :
    (out.atList style).buffer.atLineStart = true := by
  unfold Output.atList
  split
  · exact out.buffer.atLineStart_ensureNewLine
  · exact out.buffer.atLineStart_ensureSkippedLine

theorem Output.indents_block (out : Output) : out.block.buffer.indents = out.buffer.indents := by
  unfold Output.block
  split
  · rfl
  · exact out.buffer.extends_ensureSkippedLine.indents

theorem Output.indents_inQuote (out : Output) :
    out.inQuote.buffer.indents = "> " :: out.buffer.indents := by
  unfold Output.inQuote
  dsimp only
  split
  · rfl
  · exact congrArg _ (out.buffer.extends_write _).indents

/-- The text in front of what a writer is followed through, and what is in force there. -/
structure Stand where
  front : List Char
  /-- The marker that the text ends with, if it is that of an item. -/
  marker : Option (List Char)
  indents : List String
  /-- The columns of indentation that are still to come on the line. -/
  margin : Nat
  oneLine : ∀ indent ∈ indents, OneLine indent

namespace Stand
variable (g : Stand)

def indent : List Char := (String.join g.indents.reverse).toList

def width : Nat := g.indent.length

/-- The line of the first thing that a text shows. -/
def line? (cs : List Char) : Option Nat := contentLine g.width g.margin 0 cs

/-- Whether a text makes a rule of the line of the marker. -/
def isRule (cs : List Char) : Bool :=
  g.marker.any fun marker => IsRule (marker ++ cs.takeWhile (· ≠ '\n'))

/-- Nothing has been shown. -/
structure Quiet (modes : Modes) (p : Place) (out : Output) : Prop where
  modes : out.modes = modes
  fresh : out.fresh = p.fresh
  atLineStart : out.buffer.atLineStart = !p.begun
  afterBlank : p.begun = false → out.buffer.afterBlank = p.afterBlank
  indents : ∃ quotes, out.buffer.indents = List.replicate quotes "> " ++ g.indents ∧
    (p.quoted ↔ 0 < quotes)
  quoted : p.quoted → p.begun = false
  plain : p.plain → p.begun ∧ p.line = 0 ∧ g.marker = some ['-', ' ']
  text : ∃ written, out.text.toList = g.front ++ written ∧
    (∀ more, g.line? (written ++ more) =
      contentLine g.width (if p.begun then 0 else g.width) p.line more) ∧
    if p.plain then ∀ c ∈ written, c = ' ' else ∀ more, g.isRule (written ++ more) = false

/-- Dashes and spaces are all there is behind the marker. -/
structure Dashed (modes : Modes) (dashes : Nat) (out : Output) : Prop where
  modes : out.modes = modes
  fresh : out.fresh = false
  atLineStart : out.buffer.atLineStart = false
  marker : g.marker = some ['-', ' ']
  text : ∃ written, out.text.toList = g.front ++ written ∧
    (∀ c ∈ written, c = '-' ∨ c = ' ') ∧ written.count '-' = dashes ∧
    ∀ more, g.line? (written ++ more) = some 0

/-- Something has been shown. -/
def Shown (line : Nat) (isRule : Bool) (out : Output) : Prop :=
  ∃ written, out.text.toList = g.front ++ written ∧
    ∀ more, g.line? (written ++ more) = some line ∧ g.isRule (written ++ more) = isRule

/-- The output is as far as the lead says. -/
def Follows (modes : Modes) : Lead → Output → Prop
  | .quiet p, out => g.Quiet modes p out
  | .dashed dashes, out => g.Dashed modes dashes out
  | .shown line isRule, out => g.Shown line isRule out

end Stand

namespace Lead

def isShown : Lead → Bool
  | shown _ _ => true
  | _ => false

theorem mark_eq_shown (lead : Lead) : ∃ line isRule, lead.mark = shown line isRule := by
  cases lead with
  | quiet place =>
    have hstar : Unicode.isBlank '*' = false := by decide
    exact ⟨place.line, false, by simp [mark, put, hstar]⟩
  | dashed dashes => exact ⟨0, false, rfl⟩
  | shown line isRule => exact ⟨line, isRule, rfl⟩

/-- A character that is neither white space nor a dash is shown at once. -/
theorem put_eq_mark {c : Char} (hblank : ¬ Unicode.isBlank c) (hdash : c ≠ '-') (lead : Lead) :
    lead.put c = lead.mark := by
  have hstar : Unicode.isBlank '*' = false := by decide
  have hbreak : c ≠ '\n' := by
    rintro rfl
    exact hblank (by decide)
  have hspace : c ≠ ' ' := by
    rintro rfl
    exact hblank (by decide)
  cases lead with
  | quiet place => simp [mark, put, hbreak, hblank, hdash, hstar]
  | dashed dashes => simp [mark, put, hbreak, hspace, hdash]
  | shown line isRule => rfl

theorem put_break_ne_dashed (lead : Lead) (dashes : Nat) : lead.put '\n' ≠ dashed dashes := by
  cases lead with
  | quiet place =>
    rw [put]
    split
    · nofun
    · rw [if_pos rfl]
      nofun
  | dashed | shown => nofun

theorem closed_ne_dashed (lead : Lead) (dashes : Nat) : lead.closed ≠ dashed dashes := by
  rw [closed]
  split
  · exact lead.put_break_ne_dashed dashes
  · rintro rfl
    next hbegun => exact hbegun rfl

theorem skipped_ne_dashed (lead : Lead) (dashes : Nat) : lead.skipped ≠ dashed dashes := by
  rw [skipped]
  split
  · exact lead.closed_ne_dashed dashes
  · exact lead.closed.put_break_ne_dashed dashes

end Lead

section Follows
variable {g : Stand} {modes : Modes} {p : Place} {lead : Lead} {out out' : Output} {c : Char}

theorem ne_break_of_mem {line : List Char} (h : '\n' ∉ line) :
    ∀ d ∈ line, decide (d ≠ '\n') = true := by
  intro d hd
  rw [decide_eq_true_eq]
  rintro rfl
  exact h hd

namespace Stand

theorem isRule_break {written : List Char} (h : '\n' ∉ written) (more : List Char) :
    g.isRule (written ++ '\n' :: more) = g.marker.any fun marker => IsRule (marker ++ written) := by
  rw [isRule, List.takeWhile_append_of_pos (ne_break_of_mem h)]
  simp

/-- A character that is neither a dash nor a space keeps the line from being a rule. -/
theorem isRule_stray {written : List Char} (h : '\n' ∉ written) (hbreak : c ≠ '\n') (hdash : c ≠ '-')
    (hspace : c ≠ ' ') (more : List Char) : g.isRule (written ++ c :: more) = false := by
  have hline : c ∈ (written ++ c :: more).takeWhile (· ≠ '\n') := by
    rw [List.takeWhile_append_of_pos (ne_break_of_mem h),
      List.takeWhile_cons_of_pos (by simpa using hbreak)]
    exact List.mem_append_right _ List.mem_cons_self
  cases hmarker : g.marker with
  | none => simp [isRule, hmarker]
  | some marker =>
    have hnot : ¬ IsRule (marker ++ (written ++ c :: more).takeWhile (· ≠ '\n')) := by
      intro hrule
      exact (hrule.2 c (List.mem_append_right _ hline)).elim hdash hspace
    simpa [isRule, hmarker] using hnot

/-- Nor does such a character make a rule of what is none, or of spaces. -/
theorem isRule_behind {before : List Char} {plain : Bool}
    (hrule : if plain then ∀ d ∈ before, d = ' ' else ∀ more, g.isRule (before ++ more) = false)
    (hbreak : c ≠ '\n') (hstray : plain → c ≠ '-' ∧ c ≠ ' ') (more : List Char) :
    g.isRule (before ++ c :: more) = false := by
  cases plain with
  | false =>
    rw [if_neg Bool.false_ne_true] at hrule
    exact hrule _
  | true =>
    rw [if_pos rfl] at hrule
    obtain ⟨hdash, hspace⟩ := hstray rfl
    have hfree : '\n' ∉ before := fun hmem => absurd (hrule _ hmem) (by decide)
    exact isRule_stray hfree hbreak hdash hspace more

theorem indent_free (g : Stand) : '\n' ∉ g.indent := by
  rw [indent, String.toList_join, List.mem_flatMap]
  rintro ⟨indent, hmem, hbreak⟩
  exact g.oneLine indent (List.mem_reverse.1 hmem) hbreak

theorem Shown.add {line : Nat} {isRule : Bool} (h : g.Shown line isRule out) {added : List Char}
    (htext : out'.text.toList = out.text.toList ++ added) : g.Shown line isRule out' := by
  obtain ⟨written, hwritten, hread⟩ := h
  refine ⟨written ++ added, by rw [htext, hwritten, List.append_assoc], fun more => ?_⟩
  rw [List.append_assoc]
  exact hread _

theorem Shown.extends {line : Nat} {isRule : Bool} {stays : Prop} (h : g.Shown line isRule out)
    (hextends : out.buffer.Extends stays out'.buffer) : g.Shown line isRule out' := by
  obtain ⟨added, htext, -⟩ := hextends.text
  have hadded : out'.text.toList = out.text.toList ++ added.toList := by
    rw [Output.text, htext, String.toList_append]
    rfl
  exact h.add hadded

theorem Quiet.not_plain (h : g.Quiet modes p out) (hbegun : p.begun = false) : p.plain = false := by
  by_contra hplain
  have hplain := (h.plain (by simpa using hplain)).1
  rw [hbegun] at hplain
  cases hplain

theorem Quiet.content (h : g.Quiet modes p out) (hbegun : p.begun = false) :
    out.buffer.content = none := by
  have hline := h.atLineStart
  rw [hbegun, Bool.not_false] at hline
  exact Buffer.atLineStart_iff.1 hline

/-- The indentation in force is that of the stand with the marks of quotes behind it. -/
theorem Quiet.indent (h : g.Quiet modes p out) :
    ∃ quotes, out.buffer.indent.toList = g.indent ++ quotes ∧ '\n' ∉ quotes ∧
      if p.quoted then ∃ more, quotes = '>' :: more else quotes = [] := by
  obtain ⟨n, hindents, hquoted⟩ := h.indents
  refine ⟨(List.replicate n "> ").flatMap String.toList, ?_, ?_, ?_⟩
  · rw [Buffer.indent_eq_join, hindents, List.reverse_append, List.reverse_replicate,
      String.toList_join, List.flatMap_append, Stand.indent, String.toList_join]
  · simp [List.mem_replicate]
  · cases n with
    | zero => simpa using hquoted
    | succ n =>
      rw [if_pos (hquoted.2 n.succ_pos), List.replicate_succ, List.flatMap_cons]
      exact ⟨_, rfl⟩

theorem Quiet.quotedLine (h : g.Quiet modes p out) (hquoted : p.quoted) (c : Char) :
    ∃ more, (out.buffer.put c).text.toList = out.text.toList ++ (g.indent ++ '>' :: more) := by
  obtain ⟨quotes, hindent, -, hmarks⟩ := h.indent
  rw [if_pos hquoted] at hmarks
  obtain ⟨more, rfl⟩ := hmarks
  have hstart : out.buffer.content = none := h.content (h.quoted hquoted)
  by_cases hc : c = '\n'
  · have hdrop : ∃ rest, Unicode.dropBlankEnd ('>' :: more) = '>' :: rest := by
      rw [← List.singleton_append]
      by_cases hseen : ∃ d ∈ more, ¬ Unicode.isBlank d
      · exact ⟨_, Unicode.dropBlankEnd_append_seen hseen⟩
      · have hblank : ∀ d ∈ more, Unicode.isBlank d := by simpa using hseen
        exact ⟨[], (Unicode.dropBlankEnd_append hblank).trans (by decide)⟩
    obtain ⟨rest, hrest⟩ := hdrop
    have hmark : ∃ d ∈ '>' :: more, ¬ Unicode.isBlank d := ⟨'>', List.mem_cons_self, by decide⟩
    refine ⟨rest ++ ['\n'], ?_⟩
    rw [hc, Buffer.put_newline, Buffer.newline, hstart, Output.text]
    simp [hindent, Unicode.dropBlankEnd_append_seen hmark, hrest]
  · refine ⟨more ++ [c], ?_⟩
    rw [Buffer.put_atStart hc hstart, Output.text]
    simp [hindent]

/-- The line as it is begun, up to the next character. -/
theorem Quiet.beginLine (h : g.Quiet modes p out) (hquoted : p.quoted = false) (hc : c ≠ '\n') :
    ∃ before, (out.wrote (.singleton c)).text.toList = g.front ++ (before ++ [c]) ∧
      (∀ more, g.line? (before ++ more) = contentLine g.width 0 p.line more) ∧
      if p.plain then ∀ d ∈ before, d = ' ' else ∀ more, g.isRule (before ++ more) = false := by
  obtain ⟨quotes, hindent, -, hmarks⟩ := h.indent
  rw [hquoted, if_neg Bool.false_ne_true] at hmarks
  rw [hmarks, List.append_nil] at hindent
  obtain ⟨written, htext, hline, hrule⟩ := h.text
  cases hbegun : p.begun with
  | true =>
    have hatStart := h.atLineStart
    rw [hbegun, Bool.not_true] at hatStart
    refine ⟨written, ?_, ?_, hrule⟩
    · rw [text_wrote_begun hatStart, htext, List.append_assoc]
    · simpa only [hbegun, if_true] using hline
  | false =>
    refine ⟨written ++ g.indent, ?_, fun more => ?_, ?_⟩
    · have htext : out.buffer.text.toList = g.front ++ written := htext
      rw [wrote_singleton, Buffer.put_atStart hc (h.content hbegun)]
      simp [Output.text, htext, hindent]
    · rw [List.append_assoc, hline, hbegun, if_neg Bool.false_ne_true]
      exact contentLine_indent g.indent_free
    · rw [h.not_plain hbegun, if_neg Bool.false_ne_true] at hrule ⊢
      intro more
      rw [List.append_assoc]
      exact hrule _

theorem not_isRule_spaces {written : List Char} (h : ∀ d ∈ written, d = ' ') :
    ¬ IsRule (['-', ' '] ++ written) := by
  have hnone : written.count '-' = 0 :=
    List.count_eq_zero.2 fun hdash => absurd (h '-' hdash) (by decide)
  rintro ⟨hcount, -⟩
  rw [List.count_append, hnone] at hcount
  exact absurd hcount (by decide)

/-- The line as it is ended. -/
theorem Quiet.endLine (h : g.Quiet modes p out) (hquoted : p.quoted = false) :
    ∃ before, (out.wrote (.singleton '\n')).text.toList = g.front ++ (before ++ ['\n']) ∧
      (∀ more, g.line? (before ++ '\n' :: more) = contentLine g.width g.width (p.line + 1) more) ∧
      ∀ more, g.isRule (before ++ '\n' :: more) = false := by
  obtain ⟨quotes, hindent, -, hmarks⟩ := h.indent
  rw [hquoted, if_neg Bool.false_ne_true] at hmarks
  rw [hmarks, List.append_nil] at hindent
  obtain ⟨written, htext, hline, hrule⟩ := h.text
  cases hbegun : p.begun with
  | true =>
    have hatStart := h.atLineStart
    rw [hbegun, Bool.not_true] at hatStart
    refine ⟨written, ?_, fun more => ?_, fun more => ?_⟩
    · rw [text_wrote_begun hatStart, htext, List.append_assoc]
    · rw [hline, contentLine_break]
    · cases hplain : p.plain with
      | false =>
        rw [hplain, if_neg Bool.false_ne_true] at hrule
        exact hrule _
      | true =>
        rw [hplain, if_pos rfl] at hrule
        have hfree : '\n' ∉ written := fun hbreak => absurd (hrule _ hbreak) (by decide)
        rw [isRule_break hfree, (h.plain hplain).2.2, Option.any_some]
        exact decide_eq_false (not_isRule_spaces hrule)
  | false =>
    have hvisible : '\n' ∉ Unicode.dropBlankEnd g.indent :=
      Unicode.notMem_dropBlankEnd g.indent_free
    have hlength : (Unicode.dropBlankEnd g.indent).length ≤ g.width := by
      rw [Unicode.dropBlankEnd, List.length_reverse]
      exact (List.dropWhile_sublist _).length_le.trans_eq List.length_reverse
    refine ⟨written ++ Unicode.dropBlankEnd g.indent, ?_, fun more => ?_, fun more => ?_⟩
    · have htext : out.buffer.text.toList = g.front ++ written := htext
      rw [wrote_break]
      simp [Output.text, Buffer.newline, h.content hbegun, htext, hindent]
    · rw [List.append_assoc, hline, hbegun, if_neg Bool.false_ne_true,
        contentLine_margin hvisible hlength, contentLine_break]
    · rw [h.not_plain hbegun, if_neg Bool.false_ne_true] at hrule
      rw [List.append_assoc]
      exact hrule _

theorem Quiet.putBreak (h : g.Quiet modes p out) (hquoted : p.quoted = false) :
    g.Follows modes (Lead.put (.quiet p) '\n') (out.wrote (.singleton '\n')) := by
  obtain ⟨before, htext, hline, hrule⟩ := h.endLine hquoted
  have hput : Lead.put (.quiet p) '\n' = .quiet { p with
      line := p.line + 1, begun := false, afterBlank := !p.begun, plain := false } := by
    simp [Lead.put, hquoted]
  have hcontent : out.buffer.newline.content = none ∧
      out.buffer.newline.afterBlank = out.buffer.atLineStart := by
    cases hb : out.buffer.content <;> simp [Buffer.newline, Buffer.atLineStart, hb]
  rw [wrote_break] at htext
  rw [hput, wrote_break]
  refine ⟨h.modes, h.fresh, ?_, ?_, ?_, ?_, fun hplain => absurd hplain Bool.false_ne_true,
    before ++ ['\n'], htext, ?_, ?_⟩
  · simp [Buffer.atLineStart, hcontent.1]
  · exact fun _ => hcontent.2.trans h.atLineStart
  · simpa only [out.buffer.extends_newline.indents] using h.indents
  · simp [hquoted]
  · intro more
    rw [List.append_assoc]
    exact hline more
  · intro more
    rw [List.append_assoc]
    exact hrule more

theorem Quiet.putBlank (h : g.Quiet modes p out) (hquoted : p.quoted = false) (hc : c ≠ '\n')
    (hblank : Unicode.isBlank c) :
    g.Follows modes (Lead.put (.quiet p) c) (out.wrote (.singleton c)) := by
  obtain ⟨before, htext, hline, hrule⟩ := h.beginLine hquoted hc
  have hput : Lead.put (.quiet p) c =
      .quiet { p with begun := true, plain := p.plain && c == ' ' } := by
    simp [Lead.put, hquoted, hc, hblank]
  rw [wrote_singleton] at htext
  rw [hput, wrote_singleton]
  refine ⟨h.modes, ?_, Buffer.atLineStart_put hc _, nofun, ?_, ?_, ?_, before ++ [c], htext, fun more => ?_, ?_⟩
  · rw [hblank, Bool.and_true]
    exact h.fresh
  · simpa only [(out.buffer.extends_put c).indents] using h.indents
  · simp [hquoted]
  · intro hplain
    exact ⟨rfl, (h.plain (Bool.and_eq_true_iff.1 hplain).1).2⟩
  · rw [List.append_assoc, hline]
    exact contentLine_blank hc hblank
  · split
    · next hspaces =>
      obtain ⟨hplain, hspace⟩ := Bool.and_eq_true_iff.1 hspaces
      rw [hplain, if_pos rfl] at hrule
      exact List.forall_mem_append.2 ⟨hrule, by simpa using hspace⟩
    · next hstray =>
      intro more
      have hdash : c ≠ '-' := by
        rintro rfl
        exact absurd hblank (by decide)
      rw [List.append_assoc]
      refine isRule_behind hrule hc (fun hplain => ⟨hdash, fun hspace => hstray ?_⟩) more
      rw [hplain, hspace]
      rfl

theorem Quiet.put (h : g.Quiet modes p out) (c : Char) :
    g.Follows modes (Lead.put (.quiet p) c) (out.wrote (.singleton c)) := by
  cases hquoted : p.quoted with
  | true =>
    obtain ⟨more, hmore⟩ := h.quotedLine hquoted c
    obtain ⟨written, htext, hline, hrule⟩ := h.text
    have hput : Lead.put (.quiet p) c = .shown p.line false := by simp [Lead.put, hquoted]
    rw [h.not_plain (h.quoted hquoted), if_neg Bool.false_ne_true] at hrule
    rw [hput, wrote_singleton]
    refine ⟨written ++ (g.indent ++ '>' :: more), ?_, fun rest => ?_⟩
    · rw [← List.append_assoc, ← htext]
      exact hmore
    · rw [List.append_assoc]
      refine ⟨?_, hrule _⟩
      rw [hline, h.quoted hquoted, if_neg Bool.false_ne_true, List.append_assoc, width,
        contentLine_indent g.indent_free, List.cons_append, contentLine_seen (by decide)]
  | false =>
    by_cases hc : c = '\n'
    · rw [hc]
      exact h.putBreak hquoted
    obtain ⟨before, htext, hline, hrule⟩ := h.beginLine hquoted hc
    by_cases hblank : Unicode.isBlank c
    · exact h.putBlank hquoted hc hblank
    by_cases hdash : p.plain ∧ c = '-'
    · obtain ⟨hplain, rfl⟩ := hdash
      have hput : Lead.put (.quiet p) '-' = .dashed 1 := by
        simp [Lead.put, hquoted, hc, hblank, hplain]
      rw [hplain, if_pos rfl] at hrule
      rw [wrote_singleton] at htext
      rw [hput, wrote_singleton]
      refine ⟨h.modes, by simp [hblank], Buffer.atLineStart_put hc _, (h.plain hplain).2.2, before ++ ['-'], htext,
        ?_, ?_, fun more => ?_⟩
      · exact List.forall_mem_append.2 ⟨fun d hd => .inr (hrule d hd), by simp⟩
      · have hnone : before.count '-' = 0 :=
          List.count_eq_zero.2 fun hmem => absurd (hrule _ hmem) (by decide)
        simp [hnone]
      · rw [List.append_assoc, hline, List.singleton_append, contentLine_seen hblank,
          (h.plain hplain).2.1]
    · have hput : Lead.put (.quiet p) c = .shown p.line false := by
        have hnot : (p.plain && c == '-') = false := by simpa using hdash
        simp [Lead.put, hquoted, hc, hblank, hnot]
      rw [hput]
      refine ⟨before ++ [c], htext, fun more => ⟨?_, ?_⟩⟩
      · rw [List.append_assoc, hline, List.singleton_append, contentLine_seen hblank]
      · rw [List.append_assoc]
        refine isRule_behind hrule hc (fun hplain => ⟨fun heq => hdash ⟨hplain, heq⟩, ?_⟩) more
        rintro rfl
        exact hblank (by decide)

section Dashed
variable {dashes : Nat}

theorem Dashed.putBreak (h : g.Dashed modes dashes out) :
    g.Shown 0 (2 ≤ dashes) (out.wrote (.singleton '\n')) := by
  obtain ⟨-, -, hatStart, hmarker, written, htext, hchars, hcount, hline⟩ := h
  have hfree : '\n' ∉ written := fun hmem => absurd (hchars _ hmem) (by decide)
  have hrule : IsRule (['-', ' '] ++ written) ↔ 2 ≤ dashes := by
    have hall : ∀ d ∈ ['-', ' '] ++ written, d = '-' ∨ d = ' ' := by simpa using hchars
    have htotal : (['-', ' '] ++ written).count '-' = dashes + 1 := by
      rw [List.count_append, hcount, Nat.add_comm]
      rfl
    rw [IsRule, htotal, and_iff_left hall]
    omega
  refine ⟨written ++ ['\n'], ?_, fun more => ?_⟩
  · rw [text_wrote_begun hatStart, htext, List.append_assoc]
  · rw [List.append_assoc, List.singleton_append, isRule_break hfree, hmarker, Option.any_some]
    exact ⟨hline _, decide_eq_decide.2 hrule⟩

/-- The line may still become a rule. -/
theorem Dashed.putStroke (h : g.Dashed modes dashes out) (hc : c = '-' ∨ c = ' ') :
    g.Dashed modes (dashes + [c].count '-') (out.wrote (.singleton c)) := by
  obtain ⟨hmodes, hfresh, hatStart, hmarker, written, htext, hchars, hcount, hline⟩ := h
  have hbreak : c ≠ '\n' := by
    rintro rfl
    exact absurd hc (by decide)
  refine ⟨hmodes, ?_, ?_, hmarker, written ++ [c], ?_, ?_, ?_, fun more => ?_⟩
  · simp [wrote_singleton, hfresh]
  · rw [wrote_singleton]
    exact Buffer.atLineStart_put hbreak _
  · rw [text_wrote_begun hatStart, htext, List.append_assoc]
  · exact List.forall_mem_append.2 ⟨hchars, by simpa using hc⟩
  · rw [List.count_append, hcount]
  · rw [List.append_assoc]
    exact hline _

theorem Dashed.put (h : g.Dashed modes dashes out) (c : Char) :
    g.Follows modes (Lead.put (.dashed dashes) c) (out.wrote (.singleton c)) := by
  by_cases hc : c = '\n'
  · subst hc
    exact h.putBreak
  by_cases hdash : c = '-'
  · subst hdash
    exact h.putStroke (.inl rfl)
  by_cases hspace : c = ' '
  · subst hspace
    exact h.putStroke (.inr rfl)
  have hput : Lead.put (.dashed dashes) c = .shown 0 false := by
    simp [Lead.put, hc, hdash, hspace]
  obtain ⟨-, -, hatStart, -, written, htext, hchars, -, hline⟩ := h
  have hfree : '\n' ∉ written := fun hmem => absurd (hchars _ hmem) (by decide)
  rw [hput]
  refine ⟨written ++ [c], ?_, fun more => ?_⟩
  · rw [text_wrote_begun hatStart, htext, List.append_assoc]
  · rw [List.append_assoc]
    exact ⟨hline _, isRule_stray hfree hc hdash hspace more⟩

end Dashed

theorem Follows.put (h : g.Follows modes lead out) (c : Char) :
    g.Follows modes (lead.put c) (out.wrote (.singleton c)) := by
  cases lead with
  | quiet place => exact Quiet.put h c
  | dashed dashes => exact Dashed.put h c
  | shown line isRule => exact Shown.extends h (out.buffer.extends_write _)

theorem Follows.wrote (h : g.Follows modes lead out) (s : String) :
    g.Follows modes (s.toList.foldl Lead.put lead) (out.wrote s) := by
  obtain ⟨cs, rfl⟩ := s.exists_eq_ofList
  rw [String.toList_ofList]
  induction cs generalizing lead out with
  | nil =>
    rw [wrote_ofList_nil]
    exact h
  | cons c cs ih =>
    rw [wrote_ofList_cons]
    exact ih (h.put c)

/-- As long as nothing is shown for good, the output is in the state that the lead says. -/
theorem Follows.agrees (h : g.Follows modes lead out) (hopen : lead.isShown = false) :
    out.modes = modes ∧ out.fresh = lead.fresh ∧ out.buffer.atLineStart = !lead.begun := by
  cases lead with
  | quiet place => exact ⟨h.modes, h.fresh, h.atLineStart⟩
  | dashed dashes => exact ⟨h.modes, h.fresh, h.atLineStart⟩
  | shown line isRule => cases hopen

/-- What has been shown can be read off the text once the line of the marker cannot go on with
dashes any more. -/
theorem Follows.read (h : g.Follows modes lead out) (hlead : ∀ dashes, lead ≠ .dashed dashes) :
    ∃ written, out.text.toList = g.front ++ written ∧ g.line? written = lead.line? ∧
      g.isRule written = lead.isRule := by
  cases lead with
  | quiet place =>
    obtain ⟨written, htext, hline, hrule⟩ := h.text
    have hnone := hline []
    rw [List.append_nil] at hnone
    refine ⟨written, htext, hnone, ?_⟩
    change g.isRule written = false
    split at hrule
    · next hplain =>
      have hall : ∀ c ∈ written, decide (c ≠ '\n') = true := fun c hc => by
        rw [hrule c hc]
        decide
      rw [isRule, (h.plain hplain).2.2, List.takeWhile_eq_self_iff.2 hall, Option.any_some]
      exact decide_eq_false (not_isRule_spaces hrule)
    · simpa using hrule []
  | dashed dashes => exact absurd rfl (hlead dashes)
  | shown line isRule =>
    obtain ⟨written, htext, hread⟩ := h
    have hall := hread []
    rw [List.append_nil] at hall
    exact ⟨written, htext, hall⟩

theorem Follows.unconstrained (h : g.Follows modes lead out) (hopen : lead.isShown = false)
    (hline : modes.constrained = false) : out.constrained = false := by
  obtain ⟨hmodes, -, -⟩ := h.agrees hopen
  exact (congrArg Modes.constrained hmodes).trans hline

theorem Follows.enter (h : g.Follows modes lead out) (modes' : Modes) :
    g.Follows modes' lead { out with modes := modes' } := by
  cases lead with
  | quiet place => exact { h with modes := rfl }
  | dashed dashes => exact { h with modes := rfl }
  | shown line isRule => exact h

/-- At the start of a line a dash is shown at once, too. -/
theorem Follows.put_eq_mark (h : g.Follows modes lead out) (hblank : ¬ Unicode.isBlank c)
    (hdash : c = '-' → out.buffer.atLineStart) : lead.put c = lead.mark := by
  by_cases hc : c = '-'
  swap
  · exact lead.put_eq_mark hblank hc
  have hstart := hdash hc
  subst hc
  cases lead with
  | quiet place =>
    have hbegun : place.begun = false := by
      rwa [h.atLineStart, Bool.not_eq_true'] at hstart
    have hstar : Unicode.isBlank '*' = false := by decide
    simp [Lead.mark, Lead.put, hblank, hstar, h.not_plain hbegun]
  | dashed dashes =>
    rw [h.atLineStart] at hstart
    cases hstart
  | shown line isRule => rfl

/-- What begins with such a character is shown, whatever comes behind it. -/
theorem Follows.marked {stays : Prop} (h : g.Follows modes lead out) (hblank : ¬ Unicode.isBlank c)
    (hdash : c = '-' → out.buffer.atLineStart)
    (hextends : (out.buffer.put c).Extends stays out'.buffer) : g.Follows modes lead.mark out' := by
  have hput := h.put c
  rw [h.put_eq_mark hblank hdash, wrote_singleton] at hput
  obtain ⟨line, isRule, hmark⟩ := lead.mark_eq_shown
  rw [hmark] at hput ⊢
  exact Shown.extends hput hextends

theorem Follows.closed (h : g.Follows modes lead out) : g.Follows modes lead.closed out.closed := by
  cases hshown : lead.isShown with
  | true =>
    cases lead with
    | quiet | dashed => cases hshown
    | shown line isRule => exact Shown.extends h out.buffer.extends_ensureNewLine
  | false =>
    obtain ⟨-, -, hline⟩ := h.agrees hshown
    rw [Lead.closed, Output.closed, Buffer.ensureNewLine, hline]
    cases hbegun : lead.begun with
    | false => exact h
    | true =>
      have hput := h.put '\n'
      rwa [wrote_break] at hput

theorem Follows.skipped (h : g.Follows modes lead out) :
    g.Follows modes lead.skipped out.skipped := by
  have hclosed := h.closed
  have hput := hclosed.put '\n'
  rw [wrote_break] at hput
  rw [Lead.skipped, Output.skipped, Buffer.ensureSkippedLine]
  cases hlead : lead.closed with
  | quiet place =>
    rw [hlead] at hclosed hput
    have hstart : place.begun = false := by
      have hatStart := hclosed.atLineStart
      rwa [Output.closed, Buffer.atLineStart_ensureNewLine, eq_comm, Bool.not_eq_true'] at hatStart
    have hblank : out.buffer.ensureNewLine.afterBlank = place.afterBlank :=
      hclosed.afterBlank hstart
    rw [hblank]
    cases hafter : place.afterBlank with
    | true => rwa [Lead.afterBlank, hafter, if_pos rfl, if_pos rfl]
    | false => rwa [Lead.afterBlank, hafter, if_neg Bool.false_ne_true, if_neg Bool.false_ne_true]
  | dashed dashes => exact absurd hlead (lead.closed_ne_dashed dashes)
  | shown line isRule =>
    rw [hlead] at hclosed hput
    change g.Shown line isRule _
    split
    · exact hclosed
    · exact hput

theorem Follows.block (h : g.Follows modes lead out) (hopen : lead.isShown = false) :
    g.Follows (lead.blockModes modes) lead.block out.block := by
  obtain ⟨hmodes, hfresh, -⟩ := h.agrees hopen
  rw [Lead.blockModes, Lead.block, Output.block, hfresh]
  cases lead.fresh with
  | true => exact h
  | false =>
    have hskipped := h.skipped.enter (out.modes.set .htmlBlock false)
    rw [hmodes] at hskipped ⊢
    simp only [Bool.false_eq_true, if_false]
    cases hlead : lead.skipped with
    | quiet place =>
      rw [hlead] at hskipped
      exact { hskipped with fresh := rfl }
    | dashed dashes => exact absurd hlead (lead.skipped_ne_dashed dashes)
    | shown line isRule =>
      rw [hlead] at hskipped
      exact hskipped

theorem Follows.atList (h : g.Follows modes lead out) (hopen : lead.isShown = false)
    (style : ListStyle) : g.Follows modes (lead.atList modes style) (out.atList style) := by
  obtain ⟨hmodes, hfresh, -⟩ := h.agrees hopen
  rw [Lead.atList, Output.atList, hmodes, hfresh]
  split
  · exact h.closed
  · exact h.skipped

theorem Follows.inQuote (h : g.Follows modes lead out) :
    g.Follows modes lead.inQuote out.inQuote := by
  cases hline : out.buffer.atLineStart with
  | true =>
    rw [Output.inQuote, if_pos hline]
    cases lead with
    | quiet place =>
      have hbegun : place.begun = false := by
        have hatStart := h.atLineStart
        rwa [hline, eq_comm, Bool.not_eq_true'] at hatStart
      have hquote : Lead.inQuote (.quiet place) =
          .quiet { place with quoted := true, fresh := true } := if_neg (by rw [hbegun]; decide)
      rw [hquote]
      obtain ⟨quotes, hindents, -⟩ := h.indents
      exact { h with
        fresh := rfl
        quoted := fun _ => hbegun
        indents := ⟨quotes + 1, congrArg _ hindents, by simp⟩ }
    | dashed dashes =>
      have hatStart := h.atLineStart
      rw [hline] at hatStart
      cases hatStart
    | shown line isRule => exact h
  | false =>
    rw [Output.inQuote, if_neg (by rw [hline]; decide)]
    have hmarked : g.Follows modes lead.mark (out.wrote "> ") :=
      h.marked (c := '>') (by decide) (fun hdash => absurd hdash (by decide))
        ((out.buffer.put '>').extends_put ' ')
    have hlead : lead.inQuote = lead.mark := by
      cases lead with
      | quiet place =>
        have hatStart := h.atLineStart
        rw [hline, eq_comm, Bool.not_eq_false'] at hatStart
        exact if_pos hatStart
      | dashed | shown => rfl
    obtain ⟨line, isRule, hshown⟩ := lead.mark_eq_shown
    rw [hlead]
    rw [hshown] at hmarked ⊢
    exact hmarked

/-- Behind a quote the indentations of its start are in force again. -/
theorem Quiet.unquoted (h : g.Quiet modes p out) {inside : Lead} {modes' : Modes}
    (hinside : g.Follows modes' inside out')
    (hindents : out'.buffer.indents = "> " :: out.buffer.indents) :
    g.Follows modes' (inside.unquoted p.quoted) { out' with buffer := out'.buffer.popIndent } := by
  cases inside with
  | quiet place =>
    obtain ⟨outer, houter, hquoted⟩ := h.indents
    obtain ⟨inner, hinner, hmarked⟩ := hinside.indents
    have hcount : inner = outer + 1 := by
      have hlength := congrArg List.length (hinner.symm.trans hindents)
      rw [houter, List.length_cons, List.length_append, List.length_append, List.length_replicate,
        List.length_replicate] at hlength
      omega
    exact { hinside with
      indents := ⟨outer, (congrArg List.tail hindents).trans houter, hquoted⟩
      quoted := fun _ => hinside.quoted (hmarked.2 (by omega)) }
  | dashed dashes => exact { hinside with }
  | shown line isRule => exact hinside

end Stand

end Follows

end DocTree.Markdown
