import DocTree.Preview.Block
import DocTree.Proofs.Inside
import DocTree.Proofs.TableRows
import Mathlib.Data.List.DropRight

/-! Headings are read back. The line of a heading is its marker and its content, and a reader finds
the level and the content again unless the line is cut by a carriage return or the content ends in
number signs that a reader takes for the closing ones of the heading. -/
namespace DocTree.Preview
variable {p : Char → Bool} {cs before blanks : List Char}

/-- A text without the white space around it. -/
def trimmed (cs : List Char) : List Char := trimEnd isLineSpace (cs.dropWhile isLineSpace)

/-- Number signs at the end, with nothing or with white space before them, that a reader takes for
the end of a heading. -/
def EndsClosed (cs : List Char) : Prop :=
  ∃ before count blanks, cs = before ++ (List.replicate (count + 1) '#' ++ blanks) ∧
    (∀ c ∈ blanks, isLineSpace c) ∧ before.getLast?.all isLineSpace

theorem trimEnd_append (hcs : ∀ c, cs.getLast? = some c → ¬ p c) (hblanks : ∀ c ∈ blanks, p c) :
    trimEnd p (cs ++ blanks) = cs := by
  induction blanks using List.reverseRecOn with
  | nil =>
    rw [List.append_nil]
    refine List.rdropWhile_eq_self_iff.2 fun hne => hcs _ ?_
    exact List.getLast?_eq_some_getLast hne
  | append_singleton blanks c ih =>
    have hlast : p c := hblanks c (by simp)
    rw [← List.append_assoc]
    exact (List.rdropWhile_concat_pos p _ c hlast).trans
      (ih fun d hd => hblanks d (List.mem_append_left _ hd))

theorem dropWhile_append_cons {c : Char} (hc : ¬ p c) (before rest : List Char) :
    (before ++ c :: rest).dropWhile p = before.dropWhile p ++ c :: rest := by
  induction before with
  | nil => simp [hc]
  | cons d before ih =>
    by_cases hd : p d
    · rw [List.cons_append, List.dropWhile_cons_of_pos hd, ih, List.dropWhile_cons_of_pos hd]
    · rw [List.cons_append, List.dropWhile_cons_of_neg hd, List.dropWhile_cons_of_neg hd,
        List.cons_append]

theorem not_isLineSpace_sign : ¬ isLineSpace '#' := by decide

/-- Only the white space in front of number signs and behind them is taken off. -/
theorem trimmed_signs (hblanks : ∀ c ∈ blanks, isLineSpace c) (before : List Char) (count : Nat) :
    trimmed (before ++ (List.replicate (count + 1) '#' ++ blanks)) =
      before.dropWhile isLineSpace ++ List.replicate (count + 1) '#' := by
  have hdrop : (before ++ (List.replicate (count + 1) '#' ++ blanks)).dropWhile isLineSpace =
      before.dropWhile isLineSpace ++ List.replicate (count + 1) '#' ++ blanks := by
    rw [List.append_assoc]
    exact dropWhile_append_cons not_isLineSpace_sign before (List.replicate count '#' ++ blanks)
  rw [trimmed, hdrop, trimEnd_append ?_ hblanks]
  intro c hc
  rw [List.getLast?_append_of_ne_nil _ (by simp), List.getLast?_replicate] at hc
  obtain rfl : '#' = c := by simpa using hc
  exact not_isLineSpace_sign

theorem all_getLast?_dropWhile (h : before.getLast?.all p) : (before.dropWhile p).getLast?.all p := by
  cases hlast : (before.dropWhile p).getLast? with
  | none => rfl
  | some c =>
    obtain ⟨lead, hlead⟩ := List.dropWhile_suffix (l := before) p
    have hend : before.getLast? = some c := by
      rw [← hlead, List.getLast?_append, hlast]
      rfl
    simpa [hend] using h

theorem headingText_closed (h : EndsClosed cs) : headingText cs ≠ trimmed cs := by
  obtain ⟨before, count, blanks, rfl, hblanks, hspace⟩ := h
  have htrimmed := trimmed_signs hblanks before count
  have hall : (before.dropWhile isLineSpace).getLast?.all isLineSpace := all_getLast?_dropWhile hspace
  have hbefore : trimEnd (· == '#') (before.dropWhile isLineSpace ++
      List.replicate (count + 1) '#') = before.dropWhile isLineSpace := by
    refine trimEnd_append (fun c hc hsigned => ?_) fun c hc => ?_
    · obtain rfl : c = '#' := by simpa using hsigned
      rw [hc] at hall
      exact not_isLineSpace_sign hall
    · rw [List.eq_of_mem_replicate hc]
      rfl
  have hclosed : headingText (before ++ (List.replicate (count + 1) '#' ++ blanks)) =
      trimEnd isLineSpace (before.dropWhile isLineSpace) := by
    rw [trimmed] at htrimmed
    simp only [headingText, htrimmed, hbefore, hall, if_true]
  -- What is left is shorter than the text with its number signs.
  intro heq
  have hlength := congrArg List.length heq
  have hshort : (trimEnd isLineSpace (before.dropWhile isLineSpace)).length ≤
      (before.dropWhile isLineSpace).length := (List.rdropWhile_prefix isLineSpace _).length_le
  rw [hclosed, htrimmed, List.length_append, List.length_replicate] at hlength
  omega

theorem headingText_open (h : ¬ EndsClosed cs) : headingText cs = trimmed cs := by
  let text := trimmed cs
  let before := trimEnd (· == '#') text
  have hread : headingText cs =
      if before.getLast?.all isLineSpace then trimEnd isLineSpace before else text := rfl
  have hsplit : before ++ text.rtakeWhile (· == '#') = text :=
    List.rdropWhile_append_rtakeWhile
  rw [hread]
  split
  · next hspace =>
    cases hsigns : text.rtakeWhile (· == '#') with
    | nil =>
      have hbefore : before = text := by rwa [hsigns, List.append_nil] at hsplit
      rw [hbefore]
      exact List.rdropWhile_idempotent _ _
    | cons c signs =>
      refine absurd ⟨cs.takeWhile isLineSpace ++ before, signs.length,
        (cs.dropWhile isLineSpace).rtakeWhile isLineSpace, ?_, ?_, ?_⟩ h
      · have hrun : text.rtakeWhile (· == '#') = List.replicate (signs.length + 1) '#' := by
          refine List.eq_replicate_iff.2 ⟨by rw [hsigns]; rfl, fun d hd => ?_⟩
          have hsign := List.mem_rtakeWhile_imp hd
          simpa using hsign
        have hdrop : text ++ (cs.dropWhile isLineSpace).rtakeWhile isLineSpace =
            cs.dropWhile isLineSpace := List.rdropWhile_append_rtakeWhile
        rw [← hrun, List.append_assoc, ← List.append_assoc before, hsplit, hdrop,
          List.takeWhile_append_dropWhile]
      · exact fun c hc => List.mem_rtakeWhile_imp hc
      · rw [List.getLast?_append]
        cases hlast : before.getLast? with
        | none =>
          cases hlead : (cs.takeWhile isLineSpace).getLast? with
          | none => rfl
          | some d =>
            have hspaced : isLineSpace d := List.mem_takeWhile_imp (List.mem_of_getLast? hlead)
            exact hspaced
        | some d => simpa [hlast] using hspace
  · rfl

/-- The text of a heading is what stands behind the marker, without the white space around it, unless
number signs close the heading. -/
theorem headingText_eq_iff (cs : List Char) : headingText cs = trimmed cs ↔ ¬ EndsClosed cs :=
  ⟨fun heq hclosed => headingText_closed hclosed heq, headingText_open⟩

theorem mem_trimmed {c : Char} (hc : ¬ isLineSpace c) (h : c ∈ cs) : c ∈ trimmed cs := by
  have hdropped : c ∈ cs.dropWhile isLineSpace := by
    rw [← List.takeWhile_append_dropWhile (p := isLineSpace) (l := cs), List.mem_append] at h
    exact h.resolve_left fun hlead => hc (List.mem_takeWhile_imp hlead)
  have hsplit : trimmed cs ++ (cs.dropWhile isLineSpace).rtakeWhile isLineSpace =
      cs.dropWhile isLineSpace := List.rdropWhile_append_rtakeWhile
  rw [← hsplit, List.mem_append] at hdropped
  exact hdropped.resolve_right fun hend => hc (List.mem_rtakeWhile_imp hend)

theorem mem_of_mem_headingText {c : Char} (h : c ∈ headingText cs) : c ∈ cs := by
  have htrim {q : Char → Bool} {ds : List Char} (hd : c ∈ trimEnd q ds) : c ∈ ds :=
    (List.rdropWhile_prefix q ds).subset hd
  have hdrop (hd : c ∈ trimEnd isLineSpace (cs.dropWhile isLineSpace)) : c ∈ cs :=
    (List.dropWhile_suffix isLineSpace).subset (htrim hd)
  rw [headingText] at h
  split at h
  · exact hdrop (htrim (htrim h))
  · exact hdrop h

/-- A marker with a text behind it. -/
theorem readHeading_marker {level : Nat} (hlow : 1 ≤ level) (hhigh : level ≤ 6) (cs : List Char) :
    readHeading (List.replicate level '#' ++ ' ' :: cs) = some (level, headingText cs) := by
  have hmark : (List.replicate level '#' ++ ' ' :: cs).takeWhile (· == '#') =
      List.replicate level '#' := by
    rw [List.takeWhile_append_of_pos (by simp)]
    simp
  have hspace : headingText (' ' :: cs) = headingText cs := by
    have hdrop : (' ' :: cs).dropWhile isLineSpace = cs.dropWhile isLineSpace := rfl
    rw [headingText, headingText, hdrop]
  rw [readHeading, hmark]
  simp [hlow, hhigh, hspace, isLineSpace]

end DocTree.Preview

namespace DocTree.Markdown
open Text Render Layout Preview

section Heading
variable {o : Options} {level : UInt8} {anchor : Option String} {children : List Node} {md : String}
  {out out' : Output} {body : Render Unit}

/-- The steps that write a heading behind its marker, up to the end of its line. -/
def headingBody (anchor : Option String) (body : Render Unit) : Render Unit := do
  optionalAnchor anchor
  inSingleLine body

/-- The output behind the marker of a heading with which a text begins. -/
def Output.behindMarker (level : UInt8) : Output :=
  ({} : Output).block.wrote (headingMark level ++ " ")

/-- The text that a heading has behind its marker. -/
def headingContent (o : Options) (level : UInt8) (anchor : Option String) (children : List Node) :
    Except RenderError String :=
  match headingBody anchor (renderNodes o (pageHead o) false children) (.behindMarker level) with
  | (.ok (), out) => .ok (String.ofList (out.text.toList.drop (level.toNat + 2)))
  | (.error e, _) => .error e

theorem extends_inSingleLine (h : Framed body) (out : Output) :
    out.buffer.Extends True (inSingleLine body out).2.buffer := by
  let markdown := out.modes.inlineMarkdown || !out.modes.htmlBlock
  have hrun : inSingleLine body out =
      withMode .inlineMarkdown markdown (withMode .singleLine true body) out := rfl
  have hline : Framed (withMode .singleLine true body) := h.withMode fun _ => rfl
  have hextends := (h { out with
    modes := (out.modes.set .inlineMarkdown markdown).set .singleLine true }).buffer
  rw [hrun, hline.withMode_apply, h.withMode_apply]
  exact hextends.mono fun _ => by simp [Output.constrained, Modes.constrained, Modes.set]

theorem extends_optionalAnchor (h : ∀ id ∈ anchor, isValidAnchor id)
    (hrun : optionalAnchor anchor out = (.ok (), out')) : out.buffer.Extends True out'.buffer := by
  cases anchor with
  | none =>
    cases hrun
    exact .refl _
  | some id =>
    have hline : OneLine s!"<a name=\"{id}\"></a>" :=
      (oneLine_of_isValidAnchor (h id rfl)).between (by decide) (by decide)
    cases (write_of_fits fun _ => hline).symm.trans hrun
    exact (out.buffer.extends_write _).mono fun _ => hline

/-- What stands behind the marker of a heading is on one line. -/
theorem headingBody_ok (hanchor : ∀ id ∈ anchor, isValidAnchor id) (hbody : Framed body)
    (hrun : headingBody anchor body out = (.ok (), out')) :
    out.buffer.Extends True out'.buffer := by
  obtain ⟨_, mid, hmid, hend⟩ := bind_eq_ok hrun
  have hlast : (inSingleLine body mid).2 = out' := congrArg Prod.snd hend
  exact (extends_optionalAnchor hanchor hmid).trans (hlast ▸ extends_inSingleLine hbody mid)

theorem checkedHeading_ok (hline : out.constrained = false) (hbody : Framed body)
    (h : checkedHeading level anchor body out = (.ok (), out')) :
    ∃ last, headingBody anchor body (out.block.wrote (headingMark level ++ " ")) = (.ok (), last) ∧
      out' = { last.closed with modes := out.modes } := by
  have hsteps : Framed (do
      write (headingMark level)
      write " "
      optionalAnchor anchor
      inSingleLine body
      ensureNewLine) :=
    (framed_write _).then <| (framed_write _).then <| (framed_optionalAnchor _).then <|
      hbody.inSingleLine.then framed_ensureNewLine
  rw [checkedHeading, ifConstrained_apply, if_neg (by rw [hline]; decide)] at h
  obtain ⟨-, last, hlast, rfl⟩ := paragraphBreak_ok hsteps h
  have hmark : OneLine (headingMark level) := by simp [headingMark]
  rw [bind_of_ok (write_of_fits fun _ => hmark), bind_of_ok (write_of_fits fun _ => by decide),
    Output.wrote_wrote] at hlast
  obtain ⟨_, named, hnamed, hrest⟩ := bind_eq_ok hlast
  obtain ⟨_, mid, hmid, hend⟩ := bind_eq_ok hrest
  obtain rfl := ensureNewLine_ok hend
  exact ⟨mid, (bind_of_ok hnamed _).trans hmid, rfl⟩

theorem text_behindMarker (level : UInt8) :
    (Output.behindMarker level).text = "\n" ++ (headingMark level ++ " ") :=
  Buffer.write_text (by decide) _

theorem begun_behindMarker (level : UInt8) :
    (Output.behindMarker level).buffer.atLineStart = false :=
  Buffer.begun_write _ (by simp [headingMark, OneLine]) (by simp)

/-- A heading that is written is a blank line and the line of the heading. -/
theorem renderRaw_heading (h : renderRaw o (.heading level anchor children) = .ok md) :
    (1 ≤ level ∧ level ≤ 6) ∧ ∃ content, headingContent o level anchor children = .ok content ∧
      md = "\n" ++ (headingMark level ++ " " ++ content) ++ "\n" ∧ OneLine content := by
  obtain ⟨out, hok, rfl⟩ := renderRaw_ok h
  rw [render, renderNode, heading_eq] at hok
  split at hok
  · cases hok
  next hchecked =>
  obtain ⟨hlevel, hanchor⟩ := headingError?_eq_none.1 hchecked
  have hbody : Framed (renderNodes o (pageHead o) false children) :=
    framed_renderNodes (fun node _ => framed_renderNode framed_pageHead node) false
  obtain ⟨last, hlast, rfl⟩ := checkedHeading_ok (by decide) hbody hok
  have hextends : (Output.behindMarker level).buffer.Extends True last.buffer :=
    headingBody_ok hanchor hbody hlast
  have hindents : (Output.behindMarker level).buffer.indents = [] :=
    (Buffer.extends_write _ _).indents.trans (by decide)
  obtain ⟨content, htext, hline⟩ := hextends.text
  have hend : last.closed = last.wrote "\n" :=
    last.closed_begun (hextends.begun trivial (begun_behindMarker level))
  have hmarked : last.text = "\n" ++ (headingMark level ++ " " ++ content) := by
    rw [Output.text, htext, ← Output.text, text_behindMarker, String.append_assoc]
  have hmd : last.closed.text = last.text ++ "\n" := by
    rw [hend]
    exact Buffer.write_text (hextends.indents.trans hindents) "\n"
  refine ⟨hlevel, content, ?_, ?_, hline trivial ?_⟩
  · have hrun : headingBody anchor (renderNodes o (pageHead o) false children)
        (.behindMarker level) = (.ok (), last) := hlast
    have hdrop : last.text.toList.drop (level.toNat + 2) = content.toList := by
      rw [hmarked]
      simp [headingMark, List.drop_append]
    rw [headingContent, hrun]
    exact congrArg Except.ok (by rw [hdrop, String.ofList_toList])
  · exact hmd.trans (by rw [hmarked])
  · rw [Buffer.indent, hindents]
    decide

/-- The line below the blank one that a heading begins with, up to what ends it for a reader. -/
def headingLine (md : String) : List Char :=
  (md.toList.drop 1).takeWhile fun c => c != '\n' && c != '\r'

theorem takeWhile_line {cs : List Char} (hline : '\n' ∉ cs) :
    (cs ++ ['\n']).takeWhile (fun c => c != '\n' && c != '\r') = cs.takeWhile (· != '\r') := by
  induction cs with
  | nil => rfl
  | cons c cs ih =>
    obtain ⟨hc, hcs⟩ := not_or.1 fun h => hline (List.mem_cons.2 h)
    have hbreak : (c != '\n') = true := by simpa using Ne.symm hc
    rw [List.cons_append, List.takeWhile_cons, List.takeWhile_cons, ih hcs, hbreak, Bool.true_and]

theorem headingLine_heading {content : String} (hline : OneLine content) :
    headingLine ("\n" ++ (headingMark level ++ " " ++ content) ++ "\n") =
      List.replicate level.toNat '#' ++ ' ' :: content.toList.takeWhile (· != '\r') := by
  have hrest : ("\n" ++ (headingMark level ++ " " ++ content) ++ "\n").toList.drop 1 =
      List.replicate level.toNat '#' ++ ([' '] ++ (content.toList ++ ['\n'])) := by
    simp [headingMark]
  rw [headingLine, hrest, List.takeWhile_append_of_pos (by simp),
    List.takeWhile_append_of_pos (by simp), takeWhile_line hline]
  rfl

/-- A heading that is written is a line between line breaks, and a reader finds its level and its
content in it, unless a carriage return cuts the line or number signs at its end close the heading. -/
theorem heading_reads_back (h : renderRaw o (.heading level anchor children) = .ok md) :
    ∃ content, headingContent o level anchor children = .ok content ∧
      md = "\n" ++ (headingMark level ++ " " ++ content) ++ "\n" ∧ OneLine content ∧
      (readHeading (headingLine md) = some (level.toNat, trimmed content.toList) ↔
        '\r' ∉ content.toList ∧ ¬ EndsClosed content.toList) := by
  obtain ⟨⟨hlow, hhigh⟩, content, hcontent, rfl, hline⟩ := renderRaw_heading h
  refine ⟨content, hcontent, rfl, hline, ?_⟩
  have hread := readHeading_marker (UInt8.le_iff_toNat_le.1 hlow) (UInt8.le_iff_toNat_le.1 hhigh)
    (content.toList.takeWhile (· != '\r'))
  rw [headingLine_heading hline, hread, Option.some_inj, Prod.mk.injEq]
  by_cases hreturn : '\r' ∈ content.toList
  · have hcut : '\r' ∉ headingText (content.toList.takeWhile (· != '\r')) := by
      intro hmem
      have hkept := List.mem_takeWhile_imp (mem_of_mem_headingText hmem)
      exact absurd hkept (by decide)
    have hwhole : '\r' ∈ trimmed content.toList := mem_trimmed (by decide) hreturn
    refine iff_of_false (fun heq => hcut ?_) fun hfree => hfree.1 hreturn
    rw [heq.2]
    exact hwhole
  · have hall : content.toList.takeWhile (· != '\r') = content.toList := by
      refine List.takeWhile_eq_self_iff.2 fun c hc => ?_
      simpa using fun heq : c = '\r' => hreturn (heq ▸ hc)
    rw [hall, headingText_eq_iff]
    simp [hreturn]

theorem heading_reads_back_sharp :
    renderRaw {} (.heading 2 (some "c") [.text "C#"]) = .ok "\n## <a name=\"c\"></a>C#\n" ∧
      readHeading (headingLine "\n## <a name=\"c\"></a>C#\n") =
        some (2, "<a name=\"c\"></a>C#".toList) := by
  have hrun : renderRaw {} (.heading 2 (some "c") [.text "C#"]) =
      .ok "\n## <a name=\"c\"></a>C#\n" := by decide +kernel
  have hcontent : headingContent {} 2 (some "c") [.text "C#"] = .ok "<a name=\"c\"></a>C#" := by
    decide +kernel
  have hopen : ¬ EndsClosed "<a name=\"c\"></a>C#".toList :=
    (headingText_eq_iff _).1 (by decide +kernel)
  obtain ⟨content, hwritten, -, -, hread⟩ := heading_reads_back hrun
  obtain rfl := Except.ok.inj (hwritten.symm.trans hcontent)
  exact ⟨hrun, hread.2 ⟨by decide, hopen⟩⟩

/-- The number sign at the end of a heading is lost. -/
theorem heading_loses_sign :
    renderRaw {} (.heading 2 none [.text "C #"]) = .ok "\n## C #\n" ∧
      headingContent {} 2 none [.text "C #"] = .ok "C #" ∧
      readHeading (headingLine "\n## C #\n") = some (2, ['C']) := by
  decide +kernel

end Heading
end DocTree.Markdown
