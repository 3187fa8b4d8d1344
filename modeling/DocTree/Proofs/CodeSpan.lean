import DocTree.Preview.Reading
import DocTree.Proofs.CodeText
import DocTree.Proofs.TableRows

/-! Code spans are read back. There are more ticks on either side of the code than in any run inside
it, and the space that a reader takes off each end is put there first. What ends a line for a reader
but not for the writer, a carriage return, is where the two come apart. -/
namespace DocTree.Preview
open Text Markdown

section Span
variable {n fuel : Nat} {cs read : List Char} {inTable : Bool}

/-- Ticks that no further one follows are one run. -/
theorem takeWhile_ticks (h : cs.head? ≠ some '\x60') (n : Nat) :
    ('\x60' :: (List.replicate n '\x60' ++ cs)).takeWhile (· == '\x60') =
      List.replicate (n + 1) '\x60' :=
  takeWhile_run h (n + 1)

theorem drop_ticks (n : Nat) (cs : List Char) :
    ('\x60' :: (List.replicate n '\x60' ++ cs)).drop (n + 1) = cs := by
  simp

theorem readSpan_run (h : cs.head? ≠ some '\x60') (k : Nat) :
    readSpan n (fuel + 1) read (List.replicate (k + 1) '\x60' ++ cs) =
      if k + 1 = n then some (read.reverse, cs)
      else readSpan n fuel (List.replicate (k + 1) '\x60' ++ read) cs := by
  show readSpan n (fuel + 1) read ('\x60' :: (List.replicate k '\x60' ++ cs)) = _
  rw [readSpan, if_pos rfl]
  simp only [takeWhile_ticks h, List.length_replicate, drop_ticks]

/-- Code is read up to a run of as many ticks as there are in front of it if no run in the code is as
long. -/
theorem readSpan_ticks (hn : 0 < n) (hruns : ∀ k, List.replicate k '\x60' <:+: cs → k < n)
    (hlast : cs.getLast? ≠ some '\x60') (hfuel : cs.length < fuel) :
    readSpan n fuel read (cs ++ List.replicate n '\x60') = some (read.reverse ++ cs, []) := by
  induction fuel generalizing cs read with
  | zero => exact absurd hfuel (Nat.not_lt_zero _)
  | succ fuel ih =>
    -- The text behind a run is shorter, so the induction is on the fuel.
    obtain ⟨k, rest, rfl, hrest⟩ := exists_run '\x60' cs
    have hbehind : ∀ j, List.replicate j '\x60' <:+: rest → j < n :=
      fun j hj => hruns j (hj.trans (List.suffix_append _ _).isInfix)
    cases rest with
    | nil =>
      have hk : k = 0 := by
        by_contra hk
        exact hlast (by rw [List.append_nil, List.getLast?_replicate, if_neg hk])
      obtain ⟨m, rfl⟩ := Nat.exists_eq_add_one_of_ne_zero hn.ne'
      rw [hk, List.replicate_zero, List.nil_append, ← List.append_nil (List.replicate _ _),
        List.nil_append, readSpan_run (by simp), if_pos rfl, List.append_nil]
    | cons c rest =>
      have hlast' : (c :: rest).getLast? ≠ some '\x60' := by
        rwa [List.getLast?_append_of_ne_nil _ (by simp)] at hlast
      have hc : c ≠ '\x60' := by simpa using hrest
      cases k with
      | zero =>
        have hend : rest.getLast? ≠ some '\x60' := by
          cases rest with
          | nil => simp
          | cons d rest => rwa [List.getLast?_cons_cons] at hlast'
        have hnext : ∀ j, List.replicate j '\x60' <:+: rest → j < n :=
          fun j hj => hbehind j (hj.trans (List.suffix_cons c rest).isInfix)
        rw [List.replicate_zero, List.nil_append, List.cons_append, readSpan, if_neg hc,
          ih hnext hend (by simpa using hfuel)]
        simp
      | succ k =>
        have hshort : k + 1 ≠ n := (hruns (k + 1) (List.prefix_append _ _).isInfix).ne
        have hfuel' : (c :: rest).length < fuel := by
          simp only [List.length_append, List.length_replicate] at hfuel
          omega
        rw [List.append_assoc, readSpan_run (by simpa using hc), if_neg hshort,
          ih hbehind hlast' hfuel']
        simp

/-- Code between ticks that it does not begin or end with is one span if no run in it is as long as
the runs around it. -/
theorem inlines_ticks (hn : 0 < n) (hruns : ∀ k, List.replicate k '\x60' <:+: cs → k < n)
    (hne : cs ≠ []) (hfirst : cs.head? ≠ some '\x60') (hlast : cs.getLast? ≠ some '\x60') :
    inlines inTable (List.replicate n '\x60' ++ (cs ++ List.replicate n '\x60')) =
      [.code (spanCode inTable cs)] := by
  obtain ⟨m, rfl⟩ := Nat.exists_eq_add_one_of_ne_zero hn.ne'
  have hfirst' : (cs ++ List.replicate (m + 1) '\x60').head? ≠ some '\x60' := by
    rwa [List.head?_append_of_ne_nil _ hne]
  have hfuel : cs.length < (cs ++ List.replicate (m + 1) '\x60').length + 1 :=
    Nat.lt_succ_of_le (List.sublist_append_left cs _).length_le
  have hspan : readSpan (m + 1) _ [] (cs ++ List.replicate (m + 1) '\x60') = some (cs, []) :=
    readSpan_ticks hn hruns hlast hfuel
  show inlines inTable ('\x60' :: (List.replicate m '\x60' ++ _)) = _
  rw [inlines, readInlines]
  simp only [takeWhile_ticks hfirst', List.length_replicate, drop_ticks, hspan]
  rw [List.length_cons, readInlines]
  rfl

end Span

section Stripping
variable {cs : List Char} {s t : String}

/-- A reader takes a space off each end. -/
def Stripped (cs : List Char) : Prop :=
  cs.head? = some ' ' ∧ cs.getLast? = some ' ' ∧ ∃ c ∈ cs, c ≠ ' '

instance (cs : List Char) : Decidable (Stripped cs) := inferInstanceAs (Decidable (_ ∧ _ ∧ _))

/-- A tick stands at an end. -/
def TickAtEnd (cs : List Char) : Prop := cs.head? = some '\x60' ∨ cs.getLast? = some '\x60'

instance (cs : List Char) : Decidable (TickAtEnd cs) := inferInstanceAs (Decidable (_ ∨ _))

theorem spanCode_eq (cs : List Char) : spanCode false cs =
    if Stripped (swapped '\n' ' ' cs) then .ofList ((swapped '\n' ' ' cs).drop 1).dropLast
    else .ofList (swapped '\n' ' ' cs) := by
  simp [spanCode, swapped, Stripped, and_assoc]

theorem spanCode_congr {ds : List Char} (h : swapped '\n' ' ' cs = swapped '\n' ' ' ds) :
    spanCode false cs = spanCode false ds := by
  rw [spanCode_eq, spanCode_eq, h]

theorem tickAtEnd_swapped {old new : Char} (hold : old ≠ '\x60') (hnew : new ≠ '\x60') :
    TickAtEnd (swapped old new cs) ↔ TickAtEnd cs := by
  have hchar (c : Char) : (if c = old then new else c) = '\x60' ↔ c = '\x60' := by
    split
    · next h => simp [h, hold, hnew]
    · rfl
  simp [TickAtEnd, swapped, List.getLast?_map, hchar]

theorem tickPadding_eq (s : String) :
    tickPadding s = if TickAtEnd s.toList ∨ Stripped s.toList then " " else "" := by
  simp [tickPadding, TickAtEnd, Stripped, or_assoc, and_assoc]

theorem tickPadding_cases (s : String) : tickPadding s = " " ∨ tickPadding s = "" := by
  rw [tickPadding_eq]
  split
  · exact .inl rfl
  · exact .inr rfl

theorem notMem_tickPadding {c : Char} (hc : c ≠ ' ') (s : String) : c ∉ (tickPadding s).toList := by
  obtain hpadding | hpadding := tickPadding_cases s
  · simpa [hpadding] using hc
  · simp [hpadding]

theorem spanCode_spaced (hline : '\n' ∉ cs) :
    spanCode false (' ' :: (cs ++ [' '])) = .ofList cs ↔ ∃ c ∈ cs, c ≠ ' ' := by
  have hkept : swapped '\n' ' ' (' ' :: (cs ++ [' '])) = ' ' :: (cs ++ [' ']) :=
    swapped_of_notMem (by simpa using hline)
  have hstripped : Stripped (' ' :: (cs ++ [' '])) ↔ ∃ c ∈ cs, c ≠ ' ' := by
    have hlast : (' ' :: (cs ++ [' '])).getLast? = some ' ' := by
      rw [← List.cons_append, List.getLast?_concat]
    simp [Stripped, hlast]
  rw [spanCode_eq, hkept, ← hstripped]
  split
  · next h => simp [h]
  · next h =>
    have hlonger : ' ' :: (cs ++ [' ']) ≠ cs := by
      intro heq
      have hlength := congrArg List.length heq
      simp only [List.length_cons, List.length_append] at hlength
      omega
    exact iff_of_false (fun heq => hlonger (String.ofList_injective heq)) h

theorem spanCode_bare (hline : '\n' ∉ cs) : spanCode false cs = .ofList cs ↔ ¬ Stripped cs := by
  rw [spanCode_eq, swapped_of_notMem hline]
  split
  · next h =>
    obtain ⟨c, rest, rfl⟩ : ∃ c rest, cs = c :: rest := by
      cases cs with
      | nil => simp [Stripped] at h
      | cons c rest => exact ⟨c, rest, rfl⟩
    have hshorter : rest.dropLast ≠ c :: rest := by
      intro heq
      have hlength := congrArg List.length heq
      simp only [List.length_dropLast, List.length_cons] at hlength
      omega
    exact iff_of_false (fun heq => hshorter (String.ofList_injective heq)) (not_not_intro h)
  · next h => simp [h]

/-- Code with the padding of another one is read as it is if and only if that is its own padding. -/
theorem spanCode_padding (hline : '\n' ∉ cs) (hticks : TickAtEnd cs ↔ TickAtEnd t.toList)
    (hspaces : Stripped t.toList → cs.head? = some ' ' ∧ cs.getLast? = some ' ') :
    spanCode false ((tickPadding t).toList ++ (cs ++ (tickPadding t).toList)) = .ofList cs ↔
      tickPadding (.ofList cs) = tickPadding t := by
  have hown : tickPadding (.ofList cs) = if TickAtEnd cs ∨ Stripped cs then " " else "" := by
    rw [tickPadding_eq, String.toList_ofList]
  by_cases hpadded : TickAtEnd t.toList ∨ Stripped t.toList
  · have hpadding : tickPadding t = " " := by rw [tickPadding_eq, if_pos hpadded]
    have hmarked : (∃ c ∈ cs, c ≠ ' ') ↔ TickAtEnd cs ∨ Stripped cs := by
      constructor
      · intro hother
        obtain hticked | hspaced := hpadded
        · exact .inl (hticks.2 hticked)
        · obtain ⟨hfirst, hlast⟩ := hspaces hspaced
          exact .inr ⟨hfirst, hlast, hother⟩
      · rintro ((hfirst | hlast) | hstripped)
        · exact ⟨_, List.mem_of_head? hfirst, by decide⟩
        · exact ⟨_, List.mem_of_getLast? hlast, by decide⟩
        · exact hstripped.2.2
    rw [hpadding, hown]
    refine (spanCode_spaced hline).trans (hmarked.trans ?_)
    split
    · next h => simp [h]
    · next h => simp [h]
  · have hpadding : tickPadding t = "" := by rw [tickPadding_eq, if_neg hpadded]
    rw [not_or, ← hticks] at hpadded
    rw [hpadding, hown]
    simpa [hpadded.1] using spanCode_bare hline

end Stripping
end DocTree.Preview

namespace DocTree.Markdown
open Text Render Layout Preview

section Rendering
variable {o : Options} {children : List Node} {code : String}

/-- What is written for code: ticks and padding on both sides of it. -/
def spanText (code : String) : String :=
  ticks (tickCount code) ++ (tickPadding code ++ (code ++ (tickPadding code ++ ticks (tickCount code))))

theorem renderRaw_codeSpan (hcode : replaceChar '\n' " " (Node.textsContent children) = code)
    (hne : code ≠ "") : renderRaw o (.codeSpan children) = .ok (spanText code) := by
  have hline : OneLine code := by
    rw [← hcode]
    exact oneLine_replaceChar (by decide) (.inr rfl)
  have hwrite (s : String) (out : Output) (hout : out.modes = {}) :
      write s out = (.ok (), out.wrote s) :=
    write_of_fits fun hc => by simp [Output.constrained, Modes.constrained, hout] at hc
  have hmid (out : Output) (hout : out.modes = {}) :
      withMode .markdownCode true (writeEscaped code) out = (.ok (), out.wrote code) := by
    refine codeText_apply (by rw [hout]) ?_ fun _ => hline
    rw [Output.escapeContext, hout]
    exact replaceChar_self '\n' code
  have hrun : codeSpan (Node.textsContent children) {} =
      (.ok (), ({} : Output).wrote (spanText code)) := by
    have hbody : codeSpan (Node.textsContent children) {} = (do
        write (ticks (tickCount code))
        write (tickPadding code)
        withMode .markdownCode true (writeEscaped code)
        write (tickPadding code)
        write (ticks (tickCount code)) : Render Unit) {} := by
      rw [codeSpan, hcode]
      simp only [String.isEmpty_iff, hne]
      rfl
    rw [hbody, bind_of_ok (hwrite _ _ rfl), bind_of_ok (hwrite _ _ rfl), bind_of_ok (hmid _ rfl),
      bind_of_ok (hwrite _ _ rfl), hwrite _ _ rfl]
    simp only [Output.wrote_wrote, spanText, String.append_assoc]
  rw [renderRaw, toText, render, renderNode, hrun]
  exact congrArg Except.ok (Buffer.write_text rfl _)

theorem toList_spanText (code : String) : (spanText code).toList =
    List.replicate (tickCount code) '\x60' ++ (((tickPadding code).toList ++ (code.toList ++
      (tickPadding code).toList)) ++ List.replicate (tickCount code) '\x60') := by
  simp [spanText, ticks]

/-- Whatever replaces the code between the ticks is read back if its runs of ticks are as short. -/
theorem inlines_spanText {cs : List Char} (hne : cs ≠ [])
    (hruns : longestRunFrom '\x60' 0 0 cs = longestRun code '\x60')
    (hends : TickAtEnd cs → tickPadding code = " ") :
    inlines false (List.replicate (tickCount code) '\x60' ++
        (((tickPadding code).toList ++ (cs ++ (tickPadding code).toList)) ++
          List.replicate (tickCount code) '\x60')) =
      [.code (spanCode false ((tickPadding code).toList ++ (cs ++ (tickPadding code).toList)))] := by
  have hlong : longestRunFrom '\x60' 0 0
      ((tickPadding code).toList ++ (cs ++ (tickPadding code).toList)) = longestRun code '\x60' := by
    obtain hpadding | hpadding := tickPadding_cases code
    · rw [hpadding, ← hruns, ← longestRunFrom_behind (show ' ' ≠ '\x60' by decide) cs]
      rfl
    · rw [hpadding, ← hruns]
      exact congrArg _ (List.append_nil cs)
  have hends' : ¬ TickAtEnd ((tickPadding code).toList ++ (cs ++ (tickPadding code).toList)) := by
    obtain hpadding | hpadding := tickPadding_cases code
    · have hlast : (' ' :: (cs ++ [' '])).getLast? = some ' ' := by
        rw [← List.cons_append, List.getLast?_concat]
      rw [hpadding]
      show ¬ TickAtEnd (' ' :: (cs ++ [' ']))
      simp [TickAtEnd, hlast]
    · rw [hpadding]
      show ¬ TickAtEnd (cs ++ [])
      intro hend
      rw [List.append_nil] at hend
      exact absurd (hpadding.symm.trans (hends hend)) (by decide)
  refine inlines_ticks (Nat.succ_pos _) (fun k hk => ?_) ?_ (fun h => hends' (.inl h))
    fun h => hends' (.inr h)
  · rw [tickCount, ← hlong]
    exact Nat.lt_succ_of_le (le_longestRunFrom_of_occurs (Nat.le_refl 0) hk)
  · simp [hne]

/-- The line endings of a reader in a code span that the writer has made one line of. -/
theorem unifyBreaks_spanText (hline : '\n' ∉ code.toList) : unifyBreaks (spanText code).toList =
    List.replicate (tickCount code) '\x60' ++ (((tickPadding code).toList ++
      (swapped '\r' '\n' code.toList ++ (tickPadding code).toList)) ++
        List.replicate (tickCount code) '\x60') := by
  have hfeedless : '\n' ∉ (spanText code).toList := by
    rw [toList_spanText]
    simp [hline, notMem_tickPadding]
  rw [unifyBreaks_feedless hfeedless, toList_spanText]
  simp only [swapped_append, swapped_of_notMem (notMem_tickPadding (show '\r' ≠ ' ' by decide) code),
    swapped_of_notMem (show '\r' ∉ List.replicate (tickCount code) '\x60' by simp)]

/-- What is read of code in which carriage returns have ended lines. -/
theorem spanCode_returns (hline : '\n' ∉ code.toList) :
    spanCode false ((tickPadding code).toList ++
        (swapped '\r' '\n' code.toList ++ (tickPadding code).toList)) = replaceChar '\r' " " code ↔
      tickPadding (replaceChar '\r' " " code) = tickPadding code := by
  have hspaced : replaceChar '\r' " " code = .ofList (swapped '\r' ' ' code.toList) := by
    rw [← String.toList_inj, toList_spaced, String.toList_ofList]
  have hsame : swapped '\n' ' ' ((tickPadding code).toList ++
        (swapped '\r' '\n' code.toList ++ (tickPadding code).toList)) =
      swapped '\n' ' ' ((tickPadding code).toList ++
        (swapped '\r' ' ' code.toList ++ (tickPadding code).toList)) := by
    have hbroken : swapped '\n' ' ' (swapped '\r' '\n' code.toList) =
        swapped '\n' ' ' (swapped '\r' ' ' code.toList) := swapped_swapped ' ' code.toList
    simp only [swapped_append, hbroken]
  rw [spanCode_congr hsame, hspaced]
  refine spanCode_padding (notMem_swapped hline (by decide))
    (tickAtEnd_swapped (by decide) (by decide)) fun hstripped => ?_
  simp [swapped, List.getLast?_map, hstripped.1, hstripped.2.1]

/-- The code of a span, with a space for each line feed. -/
def spanContent (children : List Node) : String :=
  replaceChar '\n' " " (Node.textsContent children)

/-- A code span is read back as one span. Where only line feeds end lines, that is its code with a
space for each of them. A carriage return ends a line for a reader too, and then the code has a space
for it as well if and only if the padding is the one for that code. -/
theorem codeSpan_reads_back (o : Options) (h : Node.textsContent children ≠ "") :
    ∃ text read, renderRaw o (.codeSpan children) = .ok text ∧
      inlines false text.toList = [.code (spanContent children)] ∧
      inlines false (unifyBreaks text.toList) = [.code read] ∧
      (read = replaceChar '\r' " " (spanContent children) ↔
        tickPadding (replaceChar '\r' " " (spanContent children)) =
          tickPadding (spanContent children)) := by
  generalize hcode : spanContent children = code
  have hline : '\n' ∉ code.toList := by
    rw [← hcode]
    exact oneLine_replaceChar (by decide) (.inr rfl)
  have hne : code.toList ≠ [] := by
    rw [← hcode, spanContent, toList_spaced, swapped, ne_eq, List.map_eq_nil_iff]
    exact fun hnil => h (String.toList_eq_nil_iff.1 hnil)
  have hticked (h : TickAtEnd code.toList) : tickPadding code = " " := by
    rw [tickPadding_eq, if_pos (.inl h)]
  refine ⟨spanText code, spanCode false ((tickPadding code).toList ++
    (swapped '\r' '\n' code.toList ++ (tickPadding code).toList)), ?_, ?_, ?_, ?_⟩
  · exact renderRaw_codeSpan hcode fun hempty => hne (by rw [hempty]; rfl)
  · have hread : spanCode false ((tickPadding code).toList ++ (code.toList ++
        (tickPadding code).toList)) = .ofList code.toList :=
      (spanCode_padding hline .rfl fun h => ⟨h.1, h.2.1⟩).2 (by rw [String.ofList_toList])
    rw [toList_spanText, inlines_spanText hne rfl hticked, hread, String.ofList_toList]
  · have hbreaks : longestRunFrom '\x60' 0 0 (swapped '\r' '\n' code.toList) =
        longestRun code '\x60' := by
      rw [← unifyBreaks_feedless hline]
      exact longestRunFrom_unifyBreaks (by decide) (by decide) _
    rw [unifyBreaks_spanText hline]
    refine inlines_spanText (by simpa [swapped] using hne) hbreaks fun hend => hticked ?_
    rwa [tickAtEnd_swapped (by decide) (by decide)] at hend
  · exact spanCode_returns hline

theorem codeSpan_reads_back_tick :
    Node.textsContent [.text " \x60\n"] ≠ "" ∧
      renderRaw {} (.codeSpan [.text " \x60\n"]) = .ok "\x60\x60  \x60  \x60\x60" ∧
      inlines false "\x60\x60  \x60  \x60\x60".toList = [.code " \x60 "] := by
  have hrun : renderRaw {} (.codeSpan [.text " \x60\n"]) = .ok "\x60\x60  \x60  \x60\x60" := by
    decide +kernel
  have hne : Node.textsContent [.text " \x60\n"] ≠ "" := by decide
  obtain ⟨text, _, htext, hread, -, -⟩ := codeSpan_reads_back {} hne
  obtain rfl : text = "\x60\x60  \x60  \x60\x60" := Except.ok.inj (htext.symm.trans hrun)
  exact ⟨hne, hrun, hread⟩

/-- The spaces that two carriage returns stand for are taken off the code. -/
theorem codeSpan_loses_spaces :
    renderRaw {} (.codeSpan [.text "\ra\r"]) = .ok "\x60\ra\r\x60" ∧
      inlines false (unifyBreaks "\x60\ra\r\x60".toList) = [.code "a"] ∧
      replaceChar '\r' " " (spanContent [.text "\ra\r"]) = " a " := by
  refine ⟨by decide +kernel, ?_, by decide +kernel⟩
  rfl

end Rendering
end DocTree.Markdown
