import DocTree.Proofs.Invariant
import DocTree.Proofs.TableRows
import Mathlib.Data.List.TakeWhile

/-! Lines under an indentation. While an indentation is in force every line that is begun stands
behind it, and an empty one behind what is left of it, whatever is written. So in a list only the
markers stand at the margin, and a quote goes on to its end. -/
namespace DocTree.Unicode

theorem dropBlankEnd_append_seen {cs rest : List Char} (h : ∃ c ∈ rest, ¬ isBlank c) :
    dropBlankEnd (cs ++ rest) = cs ++ dropBlankEnd rest := by
  have hne : ¬ (rest.reverse.dropWhile isBlank).isEmpty := by
    rw [List.isEmpty_iff, List.dropWhile_eq_nil_iff]
    simpa using h
  rw [dropBlankEnd, List.reverse_append, List.dropWhile_append, if_neg hne, List.reverse_append,
    List.reverse_reverse, dropBlankEnd]

theorem not_isBlank_of_isDigit {c : Char} (h : c.isDigit) : ¬ isBlank c := by
  have hrange : 48 ≤ c.toNat ∧ c.toNat ≤ 57 := by
    simpa [Char.isDigit, UInt32.le_iff_toNat_le] using h
  simp [isBlank, blankRanges, inRanges]
  omega

end DocTree.Unicode

namespace DocTree.Layout
open Text Unicode

/-- A text under an indentation, from a line that is begun or not to one that is or is not. -/
inductive Hangs (indent : List Char) : Bool → List Char → Bool → Prop
  | nil (begun : Bool) : Hangs indent begun [] begun
  | line {line rest : List Char} {last : Bool} (h : '\n' ∉ line)
    (hrest : Hangs indent true rest last) : Hangs indent true (line ++ rest) last
  | begin {rest : List Char} {last : Bool} (hrest : Hangs indent true rest last) :
    Hangs indent false (indent ++ rest) last
  | endLine {rest : List Char} {last : Bool} (hrest : Hangs indent false rest last) :
    Hangs indent true ('\n' :: rest) last
  | emptyLine {rest : List Char} {last : Bool} (hrest : Hangs indent false rest last) :
    Hangs indent false (dropBlankEnd indent ++ '\n' :: rest) last

/-- A line behind an indentation, or what is left of the indentation where there is no line. -/
def Under (indent line : List Char) : Prop := indent <+: line ∨ line = dropBlankEnd indent

section Hangs
variable {indent s t : List Char} {first mid last : Bool}

theorem Hangs.append (h : Hangs indent first s mid) (ht : Hangs indent mid t last) :
    Hangs indent first (s ++ t) last := by
  induction h with
  | nil => exact ht
  | line h _ ih =>
    rw [List.append_assoc]
    exact .line h (ih ht)
  | begin _ ih =>
    rw [List.append_assoc]
    exact .begin (ih ht)
  | endLine _ ih => exact .endLine (ih ht)
  | emptyLine _ ih =>
    rw [List.append_assoc]
    exact .emptyLine (ih ht)

theorem pieces_prefix {line : List Char} (h : '\n' ∉ line) {cs piece : List Char}
    {more : List (List Char)} (hcs : pieces (· == '\n') cs = piece :: more) :
    pieces (· == '\n') (line ++ cs) = (line ++ piece) :: more := by
  induction line with
  | nil => exact hcs
  | cons c line ih =>
    rw [List.mem_cons, not_or] at h
    have hc : (c == '\n') = false := beq_eq_false_iff_ne.2 (Ne.symm h.1)
    rw [List.cons_append, pieces, hc, ih h.2]
    rfl

/-- All lines of a text that ends with a line break are under the indentation, but for one that
was begun before. -/
theorem Hangs.lines (h : Hangs indent first s false) (hindent : '\n' ∉ indent) :
    ∃ lines, (∀ line ∈ if first then lines.tail else lines, Under indent line) ∧
      (first → lines ≠ []) ∧
      ∀ rest, pieces (· == '\n') (s ++ rest) = lines ++ pieces (· == '\n') rest := by
  generalize hlast : false = last at h
  induction h with
  | nil =>
    subst hlast
    exact ⟨[], List.forall_mem_nil _, nofun, fun _ => rfl⟩
  | @line line _ _ hline _ ih =>
    obtain ⟨lines, hunder, hne, hpieces⟩ := ih hlast
    obtain ⟨piece, more, rfl⟩ := List.exists_cons_of_ne_nil (hne rfl)
    refine ⟨(line ++ piece) :: more, hunder, fun _ => List.cons_ne_nil _ _, fun rest => ?_⟩
    rw [List.append_assoc, pieces_prefix hline (hpieces rest)]
    rfl
  | begin _ ih =>
    obtain ⟨lines, hunder, hne, hpieces⟩ := ih hlast
    obtain ⟨piece, more, rfl⟩ := List.exists_cons_of_ne_nil (hne rfl)
    refine ⟨(indent ++ piece) :: more, ?_, nofun, fun rest => ?_⟩
    · exact List.forall_mem_cons.2 ⟨.inl (List.prefix_append _ _), hunder⟩
    · rw [List.append_assoc, pieces_prefix hindent (hpieces rest)]
      rfl
  | endLine _ ih =>
    obtain ⟨lines, hunder, -, hpieces⟩ := ih hlast
    refine ⟨[] :: lines, hunder, fun _ => List.cons_ne_nil _ _, fun rest => ?_⟩
    rw [List.cons_append, List.cons_append, ← hpieces]
    rfl
  | emptyLine _ ih =>
    obtain ⟨lines, hunder, -, hpieces⟩ := ih hlast
    refine ⟨dropBlankEnd indent :: lines, ?_, nofun, fun rest => ?_⟩
    · exact List.forall_mem_cons.2 ⟨.inr rfl, hunder⟩
    · rw [List.append_assoc, List.cons_append, List.cons_append, ← hpieces]
      exact pieces_line (notMem_dropBlankEnd hindent) _

end Hangs

/-- The buffer is `start` with text added under the indentation, which is still in force. -/
structure Buffer.Hung (indent : List Char) (start b : Buffer) : Prop where
  under : indent <+: b.indent.toList
  oneLine : OneLine b.indent
  text : ∃ added, b.text.toList = start.text.toList ++ added ∧
    Hangs indent (!start.atLineStart) added (!b.atLineStart)

namespace Buffer
variable {indent : List Char} {start b b' : Buffer}

theorem Hung.add (h : Hung indent start b) (hindents : b'.indents = b.indents)
    (added : List Char) (htext : b'.text.toList = b.text.toList ++ added)
    (hadded : Hangs indent (!b.atLineStart) added (!b'.atLineStart)) : Hung indent start b' := by
  obtain ⟨hunder, hone, before, hbefore, hhangs⟩ := h
  rw [← indent_congr hindents] at hunder hone
  refine ⟨hunder, hone, before ++ added, ?_, hhangs.append hadded⟩
  rw [htext, hbefore, List.append_assoc]

theorem Hung.newline (h : Hung indent start b) : Hung indent start b.newline := by
  obtain ⟨more, hmore⟩ := h.under
  have hone : '\n' ∉ indent ++ more := by
    rw [hmore]
    exact h.oneLine
  have hindents : b.newline.indents = b.indents := b.extends_newline.indents
  cases hb : b.content with
  | some content =>
    refine h.add hindents ['\n'] (by simp [newline_begun hb]) ?_
    simpa [atLineStart, hb, newline_begun hb] using Hangs.endLine (.nil false)
  | none =>
    have hstart : b.atLineStart = true ∧ b.newline.atLineStart = true := by
      simp [Buffer.newline, atLineStart, hb]
    refine h.add hindents (dropBlankEnd (indent ++ more) ++ ['\n'])
      (by simp [Buffer.newline, hb, hmore]) ?_
    rw [hstart.1, hstart.2, Bool.not_true]
    by_cases hseen : ∃ c ∈ more, ¬ isBlank c
    · rw [dropBlankEnd_append_seen hseen, List.append_assoc]
      refine .begin (.line ?_ (.endLine (.nil false)))
      exact fun hmem => hone (List.mem_append_right _ (mem_of_mem_dropBlankEnd hmem))
    · have hblank : ∀ c ∈ more, isBlank c := by simpa using hseen
      rw [dropBlankEnd_append hblank]
      exact .emptyLine (.nil false)

theorem Hung.put (h : Hung indent start b) (c : Char) : Hung indent start (b.put c) := by
  by_cases hc : c = '\n'
  · rw [hc, put_newline]
    exact h.newline
  obtain ⟨more, hmore⟩ := h.under
  have hone : '\n' ∉ indent ++ more := by
    rw [hmore]
    exact h.oneLine
  have hindents : (b.put c).indents = b.indents := (b.extends_put c).indents
  cases hb : b.content with
  | some content =>
    refine h.add hindents [c] (by simp [put_begun hc hb]) ?_
    have hline : Hangs indent true ([c] ++ []) true := .line (by simpa using Ne.symm hc) (.nil true)
    simpa [atLineStart, hb, put_begun hc hb] using hline
  | none =>
    refine h.add hindents (indent ++ (more ++ [c]))
      (by simp [put_atStart hc hb, ← hmore]) ?_
    have hline : '\n' ∉ more ++ [c] := by
      rw [List.mem_append, not_or] at hone ⊢
      exact ⟨hone.2, by simpa using Ne.symm hc⟩
    simpa [atLineStart, hb, put_atStart hc hb] using Hangs.begin (.line hline (.nil true))

theorem Hung.write (h : Hung indent start b) (s : String) : Hung indent start (b.write s) := by
  rw [← String.ofList_toList (s := s)]
  induction s.toList generalizing b with
  | nil => exact h
  | cons c cs ih =>
    rw [write_ofList_cons]
    exact ih (h.put c)

theorem Hung.ensureNewLine (h : Hung indent start b) : Hung indent start b.ensureNewLine := by
  unfold Buffer.ensureNewLine
  split
  · exact h
  · exact h.newline

theorem Hung.ensureSkippedLine (h : Hung indent start b) :
    Hung indent start b.ensureSkippedLine := by
  unfold Buffer.ensureSkippedLine
  dsimp only
  split
  · exact h.ensureNewLine
  · exact h.ensureNewLine.newline

theorem Hung.pushIndent (h : Hung indent start b) {more : String} (hmore : OneLine more) :
    Hung indent start (b.pushIndent more) := by
  refine ⟨?_, ?_, h.text⟩
  · rw [indent_pushIndent, String.toList_append]
    exact h.under.trans (List.prefix_append _ _)
  · rw [indent_pushIndent]
    exact oneLine_append.2 ⟨h.oneLine, hmore⟩

/-- The first indentation of all. -/
theorem hung_first (hb : b.indents = []) {first : String} (hfirst : OneLine first) :
    Hung first.toList b (b.pushIndent first) := by
  have hindent : (b.pushIndent first).indent = first := by
    rw [indent_pushIndent, Buffer.indent, hb, List.foldl_nil, String.empty_append]
  refine ⟨?_, ?_, [], (List.append_nil _).symm, .nil _⟩
  · exact hindent.symm ▸ List.prefix_rfl
  · rwa [hindent]

/-- Behind an indentation the same indentations are in force as before. -/
theorem Hung.popIndent {before : Buffer} (h : Hung indent start b)
    (hbefore : Hung indent start before) (hindents : b.indents.tail = before.indents) :
    Hung indent start b.popIndent := by
  have htop : b.popIndent.indent = before.indent := indent_congr hindents
  refine ⟨?_, ?_, h.text⟩
  · rw [htop]
    exact hbefore.under
  · rw [htop]
    exact hbefore.oneLine

theorem atLineStart_ensureNewLine (b : Buffer) : b.ensureNewLine.atLineStart = true := by
  rw [atLineStart, ensureNewLine_content]
  rfl

theorem popIndent_ensureNewLine (b : Buffer) :
    b.popIndent.ensureNewLine.text = b.ensureNewLine.text := by
  cases hb : b.content <;> simp [ensureNewLine, atLineStart, popIndent, newline, hb]

end Buffer
end DocTree.Layout

namespace DocTree.Markdown
open Text Render Layout Unicode

/-- Whether a line begins with something other than a space. -/
def atMargin (line : List Char) : Bool := line.head?.any (· ≠ ' ')

/-- The lines that do not begin with a space. -/
def marginLines (cs : List Char) : List (List Char) := (pieces (· == '\n') cs).filter atMargin

def Output.Hung (indent : List Char) (start : Buffer) (out : Output) : Prop :=
  Buffer.Hung indent start out.buffer

instance (indent : List Char) (start : Buffer) : Maintained (Output.Hung indent start) where
  wrote s h := Buffer.Hung.write h s
  skipped h := Buffer.Hung.ensureSkippedLine h
  begun h := Buffer.Hung.ensureSkippedLine h
  inItem style position h _ := (Buffer.Hung.write h _).pushIndent (oneLine_spaces _)
  inQuote h _ := by
    unfold Output.inQuote Output.Hung
    dsimp only
    split
    · exact Buffer.Hung.pushIndent h (by decide)
    · exact (Buffer.Hung.write h _).pushIndent (by decide)
  entered _ h := h
  left hbefore h hindents := Buffer.Hung.popIndent h hbefore hindents

section Items
variable {o : Options} {style : ListStyle} {position : Nat} {node : Node} {out out' : Output}

/-- The indentation under the marker of an item. -/
def hanging (style : ListStyle) (position : Nat) : List Char :=
  List.replicate (marker style position).length ' '

theorem exists_marker_head (style : ListStyle) (position : Nat) :
    ∃ c rest, (marker style position).toList = c :: rest ∧
      (style = .unordered ∧ c = '-' ∨ c.isDigit) := by
  cases style with
  | unordered => exact ⟨'-', [' '], by rw [marker]; rfl, .inl ⟨rfl, rfl⟩⟩
  | ordered start =>
    obtain ⟨digit, digits, hdigits⟩ := List.exists_cons_of_ne_nil
      (Nat.toDigits_ne_nil (b := 10) (n := start.toNat + position))
    have hdigit : digit.isDigit := Nat.isDigit_of_mem_toDigits (by decide) (by decide)
      (hdigits ▸ List.mem_cons_self)
    have hmarker : marker (.ordered start) position = (start.toNat + position).repr ++ ". " := rfl
    have hhead : (marker (.ordered start) position).toList = digit :: (digits ++ ['.', ' ']) := by
      simp [hmarker, Nat.repr_eq_ofList_toDigits, hdigits]
    exact ⟨digit, _, hhead, .inr hdigit⟩

theorem marker_ne_nil (style : ListStyle) (position : Nat) :
    (marker style position).toList ≠ [] := by
  obtain ⟨c, rest, hmarker, -⟩ := exists_marker_head style position
  rw [hmarker]
  exact List.cons_ne_nil _ _

/-- What an item writes behind its marker hangs under the indentation. -/
theorem markedItem_hangs (hindents : out.buffer.indents = [])
    (h : markedItem style position (render o node) out = (.ok (), out')) :
    ∃ written, out'.closed.text.toList =
        out.closed.text.toList ++ (marker style position).toList ++ written ∧
      Hangs (hanging style position) true written false := by
  obtain ⟨last, hlast, rfl⟩ := markedItem_ok (framed_render node) h
  let start : Buffer := out.closed.buffer.write (marker style position)
  have htop : out.closed.buffer.indents = [] :=
    out.buffer.extends_ensureNewLine.indents.trans hindents
  have hbegun : start.atLineStart = false :=
    out.closed.buffer.begun_write (oneLine_marker style position) (marker_ne_nil style position)
  have htext : start.text = out.closed.text ++ marker style position := Buffer.write_text htop _
  have hstart : Buffer.Hung (hanging style position) start
      (start.pushIndent (.ofList (hanging style position))) := by
    have hnone : start.indents = [] := (out.closed.buffer.extends_write _).indents.trans htop
    have hfirst := Buffer.hung_first hnone (oneLine_spaces (marker style position).length)
    rwa [String.toList_ofList] at hfirst
  have hend : Buffer.Hung (hanging style position) start last.buffer := by
    have hbehind : Output.Hung (hanging style position) start { out.closed.inItem style position with
      modes := out.modes.set .listItem true } := hstart
    have hkept := maintained_render o node hbehind
    rwa [hlast] at hkept
  obtain ⟨-, -, written, hwritten, hhangs⟩ := hend.ensureNewLine
  refine ⟨written, ?_, ?_⟩
  · rw [← String.toList_append, ← htext, ← hwritten]
    exact congrArg String.toList last.buffer.popIndent_ensureNewLine
  · rwa [hbegun, Buffer.atLineStart_ensureNewLine] at hhangs

theorem marker_atMargin (style : ListStyle) (position : Nat) (body : List Char) :
    atMargin ((marker style position).toList ++ body) := by
  obtain ⟨c, rest, hmarker, hc⟩ := exists_marker_head style position
  have hspace : c ≠ ' ' := by
    rintro rfl
    obtain ⟨-, hdash⟩ | hdigit := hc
    · cases hdash
    · cases hdigit
  rw [hmarker]
  simpa [atMargin] using hspace

/-- Under an indentation of spaces no line begins at the margin. -/
theorem not_atMargin_of_under {n : Nat} {line : List Char}
    (h : Under (List.replicate (n + 1) ' ') line) : ¬ atMargin line := by
  obtain ⟨more, rfl⟩ | rfl := h
  · simp [atMargin, List.replicate_succ]
  · have hall : ∀ c ∈ List.replicate (n + 1) ' ', isBlank c := by
      intro c hc
      rw [List.eq_of_mem_replicate hc]
      decide
    rw [← List.nil_append (List.replicate (n + 1) ' '), dropBlankEnd_append hall]
    decide

/-- An item is a line that begins with its marker, and lines that begin with a space or are
empty. -/
theorem markedItem_lines (hindents : out.buffer.indents = [])
    (h : markedItem style position (render o node) out = (.ok (), out')) :
    ∃ body written, out'.closed.text.toList = out.closed.text.toList ++ written ∧
      ∀ rest, marginLines (written ++ rest) =
        ((marker style position).toList ++ body) :: marginLines rest := by
  obtain ⟨written, htext, hhangs⟩ := markedItem_hangs hindents h
  have hspaces : '\n' ∉ hanging style position := by simp [hanging, List.mem_replicate]
  obtain ⟨lines, hunder, hne, hpieces⟩ := hhangs.lines hspaces
  obtain ⟨body, below, rfl⟩ := List.exists_cons_of_ne_nil (hne rfl)
  refine ⟨body, (marker style position).toList ++ written, ?_, fun rest => ?_⟩
  · rw [htext, List.append_assoc]
  have hbelow : below.filter atMargin = [] := by
    rw [List.filter_eq_nil_iff]
    intro line hline
    obtain ⟨n, hn⟩ := Nat.exists_eq_succ_of_ne_zero (n := (marker style position).length)
      (by simpa using marker_ne_nil style position)
    have hspaced := hunder line hline
    rw [hanging, hn] at hspaced
    exact not_atMargin_of_under hspaced
  have hfirst : pieces (· == '\n') ((marker style position).toList ++ written ++ rest) =
      ((marker style position).toList ++ body) :: (below ++ pieces (· == '\n') rest) := by
    rw [List.append_assoc, pieces_prefix (oneLine_marker style position) (hpieces rest)]
    rfl
  rw [marginLines, hfirst, List.filter_cons_of_pos (marker_atMargin style position body),
    List.filter_append, hbelow, List.nil_append, marginLines]

/-- The lines that begin at the margin are those of the markers. -/
theorem markedItems_lines (items : List Node) (hindents : out.buffer.indents = [])
    (h : (do markedItems style position (items.map (render o)); ensureNewLine) out =
      (.ok (), out')) :
    ∃ bodies : List (List Char), bodies.length = items.length ∧
      ∃ written, out'.text.toList = out.closed.text.toList ++ written ∧
        ∀ rest, marginLines (written ++ rest) =
          (bodies.mapIdx fun i body => (marker style (position + i)).toList ++ body) ++
            marginLines rest := by
  induction items generalizing position out with
  | nil =>
    obtain rfl : out' = out.closed := ensureNewLine_ok h
    exact ⟨[], rfl, [], (List.append_nil _).symm, fun _ => rfl⟩
  | cons item rest ih =>
    rw [List.map_cons, markedItems_cons, bind_assoc] at h
    obtain ⟨_, mid, hmid, hrest⟩ := bind_eq_ok h
    have hframed := framed_markedItem (framed_render (o := o) item) style position
    have hkept : mid.buffer.indents = [] := (hframed.of_eq hmid).buffer.indents.trans hindents
    obtain ⟨body, written, htext, hlines⟩ := markedItem_lines hindents hmid
    obtain ⟨bodies, hlength, more, hmore, hlater⟩ := ih hkept hrest
    refine ⟨body :: bodies, by rw [List.length_cons, hlength, List.length_cons], written ++ more, ?_,
      fun rest => ?_⟩
    · rw [hmore, htext, List.append_assoc]
    · rw [List.append_assoc, hlines, hlater, List.mapIdx_cons]
      simp only [Nat.add_zero, Nat.add_assoc, Nat.add_comm 1, List.cons_append]

end Items

section Boundaries
variable {o : Options} {markdown : String}

/-- The first list of a document begins behind a line break. -/
theorem atList_start (style : ListStyle) : ({} : Output).atList style = ({} : Output).skipped := rfl

theorem closed_start : ({} : Output).skipped.closed.text = "\n" := by decide

theorem splitAt_eq (markdown : String) :
    splitAt '\n' markdown = (pieces (· == '\n') markdown.toList).map String.ofList := rfl

theorem renderRaw_list_lines {style : ListStyle} {items : List Node}
    (h : renderRaw o (.list style items) = .ok markdown) :
    ∃ bodies : List String, bodies.length = items.length ∧
      (splitAt '\n' markdown).filter (atMargin ·.toList) =
        bodies.mapIdx fun i body => marker style i ++ body := by
  obtain ⟨out, hrun, rfl⟩ := renderRaw_ok h
  rw [render, renderNode, renderParts_eq_map] at hrun
  obtain ⟨last, hlast, rfl⟩ := list_ok rfl (framed_renders items) hrun
  rw [atList_start] at hlast
  obtain ⟨bodies, hlength, written, htext, hlines⟩ := markedItems_lines items rfl hlast
  have hmarkdown : last.text.toList = '\n' :: written := by
    rw [htext]
    exact congrArg (·.toList ++ written) closed_start
  have hmargin : marginLines ('\n' :: written) =
      bodies.mapIdx fun i body => (marker style i).toList ++ body := by
    have hall := hlines []
    have hnone : marginLines [] = [] := rfl
    simp only [List.append_nil, Nat.zero_add, hnone] at hall
    exact hall
  refine ⟨bodies.map .ofList, by rw [List.length_map, hlength], ?_⟩
  calc (splitAt '\n' last.text).filter (atMargin ·.toList)
      = (marginLines ('\n' :: written)).map String.ofList := by
        rw [splitAt_eq, hmarkdown, List.filter_map, marginLines]
        congr 2
        funext line
        rw [Function.comp_apply, String.toList_ofList]
    _ = (bodies.map String.ofList).mapIdx fun i body => marker style i ++ body := by
        rw [hmargin]
        exact List.ext_getElem (by simp) fun i _ _ => by simp

theorem renderRaw_quote_lines {children : List Node}
    (h : renderRaw o (.quote children) = .ok markdown) :
    ∃ lines, splitAt '\n' markdown = "" :: lines ++ [""] ∧
      ∀ line ∈ lines, line.toList.head? = some '>' := by
  obtain ⟨out, hrun, rfl⟩ := renderRaw_ok h
  have hframed : Framed (render o (.group children)) := framed_render _
  obtain ⟨last, hlast, rfl⟩ := quote_ok rfl hframed hrun
  let start : Buffer := ({} : Output).block.buffer
  have hstart : Output.Hung "> ".toList start ({} : Output).block.inQuote :=
    Buffer.hung_first rfl (by decide)
  have hend : Buffer.Hung "> ".toList start last.buffer := by
    have hkept := maintained_render o (.group children) hstart
    rwa [hlast] at hkept
  obtain ⟨-, -, written, hwritten, hhangs⟩ := hend.ensureNewLine
  rw [Buffer.atLineStart_ensureNewLine] at hhangs
  obtain ⟨lines, hunder, -, hpieces⟩ := hhangs.lines (by decide)
  have hmarkdown : last.buffer.popIndent.ensureNewLine.text.toList = '\n' :: written := by
    have htext : start.text = "\n" := by decide
    rw [Buffer.popIndent_ensureNewLine, hwritten, htext]
    rfl
  refine ⟨lines.map .ofList, ?_, List.forall_mem_map.2 fun line hline => ?_⟩
  · have hsplit : pieces (· == '\n') ('\n' :: written) = [] :: lines ++ [[]] := by
      have hall := hpieces []
      rw [List.append_nil] at hall
      exact congrArg ([] :: ·) hall
    calc splitAt '\n' last.buffer.popIndent.ensureNewLine.text
        = ([] :: lines ++ [[]]).map String.ofList := by rw [splitAt_eq, hmarkdown, hsplit]
      _ = "" :: lines.map .ofList ++ [""] := by simp
  · rw [String.toList_ofList]
    obtain ⟨more, rfl⟩ | rfl := hunder line hline
    · rfl
    · decide

/-- In a list the lines that do not begin with a space are one for each item, in order, each
beginning with the marker of the item. In a quote every line behind the first line break begins
with the mark of a quote. -/
theorem renderRaw_boundaries :
    (∀ style items, renderRaw o (.list style items) = .ok markdown →
      ∃ bodies : List String, bodies.length = items.length ∧
        (splitAt '\n' markdown).filter (atMargin ·.toList) =
          bodies.mapIdx fun i body => marker style i ++ body) ∧
      ∀ children, renderRaw o (.quote children) = .ok markdown →
        ∃ lines, splitAt '\n' markdown = "" :: lines ++ [""] ∧
          ∀ line ∈ lines, line.toList.head? = some '>' :=
  ⟨fun _ _ => renderRaw_list_lines, fun _ => renderRaw_quote_lines⟩

end Boundaries

/-- Blank lines in text and code, a quote that begins with one, a list in the list, a table and
nothing at all. -/
def deepParts : List Node :=
  [.text "a\n\nb", .code (some "rs") "x\n\n# y",
    .group [.rule, .quote [.text "\n", .paragraph [.text "q"]]],
    .list .unordered [.text "", .table [.text "h"] [[.text "c"]]], .text ""]

def deepList : String :=
  "\n9. a\n\n   b\n10. ```rs\n    x\n\n    # y\n    ```\n11. ---\n\n    >\n    > q\n12. \n    - \n" ++
    "    - \n\n      | h |\n      | --- |\n      | c |\n13. \n"

def deepQuote : String :=
  "\n> a\n>\n> b\n>\n> ```rs\n> x\n>\n> # y\n> ```\n>\n> ---\n>\n> >\n> > q\n>\n> - \n> - \n>\n" ++
    ">   | h |\n>   | --- |\n>   | c |\n"

theorem renderRaw_boundaries_deep :
    (renderRaw {} (.list (.ordered 9) deepParts) = .ok deepList ∧
      ∃ bodies : List String, bodies.length = deepParts.length ∧
        (splitAt '\n' deepList).filter (atMargin ·.toList) =
          bodies.mapIdx fun i body => marker (.ordered 9) i ++ body) ∧
      renderRaw {} (.quote deepParts) = .ok deepQuote ∧
        ∃ lines, splitAt '\n' deepQuote = "" :: lines ++ [""] ∧
          ∀ line ∈ lines, line.toList.head? = some '>' := by
  have hlist : renderRaw {} (.list (.ordered 9) deepParts) = .ok deepList := by decide +kernel
  have hquote : renderRaw {} (.quote deepParts) = .ok deepQuote := by decide +kernel
  exact ⟨⟨hlist, renderRaw_boundaries.1 _ _ hlist⟩, hquote, renderRaw_boundaries.2 _ hquote⟩

end DocTree.Markdown
