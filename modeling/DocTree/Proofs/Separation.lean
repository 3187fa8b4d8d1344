import DocTree.Proofs.Respect

/-! Blank lines between siblings. A block that begins with a break stands behind an empty line,
whatever was written before it, unless a block before it was left empty or a quote ended in a bare
mark. Nothing puts an empty line behind a block, so a sibling that does not begin with a break goes
on in its last line. -/
namespace DocTree

mutual

/-- Whether writing the node begins with a break. Most blocks need none right behind the start of
a block that is still empty, which `fresh` stands for. -/
def Node.breaksLine (fresh : Bool) : Node → Bool
  | .list _ _ | .table _ _ => true
  | .rule | .code _ _ | .richCode _ _ | .heading _ _ _ | .paragraph _ | .quote _
  | .collapsible _ _ => !fresh
  | .element tag _ _ => Html.TagClass.ofTag tag == .block && !fresh
  | .group children => Node.startBreaks fresh children
  | _ => false

def Node.startBreaks (fresh : Bool) : List Node → Bool
  | [] => false
  | first :: _ => first.breaksLine fresh

end

/-- The text holds something other than white space. -/
def Written (s : String) : Prop := ∃ c ∈ s.toList, ¬ Unicode.isBlank c

/-- The last line of the text is over, and it is empty. -/
def EndsBlank (s : String) : Prop := ∃ t, s = t ++ "\n\n"

namespace Layout.Buffer
variable {b : Buffer}

/-- A line that has no content yet is the first one, or begins behind a line break. -/
def Lined (b : Buffer) : Prop := b.content = none → b.text = "" ∨ ∃ s, b.text = s ++ "\n"

theorem lined_newline (b : Buffer) : b.newline.Lined := by
  intro _
  right
  cases hb : b.content with
  | none =>
    refine ⟨b.text ++ String.ofList (Unicode.dropBlankEnd b.indent.toList), ?_⟩
    rw [newline, hb]
    rfl
  | some s => exact ⟨b.text, by rw [newline_begun hb]⟩

theorem lined_put (b : Buffer) (c : Char) : (b.put c).Lined := by
  by_cases hc : c = '\n'
  · rw [hc, put_newline]
    exact b.lined_newline
  · intro hnone
    cases hb : b.content with
    | none => simp [put_atStart hc hb] at hnone
    | some s => simp [put_begun hc hb] at hnone

theorem Lined.write (h : b.Lined) (s : String) : (b.write s).Lined := by
  rw [← String.ofList_toList (s := s)]
  induction s.toList generalizing b with
  | nil => exact h
  | cons c cs ih =>
    rw [write_ofList_cons]
    exact ih (b.lined_put c)

theorem Lined.ensureSkippedLine (h : b.Lined) : b.ensureSkippedLine.Lined := by
  have hline : b.ensureNewLine.Lined := by
    unfold ensureNewLine
    split
    · exact h
    · exact b.lined_newline
  unfold Buffer.ensureSkippedLine
  dsimp only
  split
  · exact hline
  · exact lined_newline _

/-- Without indentation a break adds line breaks only and leaves an empty line, unless the last
line counts as blank already. -/
theorem ensureSkippedLine_text (h : b.Lined) (hindents : b.indents = []) (htext : b.text ≠ "")
    (hlast : ¬ (b.content = none ∧ b.afterBlank)) :
    ∃ gap, b.ensureSkippedLine.text = b.text ++ gap ∧ (∀ c ∈ gap.toList, c = '\n') ∧
      EndsBlank (b.text ++ gap) := by
  cases hb : b.content with
  | some s =>
    rw [ensureSkippedLine_begun hb hindents]
    exact ⟨"\n\n", String.append_assoc, by simp, b.text, rfl⟩
  | none =>
    have hblank : b.afterBlank = false := by simpa [hb] using hlast
    obtain ⟨s, hs⟩ := (h hb).resolve_left htext
    rw [ensureSkippedLine_atStart hb hblank hindents]
    exact ⟨"\n", rfl, by simp, s, by rw [hs, String.append_assoc]; rfl⟩

end Layout.Buffer

namespace Markdown
open Render Layout

def Output.Lined (out : Output) : Prop := out.buffer.Lined

instance : Kept Output.Lined where
  wrote h _ := Buffer.Lined.write h _
  setMode h _ := h
  restore h _ := h
  skipLine h _ := Buffer.Lined.ensureSkippedLine h
  markFresh h _ := h
  pushIndent h _ := h
  popIndent h := h

/-- The output behind a break. -/
def Output.skipped (out : Output) : Output := { out with buffer := out.buffer.ensureSkippedLine }

theorem Output.skipped_skipped (out : Output) : out.skipped.skipped = out.skipped := by
  rw [skipped, skipped, Buffer.ensureSkippedLine_again]

/-- Where no mode is set and the last block is still empty or not, as `fresh` says, the steps fail
at once, or one more break in front of them makes no difference. -/
def Breaks (fresh : Bool) (steps : Render Unit) : Prop :=
  (∃ error, ∀ out : Output, out.modes = {} → out.fresh = fresh → steps out = (.error error, out)) ∨
    ∀ out : Output, out.modes = {} → out.fresh = fresh → steps out.skipped = steps out

section Breaks
variable {fresh : Bool} {steps next : Render Unit}

theorem breaks_of_skips (next : Render Unit)
    (h : ∀ out : Output, out.modes = {} → out.fresh = fresh → steps out = next out.skipped) :
    Breaks fresh steps := by
  right
  intro out hmodes hfresh
  rw [h out.skipped hmodes hfresh, h out hmodes hfresh, Output.skipped_skipped]

theorem Breaks.congr (h : Breaks fresh next)
    (heq : ∀ out : Output, out.modes = {} → steps out = next out) : Breaks fresh steps := by
  cases h with
  | inl h =>
    obtain ⟨error, h⟩ := h
    left
    exact ⟨error, fun out hmodes hfresh => by rw [heq out hmodes, h out hmodes hfresh]⟩
  | inr h =>
    right
    intro out hmodes hfresh
    rw [heq out hmodes, heq out.skipped hmodes]
    exact h out hmodes hfresh

theorem Breaks.then (h : Breaks fresh steps) (next : Render Unit) :
    Breaks fresh (do steps; next) := by
  cases h with
  | inl h =>
    obtain ⟨error, h⟩ := h
    left
    exact ⟨error, fun out hmodes hfresh => by rw [bind_apply, h out hmodes hfresh]⟩
  | inr h =>
    right
    intro out hmodes hfresh
    rw [bind_apply, bind_apply, h out hmodes hfresh]

theorem breaks_fail (error : RenderError) : Breaks fresh (fail error) :=
  .inl ⟨error, fun _ _ _ => rfl⟩

theorem Breaks.unlessConstrained (h : Breaks fresh next) :
    Breaks fresh (do if ← constrained then steps else next) := by
  apply h.congr
  rintro ⟨buffer, modes, _⟩ rfl
  rfl

theorem breaks_ensureSkippedLine (next : Render Unit) :
    Breaks fresh (do ensureSkippedLine; next) := by
  apply breaks_of_skips next
  rintro ⟨buffer, modes, _⟩ rfl _
  rfl

theorem breaks_paragraphBreak (body : Render Unit) : Breaks false (paragraphBreak body) := by
  apply breaks_of_skips (withMode .htmlBlock false do markFresh; body)
  rintro ⟨buffer, modes, fresh⟩ rfl rfl
  rfl

theorem breaks_rule : Breaks false rule := (breaks_paragraphBreak _).unlessConstrained

theorem breaks_codeBlock (language : Option String) (code : String) :
    Breaks false (codeBlock language code) := (breaks_paragraphBreak _).unlessConstrained

theorem breaks_heading (level : UInt8) (anchor : Option String) (body : Render Unit) :
    Breaks false (heading level anchor body) := by
  rw [heading_eq]
  split
  · exact breaks_fail _
  · exact (breaks_paragraphBreak _).unlessConstrained

theorem breaks_table (header : List (Render Unit)) (rows : List (List (Render Unit))) :
    Breaks fresh (table header rows) := by
  rw [table_eq]
  split
  · exact breaks_fail _
  · exact (breaks_ensureSkippedLine _).unlessConstrained

theorem breaks_list (style : ListStyle) (items : List (Render Unit)) :
    Breaks fresh (list style items) := by
  apply (breaks_ensureSkippedLine (withMode .htmlBlock false do
    markedItems style 0 items
    ensureNewLine)).congr
  rintro ⟨buffer, modes, _⟩ rfl
  rfl

/-- Outside of HTML blocks the tags of a block stand on lines of their own. -/
theorem element_apply {tag : String} (htag : Html.TagClass.ofTag tag = .block)
    (attributes : Dict String) (body : Render Unit) {out : Output} (hmodes : out.modes = {}) :
    element tag attributes body out =
      (if attributes.isEmpty && Html.lowerAscii tag == "p" then paragraphBreak body
        else blockElement tag attributes body) out := by
  obtain ⟨buffer, modes, fresh⟩ := out
  subst hmodes
  unfold element
  rw [htag]
  generalize attributes.isEmpty = empty, Html.lowerAscii tag = name
  cases empty <;> cases name == "p" <;> rfl

theorem breaks_element {tag : String} (htag : Html.TagClass.ofTag tag = .block)
    (attributes : Dict String) (body : Render Unit) :
    Breaks false (element tag attributes body) := by
  apply Breaks.congr _ fun out => element_apply htag attributes body
  split <;> exact breaks_paragraphBreak _

variable {o : Options}

theorem breaks_render {node : Node} (h : node.breaksLine fresh) : Breaks fresh (render o node) := by
  have hfresh {fresh : Bool} (h : (!fresh) = true) : fresh = false := by simpa using h
  induction node with
  | text | comment | image | notice | emphasis | codeSpan | link | page => cases h
  | rule => exact hfresh h ▸ breaks_rule
  | code language s => exact hfresh h ▸ breaks_codeBlock language s
  | group children ih =>
    cases children with
    | nil => cases h
    | cons first rest => exact (ih first List.mem_cons_self h).then _
  | quote children => exact hfresh h ▸ (breaks_paragraphBreak _).unlessConstrained
  | element tag attributes children =>
    simp only [Node.breaksLine, Bool.and_eq_true, beq_iff_eq] at h
    exact hfresh h.2 ▸ breaks_element h.1 attributes _
  | richCode language children =>
    rw [render, renderNode, hfresh h]
    split
    · exact (breaks_paragraphBreak _).unlessConstrained
    · exact breaks_codeBlock _ _
  | paragraph children => exact hfresh h ▸ breaks_element (by decide +kernel) ∅ _
  | heading level anchor children => exact hfresh h ▸ breaks_heading level anchor _
  | list style items => exact breaks_list style _
  | table header rows => exact breaks_table _ _
  | collapsible summary children => exact hfresh h ▸ (breaks_paragraphBreak _).unlessConstrained

end Breaks

section Siblings
variable (o : Options)

/-- The steps up to the turn of a node behind its elder siblings. -/
def turn (before : List Node) (node : Node) : Render Unit := do
  render o (.group before)
  separateLists (before.getLast?.any Node.isList) node.isList

theorem renderNodes_append (head : PageMetadata → Render Unit) (afterList : Bool)
    (before rest : List Node) : renderNodes o head afterList (before ++ rest) = (do
      renderNodes o head afterList before
      renderNodes o head (before.getLast?.elim afterList Node.isList) rest) := by
  induction before generalizing afterList with
  | nil => rfl
  | cons first before ih =>
    have hlast : (first :: before).getLast?.elim afterList Node.isList =
        before.getLast?.elim first.isList Node.isList := by
      cases hb : before.getLast? <;> simp [List.getLast?_cons, hb]
    rw [List.cons_append, renderNodes, renderNodes, ih, hlast]
    simp only [bind_assoc]

theorem render_siblings (before : List Node) (node : Node) (after : List Node) :
    render o (.group (before ++ node :: after)) = (do
      turn o before node
      render o node
      renderNodes o (pageHead o) node.isList after) := by
  have hlast : before.getLast?.elim false Node.isList = before.getLast?.any Node.isList := by
    cases before.getLast? <;> rfl
  simp only [render, turn, renderNode, renderNodes_append, hlast, renderNodes, bind_assoc]

variable {o} {before after : List Node} {node : Node} {mid : Output}

theorem extends_bind (steps : Render Unit) {next : Render Unit} (h : Framed next) (out : Output) :
    (steps out).2.Extends ((do steps; next : Render Unit) out).2 := by
  rw [bind_apply]
  split
  · next heq => rw [heq]; exact h _
  · next heq => rw [heq]; exact .refl _

theorem framed_turn : Framed (turn o before node) :=
  (framed_renderNode framed_pageHead _).then (framed_separateLists _ _)

theorem lined_turn (h : turn o before node {} = (.ok (), mid)) : mid.Lined := by
  have hsteps : Respects (Keeping Output.Lined) false (turn o before node) :=
    (respects_render o _ false).then (respects_separateLists _ _)
  have hstart : Output.Lined {} := fun _ => .inl rfl
  have hkept : Output.Lined (turn o before node {}).2 := hsteps.kept hstart
  rwa [h] at hkept

/-- What a node writes begins behind an empty line if the node begins with a break and the last
line does not count as blank without being empty, as the bare mark of a quote does. -/
theorem render_behind_blank (hmid : turn o before node {} = (.ok (), mid))
    (hbefore : Written mid.text)
    (hbreak : EndsBlank mid.text ∨
      node.breaksLine mid.fresh ∧ ¬ (mid.buffer.content = none ∧ mid.buffer.afterBlank))
    (hnode : ∃ added, (render o node mid).2.text = mid.text ++ added ∧ Written added) :
    ∃ gap body rest, (render o node mid).2.text = mid.text ++ gap ++ body ∧
      (render o (.group (before ++ node :: after)) {}).2.text = mid.text ++ gap ++ body ++ rest ∧
      (∀ c ∈ gap.toList, c = '\n') ∧ EndsBlank (mid.text ++ gap) := by
  have hframe : ({} : Output).Extends mid := framed_turn.of_eq hmid
  have hafter : Framed (renderNodes o (pageHead o) node.isList after) :=
    framed_renderNodes (fun n _ => framed_renderNode framed_pageHead n) _
  have hgap : ∃ gap body, (render o node mid).2.text = mid.text ++ gap ++ body ∧
      (∀ c ∈ gap.toList, c = '\n') ∧ EndsBlank (mid.text ++ gap) := by
    obtain ⟨added, hadded, hwritten⟩ := hnode
    cases hbreak with
    | inl hblank => exact ⟨"", added, by simpa using hadded, by simp, by simpa using hblank⟩
    | inr h =>
      obtain ⟨hbreaks, hlast⟩ := h
      cases breaks_render (o := o) hbreaks with
      | inl hfails =>
        obtain ⟨error, hfails⟩ := hfails
        have hnone : added = "" := by simpa [hfails mid hframe.modes rfl] using hadded.symm
        simp [hnone, Written] at hwritten
      | inr hskips =>
        have hsome : mid.text ≠ "" := fun hnone => by simp [hnone, Written] at hbefore
        obtain ⟨gap, hgap, hbreaks, hblank⟩ :=
          Buffer.ensureSkippedLine_text (lined_turn hmid) hframe.buffer.indents hsome hlast
        obtain ⟨body, hbody, -⟩ := (render_extends o node mid.skipped).buffer.text
        rw [hskips mid hframe.modes rfl] at hbody
        exact ⟨gap, body, hbody.trans (congrArg (· ++ body) hgap), hbreaks, hblank⟩
  obtain ⟨gap, body, hbody, hbreaks, hblank⟩ := hgap
  obtain ⟨rest, hrest, -⟩ := (extends_bind (render o node) hafter mid).buffer.text
  refine ⟨gap, body, rest, hbody, ?_, hbreaks, hblank⟩
  rw [render_siblings, bind_apply, hmid, ← hbody]
  exact hrest

/-- The output behind a table and a paragraph. -/
def behindLine : Output where
  buffer := { text := "\n| a |\n| --- |\n\nb", content := some "b", afterBlank := true }

/-- A quote behind a table and a paragraph, and a text that goes on behind the quote. -/
theorem render_behind_blank_quote :
    turn {} [.table [.text "a"] [], .paragraph [.text "b"]] (.quote [.text "c"]) {} =
        (.ok (), behindLine) ∧
      Written behindLine.text ∧ Node.breaksLine behindLine.fresh (.quote [.text "c"]) ∧
      ¬ (behindLine.buffer.content = none ∧ behindLine.buffer.afterBlank) ∧
      ∃ gap body rest,
        (render {} (.quote [.text "c"]) behindLine).2.text = behindLine.text ++ gap ++ body ∧
        (render {} (.group [.table [.text "a"] [], .paragraph [.text "b"], .quote [.text "c"],
          .text "d"]) {}).2.text = behindLine.text ++ gap ++ body ++ rest ∧
        (∀ c ∈ gap.toList, c = '\n') ∧ EndsBlank (behindLine.text ++ gap) := by
  have hmid : turn {} [.table [.text "a"] [], .paragraph [.text "b"]] (.quote [.text "c"]) {} =
      (.ok (), behindLine) := by decide +kernel
  have hbefore : Written behindLine.text := ⟨'a', by decide, by decide⟩
  have hbreaks : Node.breaksLine behindLine.fresh (.quote [.text "c"]) := rfl
  have hlast : ¬ (behindLine.buffer.content = none ∧ behindLine.buffer.afterBlank) := by decide
  have hadded : (render {} (.quote [.text "c"]) behindLine).2.text =
      behindLine.text ++ "\n\n> c\n" := by decide +kernel
  exact ⟨hmid, hbefore, hbreaks, hlast, render_behind_blank hmid hbefore (.inr ⟨hbreaks, hlast⟩)
    ⟨_, hadded, 'c', by decide, by decide⟩⟩

/-- A text goes on in the line of the paragraph before it, a paragraph in an item that was left
empty, and behind the bare mark of a quote no line is skipped. -/
theorem renderRaw_runOn :
    renderRaw {} (.group [.paragraph [.text "a"], .text "b"]) = .ok "\nab" ∧
      renderRaw {} (.group [.list .unordered [.text "a", .text ""], .paragraph [.text "b"]]) =
        .ok "\n- a\n- \nb" ∧
      renderRaw {} (.group [.quote [.text "a", .paragraph []], .paragraph [.text "b"]]) =
        .ok "\n> a\n>\nb" := by
  decide +kernel

end Siblings
end Markdown
end DocTree
