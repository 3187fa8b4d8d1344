import DocTree.Proofs.Congruence
import DocTree.Proofs.Moves

/-! Where blocks, quotes, lists and their items run what is inside them: the output that the inner
steps begin with, and what becomes of the output behind them. -/
namespace DocTree.Markdown
open Text Render Layout

/-- The output at the start of an item, behind its marker and under its indentation. -/
def Output.inItem (out : Output) (style : ListStyle) (position : Nat) : Output where
  buffer := (out.buffer.write (marker style position)).pushIndent
    (.ofList (List.replicate (marker style position).length ' '))
  modes := out.modes
  fresh := true

/-- The output at the start of a quote. The first line gets its mark at once if it is begun. -/
def Output.inQuote (out : Output) : Output where
  buffer := (if out.buffer.atLineStart then out.buffer else out.buffer.write "> ").pushIndent "> "
  modes := out.modes
  fresh := true

/-- The output at the start of a block, behind a blank line unless the block before is still
empty. -/
def Output.block (out : Output) : Output :=
  if out.fresh then out
  else { out.skipped with modes := out.modes.set .htmlBlock false, fresh := true }

/-- The output where a list begins. In an item the list may do without a blank line in front. -/
def Output.atList (out : Output) (style : ListStyle) : Output :=
  if out.modes.listItem && (interruptsParagraph style || out.fresh) then out.closed
  else out.skipped

theorem Output.closed_atStart (out : Output) (h : out.buffer.atLineStart) : out.closed = out := by
  rw [closed, Buffer.ensureNewLine, if_pos h]

theorem Output.wrote_newline (out : Output) :
    out.wrote "\n" = { out with buffer := out.buffer.newline } := by
  have hbuffer : out.buffer.write "\n" = out.buffer.newline := by
    rw [← Buffer.put_newline]
    rfl
  have hfresh : (out.fresh && "\n".toList.all Unicode.isBlank) = out.fresh := by
    rw [show "\n".toList.all Unicode.isBlank = true by decide, Bool.and_true]
  rw [wrote, hbuffer, hfresh]

theorem Output.closed_begun (out : Output) (h : out.buffer.atLineStart = false) :
    out.closed = out.wrote "\n" := by
  rw [wrote_newline, closed, Buffer.ensureNewLine, if_neg (by simp [h])]

/-- Ending a line writes at most a line break. -/
theorem Output.exists_closed (out : Output) : ∃ s, out.closed = out.wrote s := by
  cases hline : out.buffer.atLineStart with
  | true => exact ⟨"", by rw [out.closed_atStart hline, wrote_empty]⟩
  | false => exact ⟨"\n", out.closed_begun hline⟩

/-- A break writes line breaks. -/
theorem Output.exists_skipped (out : Output) : ∃ s, out.skipped = out.wrote s := by
  obtain ⟨s, hs⟩ := out.exists_closed
  unfold Output.skipped Buffer.ensureSkippedLine
  dsimp only
  split
  · exact ⟨s, hs⟩
  · exact ⟨s ++ "\n", by rw [← wrote_wrote, ← hs, wrote_newline]; rfl⟩

theorem Output.block_unconstrained {out : Output} (hline : out.constrained = false) :
    out.block.constrained = false := by
  unfold Output.block
  split
  · exact hline
  · exact hline

namespace Render
variable {out out' : Output} {item steps : Render Unit} {items : List (Render Unit)}
  {style : ListStyle}

theorem framed_markedItem (h : Framed item) (style : ListStyle) (position : Nat) :
    Framed (markedItem style position item) :=
  framed_ensureNewLine.then <| (framed_write _).then <|
    ((framed_markFresh.then h).withMode (by decide)).withIndent (oneLine_spaces _)

theorem ifConstrained_apply (first next : Render Unit) (out : Output) :
    (do if ← constrained then first else next) out =
      (if out.constrained then first else next) out := rfl

theorem ifFresh_apply (first next : Render Unit) (out : Output) :
    (do if ← look Output.fresh then first else next) out =
      (if out.fresh then first else next) out := rfl

theorem ifAtLineStart_apply (first next : Render Unit) (out : Output) :
    (do if ← look fun out => out.buffer.atLineStart then first else next) out =
      (if out.buffer.atLineStart then first else next) out := rfl

theorem ensureNewLine_apply (hline : out.constrained = false) :
    ensureNewLine out = (.ok (), out.closed) := by
  cases hbegun : out.buffer.atLineStart with
  | true =>
    rw [ensureNewLine, ifAtLineStart_apply, if_pos hbegun, out.closed_atStart hbegun]
    rfl
  | false =>
    have hfits : out.constrained → OneLine "\n" := fun hc => absurd (hline.symm.trans hc) (by decide)
    rw [ensureNewLine, ifAtLineStart_apply, if_neg (by rw [hbegun]; decide), write_of_fits hfits,
      out.closed_begun hbegun]

theorem ensureNewLine_ok (h : ensureNewLine out = (.ok (), out')) : out' = out.closed := by
  by_cases hline : out.constrained = false
  · rw [ensureNewLine_apply hline] at h
    exact (congrArg Prod.snd h).symm
  -- Where a line may not end, none has begun.
  have hstart : out.buffer.atLineStart := by
    by_contra hbegun
    have hrun : ensureNewLine out = write "\n" out := by
      rw [ensureNewLine, ifAtLineStart_apply, if_neg hbegun]
    rw [hrun, write_of_breaks (by simpa using hline) (by decide)] at h
    cases h
  rw [ensureNewLine, ifAtLineStart_apply, if_pos hstart] at h
  rw [out.closed_atStart hstart]
  exact (congrArg Prod.snd h).symm

theorem withIndent_ok {indent : String} (h : withIndent indent item out = (.ok (), out')) :
    ∃ last, item { out with buffer := out.buffer.pushIndent indent } = (.ok (), last) ∧
      out' = { last with buffer := last.buffer.popIndent } := by
  cases hitem : item { out with buffer := out.buffer.pushIndent indent } with
  | mk result last =>
    simp only [withIndent, hitem] at h
    obtain ⟨rfl, rfl⟩ := Prod.mk.inj h
    exact ⟨last, rfl, rfl⟩

/-- An item that is written has been run from behind its marker. -/
theorem markedItem_ok {position : Nat} (hframed : Framed item)
    (h : markedItem style position item out = (.ok (), out')) :
    ∃ last, item { out.closed.inItem style position with
        modes := out.modes.set .listItem true } = (.ok (), last) ∧
      out' = { last with buffer := last.buffer.popIndent, modes := out.modes } := by
  obtain ⟨_, start, hstart, hrest⟩ := bind_eq_ok h
  obtain rfl := ensureNewLine_ok hstart
  rw [bind_of_ok (write_of_fits fun _ => oneLine_marker style position)] at hrest
  obtain ⟨behind, hbehind, rfl⟩ := withIndent_ok hrest
  obtain ⟨last, hlast, rfl⟩ := (framed_markFresh.then hframed).withMode_ok hbehind
  exact ⟨last, hlast, rfl⟩

theorem ensureSkippedLine_apply (hline : out.constrained = false) :
    ensureSkippedLine out = (.ok (), out.skipped) := by
  rw [ensureSkippedLine, ifConstrained_apply, if_neg (by rw [hline]; decide)]
  rfl

/-- A list whose lines may end has been written item by item. -/
theorem list_ok (hline : out.constrained = false) (hitems : ∀ item ∈ items, Framed item)
    (h : list style items out = (.ok (), out')) :
    ∃ last, (do markedItems style 0 items; ensureNewLine)
        { out.atList style with modes := out.modes.set .htmlBlock false } = (.ok (), last) ∧
      out' = { last with modes := out.modes } := by
  let inner : Render Unit := withMode .htmlBlock false do
    markedItems style 0 items
    ensureNewLine
  have hrun : list style items out =
      (if out.modes.listItem && (interruptsParagraph style || out.fresh) then
        do ensureNewLine; inner
      else do ensureSkippedLine; inner : Render Unit) out := by
    rw [list, ifConstrained_apply, if_neg (by rw [hline]; decide)]
    rfl
  have hframed : Framed (do markedItems style 0 items; ensureNewLine) :=
    (framed_markedItems hitems style 0).then framed_ensureNewLine
  have hinner : inner (out.atList style) = (.ok (), out') := by
    rw [hrun] at h
    unfold Output.atList
    split at h
    · next hclose =>
      obtain ⟨_, start, hstart, hrest⟩ := bind_eq_ok h
      rwa [if_pos hclose, ← ensureNewLine_ok hstart]
    · next hskip =>
      rw [if_neg hskip]
      rwa [bind_of_ok (ensureSkippedLine_apply hline)] at h
  have hmodes : (out.atList style).modes = out.modes := by
    unfold Output.atList
    split <;> rfl
  obtain ⟨last, hlast, rfl⟩ := hframed.withMode_ok hinner
  rw [hmodes] at hlast ⊢
  exact ⟨last, hlast, rfl⟩

/-- A block is run from behind its blank line. -/
theorem Framed.paragraphBreak_apply (hframed : Framed steps) (hline : out.constrained = false) :
    Render.paragraphBreak steps out =
      ((steps out.block).1, { (steps out.block).2 with modes := out.modes }) := by
  rw [Render.paragraphBreak, ifConstrained_apply, if_neg (by rw [hline]; decide), ifFresh_apply]
  unfold Output.block
  split
  · have hmodes : (steps out).2.modes = out.modes := (hframed out).modes
    rw [← hmodes]
  · exact (framed_markFresh.then hframed).withMode_apply .htmlBlock false out.skipped

/-- A block that is written stands where lines may end and is run from behind its blank line. -/
theorem paragraphBreak_ok (hframed : Framed steps)
    (h : paragraphBreak steps out = (.ok (), out')) :
    out.constrained = false ∧
      ∃ last, steps out.block = (.ok (), last) ∧ out' = { last with modes := out.modes } := by
  by_cases hline : out.constrained = false
  · rw [hframed.paragraphBreak_apply hline] at h
    obtain ⟨hresult, hend⟩ := Prod.mk.inj h
    exact ⟨hline, _, Prod.ext hresult rfl, hend.symm⟩
  · rw [paragraphBreak, ifConstrained_apply, if_pos (by simpa using hline)] at h
    cases h

/-- A quote that is written has been run from behind its first mark. -/
theorem quote_ok (hline : out.constrained = false) (hframed : Framed steps)
    (h : quote steps out = (.ok (), out')) :
    ∃ last, steps out.block.inQuote = (.ok (), last) ∧
      out' = { { last with buffer := last.buffer.popIndent }.closed with modes := out.modes } := by
  let inner : Render Unit := do
    withIndent "> " do markFresh; steps
    ensureNewLine
  have hinner : Framed inner :=
    ((framed_markFresh.then hframed).withIndent (by decide)).then framed_ensureNewLine
  have hbody : Framed (do
      if ← look fun out => out.buffer.atLineStart then inner else do write "> "; inner) := by
    refine (framed_look _).bind fun atStart => ?_
    split
    · exact hinner
    · exact (framed_write _).then hinner
  rw [quote, ifConstrained_apply, if_neg (by rw [hline]; decide)] at h
  obtain ⟨-, last, hlast, rfl⟩ := paragraphBreak_ok hbody h
  obtain ⟨start, hstart, hmarked⟩ : ∃ start : Output, inner start = (.ok (), last) ∧
      { start with buffer := start.buffer.pushIndent "> ", fresh := true } = out.block.inQuote := by
    rw [ifAtLineStart_apply] at hlast
    unfold Output.inQuote
    split at hlast
    · next hatStart => exact ⟨out.block, hlast, by rw [if_pos hatStart]⟩
    · next hbegun =>
      rw [bind_of_ok (write_of_fits fun _ => by decide)] at hlast
      exact ⟨out.block.wrote "> ", hlast, by rw [if_neg hbegun]; rfl⟩
  obtain ⟨_, mid, hmid, hend⟩ := bind_eq_ok hstart
  obtain ⟨inside, hinside, rfl⟩ := withIndent_ok hmid
  obtain rfl := ensureNewLine_ok hend
  refine ⟨inside, ?_, rfl⟩
  rw [← hmarked]
  exact hinside

end Render

end DocTree.Markdown
