import DocTree.Proofs.Invariant

/-! What has been written stays. Whatever follows a node of a tree, the text of the whole begins with
the text as it stands right behind that node. -/
namespace DocTree.Markdown
open Text Render Layout

/-- The text of the output begins with a given one. -/
def Output.BeginsWith (text : String) (out : Output) : Prop := ∃ rest, out.text = text ++ rest

theorem Output.Extends.beginsWith {text : String} {out out' : Output} (h : out.Extends out')
    (hout : out.BeginsWith text) : out'.BeginsWith text := by
  obtain ⟨rest, hrest⟩ := hout
  obtain ⟨added, hadded, -⟩ := h.buffer.text
  refine ⟨rest ++ added, ?_⟩
  rw [Output.text, hadded, ← Output.text, hrest, String.append_assoc]

namespace Render
variable {text : String} {given : Render Unit → Render Unit → Prop}
  {steps steps' next next' : Render Unit} {out : Output}

/-- A text that has been written stays in front, and other steps come to the same unless it has been
written. -/
structure Lasts (text : String) (steps steps' : Render Unit) (out : Output) : Prop where
  stays : out.BeginsWith text → (steps out).2.BeginsWith text
  written : steps' out = steps out ∨ (steps out).2.BeginsWith text

theorem Framed.lasts (h : Framed steps) (out : Output) : Lasts text steps steps out :=
  ⟨(h out).beginsWith, .inl rfl⟩

/-- What steps do from one output is what others do from another with the same text. -/
theorem Lasts.from {first first' : Render Unit} {mid : Output} (h : Lasts text first first' mid)
    (hmid : mid.text = out.text) (hsteps : steps out = first mid) (hsteps' : steps' out = first' mid) :
    Lasts text steps steps' out := by
  obtain ⟨hstays, hwritten⟩ := h
  rw [Output.BeginsWith, hmid] at hstays
  exact ⟨by rwa [hsteps], by rwa [hsteps, hsteps']⟩

theorem Lasts.then (h : Lasts text steps steps' out) (hnext : ∀ mid, Lasts text next next' mid) :
    Lasts text (do steps; next) (do steps'; next') out := by
  obtain ⟨hstays, hwritten⟩ := h
  cases hsteps : steps out with
  | mk result mid =>
    rw [hsteps] at hstays hwritten
    cases result with
    | error e =>
      have hstop (other : Render Unit) {first : Render Unit} (hfirst : first out = (.error e, mid)) :
          (do first; other : Render Unit) out = (.error e, mid) := by
        rw [bind_apply, hfirst]
      refine ⟨?_, ?_⟩
      · rwa [hstop next hsteps]
      · rw [hstop next hsteps]
        exact hwritten.imp_left (hstop next')
    | ok =>
      obtain ⟨hlast, hbehind⟩ := hnext mid
      refine ⟨?_, ?_⟩
      · rw [bind_of_ok hsteps]
        exact fun hout => hlast (hstays hout)
      · rw [bind_of_ok hsteps]
        obtain hsame | hmid := hwritten
        · rwa [bind_of_ok hsame]
        · exact .inr (hlast hmid)

theorem lasts_look {α : Type} {view : Output → α} {next next' : α → Render Unit}
    (h : Lasts text (next (view out)) (next' (view out)) out) :
    Lasts text (look view >>= next) (look view >>= next') out := h.from rfl rfl rfl

theorem Lasts.withMode {mode : Mode} {value : Bool}
    (h : Lasts text steps steps' { out with modes := out.modes.set mode value }) :
    Lasts text (withMode mode value steps) (withMode mode value steps') out := by
  refine ⟨h.stays, h.written.imp_left fun hsame => ?_⟩
  simp only [Render.withMode, hsame]

theorem Lasts.withIndent {indent : String}
    (h : Lasts text steps steps' { out with buffer := out.buffer.pushIndent indent }) :
    Lasts text (withIndent indent steps) (withIndent indent steps') out := by
  refine ⟨h.stays, h.written.imp_left fun hsame => ?_⟩
  simp only [Render.withIndent, hsame]

theorem Lasts.ifConstrained (h : Lasts text steps steps' out)
    (hnext : out.constrained = false → Lasts text next next' out) :
    Lasts text (do if ← constrained then steps else next)
      (do if ← constrained then steps' else next') out := by
  apply lasts_look
  split
  · exact h
  · next hline => exact hnext (by simpa using hline)

theorem lasts_paragraphBreak (h : ∀ mid, Lasts text steps steps' mid) :
    Lasts text (paragraphBreak steps) (paragraphBreak steps') out := by
  refine ((framed_fail _).lasts out).ifConstrained fun hline => lasts_look ?_
  split
  · exact h out
  · have hskip : Lasts text (modifyBuffer Buffer.ensureSkippedLine)
        (modifyBuffer Buffer.ensureSkippedLine) out :=
      ⟨(extends_skippedLine (by simp [hline])).beginsWith, .inl rfl⟩
    exact hskip.then fun mid => ((framed_markFresh.lasts _).then h).withMode

theorem lasts_quote (h : ∀ mid, Lasts text steps steps' mid) :
    Lasts text (quote steps) (quote steps') out := by
  have hwrite (s : String) (mid : Output) : Lasts text (write s) (write s) mid :=
    (framed_write s).lasts mid
  have hquoted (mid : Output) :
      Lasts text (do withIndent "> " (do markFresh; steps); ensureNewLine)
        (do withIndent "> " (do markFresh; steps'); ensureNewLine) mid :=
    ((framed_markFresh.lasts _).then h).withIndent.then framed_ensureNewLine.lasts
  refine .ifConstrained ?_ fun _ => lasts_paragraphBreak fun mid => lasts_look ?_
  · exact (hwrite _ _).then fun mid => (h _).withMode.then (hwrite _)
  · split
    · exact hquoted mid
    · exact (hwrite _ _).then hquoted

theorem lasts_markedItem (h : ∀ mid, Lasts text steps steps' mid) (style : ListStyle)
    (position : Nat) :
    Lasts text (markedItem style position steps) (markedItem style position steps') out :=
  (framed_ensureNewLine.lasts out).then fun mid => ((framed_write _).lasts mid).then fun _ =>
    ((framed_markFresh.lasts _).then h).withMode.withIndent

/-- Steps that are put together in the same way from steps by which a text lasts are such steps
themselves. -/
theorem Congruent.lasts (h : Congruent given steps steps')
    (hgiven : ∀ first first', given first first' → ∀ mid, Lasts text first first' mid)
    (out : Output) : Lasts text steps steps' out := by
  induction h generalizing out with
  | given h => exact hgiven _ _ h out
  | done => exact (framed_pure ()).lasts out
  | fail error => exact (framed_fail error).lasts out
  | write s => exact (framed_write s).lasts out
  | skip => exact framed_ensureSkippedLine.lasts out
  | look view h ih => exact lasts_look (ih _ out)
  | «then» _ _ ih ihnext => exact (ih out).then ihnext
  | inMode mode value _ ih => exact (ih _).withMode
  | block _ ih => exact lasts_paragraphBreak ih
  | quote _ ih => exact lasts_quote ih
  | item style position _ ih => exact lasts_markedItem ih style position

end Render

variable {o : Options} {v w last : Node × Output} {path : List (Node × Output)}

/-- The text of a tree begins with what has been written when a part of it has. -/
theorem LeadsTo.beginsWith (h : LeadsTo o v w) :
    (render o v.1 v.2).2.BeginsWith (render o w.1 w.2).2.text := by
  obtain ⟨steps, hpart, hruns⟩ := h
  rw [hpart.render_eq, hruns.1]
  by_contra hlost
  -- What the steps come to would not depend on the error that their body gives.
  have hsame (error : RenderError) :
      (steps (give (render o w.1 w.2)) v.2).1 = .error error := by
    have hcongruent : Congruent (fun first first' => first = give (render o w.1 w.2) ∧
        first' = give (.error error, w.2)) (steps (give (render o w.1 w.2)))
        (steps (give (.error error, w.2))) := hpart.congruent (.given ⟨rfl, rfl⟩)
    have hlasts : Lasts (render o w.1 w.2).2.text (steps (give (render o w.1 w.2)))
        (steps (give (.error error, w.2))) v.2 := by
      refine hcongruent.lasts ?_ v.2
      rintro _ _ ⟨rfl, rfl⟩ mid
      have hwritten : (render o w.1 w.2).2.BeginsWith (render o w.1 w.2).2.text := ⟨"", by simp⟩
      exact ⟨fun _ => hwritten, .inr hwritten⟩
    rw [← hlasts.written.resolve_right hlost]
    exact hruns.2 error w.2
  cases (hsame .emptyTable).symm.trans (hsame .paragraphBreakInSingleLine)

/-- The text of a tree begins with what has been written when a node at any depth of it has. -/
theorem Path.beginsWith (h : Path o v path last) :
    (render o v.1 v.2).2.BeginsWith (render o last.1 last.2).2.text := by
  induction h with
  | nil v => exact ⟨"", by simp⟩
  | cons hstep _ ih =>
    obtain ⟨rest, hrest⟩ := ih
    obtain ⟨more, hmore⟩ := hstep.beginsWith
    exact ⟨rest ++ more, by rw [hmore, hrest, String.append_assoc]⟩

end DocTree.Markdown
