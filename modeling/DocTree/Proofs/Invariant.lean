import DocTree.Proofs.Inside

/-! Invariants of rendering. What the few kinds of steps keep holds of every output that a tree
leaves behind, and of every output to which a node of the tree is written. -/
namespace DocTree.Markdown
open Text Render Layout

/-- What is kept by every step that changes an output. Indentations that a step has put up are taken
back behind it. -/
class Maintained (P : Output → Prop) : Prop where
  wrote {out : Output} (s : String) : P out → P (out.wrote s)
  skipped {out : Output} : P out → P out.skipped
  begun {out : Output} : P out → P { out.skipped with fresh := true }
  inItem {out : Output} (style : ListStyle) (position : Nat) : P out → out.buffer.content = none →
    P (out.inItem style position)
  inQuote {out : Output} : P out → out.fresh → P out.inQuote
  entered {out : Output} (modes : Modes) : P out → P { out with modes := modes }
  left {before out : Output} : P before → P out → out.buffer.indents.tail = before.buffer.indents →
    P { out with buffer := out.buffer.popIndent }

theorem Maintained.closed {P : Output → Prop} [Maintained P] {out : Output} (h : P out) :
    P out.closed := by
  cases hline : out.buffer.atLineStart with
  | true => rwa [out.closed_atStart hline]
  | false =>
    rw [out.closed_begun hline]
    exact Maintained.wrote "\n" h

namespace Render
variable {P : Output → Prop} {given : Render Unit → Render Unit → Prop}
  {steps steps' next next' : Render Unit} {out mid : Output}

/-- From an output the steps come to the same, and to one of which `P` holds. -/
structure Agrees (P : Output → Prop) (steps steps' : Render Unit) (out : Output) : Prop where
  same : steps' out = steps out
  kept : P (steps out).2
  indents : (steps out).2.buffer.indents = out.buffer.indents

/-- What steps come to from one output is what others come to from another. -/
theorem Agrees.from {first first' : Render Unit} (h : Agrees P first first' mid)
    (hsteps : steps out = first mid) (hsteps' : steps' out = first' mid)
    (hindents : mid.buffer.indents = out.buffer.indents) : Agrees P steps steps' out := by
  obtain ⟨hsame, hkept, htop⟩ := h
  exact ⟨by rw [hsteps, hsteps', hsame], by rwa [hsteps], by rw [hsteps, htop, hindents]⟩

theorem agrees_done (h : P out) : Agrees P (pure ()) (pure ()) out := ⟨rfl, h, rfl⟩

theorem agrees_fail (h : P out) (error : RenderError) : Agrees P (fail error) (fail error) out :=
  ⟨rfl, h, rfl⟩

theorem Agrees.then (h : Agrees P steps steps' out)
    (hnext : ∀ mid, P mid → Agrees P next next' mid) :
    Agrees P (do steps; next) (do steps'; next') out := by
  obtain ⟨hsame, hkept, hindents⟩ := h
  cases hsteps : steps out with
  | mk result mid =>
    rw [hsteps] at hsame hkept hindents
    cases result with
    | error e =>
      have hstop : Agrees P (fail e) (fail e) mid := agrees_fail hkept e
      refine hstop.from ?_ ?_ hindents
      · rw [bind_apply, hsteps]
        rfl
      · rw [bind_apply, hsame]
        rfl
    | ok =>
      refine (hnext mid hkept).from ?_ ?_ hindents
      · rw [bind_apply, hsteps]
      · rw [bind_apply, hsame]

theorem agrees_look {α : Type} {view : Output → α} {next next' : α → Render Unit}
    (h : Agrees P (next (view out)) (next' (view out)) out) :
    Agrees P (look view >>= next) (look view >>= next') out := h.from rfl rfl rfl

theorem Agrees.ifConstrained (h : Agrees P steps steps' out) (hnext : Agrees P next next' out) :
    Agrees P (do if ← constrained then steps else next)
      (do if ← constrained then steps' else next') out := by
  apply agrees_look
  split
  · exact h
  · exact hnext

variable [Maintained P]

theorem agrees_write (h : P out) (s : String) : Agrees P (write s) (write s) out := by
  refine ⟨rfl, ?_, (framed_write s out).buffer.indents⟩
  by_cases hs : out.constrained → OneLine s
  · rw [write_of_fits hs]
    exact Maintained.wrote s h
  · obtain ⟨hc, hbreaks⟩ := Classical.not_imp.1 hs
    rwa [write_of_breaks hc hbreaks]

theorem agrees_ensureNewLine (h : P out) : Agrees P ensureNewLine ensureNewLine out := by
  apply agrees_look
  split
  · exact agrees_done h
  · exact agrees_write h "\n"

theorem agrees_ensureSkippedLine (h : P out) :
    Agrees P ensureSkippedLine ensureSkippedLine out := by
  have hskipped : Agrees P (pure ()) (pure ()) out.skipped := agrees_done (Maintained.skipped h)
  exact (agrees_fail h _).ifConstrained
    (hskipped.from rfl rfl out.buffer.extends_ensureSkippedLine.indents)

theorem Agrees.withMode {mode : Mode} {value : Bool}
    (h : Agrees P steps steps' { out with modes := out.modes.set mode value }) :
    Agrees P (withMode mode value steps) (withMode mode value steps') out := by
  refine ⟨?_, Maintained.entered _ h.kept, h.indents⟩
  simp only [Render.withMode, h.same]

/-- An indentation is taken back behind the steps under it. -/
theorem Agrees.withIndent {indent : String} (hout : P out)
    (h : Agrees P steps steps' { out with buffer := out.buffer.pushIndent indent }) :
    Agrees P (withIndent indent steps) (withIndent indent steps') out := by
  have htop := congrArg List.tail h.indents
  refine ⟨?_, Maintained.left hout h.kept htop, htop⟩
  simp only [Render.withIndent, h.same]

theorem agrees_paragraphBreak (h : P out)
    (hsteps : ∀ mid, P mid → mid.fresh → Agrees P steps steps' mid) :
    Agrees P (paragraphBreak steps) (paragraphBreak steps') out := by
  apply (agrees_fail h _).ifConstrained
  apply agrees_look
  split
  · next hfresh => exact hsteps out h hfresh
  · let mid : Output := { out.skipped with modes := out.modes.set .htmlBlock false, fresh := true }
    have hbegun : Agrees P steps steps' mid :=
      hsteps mid (Maintained.entered _ (Maintained.begun h)) rfl
    have hmarked : Agrees P (do markFresh; steps) (do markFresh; steps')
        { out.skipped with modes := out.modes.set .htmlBlock false } := hbegun.from rfl rfl rfl
    have hblock : Agrees P (withMode .htmlBlock false do markFresh; steps)
        (withMode .htmlBlock false do markFresh; steps') out.skipped := hmarked.withMode
    exact hblock.from rfl rfl out.buffer.extends_ensureSkippedLine.indents

theorem agrees_quote {body body' : Render Unit} (h : P out)
    (hbody : ∀ mid, P mid → Agrees P body body' mid) :
    Agrees P (quote body) (quote body') out := by
  refine .ifConstrained ?_ (agrees_paragraphBreak h fun start hstart hfresh => ?_)
  · refine (agrees_write h _).then fun mid hmid => ?_
    exact (hbody _ (Maintained.entered _ hmid)).withMode.then fun last hlast => agrees_write hlast _
  have hinside : Agrees P body body' start.inQuote := hbody _ (Maintained.inQuote hstart hfresh)
  have hrest (mid : Output) (hmid : P mid) (hmarked : { mid with
        buffer := mid.buffer.pushIndent "> ", fresh := true } = start.inQuote) :
      Agrees P (do withIndent "> " (do markFresh; body); ensureNewLine)
        (do withIndent "> " (do markFresh; body'); ensureNewLine) mid := by
    rw [← hmarked] at hinside
    have hunder : Agrees P (do markFresh; body) (do markFresh; body')
        { mid with buffer := mid.buffer.pushIndent "> " } := hinside.from rfl rfl rfl
    exact (Agrees.withIndent hmid hunder).then fun last hlast => agrees_ensureNewLine hlast
  have hwrite : write "> " start = (.ok (), start.wrote "> ") := write_of_fits fun _ => by decide
  apply agrees_look
  split
  · next hline => exact (hrest start hstart (by rw [Output.inQuote, if_pos hline])).from rfl rfl rfl
  · next hline =>
    have hmid := hrest (start.wrote "> ") (Maintained.wrote _ hstart)
      (by rw [Output.inQuote, if_neg hline]; rfl)
    exact hmid.from (bind_of_ok hwrite _) (bind_of_ok hwrite _) (start.buffer.extends_write _).indents

/-- The next steps begin at the start of a line. -/
theorem agrees_lineStart (h : P out)
    (hnext : ∀ mid, P mid → mid.buffer.content = none → Agrees P next next' mid) :
    Agrees P (do ensureNewLine; next) (do ensureNewLine; next') out := by
  cases hcontent : out.buffer.content with
  | none =>
    have hline : ensureNewLine out = (.ok (), out) := by
      rw [ensureNewLine, bind_apply]
      simp [look, Buffer.atLineStart, hcontent, pure_apply]
    exact (hnext out h hcontent).from (bind_of_ok hline _) (bind_of_ok hline _) rfl
  | some content =>
    have hbreak : ensureNewLine out = write "\n" out := by
      rw [ensureNewLine, bind_apply]
      simp [look, Buffer.atLineStart, hcontent]
    by_cases hc : out.constrained
    · have hfails : ensureNewLine out = (.error (.newlineInSingleLine "\n"), out) := by
        rw [hbreak, write_of_breaks hc (by decide)]
      have hstop : Agrees P (fail (.newlineInSingleLine "\n"))
          (fail (.newlineInSingleLine "\n")) out := agrees_fail h _
      refine hstop.from ?_ ?_ rfl <;> rw [bind_apply, hfails] <;> rfl
    · have hwrite : ensureNewLine out = (.ok (), out.wrote "\n") := by
        rw [hbreak, write_of_fits fun hline => absurd hline hc]
      have hstart : (out.wrote "\n").buffer.content = none :=
        congrArg Buffer.content (Buffer.newline_begun hcontent)
      exact (hnext _ (Maintained.wrote _ h) hstart).from (bind_of_ok hwrite _) (bind_of_ok hwrite _)
        (out.buffer.extends_write _).indents

theorem agrees_markedItem {item item' : Render Unit} (h : P out)
    (hitem : ∀ mid, P mid → Agrees P item item' mid) (style : ListStyle) (position : Nat) :
    Agrees P (markedItem style position item) (markedItem style position item') out := by
  refine agrees_lineStart h fun mid hmid hcontent => ?_
  have hwrite : write (marker style position) mid = (.ok (), mid.wrote (marker style position)) :=
    write_of_fits fun _ => oneLine_marker style position
  let behind : Output := mid.wrote (marker style position)
  let indented : Output := { behind with buffer := (mid.inItem style position).buffer }
  have hinside : Agrees P (do markFresh; item) (do markFresh; item')
      { indented with modes := mid.modes.set .listItem true } :=
    (hitem _ (Maintained.entered _ (Maintained.inItem style position hmid hcontent))).from
      rfl rfl rfl
  have hmode : Agrees P (withMode .listItem true do markFresh; item)
      (withMode .listItem true do markFresh; item') indented := hinside.withMode
  exact (Agrees.withIndent (Maintained.wrote _ hmid) hmode).from (bind_of_ok hwrite _)
    (bind_of_ok hwrite _) (mid.buffer.extends_write _).indents

/-- Steps that are put together in the same way from steps that agree do agree. -/
theorem Congruent.agrees (h : Congruent given steps steps')
    (hgiven : ∀ first first', given first first' → ∀ mid, P mid → Agrees P first first' mid)
    (hout : P out) : Agrees P steps steps' out := by
  induction h generalizing out with
  | given h => exact hgiven _ _ h out hout
  | done => exact agrees_done hout
  | fail error => exact agrees_fail hout error
  | write s => exact agrees_write hout s
  | skip => exact agrees_ensureSkippedLine hout
  | look view h ih => exact agrees_look (ih _ hout)
  | «then» _ _ ih ihnext => exact (ih hout).then fun _ hmid => ihnext hmid
  | inMode mode value _ ih => exact (ih (Maintained.entered _ hout)).withMode
  | block _ ih => exact agrees_paragraphBreak hout fun _ hmid _ => ih hmid
  | quote _ ih => exact agrees_quote hout fun _ hmid => ih hmid
  | item style position _ ih => exact agrees_markedItem hout (fun _ hmid => ih hmid) style position

end Render

section Tree
variable {P : Output → Prop} [Maintained P] {o : Options} {node : Node} {out : Output}

/-- What every step keeps holds behind a tree if it does before. -/
theorem maintained_render (o : Options) (node : Node) (h : P out) : P (render o node out).2 := by
  have hcongruent : Congruent (fun _ _ => False) (render o node) (render o node) :=
    congruent_render o node
  exact (hcongruent.agrees nofun h).kept

/-- What every step keeps holds of the output of each node on the way down a tree. -/
theorem LeadsTo.maintained {v w : Node × Output} (h : LeadsTo o v w) (hv : P v.2) : P w.2 := by
  classical
  obtain ⟨steps, hpart, hruns⟩ := h
  -- Steps that tell by their error whether `P` holds, and steps that always say it does.
  let asked : Render Unit := fun out => (.error (if P out then .emptyTable else
    .paragraphBreakInSingleLine), out)
  let told : Render Unit := fun out => (.error .emptyTable, out)
  have hcongruent : Congruent (fun first first' => first = asked ∧ first' = told) (steps asked)
      (steps told) := hpart.congruent (.given ⟨rfl, rfl⟩)
  have hsame : steps told v.2 = steps asked v.2 := by
    refine (hcongruent.agrees ?_ hv).same
    rintro _ _ ⟨rfl, rfl⟩ mid hmid
    exact ⟨by simp only [asked, told, if_pos hmid], hmid, rfl⟩
  by_contra hw
  have htold : (steps told v.2).1 = .error .emptyTable := by
    rw [hruns.1]
    exact hruns.2 _ _
  have hasked : (steps asked v.2).1 = .error .paragraphBreakInSingleLine := by
    have hfails : asked w.2 = (.error .paragraphBreakInSingleLine, w.2) := by
      simp only [asked, if_neg hw]
    rw [hruns.1, hfails]
    exact hruns.2 _ _
  rw [hsame, hasked] at htold
  cases htold

theorem Path.maintained {v last : Node × Output} {path : List (Node × Output)}
    (h : Path o v path last) (hv : P v.2) : P last.2 := by
  induction h with
  | nil => exact hv
  | cons hstep _ ih => exact ih (hstep.maintained hv)

end Tree
end DocTree.Markdown
