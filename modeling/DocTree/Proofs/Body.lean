import DocTree.Proofs.Frame

/-! Where steps run their body. Steps that take other steps as a body either never come to it or
run it once, from an output that does not depend on it. -/
namespace DocTree.Markdown

/-- The modes in which a block of its own is written. The flag of an open HTML block is cleared,
unless the block before is still empty. -/
def Output.blockModes (out : Output) : Modes :=
  if out.fresh then out.modes else out.modes.set .htmlBlock false

namespace Render
variable {steps inner : Render Unit → Render Unit} {out mid s t : Output}
  {holds holds' : Modes → Prop}

/-- Steps with a given outcome. -/
def give (outcome : Except RenderError Unit × Output) : Render Unit := fun _ => outcome

/-- From `out` the steps run their body at `s`. What it does there is all that matters of it, and
if it fails then the steps fail. -/
def RunsAt (steps : Render Unit → Render Unit) (out s : Output) : Prop :=
  (∀ body, steps body out = steps (give (body s)) out) ∧
    ∀ error t, (steps (give (.error error, t)) out).1 = .error error

/-- From `out` the steps never come to their body. -/
def NeverRuns (steps : Render Unit → Render Unit) (out : Output) : Prop :=
  ∀ body body', steps body out = steps body' out

theorem RunsAt.not_neverRuns (h : RunsAt steps out s) : ¬ NeverRuns steps out := by
  intro hnever
  have hfirst := h.2 .emptyTable out
  have hsecond := h.2 .paragraphBreakInSingleLine out
  rw [hnever _ (give (.error .paragraphBreakInSingleLine, out)), hsecond] at hfirst
  cases hfirst

/-- Steps that fail, in one way at `s` and in another elsewhere. -/
def probe (s : Output) : Render Unit := fun x =>
  (.error (if x = s then .emptyTable else .paragraphBreakInSingleLine), x)

theorem RunsAt.probe (h : RunsAt steps out t) (s : Output) : (steps (probe s) out).1 =
    .error (if t = s then .emptyTable else .paragraphBreakInSingleLine) := by
  rw [h.1]
  exact h.2 _ _

theorem RunsAt.unique (hs : RunsAt steps out s) (ht : RunsAt steps out t) : s = t := by
  -- The probe for `t` tells by its error whether it runs at `t`.
  have hsame := hs.probe t
  rw [ht.probe t, if_pos rfl] at hsame
  by_contra hne
  rw [if_neg hne] at hsame
  cases hsame

theorem give_error {body : Render Unit} {error : RenderError}
    (h : (body s).1 = .error error) : give (body s) = give (.error error, (body s).2) :=
  congrArg give (Prod.ext h rfl)

theorem RunsAt.comp (h : RunsAt steps out s) (hinner : RunsAt inner s t) :
    RunsAt (steps ∘ inner) out t := by
  refine ⟨fun body => ?_, fun error u => ?_⟩
  · calc steps (inner body) out = steps (give (inner body s)) out := h.1 _
      _ = steps (give (inner (give (body t)) s)) out := by rw [hinner.1 body]
      _ = steps (inner (give (body t))) out := (h.1 _).symm
  · rw [Function.comp_apply, h.1, give_error (hinner.2 error u)]
    exact h.2 _ _

theorem RunsAt.comp_never (h : RunsAt steps out s) (hinner : NeverRuns inner s) :
    NeverRuns (steps ∘ inner) out := by
  intro body body'
  rw [Function.comp_apply, Function.comp_apply, h.1 (inner body), h.1 (inner body'),
    hinner body body']

/-- From `out` the steps never come to their body or run it in modes of which `holds` is true. -/
def Carries (steps : Render Unit → Render Unit) (out : Output) (holds : Modes → Prop) : Prop :=
  NeverRuns steps out ∨ ∃ s, RunsAt steps out s ∧ holds s.modes

theorem Carries.of_runsAt (h : Carries steps out holds) (hs : RunsAt steps out s) :
    holds s.modes := by
  obtain hnever | ⟨t, ht, hholds⟩ := h
  · exact absurd hnever hs.not_neverRuns
  · rwa [hs.unique ht]

/-- Where steps run their body can be told from how they fail. -/
theorem Carries.runsAt_of_probe (h : Carries steps out holds)
    (hs : (steps (probe s) out).1 = .error .emptyTable)
    (hfail : (steps (give (.error .paragraphBreakInSingleLine, s)) out).1 =
      .error .paragraphBreakInSingleLine) : RunsAt steps out s := by
  obtain hnever | ⟨t, ht, -⟩ := h
  · rw [hnever _ (give (.error .paragraphBreakInSingleLine, s)), hfail] at hs
    cases hs
  · rw [ht.probe s] at hs
    split at hs
    · next heq => exact heq ▸ ht
    · cases hs

theorem Carries.comp (h : Carries steps out holds)
    (hinner : ∀ u : Output, holds u.modes → Carries inner u holds') :
    Carries (steps ∘ inner) out holds' := by
  obtain hnever | ⟨s, hs, hholds⟩ := h
  · exact .inl fun body body' => hnever (inner body) (inner body')
  obtain hnever | ⟨t, ht, hholds'⟩ := hinner s hholds
  · exact .inl (hs.comp_never hnever)
  · exact .inr ⟨t, hs.comp ht, hholds'⟩

/-- Steps around others run their body where the inner ones do, from where the outer ones run
these. -/
theorem RunsAt.of_comp (hsteps : Carries steps out holds) (hinner : ∀ u, Carries inner u holds')
    (h : RunsAt (steps ∘ inner) out t) : ∃ s, RunsAt steps out s ∧ RunsAt inner s t := by
  obtain hnever | ⟨s, hs, -⟩ := hsteps
  · exact absurd (fun body body' => hnever (inner body) (inner body')) h.not_neverRuns
  obtain hnever | ⟨u, hu, -⟩ := hinner s
  · exact absurd (hs.comp_never hnever) h.not_neverRuns
  · exact ⟨s, hs, h.unique (hs.comp hu) ▸ hu⟩

theorem carries_body (h : holds out.modes) : Carries (fun body => body) out holds :=
  .inr ⟨out, ⟨fun _ => rfl, fun _ _ => rfl⟩, h⟩

theorem carries_never {steps : Render Unit} : Carries (fun _ => steps) out holds :=
  .inl fun _ _ => rfl

/-- Steps that run others from an output of their own and pass errors on. -/
theorem Carries.wrap {outer : Render Unit → Render Unit} (h : Carries steps mid holds)
    (finish : Except RenderError Unit × Output → Except RenderError Unit × Output)
    (heq : ∀ body, outer body out = finish (steps body mid))
    (herror : ∀ error u, (finish (.error error, u)).1 = .error error) :
    Carries outer out holds := by
  obtain hnever | ⟨s, hs, hholds⟩ := h
  · exact .inl fun body body' => by rw [heq, heq, hnever body body']
  · refine .inr ⟨s, ⟨fun body => ?_, fun error u => ?_⟩, hholds⟩
    · rw [heq, heq, hs.1]
    · have hfails : steps (give (.error error, u)) mid =
          (.error error, (steps (give (.error error, u)) mid).2) := Prod.ext (hs.2 error u) rfl
      rw [heq, hfails]
      exact herror _ _

theorem Carries.after (h : Carries steps out holds) (next : Render Unit) :
    Carries (fun body => do steps body; next) out holds := by
  refine h.wrap (fun outcome => (give outcome >>= fun _ => next) out) (fun _ => rfl) ?_
  exact fun _ _ => rfl

/-- Steps that only extend the output come before. -/
theorem Framed.carries {α : Type} {first : Render α} {next : α → Render Unit → Render Unit}
    (hf : Framed first) (h : ∀ a mid, mid.modes = out.modes → Carries (next a) mid holds) :
    Carries (fun body => first >>= fun a => next a body) out holds := by
  have hmodes := (hf out).modes
  cases hfirst : first out with
  | mk result mid =>
    rw [hfirst] at hmodes
    cases result with
    | error error =>
      refine .inl fun body body' => ?_
      change (first >>= fun a => next a body) out = (first >>= fun a => next a body') out
      rw [bind_apply, bind_apply, hfirst]
    | ok a =>
      refine (h a mid hmodes).wrap id (fun body => ?_) fun _ _ => rfl
      change (first >>= fun a => next a body) out = next a body mid
      rw [bind_apply, hfirst]

theorem carries_look {α : Type} {view : Output → α} {next : α → Render Unit → Render Unit}
    (h : Carries (next (view out)) out holds) :
    Carries (fun body => look view >>= fun a => next a body) out holds :=
  h.wrap id (fun _ => rfl) fun _ _ => rfl

theorem carries_ite {c : Prop} [Decidable c] (h : c → Carries steps out holds)
    (hinner : ¬ c → Carries inner out holds) :
    Carries (fun body => if c then steps body else inner body) out holds := by
  by_cases hc : c
  · simpa only [if_pos hc] using h hc
  · simpa only [if_neg hc] using hinner hc

theorem carries_withMode {mode : Mode} {value : Bool}
    (h : Carries steps { out with modes := out.modes.set mode value } holds) :
    Carries (fun body => withMode mode value (steps body)) out holds := by
  refine h.wrap (fun outcome => (outcome.1,
    { outcome.2 with modes := outcome.2.modes.set mode (out.modes.get mode) })) (fun _ => rfl) ?_
  exact fun _ _ => rfl

theorem carries_withIndent {indent : String}
    (h : Carries steps { out with buffer := out.buffer.pushIndent indent } holds) :
    Carries (fun body => withIndent indent (steps body)) out holds := by
  refine h.wrap (fun outcome => (outcome.1,
    { outcome.2 with buffer := outcome.2.buffer.popIndent })) (fun _ => rfl) ?_
  exact fun _ _ => rfl

theorem carries_ifConstrained (h : out.constrained → Carries steps out holds)
    (hinner : ¬ out.constrained → Carries inner out holds) :
    Carries (fun body => do if ← constrained then steps body else inner body) out holds :=
  carries_look (carries_ite h hinner)

theorem carries_paragraphBreak (h : ∀ mid : Output, mid.modes = out.blockModes →
    Carries steps mid holds) : Carries (fun body => paragraphBreak (steps body)) out holds := by
  refine carries_ifConstrained (fun _ => carries_never) fun _ => ?_
  refine carries_look (carries_ite (fun hfresh => ?_) fun hfresh => ?_)
  -- In a block that is still empty no line is skipped, and the flag stays as it is.
  · exact h out (if_pos hfresh).symm
  · let skipped : Output := { out with buffer := out.buffer.ensureSkippedLine }
    have hblock : Carries (fun body => withMode .htmlBlock false do markFresh; steps body) skipped
        holds := by
      refine carries_withMode (framed_markFresh.carries fun _ mid hmid => h mid ?_)
      rw [hmid, Output.blockModes, if_neg hfresh]
    exact hblock.wrap id (fun _ => rfl) fun _ _ => rfl

theorem carries_constrained (hline : ∀ modes : Modes, modes.constrained → holds modes)
    (hinner : ∀ mid : Output, holds mid.modes → Carries inner mid holds) (hc : out.constrained)
    {mode : Mode} {value : Bool} (hv : mode.constrains → value) :
    Carries (fun body => withMode mode value (inner body)) out holds :=
  carries_withMode (hinner _ (hline _ (Modes.constrained_set hv hc)))

theorem carries_inTable (hline : ∀ modes : Modes, modes.constrained → holds modes) :
    Carries inTable out holds := by
  have htable : ({ out.modes with inlineMarkdown := true, table := true } : Modes).constrained := rfl
  exact carries_withMode (carries_withMode (carries_body (hline _ htable)))

theorem carries_inSingleLine (hline : ∀ modes : Modes, modes.constrained → holds modes)
    (hinner : ∀ mid : Output, holds mid.modes → Carries inner mid holds) :
    Carries (fun body => inSingleLine (inner body)) out holds := by
  refine carries_look (carries_withMode (carries_withMode (hinner _ (hline _ ?_))))
  simp [Modes.set, Modes.constrained]

section Inline

theorem carries_link (hinner : ∀ mid : Output, holds mid.modes → Carries inner mid holds)
    (h : holds out.modes) (destination : String) (title : Option String) :
    Carries (fun body => link destination title (inner body)) out holds := by
  refine carries_look (carries_ite (fun _ => hinner out h) fun _ => ?_)
  refine carries_look (carries_ite (fun _ => ?_) fun _ => ?_)
  · refine (framed_write _).carries fun _ u hu => (framed_attributeValue _).carries fun _ v hv => ?_
    refine (framed_write _).carries fun _ w hw => (framed_optionalAttribute _ _).carries fun _ x hx => ?_
    refine (framed_write _).carries fun _ y hy => (hinner y ?_).after _
    rwa [hy, hx, hw, hv, hu]
  · exact (framed_write "[").carries fun _ mid hmid => (hinner mid (hmid ▸ h)).after _

theorem carries_emphasis (hinner : ∀ mid : Output, holds mid.modes → Carries inner mid holds)
    (h : holds out.modes) (style : Emphasis) (isEmpty : Bool) :
    Carries (fun body => emphasis style isEmpty (inner body)) out holds := by
  refine carries_look (carries_ite (fun _ => hinner out h) fun _ => ?_)
  refine carries_look (carries_ite (fun _ => ?_) fun _ => ?_)
  · exact (framed_write _).carries fun _ mid hmid => (hinner mid (hmid ▸ h)).after _
  · exact (framed_write _).carries fun _ mid hmid => (hinner mid (hmid ▸ h)).after _

end Inline

section Block
variable (hline : ∀ modes : Modes, modes.constrained → holds modes)
  (hinner : ∀ mid : Output, holds mid.modes → Carries inner mid holds)
include hline hinner

theorem carries_heading (level : UInt8) (anchor : Option String) :
    Carries (fun body => heading level anchor (inner body)) out holds := by
  simp only [heading_eq]
  cases headingError? level anchor with
  | some error => exact carries_never
  | none =>
    refine carries_ifConstrained (fun hc => ?_) fun _ => ?_
    · refine (framed_write _).carries fun _ mid hmid => (carries_withMode ?_).after _
      refine (framed_optionalAnchor anchor).carries fun _ mid' hmid' => hinner mid' (hline _ ?_)
      rw [← Output.constrained_congr hmid] at hc
      rw [hmid']
      exact Modes.constrained_set (by decide) hc
    · refine carries_paragraphBreak fun mid _ => ?_
      refine (framed_write _).carries fun _ mid _ => (framed_write _).carries fun _ mid _ => ?_
      refine (framed_optionalAnchor anchor).carries fun _ mid _ => ?_
      exact (carries_inSingleLine hline hinner).after _

theorem carries_quote (h : holds out.blockModes) :
    Carries (fun body => quote (inner body)) out holds := by
  refine carries_ifConstrained (fun hc => ?_) fun _ => ?_
  · refine (framed_write _).carries fun _ mid hmid => ?_
    rw [← Output.constrained_congr hmid] at hc
    exact (carries_constrained hline hinner hc (by decide)).after _
  · refine carries_paragraphBreak fun mid hmid => carries_look ?_
    have hquoted (u : Output) (hu : u.modes = mid.modes) :
        Carries (fun body => withIndent "> " do markFresh; inner body) u holds := by
      refine carries_withIndent (framed_markFresh.carries fun _ v hv => hinner v ?_)
      rwa [hv, hu, hmid]
    refine carries_ite (fun _ => ?_) fun _ => ?_
    · exact (hquoted mid rfl).after _
    · exact (framed_write "> ").carries fun _ u hu => (hquoted u hu).after _

/-- The body of a code block with links stands in a preformatted block or on a line that may not
end. -/
theorem carries_linkedCode
    (hpre : holds ((out.blockModes.set .htmlBlock true).set .preformatted true))
    (language : String) : Carries (fun body => linkedCode language (inner body)) out holds := by
  refine carries_ifConstrained (fun hc => ?_) fun _ => ?_
  · refine (framed_write _).carries fun _ mid hmid => ?_
    rw [← Output.constrained_congr hmid] at hc
    have hblock : Output.constrained { mid with modes := mid.modes.set .htmlBlock true } :=
      Modes.constrained_set (by decide) hc
    exact (carries_withMode (carries_constrained hline hinner hblock (by decide))).after _
  · refine carries_paragraphBreak fun mid hmid => (framed_write _).carries fun _ u hu => ?_
    refine (framed_attributeValue language).carries fun _ v hv => ?_
    refine (framed_write _).carries fun _ w hw => ?_
    refine (carries_withMode (carries_withMode (hinner _ ?_))).after _
    rwa [hw, hv, hu, hmid]

theorem carries_summary {children : Render Unit} :
    Carries (fun body => collapsible (inner body) children) out holds := by
  refine carries_ifConstrained (fun hc => ?_) fun _ => ?_
  · refine (framed_write _).carries fun _ mid hmid => (carries_withMode ?_).after _
    rw [← Output.constrained_congr hmid] at hc
    exact (hinner _ (hline _ (Modes.constrained_set (by decide) hc))).after _
  · refine carries_paragraphBreak fun mid _ => (framed_writeLine _).carries fun _ mid _ => ?_
    refine (framed_write _).carries fun _ mid _ => (carries_withMode ?_).after _
    exact carries_inSingleLine hline hinner

theorem carries_collapsible {summary : Render Unit} (hs : Framed summary)
    (h : holds out.blockModes) : Carries (fun body => collapsible summary (inner body)) out holds := by
  refine carries_ifConstrained (fun hc => ?_) fun _ => ?_
  · refine (framed_write _).carries fun _ mid hmid => (carries_withMode ?_).after _
    refine hs.carries fun _ u hu => (framed_write _).carries fun _ v hv => hinner v (hline _ ?_)
    rw [← Output.constrained_congr hmid] at hc
    rw [hv, hu]
    exact Modes.constrained_set (by decide) hc
  · refine carries_paragraphBreak fun mid hmid => (framed_writeLine _).carries fun _ u hu => ?_
    refine (framed_write _).carries fun _ v hv => ?_
    refine (hs.inSingleLine.withMode (by decide)).carries fun _ w hw => ?_
    refine (framed_write _).carries fun _ x hx => framed_ensureSkippedLine.carries fun _ y hy => ?_
    refine (hinner y ?_).after _
    rwa [hy, hx, hw, hv, hu, hmid]

/-- Inside the tags of a block the flag of an open HTML block is set. -/
theorem carries_element {tag : String} {attributes : Dict String}
    (hinline : Html.TagClass.ofTag tag = .inline → holds out.modes)
    (hbare : Html.TagClass.ofTag tag = .block → attributes.isEmpty && Html.lowerAscii tag == "p" →
      holds out.blockModes)
    (htags : Html.TagClass.ofTag tag = .block →
      ¬ (attributes.isEmpty && Html.lowerAscii tag == "p") → holds (out.modes.set .htmlBlock true)) :
    Carries (fun body => element tag attributes (inner body)) out holds := by
  have hopen : Framed (openTag tag attributes false) := framed_openTag tag attributes false
  unfold Markdown.element
  cases hclass : Html.TagClass.ofTag tag with
  | void => exact carries_never
  | inline =>
    exact hopen.carries fun _ mid hmid => (hinner mid (hmid ▸ hinline hclass)).after _
  | block =>
    refine carries_look (carries_ite (fun hp => ?_) fun hp => carries_look ?_)
    · rw [Bool.and_assoc, Bool.and_eq_true] at hp
      exact carries_paragraphBreak fun mid hmid => hinner mid (hmid ▸ hbare hclass hp.2)
    · have hset : holds (out.modes.set .htmlBlock true) := by
        by_cases hc : out.constrained
        · exact hline _ (Modes.constrained_set (by decide) hc)
        · refine htags hclass fun hbare => hp ?_
          rw [Bool.and_assoc, hbare, Bool.and_true]
          simpa using hc
      refine carries_ite (fun _ => ?_) fun _ => ?_
      · refine hopen.carries fun _ mid hmid => (carries_withMode (hinner _ ?_)).after _
        rwa [hmid]
      · refine carries_paragraphBreak fun mid hmid => hopen.carries fun _ u hu => carries_look ?_
        refine (carries_withMode (hinner _ ?_)).after _
        rw [hu, hmid, Output.blockModes]
        split
        · exact hset
        · rwa [Modes.set_set]

end Block

section Items
variable {before after : List (Render Unit)} {above below : List (List (Render Unit))}
  (hline : ∀ modes : Modes, modes.constrained → holds modes)
  (hbefore : ∀ steps ∈ before, Framed steps)

include hbefore in
theorem carries_htmlItems (h : holds out.modes) :
    Carries (fun body => htmlItems (before ++ body :: after)) out holds := by
  induction before generalizing out with
  | nil => exact (framed_write _).carries fun _ mid hmid => (carries_body (hmid ▸ h)).after _
  | cons item rest ih =>
    obtain ⟨hitem, hrest⟩ := List.forall_mem_cons.1 hbefore
    refine (framed_write _).carries fun _ u hu => hitem.carries fun _ v hv => ?_
    refine (framed_write _).carries fun _ w hw => ih hrest ?_
    rwa [hw, hv, hu]

include hbefore in
theorem carries_markedItems (h : holds (out.modes.set .listItem true)) (style : ListStyle)
    (position : Nat) :
    Carries (fun body => markedItems style position (before ++ body :: after)) out holds := by
  induction before generalizing out position with
  | nil =>
    refine framed_ensureNewLine.carries fun _ u hu => (framed_write _).carries fun _ v hv => ?_
    refine (carries_withIndent (carries_withMode ?_)).after _
    refine framed_markFresh.carries fun _ w hw => carries_body ?_
    rw [hw]
    change holds (v.modes.set .listItem true)
    rwa [hv, hu]
  | cons item rest ih =>
    obtain ⟨hitem, hrest⟩ := List.forall_mem_cons.1 hbefore
    have hmarked : Framed
        (withIndent (String.ofList (List.replicate (marker style position).length ' ')) <|
          withMode .listItem true do markFresh; item) :=
      ((framed_markFresh.then hitem).withMode (by decide)).withIndent (oneLine_spaces _)
    refine framed_ensureNewLine.carries fun _ u hu => (framed_write _).carries fun _ v hv => ?_
    refine hmarked.carries fun _ w hw => ih hrest ?_ _
    rwa [hw, hv, hu]

include hline hbefore in
/-- An item of a list is never read as part of the HTML around the list. -/
theorem carries_list (h : holds ((out.modes.set .htmlBlock false).set .listItem true))
    (style : ListStyle) : Carries (fun body => list style (before ++ body :: after)) out holds := by
  refine carries_ifConstrained (fun hc => ?_) fun _ => ?_
  · refine (framed_write _).carries fun _ mid hmid => (carries_withMode ?_).after _
    rw [← Output.constrained_congr hmid] at hc
    exact carries_htmlItems hbefore (hline _ (Modes.constrained_set (by decide) hc))
  · have hitems (mid : Output) (hmid : mid.modes = out.modes) :
        Carries (fun body => withMode .htmlBlock false do
          markedItems style 0 (before ++ body :: after)
          ensureNewLine) mid holds := by
      refine carries_withMode ((carries_markedItems hbefore ?_ style 0).after _)
      rwa [hmid]
    refine carries_look (carries_look (carries_ite (fun _ => ?_) fun _ => ?_))
    · exact framed_ensureNewLine.carries fun _ mid hmid => hitems mid hmid
    · exact framed_ensureSkippedLine.carries fun _ mid hmid => hitems mid hmid

end Items

section Cells
variable {before after header : List (Render Unit)} {above below rows : List (List (Render Unit))}
  (hline : ∀ modes : Modes, modes.constrained → holds modes)
  (hbefore : ∀ cell ∈ before, Framed cell)
include hbefore

theorem carries_htmlCells (h : holds out.modes) (tag : String) (columns : Nat) :
    Carries (fun body => htmlCells tag columns (before ++ body :: after)) out holds := by
  induction columns generalizing before out with
  | zero => exact carries_never
  | succ columns ih =>
    cases before with
    | nil => exact (framed_write _).carries fun _ mid hmid => (carries_body (hmid ▸ h)).after _
    | cons cell rest =>
      obtain ⟨hcell, hrest⟩ := List.forall_mem_cons.1 hbefore
      refine (framed_write _).carries fun _ u hu => hcell.carries fun _ v hv => ?_
      refine (framed_write _).carries fun _ w hw => ih hrest ?_
      rwa [hw, hv, hu]

theorem carries_htmlRow (h : holds out.modes) (tag : String) (columns : Nat) :
    Carries (fun body => htmlRow tag columns (before ++ body :: after)) out holds :=
  (framed_write _).carries fun _ _ hmid =>
    (carries_htmlCells hbefore (hmid ▸ h) tag columns).after _

theorem carries_htmlRows (habove : ∀ row ∈ above, ∀ cell ∈ row, Framed cell) (h : holds out.modes)
    (columns : Nat) :
    Carries (fun body => htmlRows columns (above ++ (before ++ body :: after) :: below)) out
      holds := by
  induction above generalizing out with
  | nil => exact (carries_htmlRow hbefore h "td" columns).after _
  | cons row rest ih =>
    obtain ⟨hrow, hrest⟩ := List.forall_mem_cons.1 habove
    exact (framed_htmlRow hrow "td" columns).carries fun _ mid hmid => ih hrest (hmid ▸ h)

include hline

theorem carries_markdownCells (columns : Nat) :
    Carries (fun body => markdownCells columns (before ++ body :: after)) out holds := by
  induction columns generalizing before out with
  | zero => exact carries_never
  | succ columns ih =>
    cases before with
    | nil => exact (framed_write _).carries fun _ mid _ => (carries_inTable hline).after _
    | cons cell rest =>
      obtain ⟨hcell, hrest⟩ := List.forall_mem_cons.1 hbefore
      refine (framed_write _).carries fun _ u _ => hcell.inTable.carries fun _ v _ => ?_
      exact (framed_write _).carries fun _ w _ => ih hrest

theorem carries_markdownRow (columns : Nat) :
    Carries (fun body => markdownRow columns (before ++ body :: after)) out holds :=
  (framed_write _).carries fun _ _ _ => (carries_markdownCells hline hbefore columns).after _

theorem carries_markdownRows (habove : ∀ row ∈ above, ∀ cell ∈ row, Framed cell) (columns : Nat) :
    Carries (fun body => markdownRows columns (above ++ (before ++ body :: after) :: below))
      out holds := by
  induction above generalizing out with
  | nil => exact (carries_markdownRow hline hbefore columns).after _
  | cons row rest ih =>
    obtain ⟨hrow, hrest⟩ := List.forall_mem_cons.1 habove
    exact (framed_markdownRow hrow columns).carries fun _ mid _ => ih hrest

theorem carries_header :
    Carries (fun body => table (before ++ body :: after) rows) out holds := by
  have hcolumns (body : Render Unit) : columnCount (before ++ body :: after) rows =
      columnCount (before ++ pure () :: after) rows := by simp [columnCount]
  simp only [table_eq, hcolumns]
  refine carries_ite (fun _ => carries_never) fun _ => ?_
  refine carries_ifConstrained (fun hc => ?_) fun _ => ?_
  · refine (framed_write _).carries fun _ mid hmid => (carries_withMode ?_).after _
    rw [← Output.constrained_congr hmid] at hc
    have hset : holds (mid.modes.set .htmlBlock true) := hline _ (Modes.constrained_set (by decide) hc)
    exact (carries_htmlRow hbefore hset "th" _).after _
  · refine framed_ensureSkippedLine.carries fun _ mid _ => carries_withMode ?_
    exact (carries_markdownRow hline hbefore _).after _

theorem carries_cell (hheader : ∀ cell ∈ header, Framed cell)
    (habove : ∀ row ∈ above, ∀ cell ∈ row, Framed cell) :
    Carries (fun body => table header (above ++ (before ++ body :: after) :: below)) out holds := by
  have hcolumns (body : Render Unit) :
      columnCount header (above ++ (before ++ body :: after) :: below) =
        columnCount header (above ++ (before ++ pure () :: after) :: below) := by
    simp [columnCount]
  simp only [table_eq, hcolumns]
  refine carries_ite (fun _ => carries_never) fun _ => ?_
  refine carries_ifConstrained (fun hc => ?_) fun _ => ?_
  · refine (framed_write _).carries fun _ mid hmid => (carries_withMode ?_).after _
    refine (framed_htmlRow hheader "th" _).carries fun _ u hu => ?_
    refine carries_htmlRows hbefore habove ?_ _
    rw [← Output.constrained_congr hmid] at hc
    rw [hu]
    exact hline _ (Modes.constrained_set (by decide) hc)
  · refine framed_ensureSkippedLine.carries fun _ mid _ => carries_withMode ?_
    refine (framed_markdownRow hheader _).carries fun _ u _ => ?_
    refine (framed_write _).carries fun _ v _ => (framed_divider _).carries fun _ w _ => ?_
    refine (framed_write _).carries fun _ x _ => ?_
    exact carries_markdownRows hline hbefore habove _

end Cells

end Render

end DocTree.Markdown
