import DocTree.Proofs.Frame

/-! Two runs of the same steps. A relation between outputs that look the same from the line they
are on is kept by the rendering of every tree if it is kept by the few steps that change an output.
With a relation that asks for equal outputs this is an invariant of everything that is written. -/
namespace DocTree.Markdown
open Text Layout

/-- The output with a text written to it. -/
def Output.wrote (out : Output) (s : String) : Output :=
  ⟨out.buffer.write s, out.modes, out.fresh && s.toList.all Unicode.isBlank⟩

theorem Output.wrote_wrote (out : Output) (s t : String) :
    (out.wrote s).wrote t = out.wrote (s ++ t) := by
  simp [wrote, Buffer.write_append, Bool.and_assoc]

theorem Output.wrote_empty (out : Output) : out.wrote "" = out := by
  simp [wrote]

/-- A relation kept by what happens inside a line, and in modes that are taken back. -/
class OnLine (R : Output → Output → Prop) : Prop where
  modes {a b : Output} : R a b → b.modes = a.modes
  fresh {a b : Output} : R a b → b.fresh = a.fresh
  atLineStart {a b : Output} : R a b → b.buffer.atLineStart = a.buffer.atLineStart
  lineIsBlank {a b : Output} : R a b → b.buffer.lineIsBlank = a.buffer.lineIsBlank
  wrote {a b : Output} {s : String} : R a b → (a.constrained → OneLine s) →
    R (a.wrote s) (b.wrote s)
  setMode {a b : Output} {mode : Mode} {value : Bool} : R a b → (mode.constrains → value) →
    R { a with modes := a.modes.set mode value } { b with modes := b.modes.set mode value }
  restore {a b c d : Output} : R a b → R c d →
    R { a with modes := c.modes } { b with modes := d.modes }

/-- A relation that is also kept where lines end and blocks begin. -/
class Stable (R : Output → Output → Prop) : Prop extends OnLine R where
  skipLine {a b : Output} : R a b → a.constrained = false →
    R { a with buffer := a.buffer.ensureSkippedLine }
      { b with buffer := b.buffer.ensureSkippedLine }
  markFresh {a b : Output} : R a b → a.constrained = false →
    R { a with fresh := true } { b with fresh := true }
  pushIndent {a b : Output} {indent : String} : R a b → a.constrained = false →
    R { a with buffer := a.buffer.pushIndent indent }
      { b with buffer := b.buffer.pushIndent indent }
  popIndent {a b : Output} : R a b → a.constrained = false →
    R { a with buffer := a.buffer.popIndent } { b with buffer := b.buffer.popIndent }
  broken {a b c d : Output} : R a b → R c d → a.constrained = false →
    brokenSince b.text.length d = brokenSince a.text.length c

namespace Render
variable {α β : Type} {R : Output → Output → Prop} {l m : Bool}

theorem write_of_breaks {s : String} {out : Output} (hc : out.constrained) (hs : ¬ OneLine s) :
    write s out = (.error (.newlineInSingleLine s), out) := by
  have hbreaks : (out.constrained && s.toList.contains '\n') = true := by
    simpa [hc, OneLine] using hs
  rw [write, if_pos hbreaks]

theorem write_of_fits {s : String} {out : Output} (h : out.constrained → OneLine s) :
    write s out = (.ok (), out.wrote s) := by
  have hfits : ¬ (out.constrained && s.toList.contains '\n') = true := by
    simpa [OneLine] using h
  rw [write, if_neg hfits]
  rfl

/-- From related outputs, where a line may not end if `l` holds and else may, the steps come to the
same and leave related outputs behind. -/
def Respects (R : Output → Output → Prop) (l : Bool) (steps : Render α) : Prop :=
  ∀ a b, R a b → a.constrained = l →
    (steps b).1 = (steps a).1 ∧ R (steps a).2 (steps b).2 ∧ (steps a).2.modes = a.modes

theorem respects_pure (a : α) : Respects R l (pure a) := fun _ _ h _ => ⟨rfl, h, rfl⟩

theorem respects_fail (error : RenderError) : Respects R l (fail error : Render α) :=
  fun _ _ h _ => ⟨rfl, h, rfl⟩

theorem Respects.bind {steps : Render α} {next : α → Render β} (h : Respects R l steps)
    (hnext : ∀ a, Respects R l (next a)) : Respects R l (steps >>= next) := by
  intro a b hab hl
  obtain ⟨hresult, hmid, hmodes⟩ := h a b hab hl
  rw [bind_apply, bind_apply]
  cases ha : steps a with
  | mk result u =>
    cases hb : steps b with
    | mk result' v =>
      rw [ha] at hmid hmodes hresult
      rw [hb] at hmid hresult
      cases hresult
      cases result with
      | error e => exact ⟨rfl, hmid, hmodes⟩
      | ok x =>
        have hline : u.constrained = l := (Output.constrained_congr hmodes).trans hl
        obtain ⟨hsame, hend, hkept⟩ := hnext x u v hmid hline
        exact ⟨hsame, hend, hkept.trans hmodes⟩

theorem Respects.then {steps : Render Unit} {next : Render α} (h : Respects R l steps)
    (hnext : Respects R l next) : Respects R l (do steps; next) := h.bind fun _ => hnext

theorem respects_look {view : Output → α} {next : α → Render β}
    (hview : ∀ a b, R a b → view b = view a)
    (h : ∀ out : Output, out.constrained = l → Respects R l (next (view out))) :
    Respects R l (look view >>= next) := by
  intro a b hab hl
  have hsame := h a hl a b hab hl
  rw [bind_apply, bind_apply]
  simp only [look, hview a b hab]
  exact hsame

section OnLine
variable [OnLine R]

theorem modes_view (g : Modes → α) {a b : Output} (h : R a b) : g b.modes = g a.modes := by
  rw [OnLine.modes h]

theorem escapeContext_view {a b : Output} (h : R a b) : b.escapeContext = a.escapeContext := by
  rw [Output.escapeContext, Output.escapeContext, OnLine.modes h, OnLine.fresh h,
    OnLine.lineIsBlank h]

/-- A choice by whether a line may end. -/
theorem respects_ifConstrained {steps next : Render α} (h : l = true → Respects R l steps)
    (hnext : l = false → Respects R l next) :
    Respects R l (do if ← constrained then steps else next) := by
  apply respects_look (fun _ _ hab => modes_view Modes.constrained hab)
  intro out (hl : out.modes.constrained = l)
  rw [hl]
  cases l with
  | true => exact h rfl
  | false => exact hnext rfl

theorem respects_write (s : String) : Respects R l (write s) := by
  intro a b hab hl
  have hb : b.constrained = a.constrained := modes_view Modes.constrained hab
  by_cases hs : a.constrained → OneLine s
  · have hs' : b.constrained → OneLine s := fun hc => hs (hb ▸ hc)
    rw [write_of_fits hs, write_of_fits hs']
    exact ⟨rfl, OnLine.wrote hab hs, rfl⟩
  · obtain ⟨hc, hbreaks⟩ := Classical.not_imp.1 hs
    rw [write_of_breaks hc hbreaks, write_of_breaks (hb.trans hc) hbreaks]
    exact ⟨rfl, hab, rfl⟩

theorem respects_writeEscaped (s : String) : Respects R l (writeEscaped s) :=
  respects_look (fun _ _ hab => escapeContext_view hab) fun _ _ => respects_write _

theorem respects_ensureNewLine : Respects R l ensureNewLine := by
  apply respects_look fun _ _ hab => OnLine.atLineStart hab
  intro out _
  split
  · exact respects_pure ()
  · exact respects_write "\n"

/-- Modes are taken back behind the steps in them. -/
theorem Respects.withMode {steps : Render α} (h : Respects R m steps) {mode : Mode} {value : Bool}
    (hv : mode.constrains → value)
    (hline : ∀ modes : Modes, modes.constrained = l → (modes.set mode value).constrained = m) :
    Respects R l (withMode mode value steps) := by
  intro a b hab hl
  obtain ⟨hresult, hend, hmodes⟩ := h _ _ (OnLine.setMode hab hv) (hline a.modes hl)
  have hmodes' : (steps { b with modes := b.modes.set mode value }).2.modes =
      b.modes.set mode value := by
    rw [OnLine.modes hend, hmodes, OnLine.modes hab]
  refine ⟨hresult, ?_, ?_⟩
  · simpa [Render.withMode, hmodes, hmodes', Modes.set_set, Modes.set_get]
      using OnLine.restore hend hab
  · simp [Render.withMode, hmodes, Modes.set_set, Modes.set_get]

theorem Respects.inMode {steps : Render α} (h : Respects R l steps) {mode : Mode} {value : Bool}
    (hmode : mode.constrains = false) : Respects R l (Render.withMode mode value steps) := by
  apply h.withMode (by simp [hmode])
  intro modes hl
  cases mode <;> first | exact hl | cases hmode

theorem Respects.inTable {steps : Render α} (h : Respects R true steps) :
    Respects R l (inTable steps) := by
  have htable : Respects R l (Render.withMode .table true steps) :=
    h.withMode (fun _ => rfl) fun _ _ => rfl
  exact htable.inMode rfl

theorem Respects.inSingleLine {steps : Render α} (h : Respects R true steps) :
    Respects R l (inSingleLine steps) := by
  have hline (modes : Modes) : (modes.set .singleLine true).constrained = true := by
    simp [Modes.set, Modes.constrained]
  have hsteps : Respects R l (Render.withMode .singleLine true steps) :=
    h.withMode (fun _ => rfl) fun modes _ => hline modes
  have hview (a b : Output) (hab : R a b) : (b.modes.inlineMarkdown || !b.modes.htmlBlock) =
      (a.modes.inlineMarkdown || !a.modes.htmlBlock) := by
    rw [OnLine.modes hab]
  apply respects_look hview
  intro _ _
  exact hsteps.inMode rfl

section Inline
variable {body : Render Unit}

theorem respects_attributeValue (value : String) : Respects R l (attributeValue value) :=
  (((respects_writeEscaped value).inMode rfl).inMode rfl).inMode rfl

theorem respects_optionalAttribute (name : String) (value : Option String) :
    Respects R l (optionalAttribute name value) := by
  cases value with
  | none => exact respects_pure ()
  | some value =>
    exact (respects_write _).then ((respects_attributeValue value).then (respects_write _))

theorem respects_attributeList (attributes : List (String × String)) :
    Respects R l (attributeList attributes) := by
  induction attributes with
  | nil => exact respects_pure ()
  | cons e rest ih =>
    exact (respects_write _).then <| (respects_write _).then <| (respects_write _).then <|
      (respects_attributeValue _).then <| (respects_write _).then ih

theorem respects_openTag (tag : String) (attributes : Dict String) (selfClosing : Bool) :
    Respects R l (openTag tag attributes selfClosing) :=
  (respects_write _).then <| (respects_write _).then <|
    (respects_attributeList _).then <| respects_write _

theorem respects_optionalAnchor (anchor : Option String) :
    Respects R l (optionalAnchor anchor) := by
  cases anchor with
  | none => exact respects_pure ()
  | some id => exact respects_write _

theorem respects_usesHtml {next : Bool → Render α} (h : ∀ html, Respects R l (next html)) :
    Respects R l (usesHtml >>= next) :=
  respects_look (fun _ _ hab => modes_view (fun modes => modes.htmlBlock && !modes.table) hab)
    fun _ _ => h _

theorem respects_inMode {mode : Mode} {next : Bool → Render α} (h : ∀ on, Respects R l (next on)) :
    Respects R l (Render.inMode mode >>= next) :=
  respects_look (fun _ _ hab => modes_view (·.get mode) hab) fun _ _ => h _

theorem respects_linkTail (destination : String) (title : Option String) :
    Respects R l (linkTail destination title) := by
  apply (respects_write _).then
  apply respects_inMode
  intro inTable
  apply (respects_write _).then
  cases title with
  | none => exact respects_write _
  | some title => exact (respects_write _).then (respects_write _)

theorem Respects.link (h : Respects R l body) (destination : String) (title : Option String) :
    Respects R l (link destination title body) := by
  apply respects_inMode
  intro code
  split
  · exact h
  apply respects_usesHtml
  intro html
  split
  · exact (respects_write _).then <| (respects_attributeValue _).then <| (respects_write _).then <|
      (respects_optionalAttribute _ _).then <| (respects_write _).then <| h.then (respects_write _)
  · exact (respects_write _).then (h.then (respects_linkTail _ _))

theorem Respects.emphasis (h : Respects R l body) (style : Emphasis) (isEmpty : Bool) :
    Respects R l (emphasis style isEmpty body) := by
  apply respects_inMode
  intro code
  split
  · exact h
  apply respects_usesHtml
  intro html
  split <;> exact (respects_write _).then (h.then (respects_write _))

theorem respects_codeSpan (content : String) : Respects R l (codeSpan content) := by
  unfold codeSpan
  dsimp only
  split
  · exact respects_pure ()
  apply respects_usesHtml
  intro html
  split
  · exact (respects_write _).then ((respects_writeEscaped _).then (respects_write _))
  · exact (respects_write _).then <| (respects_write _).then <|
      ((respects_writeEscaped _).inMode rfl).then <| (respects_write _).then (respects_write _)

theorem respects_image (src : String) (title alt : Option String) :
    Respects R l (image src title alt) := by
  apply respects_usesHtml
  intro html
  split
  · exact (respects_write _).then <| (respects_attributeValue _).then <| (respects_write _).then <|
      (respects_optionalAttribute _ _).then <| (respects_optionalAttribute _ _).then <|
      respects_write _
  apply (respects_write _).then
  cases alt with
  | none => exact respects_linkTail _ _
  | some alt => exact (respects_writeEscaped _).then (respects_linkTail _ _)

theorem respects_comment (s : String) : Respects R l (comment s) :=
  respects_look (fun _ _ hab => modes_view Modes.constrained hab) fun _ _ =>
    (respects_write _).then ((respects_write _).then (respects_write _))

end Inline

theorem respects_htmlItems {items : List (Render Unit)} (h : ∀ item ∈ items, Respects R l item) :
    Respects R l (htmlItems items) := by
  induction items with
  | nil => exact respects_pure ()
  | cons item rest ih =>
    obtain ⟨hitem, hrest⟩ := List.forall_mem_cons.1 h
    exact (respects_write _).then (hitem.then ((respects_write _).then (ih hrest)))

theorem respects_htmlCells {cells : List (Render Unit)} (h : ∀ cell ∈ cells, Respects R l cell)
    (tag : String) (columns : Nat) : Respects R l (htmlCells tag columns cells) := by
  induction columns generalizing cells with
  | zero => exact respects_pure ()
  | succ columns ih =>
    cases cells with
    | nil => exact (respects_write _).then ((respects_write _).then (ih h))
    | cons cell rest =>
      obtain ⟨hcell, hrest⟩ := List.forall_mem_cons.1 h
      exact (respects_write _).then (hcell.then ((respects_write _).then (ih hrest)))

theorem respects_htmlRow {cells : List (Render Unit)} (h : ∀ cell ∈ cells, Respects R l cell)
    (tag : String) (columns : Nat) : Respects R l (htmlRow tag columns cells) :=
  (respects_write _).then ((respects_htmlCells h tag columns).then (respects_write _))

theorem respects_htmlRows {rows : List (List (Render Unit))}
    (h : ∀ row ∈ rows, ∀ cell ∈ row, Respects R l cell) (columns : Nat) :
    Respects R l (htmlRows columns rows) := by
  induction rows with
  | nil => exact respects_pure ()
  | cons row rest ih =>
    obtain ⟨hrow, hrest⟩ := List.forall_mem_cons.1 h
    exact (respects_htmlRow hrow "td" columns).then (ih hrest)

theorem respects_markdownCells {cells : List (Render Unit)}
    (h : ∀ cell ∈ cells, Respects R true cell) (columns : Nat) :
    Respects R l (markdownCells columns cells) := by
  induction columns generalizing cells with
  | zero => exact respects_pure ()
  | succ columns ih =>
    cases cells with
    | nil => exact (respects_write _).then ((respects_write _).then (ih h))
    | cons cell rest =>
      obtain ⟨hcell, hrest⟩ := List.forall_mem_cons.1 h
      exact (respects_write _).then (hcell.inTable.then ((respects_write _).then (ih hrest)))

theorem respects_markdownRow {cells : List (Render Unit)}
    (h : ∀ cell ∈ cells, Respects R true cell) (columns : Nat) :
    Respects R l (markdownRow columns cells) :=
  (respects_write _).then ((respects_markdownCells h columns).then (respects_write _))

theorem respects_markdownRows {rows : List (List (Render Unit))}
    (h : ∀ row ∈ rows, ∀ cell ∈ row, Respects R true cell) (columns : Nat) :
    Respects R l (markdownRows columns rows) := by
  induction rows with
  | nil => exact respects_pure ()
  | cons row rest ih =>
    obtain ⟨hrow, hrest⟩ := List.forall_mem_cons.1 h
    exact (respects_markdownRow hrow columns).then (ih hrest)

theorem respects_divider (columns : Nat) : Respects R l (divider columns) := by
  induction columns with
  | zero => exact respects_pure ()
  | succ columns ih => exact (respects_write _).then ih

end OnLine

section Stable
variable [Stable R]

theorem respects_markFresh : Respects R false markFresh :=
  fun _ _ hab hl => ⟨rfl, Stable.markFresh hab hl, rfl⟩

theorem respects_skipLine : Respects R false (modifyBuffer Buffer.ensureSkippedLine) :=
  fun _ _ hab hl => ⟨rfl, Stable.skipLine hab hl, rfl⟩

theorem respects_ensureSkippedLine : Respects R false ensureSkippedLine :=
  respects_ifConstrained nofun fun _ => respects_skipLine

theorem Respects.withIndent {steps : Render α} (h : Respects R false steps) (indent : String) :
    Respects R false (withIndent indent steps) := by
  intro a b hab hl
  obtain ⟨hresult, hend, hmodes⟩ := h _ _ (Stable.pushIndent hab hl) hl
  exact ⟨hresult, Stable.popIndent hend ((Output.constrained_congr hmodes).trans hl), hmodes⟩

theorem Respects.paragraphBreak {steps : Render α} (h : Respects R false steps) :
    Respects R false (paragraphBreak steps) := by
  apply respects_ifConstrained nofun
  intro _
  apply respects_look fun _ _ hab => OnLine.fresh hab
  intro out _
  split
  · exact h
  · exact respects_skipLine.bind fun _ => (respects_markFresh.then h).inMode rfl

/-- The texts may differ in length, but a line has ended in both or in neither. -/
theorem Respects.lookBack {steps : Render Unit} {next : Bool → Render α}
    (h : Respects R false steps) (hnext : ∀ broken, Respects R false (next broken)) :
    Respects R false (do
      let start ← look fun out => out.text.length
      steps
      let broken ← look (brokenSince start)
      next broken) := by
  intro a b hab hl
  obtain ⟨hresult, hmid, hmodes⟩ := h a b hab hl
  have hbroken := Stable.broken hab hmid hl
  simp only [bind_apply, look]
  cases ha : steps a with
  | mk result u =>
    cases hb : steps b with
    | mk result' v =>
      rw [ha] at hmid hmodes hresult hbroken
      rw [hb] at hmid hresult hbroken
      cases hresult
      cases result with
      | error e => exact ⟨rfl, hmid, hmodes⟩
      | ok _ =>
        have hline : u.constrained = false := (Output.constrained_congr hmodes).trans hl
        obtain ⟨hsame, hend, hkept⟩ := hnext (brokenSince a.text.length u) u v hmid hline
        dsimp only at hbroken ⊢
        rw [hbroken]
        exact ⟨hsame, hend, hkept.trans hmodes⟩

section Block
variable {body : Render Unit} {items header : List (Render Unit)}
  {rows : List (List (Render Unit))}

theorem respects_notice : Respects R l notice :=
  (respects_write _).then <|
    respects_ifConstrained (fun _ => respects_pure ()) fun _ => respects_ensureNewLine

theorem respects_rule : Respects R l rule := by
  apply respects_ifConstrained (fun _ => respects_write _)
  rintro rfl
  exact ((respects_write _).then respects_ensureNewLine).paragraphBreak

theorem Respects.heading (h : Respects R true body) (level : UInt8) (anchor : Option String) :
    Respects R l (heading level anchor body) := by
  rw [heading_eq]
  split
  · exact respects_fail _
  apply respects_ifConstrained
  · rintro rfl
    have hinside := (respects_optionalAnchor anchor).then h
    exact (respects_write _).then ((hinside.inMode rfl).then (respects_write _))
  · rintro rfl
    have hline := (respects_optionalAnchor (R := R) anchor).then <|
      h.inSingleLine.then (respects_ensureNewLine (l := false))
    exact ((respects_write _).then ((respects_write _).then hline)).paragraphBreak

theorem respects_markedItems (h : ∀ item ∈ items, Respects R false item) (style : ListStyle)
    (position : Nat) : Respects R false (markedItems style position items) := by
  induction items generalizing position with
  | nil => exact respects_pure ()
  | cons item rest ih =>
    obtain ⟨hitem, hrest⟩ := List.forall_mem_cons.1 h
    have hmarked : Respects R false (Render.withMode .listItem true do markFresh; item) :=
      (respects_markFresh.then hitem).inMode rfl
    exact respects_ensureNewLine.then <| (respects_write _).then <|
      (hmarked.withIndent _).then (ih hrest _)

theorem respects_list (h : ∀ item ∈ items, Respects R l item) (style : ListStyle) :
    Respects R l (list style items) := by
  apply respects_ifConstrained
  · intro _
    exact (respects_write _).then <| ((respects_htmlItems h).inMode rfl).then (respects_write _)
  · rintro rfl
    have hitems : Respects R false (Render.withMode .htmlBlock false do
        markedItems style 0 items
        ensureNewLine) :=
      ((respects_markedItems h style 0).then respects_ensureNewLine).inMode rfl
    apply respects_look fun _ _ hab => OnLine.fresh hab
    intro out _
    apply respects_inMode
    intro inItem
    dsimp only
    split
    · exact respects_ensureNewLine.then hitems
    · exact respects_ensureSkippedLine.then hitems

theorem respects_table (hheader : ∀ cell ∈ header, Respects R true cell)
    (hrows : ∀ row ∈ rows, ∀ cell ∈ row, Respects R true cell) :
    Respects R l (table header rows) := by
  rw [table_eq]
  split
  · exact respects_fail _
  apply respects_ifConstrained
  · rintro rfl
    have hlines := (respects_htmlRow hheader "th" (columnCount header rows)).then
      (respects_htmlRows hrows (columnCount header rows))
    exact (respects_write _).then ((hlines.inMode rfl).then (respects_write _))
  · rintro rfl
    apply respects_ensureSkippedLine.then (Respects.inMode ?_ rfl)
    exact (respects_markdownRow hheader _).then <| (respects_write _).then <|
      (respects_divider _).then <| (respects_write _).then (respects_markdownRows hrows _)

theorem Respects.quote (h : Respects R l body) : Respects R l (quote body) := by
  apply respects_ifConstrained
  · intro _
    exact (respects_write _).then ((h.inMode rfl).then (respects_write _))
  · rintro rfl
    have hquoted := ((respects_markFresh.then h).withIndent "> ").then respects_ensureNewLine
    apply Respects.paragraphBreak
    apply respects_look fun _ _ hab => OnLine.atLineStart hab
    intro out _
    dsimp only
    split
    · exact hquoted
    · exact (respects_write _).then hquoted

theorem respects_codeBlock (language : Option String) (code : String) :
    Respects R l (codeBlock language code) := by
  have hcode {l : Bool} : Respects R l (writeEscaped code) := respects_writeEscaped code
  apply respects_ifConstrained
  · intro _
    exact (respects_write _).then (((hcode.inMode rfl).inMode rfl).then (respects_write _))
  · rintro rfl
    apply Respects.paragraphBreak
    exact (respects_write _).then <| (respects_write _).then <| (respects_write _).then <|
      (hcode.inMode rfl).then <| respects_ensureNewLine.then <|
      (respects_write _).then respects_ensureNewLine

theorem Respects.linkedCode (h : Respects R l body) (language : String) :
    Respects R l (linkedCode language body) := by
  apply respects_ifConstrained
  · intro _
    exact (respects_write _).then (((h.inMode rfl).inMode rfl).then (respects_write _))
  · rintro rfl
    apply Respects.paragraphBreak
    exact (respects_write _).then <| (respects_attributeValue _).then <| (respects_write _).then <|
      ((h.inMode rfl).inMode rfl).then <| (respects_write _).then respects_ensureNewLine

theorem Respects.collapsible {summary : Render Unit} (hs : Respects R true summary)
    (h : Respects R l body) : Respects R l (collapsible summary body) := by
  apply respects_ifConstrained
  · rintro rfl
    have hinside := hs.then ((respects_write "</summary>").then h)
    exact (respects_write _).then ((hinside.inMode rfl).then (respects_write _))
  · rintro rfl
    have hopen : Respects R false (writeLine "<details>") :=
      (respects_write _).then (respects_write _)
    apply Respects.paragraphBreak
    exact hopen.then <| (respects_write _).then <| (hs.inSingleLine.inMode rfl).then <|
      (respects_write _).then <| respects_ensureSkippedLine.then <| h.then <|
      respects_ensureSkippedLine.then <| (respects_write _).then respects_ensureNewLine

theorem Respects.blockElement (h : Respects R false body) (tag : String)
    (attributes : Dict String) : Respects R false (blockElement tag attributes body) := by
  have hclose : Respects R false (do closeTag tag; ensureNewLine) :=
    (respects_write _).then respects_ensureNewLine
  apply Respects.paragraphBreak
  apply (respects_openTag tag attributes false).then
  apply (h.inMode rfl).lookBack
  intro broken
  dsimp only
  split
  · exact respects_ensureSkippedLine.then hclose
  · exact hclose

theorem Respects.element (h : Respects R l body) (tag : String) (attributes : Dict String) :
    Respects R l (element tag attributes body) := by
  have hopen (selfClosing : Bool) : Respects R l (openTag tag attributes selfClosing) :=
    respects_openTag tag attributes selfClosing
  unfold Markdown.element
  split
  · exact hopen true
  · exact (hopen false).then (h.then (respects_write _))
  apply respects_look (fun _ _ hab => modes_view Modes.constrained hab)
  intro out hl
  split
  · next hbare =>
    have hfree : l = false := by simp_all [Output.constrained]
    exact hfree ▸ (hfree ▸ h : Respects R false body).paragraphBreak
  apply respects_inMode
  intro inBlock
  split
  · exact (hopen false).then ((h.inMode rfl).then (respects_write _))
  · next htags =>
    have hfree : l = false := by simp_all [Output.constrained]
    exact hfree ▸ (hfree ▸ h : Respects R false body).blockElement tag attributes

theorem respects_separateLists (afterList isList : Bool) :
    Respects R l (separateLists afterList isList) := by
  apply respects_look (fun _ _ hab => modes_view Modes.constrained hab)
  intro out hl
  split
  · next hapart =>
    have hfree : l = false := by simp_all [Output.constrained]
    subst hfree
    exact respects_ensureSkippedLine.then ((respects_write _).then respects_ensureNewLine)
  · exact respects_pure ()

end Block
end Stable
end Render
open Render

section Tree
variable {o : Options} {head : PageMetadata → Render Unit} {R : Output → Output → Prop} [Stable R]

theorem respects_renderNodes {l : Bool} {nodes : List Node}
    (h : ∀ n ∈ nodes, Respects R l (renderNode o head n)) (afterList : Bool) :
    Respects R l (renderNodes o head afterList nodes) := by
  induction nodes generalizing afterList with
  | nil => exact respects_pure ()
  | cons node rest ih =>
    obtain ⟨hnode, hrest⟩ := List.forall_mem_cons.1 h
    exact (respects_separateLists _ _).then (hnode.then (ih hrest _))

theorem respects_renderNode (hhead : ∀ metadata l, Respects R l (head metadata)) (node : Node)
    (l : Bool) : Respects R l (renderNode o head node) := by
  have hnodes {children : List Node}
      (ih : ∀ n ∈ children, ∀ l, Respects R l (renderNode o head n)) (l : Bool) :
      Respects R l (renderNodes o head false children) :=
    respects_renderNodes (fun n hn => ih n hn l) false
  induction node generalizing l with
  | text s => exact respects_writeEscaped s
  | rule => exact respects_rule
  | comment s persist =>
    rw [renderNode]
    split
    · exact respects_pure ()
    · exact respects_comment s
  | image src title alt => exact respects_image src title alt
  | code language s => exact respects_codeBlock language s
  | notice => exact respects_notice
  | group children ih => exact hnodes ih l
  | quote children ih => exact (hnodes ih l).quote
  | element tag attributes children ih => exact (hnodes ih l).element tag attributes
  | emphasis style children ih => exact (hnodes ih l).emphasis style _
  | codeSpan children => exact respects_codeSpan _
  | richCode language children ih =>
    rw [renderNode]
    split
    · exact (hnodes ih l).linkedCode language
    · exact respects_codeBlock _ _
  | link target destination title children ih => exact (hnodes ih l).link _ title
  | paragraph children ih => exact (hnodes ih l).element "p" ∅
  | heading level anchor children ih => exact (hnodes ih true).heading level anchor
  | list style items ih =>
    rw [renderNode, renderParts_eq_map]
    exact respects_list (List.forall_mem_map.2 fun n hn => ih n hn l) style
  | table header rows ihheader ihrows =>
    have hcells : ∀ row ∈ rows, ∀ cell ∈ row.map (renderNode o head), Respects R true cell :=
      fun row hrow => List.forall_mem_map.2 fun n hn => ihrows row hrow n hn true
    rw [renderNode, renderParts_eq_map, renderRows_eq_map]
    exact respects_table (List.forall_mem_map.2 fun n hn => ihheader n hn true)
      (List.forall_mem_map.2 hcells)
  | collapsible summary children ihsummary ih => exact (ihsummary true).collapsible (hnodes ih l)
  | page metadata children ih =>
    exact (hhead metadata l).then ((hnodes ih l).then respects_ensureNewLine)

theorem respects_pageHead (metadata : PageMetadata) (l : Bool) :
    Respects R l (pageHead o metadata) := by
  apply respects_notice.then
  apply ((respects_writeEscaped metadata.title).heading 1 none).then
  split
  · exact respects_pure ()
  · exact respects_renderNode (fun _ _ => respects_pure ()) _ l

/-- Rendering a tree keeps every stable relation. -/
theorem respects_render (o : Options) (node : Node) (l : Bool) : Respects R l (render o node) :=
  respects_renderNode respects_pageHead node l

end Tree

/-- A property of outputs kept by what happens inside a line. -/
class KeptOnLine (P : Output → Prop) : Prop where
  wrote {out : Output} {s : String} : P out → (out.constrained → OneLine s) → P (out.wrote s)
  setMode {out : Output} {mode : Mode} {value : Bool} : P out → (mode.constrains → value) →
    P { out with modes := out.modes.set mode value }
  restore {out saved : Output} : P out → P saved → P { out with modes := saved.modes }

/-- A property that is also kept where lines end and blocks begin. -/
class Kept (P : Output → Prop) : Prop extends KeptOnLine P where
  skipLine {out : Output} : P out → out.constrained = false →
    P { out with buffer := out.buffer.ensureSkippedLine }
  markFresh {out : Output} : P out → out.constrained = false → P { out with fresh := true }
  pushIndent {out : Output} {indent : String} : P out → out.constrained = false →
    P { out with buffer := out.buffer.pushIndent indent }
  popIndent {out : Output} : P out → P { out with buffer := out.buffer.popIndent }

section Kept
variable {α : Type} {P : Output → Prop}

/-- Two runs from one output in which the property holds. -/
def Keeping (P : Output → Prop) (a b : Output) : Prop := b = a ∧ P a

instance [KeptOnLine P] : OnLine (Keeping P) where
  modes h := h.1 ▸ rfl
  fresh h := h.1 ▸ rfl
  atLineStart h := h.1 ▸ rfl
  lineIsBlank h := h.1 ▸ rfl
  wrote := by
    rintro a _ s ⟨rfl, h⟩ hs
    exact ⟨rfl, KeptOnLine.wrote h hs⟩
  setMode := by
    rintro a _ mode value ⟨rfl, h⟩ hv
    exact ⟨rfl, KeptOnLine.setMode h hv⟩
  restore := by
    rintro a _ saved _ ⟨rfl, h⟩ ⟨rfl, hsaved⟩
    exact ⟨rfl, KeptOnLine.restore h hsaved⟩

instance [Kept P] : Stable (Keeping P) where
  skipLine := by
    rintro a _ ⟨rfl, h⟩ hl
    exact ⟨rfl, Kept.skipLine h hl⟩
  markFresh := by
    rintro a _ ⟨rfl, h⟩ hl
    exact ⟨rfl, Kept.markFresh h hl⟩
  pushIndent := by
    rintro a _ indent ⟨rfl, h⟩ hl
    exact ⟨rfl, Kept.pushIndent h hl⟩
  popIndent := by
    rintro a _ ⟨rfl, h⟩ _
    exact ⟨rfl, Kept.popIndent h⟩
  broken := by
    rintro a _ c _ ⟨rfl, _⟩ ⟨rfl, _⟩ _
    rfl

theorem Render.Respects.kept {steps : Render α} {out : Output}
    (h : Respects (Keeping P) out.constrained steps) (hP : P out) : P (steps out).2 :=
  (h out out ⟨rfl, hP⟩ rfl).2.1.2

end Kept
end DocTree.Markdown
