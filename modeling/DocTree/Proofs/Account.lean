import DocTree.Proofs.Buffer
import DocTree.Proofs.Checked
import DocTree.Proofs.Frame

/-! What becomes of steps that are run where a line may end, or where it may not: what holds if
they succeed, and which errors they may fail with. -/
namespace DocTree.Markdown
open Text

/-- A line may not end if `l` holds, and else it may. -/
def InLine (l : Bool) (modes : Modes) : Prop := modes.constrained = l

theorem InLine.eq_false {l : Bool} {out : Output} (h : InLine l out.modes)
    (hfree : out.constrained = false) : l = false := h.symm.trans hfree

theorem inLine_set {l : Bool} {modes : Modes} {mode : Mode} {value : Bool}
    (hmode : mode.constrains = false) (h : InLine l modes) : InLine l (modes.set mode value) := by
  rw [InLine, ← h]
  cases mode <;> first | rfl | cases hmode

theorem EscapeContext.oneLine_escape_of_oneLine (ctx : EscapeContext) {s : String}
    (h : OneLine s) : OneLine (ctx.escape s) := by
  rw [OneLine] at h
  rw [escape, oneLine_ofList]
  generalize ctx.lineIsBlank = blank
  generalize s.toList = cs at h
  induction cs generalizing blank with
  | nil => simp [escapeFrom]
  | cons c rest ih =>
    rw [List.mem_cons, not_or] at h
    have hc : '\n' ∉ ctx.escapeChar blank c := by
      unfold escapeChar
      split
      · next entity heq =>
        split at heq
        · cases heq
        · exact oneLine_of_entity? heq
      · split
        · decide
        · rw [if_neg (Ne.symm h.1)]
          split <;> simp [h.1]
    rw [escapeFrom, List.mem_append, not_or]
    exact ⟨hc, ih _ h.2⟩

namespace Render
variable {α β : Type} {E : RenderError → Prop} {P N : Modes → Prop} {Q R : Prop} {l : Bool}

/-- A success is a sign that `Q` holds, and the errors are among `E`. -/
def Settles (E : RenderError → Prop) (Q : Prop) : Except RenderError α → Prop
  | .ok _ => Q
  | .error e => E e

/-- In modes that satisfy `P` the steps keep the modes; if they succeed then `Q` holds, and their
errors are among `E`. -/
def Accounts (E : RenderError → Prop) (P : Modes → Prop) (Q : Prop) (steps : Render α) : Prop :=
  ∀ out : Output, P out.modes → (steps out).2.modes = out.modes ∧ Settles E Q (steps out).1

/-- A line break in the text is accounted for. -/
def Covers (E : RenderError → Prop) (l : Bool) (s : String) : Prop :=
  l → OneLine s ∨ ∀ t, E (.newlineInSingleLine t)

theorem Covers.imp {s t : String} (h : Covers E l s) (himp : OneLine s → OneLine t) :
    Covers E l t := fun hl => (h hl).imp_left himp

theorem accounts_pure (a : α) : Accounts E P True (pure a) := fun _ _ => ⟨rfl, trivial⟩

theorem accounts_fail {e : RenderError} (h : E e) : Accounts E P Q (fail e : Render α) :=
  fun _ _ => ⟨rfl, h⟩

theorem accounts_markFresh : Accounts E P True markFresh := fun _ _ => ⟨rfl, trivial⟩

theorem accounts_modifyBuffer (f : Layout.Buffer → Layout.Buffer) :
    Accounts E P True (modifyBuffer f) := fun _ _ => ⟨rfl, trivial⟩

theorem Settles.mono {result : Except RenderError α} (h : Settles E Q result) (hq : Q → R) :
    Settles E R result := by
  cases result with
  | ok => exact hq h
  | error e => exact h

theorem Accounts.mono {steps : Render α} (h : Accounts E P Q steps) (hq : Q → R) :
    Accounts E P R steps := fun out hout => ⟨(h out hout).1, (h out hout).2.mono hq⟩

theorem Accounts.bind {steps : Render α} {next : α → Render β} (h : Accounts E P Q steps)
    (hnext : ∀ a, Accounts E P R (next a)) : Accounts E P (Q ∧ R) (steps >>= next) := by
  intro out hout
  obtain ⟨hmodes, hsettles⟩ := h out hout
  rw [bind_apply]
  cases hsteps : steps out with
  | mk result mid =>
    rw [hsteps] at hmodes hsettles
    cases result with
    | error e => exact ⟨hmodes, hsettles⟩
    | ok a =>
      -- The first steps keep the modes, so the next ones begin where they are accounted for.
      have hmid : P mid.modes := hmodes ▸ hout
      obtain ⟨hmodes', hsettles'⟩ := hnext a mid hmid
      exact ⟨hmodes'.trans hmodes, hsettles'.mono fun hr => ⟨hsettles, hr⟩⟩

theorem Accounts.then {steps : Render Unit} {next : Render α} (h : Accounts E P True steps)
    (hnext : Accounts E P Q next) : Accounts E P Q (do steps; next) :=
  (h.bind fun _ => hnext).mono And.right

theorem Accounts.after {steps : Render Unit} {next : Render α} (h : Accounts E P Q steps)
    (hnext : Accounts E P True next) : Accounts E P Q (do steps; next) :=
  (h.bind fun _ => hnext).mono And.left

theorem accounts_look {view : Output → α} {next : α → Render β}
    (h : ∀ out : Output, P out.modes → Accounts E P Q (next (view out))) :
    Accounts E P Q (look view >>= next) := fun out hout => h out hout out hout

theorem accounts_ifConstrained {steps next : Render α} (h : l = true → Accounts E (InLine l) Q steps)
    (hnext : l = false → Accounts E (InLine l) Q next) :
    Accounts E (InLine l) Q (do if ← constrained then steps else next) := by
  refine accounts_look fun out hout => ?_
  rw [Output.constrained, hout]
  cases l with
  | true => exact h rfl
  | false => exact hnext rfl

theorem Accounts.withMode {steps : Render α} {mode : Mode} {value : Bool}
    (h : Accounts E N Q steps) (hset : ∀ modes, P modes → N (modes.set mode value)) :
    Accounts E P Q (withMode mode value steps) := by
  intro out hout
  obtain ⟨hmodes, hsettles⟩ := h { out with modes := out.modes.set mode value } (hset _ hout)
  refine ⟨?_, hsettles⟩
  simp only [Render.withMode, hmodes, Modes.set_set, Modes.set_get]

/-- Most modes have no say in whether a line may end. -/
theorem Accounts.inMode {steps : Render α} {mode : Mode} {value : Bool}
    (h : Accounts E (InLine l) Q steps) (hmode : mode.constrains = false) :
    Accounts E (InLine l) Q (Render.withMode mode value steps) :=
  h.withMode fun _ => inLine_set hmode

theorem Accounts.withIndent {steps : Render α} {indent : String} (h : Accounts E P Q steps) :
    Accounts E P Q (withIndent indent steps) :=
  fun out hout => h { out with buffer := out.buffer.pushIndent indent } hout

theorem Accounts.inTable {steps : Render α} (h : Accounts E (InLine true) Q steps) :
    Accounts E P Q (inTable steps) :=
  Accounts.withMode (N := fun _ => True)
    (h.withMode fun _ _ => by simp [InLine, Modes.constrained, Modes.set]) fun _ _ => trivial

theorem Accounts.inSingleLine {steps : Render α} (h : Accounts E (InLine true) Q steps) :
    Accounts E P Q (inSingleLine steps) :=
  accounts_look fun _ _ => Accounts.withMode (N := fun _ => True)
    (h.withMode fun _ _ => by simp [InLine, Modes.constrained, Modes.set]) fun _ _ => trivial

theorem accounts_write_of {s : String}
    (h : ∀ modes, P modes → modes.constrained → OneLine s ∨ ∀ t, E (.newlineInSingleLine t)) :
    Accounts E P True (write s) := by
  intro out hout
  refine ⟨(framed_write s out).modes, ?_⟩
  unfold write
  split
  · next hbreaks =>
    rw [Bool.and_eq_true, List.contains_iff_mem] at hbreaks
    exact ((h _ hout hbreaks.1).resolve_left fun hone => hone hbreaks.2) s
  · exact trivial

theorem accounts_write {s : String} (h : Covers E l s) : Accounts E (InLine l) True (write s) :=
  accounts_write_of fun _ hl hc => h (hl ▸ hc)

theorem accounts_line {s : String} (h : OneLine s) : Accounts E P True (write s) :=
  accounts_write_of fun _ _ _ => .inl h

theorem accounts_writeEscaped {s : String} (h : Covers E l s) :
    Accounts E (InLine l) True (writeEscaped s) :=
  accounts_look fun out _ => accounts_write (h.imp (out.escapeContext.oneLine_escape_of_oneLine))

/-- Where line breaks are replaced, texts are written without them. -/
theorem accounts_escapedLine {s : String}
    (h : ∀ out : Output, P out.modes → '\n' ∉ out.escapeContext.lineBreak) :
    Accounts E P True (writeEscaped s) :=
  accounts_look fun out hout => accounts_line (EscapeContext.oneLine_escape (h out hout) s)

theorem accounts_attributeValue (value : String) : Accounts E P True (attributeValue value) := by
  refine Accounts.withMode (N := fun modes => modes.htmlAttribute = true) ?_ fun _ _ => rfl
  refine Accounts.withMode (N := fun modes => modes.htmlAttribute = true) ?_ fun _ h => h
  refine Accounts.withMode (N := fun modes => modes.htmlAttribute = true) ?_ fun _ h => h
  refine accounts_escapedLine fun out hout => ?_
  have hattribute : out.escapeContext.htmlAttribute = true := hout
  rw [EscapeContext.lineBreak, if_pos hattribute]
  decide

/-- A line may end here, so line breaks need no account. -/
theorem covers_false {s : String} : Covers E false s := nofun

theorem accounts_endLine (h : Covers E l "\n") : Accounts E (InLine l) True ensureNewLine := by
  refine accounts_look fun out _ => ?_
  split
  · exact accounts_pure ()
  · exact accounts_write h

theorem accounts_ensureNewLine : Accounts E (InLine false) True ensureNewLine :=
  accounts_endLine covers_false

theorem accounts_ensureSkippedLine : Accounts E (InLine false) True ensureSkippedLine :=
  accounts_ifConstrained nofun fun _ => accounts_modifyBuffer _

theorem Accounts.paragraphBreak {steps : Render α} (h : Accounts E (InLine false) Q steps) :
    Accounts E (InLine false) Q (paragraphBreak steps) := by
  refine accounts_ifConstrained nofun fun _ => accounts_look fun out _ => ?_
  split
  · exact h
  · exact (accounts_modifyBuffer _).then ((accounts_markFresh.then h).inMode rfl)

section Inline
variable {body : Render Unit}

theorem accounts_optionalAttribute {name : String} (hname : OneLine name) (value : Option String) :
    Accounts E P True (optionalAttribute name value) := by
  cases value with
  | none => exact accounts_pure ()
  | some value =>
    have hopen : OneLine (" " ++ name ++ "=\"") := hname.between (by decide) (by decide)
    exact (accounts_line hopen).then <| (accounts_attributeValue value).then <|
      accounts_line (by decide)

theorem accounts_attributeList {attributes : List (String × String)}
    (h : ∀ e ∈ attributes, Covers E l e.1) :
    Accounts E (InLine l) True (attributeList attributes) := by
  induction attributes with
  | nil => exact accounts_pure ()
  | cons e rest ih =>
    obtain ⟨hname, hrest⟩ := List.forall_mem_cons.1 h
    exact (accounts_line (by decide)).then <| (accounts_write hname).then <|
      (accounts_line (by decide)).then <| (accounts_attributeValue _).then <|
      (accounts_line (by decide)).then (ih hrest)

theorem accounts_openTag {tag : String} {attributes : Dict String} (htag : Covers E l tag)
    (h : ∀ e ∈ attributes.entries, Covers E l e.1) (selfClosing : Bool) :
    Accounts E (InLine l) True (openTag tag attributes selfClosing) := by
  refine (accounts_line (by decide)).then <| (accounts_write htag).then <|
    (accounts_attributeList h).then (accounts_line ?_)
  cases selfClosing <;> decide

theorem accounts_closeTag {tag : String} (htag : Covers E l tag) :
    Accounts E (InLine l) True (closeTag tag) :=
  accounts_write (htag.imp fun hone => hone.between (by decide) (by decide))

theorem accounts_linkTail {destination : String} (h : Covers E l destination)
    (title : Option String) : Accounts E (InLine l) True (linkTail destination title) := by
  refine (accounts_line (by decide)).then <| accounts_look fun out _ =>
    (accounts_write (h.imp fun hone => oneLine_escapeDestination hone _)).then ?_
  cases title with
  | none => exact accounts_line (by decide)
  | some title =>
    have htitle := oneLine_escapeTitle title (out.modes.get .table)
    exact (accounts_line (htitle.between (by decide) (by decide))).then
      (accounts_line (by decide))

theorem Accounts.link (h : Accounts E (InLine l) Q body) {destination : String}
    (hd : Covers E l destination) (title : Option String) :
    Accounts E (InLine l) Q (link destination title body) := by
  refine accounts_look fun _ _ => ?_
  split
  · exact h
  refine accounts_look fun _ _ => ?_
  split
  · exact (accounts_line (by decide)).then <| (accounts_attributeValue _).then <|
      (accounts_line (by decide)).then <|
      (accounts_optionalAttribute (by decide) _).then <|
      (accounts_line (by decide)).then <| h.after (accounts_line (by decide))
  · exact (accounts_line (by decide)).then (h.after (accounts_linkTail hd title))

theorem Accounts.emphasis (h : Accounts E P Q body) (style : Emphasis) (isEmpty : Bool) :
    Accounts E P Q (emphasis style isEmpty body) := by
  have hmark : Accounts E P True (write (delimiter style)) :=
    accounts_line (by cases style <;> decide)
  have htag : OneLine (emphasisTag style) := by cases style <;> decide
  refine accounts_look fun _ _ => ?_
  split
  · exact h
  refine accounts_look fun _ _ => ?_
  split
  · have hopen : OneLine s!"<{emphasisTag style}>" := htag.between (by decide) (by decide)
    have hclose : OneLine s!"</{emphasisTag style}>" := htag.between (by decide) (by decide)
    exact (accounts_line hopen).then (h.after (accounts_line hclose))
  · exact hmark.then (h.after hmark)

theorem accounts_codeSpan (content : String) :
    Accounts E (InLine l) True (codeSpan content) := by
  have hcode : OneLine (Text.replaceChar '\n' " " content) :=
    oneLine_replaceChar (by decide) (.inr rfl)
  have hticks (n : Nat) : Accounts E (InLine l) True (write (ticks n)) :=
    accounts_line (oneLine_ticks n)
  have hpad (code : String) : Accounts E (InLine l) True (write (tickPadding code)) :=
    accounts_line (oneLine_tickPadding code)
  have htext : Accounts E (InLine l) True (writeEscaped (Text.replaceChar '\n' " " content)) :=
    accounts_writeEscaped fun _ => .inl hcode
  unfold codeSpan
  dsimp only
  split
  · exact accounts_pure ()
  refine accounts_look fun _ _ => ?_
  split
  · exact (accounts_line (by decide)).then (htext.then (accounts_line (by decide)))
  · exact (hticks _).then <| (hpad _).then <| (htext.inMode rfl).then <| (hpad _).then (hticks _)

theorem accounts_image {src : String} (h : Covers E l src) (title alt : Option String) :
    Accounts E (InLine l) True (image src title alt) := by
  refine accounts_look fun _ _ => ?_
  split
  · exact (accounts_line (by decide)).then <| (accounts_attributeValue _).then <|
      (accounts_line (by decide)).then <|
      (accounts_optionalAttribute (by decide) _).then <|
      (accounts_optionalAttribute (by decide) _).then (accounts_line (by decide))
  refine (accounts_line (by decide)).then ?_
  cases alt with
  | none => exact accounts_linkTail h title
  | some alt =>
    have halt : OneLine (Text.replaceChar '\n' " " alt) :=
      oneLine_replaceChar (by decide) (.inr rfl)
    exact (accounts_writeEscaped fun _ => .inl halt).then (accounts_linkTail h title)

/-- A comment on a line that may not end has its line breaks replaced. -/
theorem accounts_comment (s : String) : Accounts E (InLine l) True (comment s) := by
  refine accounts_look fun out hout => ?_
  have hbody : Covers E l (commentBody s out.constrained) := by
    intro hl
    rw [Output.constrained, hout, hl]
    exact .inl (oneLine_commentBody s)
  exact (accounts_line (by decide)).then ((accounts_write hbody).then (accounts_line (by decide)))

end Inline

section Block
variable {body : Render Unit}

theorem accounts_notice : Accounts E (InLine l) True notice := by
  refine (accounts_line (by decide)).then (accounts_ifConstrained (fun _ => accounts_pure ()) ?_)
  rintro rfl
  exact accounts_ensureNewLine

theorem accounts_rule : Accounts E (InLine l) True rule := by
  refine accounts_ifConstrained (fun _ => accounts_line (by decide)) ?_
  rintro rfl
  exact ((accounts_line (by decide)).then accounts_ensureNewLine).paragraphBreak

theorem accounts_optionalAnchor {anchor : Option String} (h : ∀ id ∈ anchor, isValidAnchor id) :
    Accounts E P True (optionalAnchor anchor) := by
  cases anchor with
  | none => exact accounts_pure ()
  | some id =>
    have hid : OneLine id := oneLine_of_isValidAnchor (h id rfl)
    exact accounts_line (hid.between (by decide) (by decide))

/-- The children of a heading are always written on a line that may not end. -/
theorem Accounts.heading (h : Accounts E (InLine true) Q body) {level : UInt8}
    {anchor : Option String} (herror : ∀ e, headingError? level anchor = some e → E e) :
    Accounts E (InLine l) (headingError? level anchor = none ∧ Q) (heading level anchor body) := by
  rw [heading_eq]
  cases hchecked : headingError? level anchor with
  | some e => exact accounts_fail (herror e hchecked)
  | none =>
    have hanchor {P : Modes → Prop} : Accounts E P True (optionalAnchor anchor) :=
      accounts_optionalAnchor (headingError?_eq_none.1 hchecked).2
    have hlevel : OneLine (toString level) := oneLine_repr level.toNat
    refine Accounts.mono (Q := Q) (accounts_ifConstrained ?_ ?_) fun hq => ⟨rfl, hq⟩
    · rintro rfl
      have hopen : OneLine s!"<h{level}>" := hlevel.between (by decide) (by decide)
      have hclose : OneLine s!"</h{level}>" := hlevel.between (by decide) (by decide)
      exact (accounts_line hopen).then <|
        ((hanchor.then h).inMode rfl).after (accounts_line hclose)
    · rintro rfl
      have hmark : OneLine (headingMark level) := by
        simp [headingMark, List.mem_replicate]
      exact Accounts.paragraphBreak <| (accounts_line hmark).then <|
        (accounts_line (by decide)).then <| hanchor.then <|
        h.inSingleLine.after accounts_ensureNewLine

theorem Accounts.quote (h : Accounts E (InLine l) Q body) :
    Accounts E (InLine l) Q (quote body) := by
  refine accounts_ifConstrained (fun _ => ?_) ?_
  · exact (accounts_line (by decide)).then ((h.inMode rfl).after (accounts_line (by decide)))
  · rintro rfl
    have hquoted : Accounts E (InLine false) Q (do
        Render.withIndent "> " do
          markFresh
          body
        ensureNewLine) := (accounts_markFresh.then h).withIndent.after accounts_ensureNewLine
    refine Accounts.paragraphBreak (accounts_look fun _ _ => ?_)
    split
    · exact (accounts_pure ()).then hquoted
    · exact (accounts_line (by decide)).then hquoted

theorem accounts_codeBlock (language : Option String) (code : String) :
    Accounts E (InLine l) True (codeBlock language code) := by
  refine accounts_ifConstrained (fun _ => ?_) ?_
  · have hcode : Accounts E (InLine l) True
        (Render.withMode .singleLineCode true (writeEscaped code)) := by
      refine Accounts.withMode (N := fun modes => modes.singleLineCode = true) ?_ fun _ _ => rfl
      refine accounts_escapedLine fun out hout => ?_
      have hsingle : out.escapeContext.singleLineCode = true := hout
      unfold EscapeContext.lineBreak
      split
      · decide
      · decide
    exact (accounts_line (by decide)).then ((hcode.inMode rfl).then (accounts_line (by decide)))
  · rintro rfl
    exact Accounts.paragraphBreak <| (accounts_write covers_false).then <|
      (accounts_write covers_false).then <| (accounts_write covers_false).then <|
      ((accounts_writeEscaped covers_false).inMode rfl).then <| accounts_ensureNewLine.then <|
      (accounts_write covers_false).then accounts_ensureNewLine

theorem Accounts.linkedCode (h : Accounts E (InLine l) Q body) (language : String) :
    Accounts E (InLine l) Q (linkedCode language body) := by
  refine accounts_ifConstrained (fun _ => ?_) ?_
  · exact (accounts_line (by decide)).then <|
      ((h.inMode rfl).inMode rfl).after (accounts_line (by decide))
  · rintro rfl
    exact Accounts.paragraphBreak <| (accounts_line (by decide)).then <|
      (accounts_attributeValue language).then <| (accounts_line (by decide)).then <|
      ((h.inMode rfl).inMode rfl).after <|
      (accounts_line (by decide)).then accounts_ensureNewLine

/-- The summary is always written on a line that may not end, the rest where the section is. -/
theorem Accounts.collapsible {summary : Render Unit} (hs : Accounts E (InLine true) Q summary)
    (h : Accounts E (InLine l) R body) :
    Accounts E (InLine l) (Q ∧ R) (collapsible summary body) := by
  refine accounts_ifConstrained ?_ ?_
  · rintro rfl
    refine (accounts_line (by decide)).then (Accounts.after (Accounts.inMode ?_ rfl)
      (accounts_line (by decide)))
    exact hs.bind fun _ => (accounts_line (by decide)).then h
  · rintro rfl
    refine Accounts.paragraphBreak (((accounts_line (by decide)).then
      (accounts_write covers_false)).then ((accounts_line (by decide)).then ?_))
    refine Accounts.bind (hs.inSingleLine.inMode rfl) fun _ => (accounts_line (by decide)).then ?_
    exact accounts_ensureSkippedLine.then <| h.after <| accounts_ensureSkippedLine.then <|
      (accounts_line (by decide)).then accounts_ensureNewLine

theorem Accounts.element (h : Accounts E (InLine l) Q body) {tag : String}
    {attributes : Dict String} (htag : Covers E l tag)
    (hnames : ∀ e ∈ attributes.entries, Covers E l e.1) (hclass : Html.TagClass.ofTag tag ≠ .void) :
    Accounts E (InLine l) Q (element tag attributes body) := by
  have hopen := accounts_openTag htag hnames false
  have hclose := accounts_closeTag htag
  unfold Markdown.element
  split
  · next hvoid => exact absurd hvoid hclass
  · exact hopen.then (h.after hclose)
  refine accounts_look fun out hout => ?_
  split
  · next hbare =>
    have hfree := (Bool.and_eq_true_iff.1 (Bool.and_eq_true_iff.1 hbare).1).1
    obtain rfl : l = false := hout.eq_false ((Bool.not_eq_true' _).mp hfree)
    exact h.paragraphBreak
  refine accounts_look fun _ _ => ?_
  split
  · exact hopen.then ((h.inMode rfl).after hclose)
  · next hblock =>
    have hfree := (Bool.or_eq_false_iff.1 (Bool.eq_false_iff.2 hblock)).1
    obtain rfl : l = false := hout.eq_false hfree
    refine Accounts.paragraphBreak (hopen.then (accounts_look fun _ _ => ?_))
    refine (h.inMode rfl).after (accounts_look fun _ _ => ?_)
    split
    · exact accounts_ensureSkippedLine.then (hclose.then accounts_ensureNewLine)
    · exact hclose.then accounts_ensureNewLine

theorem accounts_voidElement {tag : String} {attributes : Dict String} (htag : Covers E l tag)
    (hnames : ∀ e ∈ attributes.entries, Covers E l e.1) (hclass : Html.TagClass.ofTag tag = .void) :
    Accounts E (InLine l) True (element tag attributes body) := by
  unfold Markdown.element
  rw [hclass]
  exact accounts_openTag htag hnames true

theorem accounts_separateLists (afterList isList : Bool) :
    Accounts E (InLine l) True (separateLists afterList isList) := by
  refine accounts_look fun out hout => ?_
  split
  · next hapart =>
    have hfree := (Bool.and_eq_true_iff.1 hapart).2
    obtain rfl : l = false := hout.eq_false ((Bool.not_eq_true' _).mp hfree)
    exact accounts_ensureSkippedLine.then ((accounts_line (by decide)).then accounts_ensureNewLine)
  · exact accounts_pure ()

end Block

section Items
variable {q : α → Prop} {f : α → Render Unit} {items cells header : List α} {rows : List (List α)}

theorem Accounts.cons {steps : Render Unit} {a : α} (h : Accounts E P (q a) steps)
    {next : Render Unit} (hnext : Accounts E P (∀ b ∈ items, q b) next) :
    Accounts E P (∀ b ∈ a :: items, q b) (do steps; next) :=
  (h.bind fun _ => hnext).mono List.forall_mem_cons.2

theorem accounts_htmlItems (h : ∀ a ∈ items, Accounts E P (q a) (f a)) :
    Accounts E P (∀ a ∈ items, q a) (htmlItems (items.map f)) := by
  induction items with
  | nil => exact (accounts_pure ()).mono fun _ => List.forall_mem_nil _
  | cons a rest ih =>
    obtain ⟨ha, hrest⟩ := List.forall_mem_cons.1 h
    exact (accounts_line (by decide)).then <|
      ha.cons ((accounts_line (by decide)).then (ih hrest))

theorem accounts_markedItems (h : ∀ a ∈ items, Accounts E (InLine false) (q a) (f a))
    (style : ListStyle) (position : Nat) :
    Accounts E (InLine false) (∀ a ∈ items, q a) (markedItems style position (items.map f)) := by
  induction items generalizing position with
  | nil => exact (accounts_pure ()).mono fun _ => List.forall_mem_nil _
  | cons a rest ih =>
    obtain ⟨ha, hrest⟩ := List.forall_mem_cons.1 h
    exact accounts_ensureNewLine.then <| (accounts_write covers_false).then <|
      ((accounts_markFresh.then ha).inMode rfl).withIndent.cons (ih hrest _)

theorem accounts_list (h : ∀ a ∈ items, Accounts E (InLine l) (q a) (f a)) (style : ListStyle) :
    Accounts E (InLine l) (∀ a ∈ items, q a) (list style (items.map f)) := by
  refine accounts_ifConstrained (fun _ => ?_) ?_
  · have hopen : OneLine (listOpenTag style) := by
      cases style with
      | unordered => decide
      | ordered start =>
        rw [listOpenTag]
        split
        · decide
        · exact (oneLine_repr start.toNat).between (by decide) (by decide)
    have hclose : OneLine (listCloseTag style) := by cases style <;> rw [listCloseTag] <;> decide
    exact (accounts_line hopen).then <|
      ((accounts_htmlItems h).inMode rfl).after (accounts_line hclose)
  · rintro rfl
    have hitems := (accounts_markedItems h style 0).after accounts_ensureNewLine
    refine accounts_look fun _ _ => accounts_look fun _ _ => ?_
    dsimp only
    split
    · exact accounts_ensureNewLine.then (hitems.inMode rfl)
    · exact accounts_ensureSkippedLine.then (hitems.inMode rfl)

/-- No cell is left out: a row has no more of them than the table has columns. -/
theorem accounts_htmlCells (h : ∀ a ∈ cells, Accounts E P (q a) (f a)) {tag : String}
    (htag : OneLine tag) {columns : Nat} (hfit : cells.length ≤ columns) :
    Accounts E P (∀ a ∈ cells, q a) (htmlCells tag columns (cells.map f)) := by
  have hopen : Accounts E P True (write s!"<{tag}>") :=
    accounts_line (htag.between (by decide) (by decide))
  have hclose : Accounts E P True (write s!"</{tag}>") :=
    accounts_line (htag.between (by decide) (by decide))
  induction columns generalizing cells with
  | zero =>
    rw [List.length_eq_zero_iff.1 (Nat.le_zero.1 hfit)]
    exact (accounts_pure ()).mono fun _ => List.forall_mem_nil _
  | succ columns ih =>
    cases cells with
    | nil => exact hopen.then (hclose.then (ih h (Nat.zero_le _)))
    | cons a rest =>
      obtain ⟨ha, hrest⟩ := List.forall_mem_cons.1 h
      exact hopen.then (ha.cons (hclose.then (ih hrest (Nat.le_of_succ_le_succ hfit))))

theorem accounts_htmlRow (h : ∀ a ∈ cells, Accounts E P (q a) (f a)) {tag : String}
    (htag : OneLine tag) {columns : Nat} (hfit : cells.length ≤ columns) :
    Accounts E P (∀ a ∈ cells, q a) (htmlRow tag columns (cells.map f)) :=
  (accounts_line (by decide)).then <|
    (accounts_htmlCells h htag hfit).after (accounts_line (by decide))

theorem accounts_htmlRows (h : ∀ row ∈ rows, ∀ a ∈ row, Accounts E P (q a) (f a)) {columns : Nat}
    (hfit : ∀ row ∈ rows, row.length ≤ columns) :
    Accounts E P (∀ row ∈ rows, ∀ a ∈ row, q a) (htmlRows columns (rows.map (·.map f))) := by
  induction rows with
  | nil => exact (accounts_pure ()).mono fun _ => List.forall_mem_nil _
  | cons row rest ih =>
    obtain ⟨hrow, hrest⟩ := List.forall_mem_cons.1 h
    obtain ⟨hrowfit, hrestfit⟩ := List.forall_mem_cons.1 hfit
    exact (accounts_htmlRow hrow (by decide) hrowfit).cons (ih hrest hrestfit)

theorem accounts_markdownCells (h : ∀ a ∈ cells, Accounts E (InLine true) (q a) (f a))
    {columns : Nat} (hfit : cells.length ≤ columns) :
    Accounts E P (∀ a ∈ cells, q a) (markdownCells columns (cells.map f)) := by
  induction columns generalizing cells with
  | zero =>
    rw [List.length_eq_zero_iff.1 (Nat.le_zero.1 hfit)]
    exact (accounts_pure ()).mono fun _ => List.forall_mem_nil _
  | succ columns ih =>
    cases cells with
    | nil =>
      exact (accounts_line (by decide)).then <| (accounts_line (by decide)).then <|
        ih h (Nat.zero_le _)
    | cons a rest =>
      obtain ⟨ha, hrest⟩ := List.forall_mem_cons.1 h
      exact (accounts_line (by decide)).then <| ha.inTable.cons <|
        (accounts_line (by decide)).then (ih hrest (Nat.le_of_succ_le_succ hfit))

theorem accounts_markdownRow (h : ∀ a ∈ cells, Accounts E (InLine true) (q a) (f a))
    {columns : Nat} (hfit : cells.length ≤ columns) :
    Accounts E (InLine false) (∀ a ∈ cells, q a) (markdownRow columns (cells.map f)) :=
  (accounts_line (by decide)).then <|
    (accounts_markdownCells h hfit).after (accounts_write covers_false)

theorem accounts_markdownRows (h : ∀ row ∈ rows, ∀ a ∈ row, Accounts E (InLine true) (q a) (f a))
    {columns : Nat} (hfit : ∀ row ∈ rows, row.length ≤ columns) :
    Accounts E (InLine false) (∀ row ∈ rows, ∀ a ∈ row, q a)
      (markdownRows columns (rows.map (·.map f))) := by
  induction rows with
  | nil => exact (accounts_pure ()).mono fun _ => List.forall_mem_nil _
  | cons row rest ih =>
    obtain ⟨hrow, hrest⟩ := List.forall_mem_cons.1 h
    obtain ⟨hrowfit, hrestfit⟩ := List.forall_mem_cons.1 hfit
    exact (accounts_markdownRow hrow hrowfit).cons (ih hrest hrestfit)

theorem accounts_divider (columns : Nat) : Accounts E P True (divider columns) := by
  induction columns with
  | zero => exact accounts_pure ()
  | succ columns ih => exact (accounts_line (by decide)).then ih

/-- The cells of a table are always written on a line that may not end. -/
theorem accounts_table (hheader : ∀ a ∈ header, Accounts E (InLine true) (q a) (f a))
    (hrows : ∀ row ∈ rows, ∀ a ∈ row, Accounts E (InLine true) (q a) (f a))
    (herror : columnCount header rows = 0 → E .emptyTable) :
    Accounts E (InLine l) (columnCount header rows ≠ 0 ∧ (∀ a ∈ header, q a) ∧
      ∀ row ∈ rows, ∀ a ∈ row, q a) (table (header.map f) (rows.map (·.map f))) := by
  obtain ⟨hfit, hrowsfit⟩ := length_le_columnCount header rows
  rw [table_eq, columnCount_map]
  split
  · next hnone => exact accounts_fail (herror hnone)
  · next hcolumns =>
    refine Accounts.mono (accounts_ifConstrained ?_ ?_) fun hq => ⟨hcolumns, hq⟩
    · rintro rfl
      refine (accounts_line (by decide)).then (Accounts.after (Accounts.inMode ?_ rfl)
        (accounts_line (by decide)))
      exact (accounts_htmlRow hheader (by decide) hfit).bind fun _ =>
        accounts_htmlRows hrows hrowsfit
    · rintro rfl
      refine accounts_ensureSkippedLine.then (Accounts.inMode ?_ rfl)
      refine (accounts_markdownRow hheader hfit).bind fun _ => ?_
      exact (accounts_line (by decide)).then <| (accounts_divider _).then <|
        (accounts_write covers_false).then (accounts_markdownRows hrows hrowsfit)

end Items

end Render
end DocTree.Markdown
