import DocTree.Proofs.Account
import DocTree.Proofs.Position

/-! Why a tree cannot be rendered. Every error has its cause at a position that is rendered, and a
position that is not in order makes rendering fail. -/
namespace DocTree
open Text

/-- No setting that a rendering depends on holds a line break. -/
def Markdown.Options.OneLine (o : Markdown.Options) : Prop :=
  Text.OneLine o.page ∧ ∀ base ∈ o.sourceBase, Text.OneLine base

namespace Position

/-- What has to be so at a position when a tree has been rendered. A page cannot stand on a line
that may not end, since it ends the line it stands on. -/
def InOrder (q : Position) : Prop := q.node.inOrder ∧ ¬ (q.inLine ∧ q.node.isPage)

theorem inOrder_of {l : Bool} {node : Node} (h : node.inOrder) (hpage : node.isPage = false) :
    InOrder ⟨l, node⟩ :=
  ⟨h, fun hq => Bool.false_ne_true (hpage.symm.trans hq.2)⟩

/-- What at a position accounts for an error. -/
def Blame (o : Markdown.Options) (q : Position) : RenderError → Prop
  | .newlineInSingleLine _ =>
    q.inLine ∧ (q.node.isPage ∨ ¬ o.OneLine) ∨
      (q.inLine ∨ q.node.isPage) ∧ ∃ s ∈ q.node.strings, ¬ OneLine s
  | .emptyTable => ∃ header rows, q.node = .table header rows ∧ columnCount header rows = 0
  | .invalidHeadingLevel level =>
    (∃ anchor children, q.node = .heading level anchor children) ∧ ¬ (1 ≤ level ∧ level ≤ 6)
  | .invalidAnchor id =>
    (∃ level children, q.node = .heading level (some id) children) ∧ ¬ isValidAnchor id
  | .paragraphBreakInSingleLine | .duplicateDeclaration _ _ | .missingExport _ _
  | .missingLocation _ _ => False

/-- Where no text holds a line break, all that can go wrong at a position is that it is not in
order. -/
theorem Blame.not_inOrder {o : Markdown.Options} {q : Position} {e : RenderError}
    (h : q.Blame o e) (ho : o.OneLine) (hstrings : ∀ s ∈ q.node.strings, OneLine s) :
    ¬ q.InOrder := by
  rintro ⟨horder, hpage⟩
  cases e with
  | newlineInSingleLine =>
    obtain ⟨hline, hcause⟩ | ⟨-, s, hs, hbreak⟩ := h
    · exact hcause.elim (fun hq => hpage ⟨hline, hq⟩) (absurd ho)
    · exact hbreak (hstrings s hs)
  | emptyTable =>
    obtain ⟨header, rows, heq, hnone⟩ := h
    rw [heq, Node.inOrder, hnone] at horder
    cases horder
  | invalidHeadingLevel level =>
    obtain ⟨⟨anchor, children, heq⟩, hlevel⟩ := h
    simp only [heq, Node.inOrder, Bool.and_eq_true, decide_eq_true_eq] at horder
    exact hlevel horder.1
  | invalidAnchor id =>
    obtain ⟨⟨level, children, heq⟩, hid⟩ := h
    simp only [heq, Node.inOrder, Bool.and_eq_true, Option.all_some] at horder
    exact hid horder.2
  | _ => exact h

end Position

namespace Markdown
open Render Position

section Tree
variable {o : Options} {E : RenderError → Prop} {l : Bool}

theorem covers_of_blame {node : Node} (hE : ∀ e, Blame o ⟨l, node⟩ e → E e) {s : String}
    (hs : s ∈ node.strings) : Covers E l s := by
  intro hl
  by_cases hone : OneLine s
  · exact .inl hone
  · exact .inr fun _ => hE _ (.inr ⟨.inl hl, s, hs, hone⟩)

theorem covers_address {target : LinkTarget} {destination : String} {title : Option String}
    {children : List Node}
    (hE : ∀ e, Blame o ⟨l, .link target destination title children⟩ e → E e) :
    Covers E l (o.address target destination) := by
  intro hl
  by_cases ho : o.OneLine
  · have hcovers := covers_of_blame hE (List.mem_cons_self : destination ∈ _)
    exact (hcovers hl).imp_left fun hone => Options.oneLine_address ho.1 ho.2 hone target
  · exact .inr fun _ => hE _ (.inl ⟨hl, .inr ho⟩)

theorem headingError?_blame {level : UInt8} {anchor : Option String} {children : List Node}
    {e : RenderError} (h : headingError? level anchor = some e) :
    Blame o ⟨l, .heading level anchor children⟩ e := by
  unfold headingError? at h
  split at h
  · next hlevel =>
    cases h
    refine ⟨⟨anchor, children, rfl⟩, ?_⟩
    rw [not_and_or, UInt8.not_le, UInt8.not_le]
    exact hlevel
  · cases anchor with
    | none => cases h
    | some id =>
      dsimp only at h
      split at h
      · cases h
      · next hid =>
        cases h
        exact ⟨⟨level, children, rfl⟩, hid⟩

theorem inOrder_heading {level : UInt8} {anchor : Option String} {children : List Node} :
    (Node.heading level anchor children).inOrder ↔ headingError? level anchor = none := by
  rw [headingError?_eq_none, Node.inOrder, Bool.and_eq_true, Bool.and_eq_true, decide_eq_true_eq,
    decide_eq_true_eq, Option.all_eq_true]
  rfl

variable {head : PageMetadata → Render Unit}

theorem accounts_renderNodes {Q : Node → Prop} {nodes : List Node}
    (h : ∀ n ∈ nodes, Accounts E (InLine l) (Q n) (renderNode o head n)) (afterList : Bool) :
    Accounts E (InLine l) (∀ n ∈ nodes, Q n) (renderNodes o head afterList nodes) := by
  induction nodes generalizing afterList with
  | nil => exact (accounts_pure ()).mono fun _ => List.forall_mem_nil _
  | cons node rest ih =>
    obtain ⟨hnode, hrest⟩ := List.forall_mem_cons.1 h
    exact (accounts_separateLists _ _).then (hnode.cons (ih hrest _))

/-- What is asked of the way a page begins: with any body, a page on a line that may not end does
not succeed. -/
def PageAccounts (E : RenderError → Prop) (head : PageMetadata → Render Unit) (l : Bool)
    (metadata : PageMetadata) : Prop :=
  ∀ (Q : Prop) (body : Render Unit), Framed body → Accounts E (InLine l) Q body →
    Accounts E (InLine l) (l = false ∧ Q) (do head metadata; body; ensureNewLine)

/-- Whatever goes wrong at a position is among the errors `E`. -/
def Answers (o : Options) (E : RenderError → Prop) (head : PageMetadata → Render Unit)
    (q : Position) : Prop :=
  (∀ e, q.Blame o e → E e) ∧
    ∀ metadata children, q.node = .page metadata children → PageAccounts E head q.inLine metadata

theorem accounts_renderNode (hhead : ∀ metadata, Framed (head metadata)) {node : Node}
    (h : ∀ q, Rendered ⟨l, node⟩ q → Answers o E head q) :
    Accounts E (InLine l) (∀ q, Rendered ⟨l, node⟩ q → q.InOrder) (renderNode o head node) := by
  have hnodes {l : Bool} {children : List Node}
      (ih : ∀ n ∈ children, ∀ {l : Bool}, (∀ q, Rendered ⟨l, n⟩ q → Answers o E head q) →
        Accounts E (InLine l) (∀ q, Rendered ⟨l, n⟩ q → q.InOrder) (renderNode o head n))
      (hparts : ∀ r ∈ children.map (mk l), ∀ q, Rendered r q → Answers o E head q) :
      Accounts E (InLine l) (∀ r ∈ children.map (mk l), ∀ q, Rendered r q → q.InOrder)
        (renderNodes o head false children) := by
    rw [List.forall_mem_map] at hparts ⊢
    exact accounts_renderNodes (fun n hn => ih n hn (hparts n hn)) false
  induction node generalizing l with
    (rw [forall_rendered] at h ⊢
     obtain ⟨⟨hE, hpage⟩, hparts⟩ := h)
  | text s =>
    have hs : Covers E l s := covers_of_blame hE List.mem_cons_self
    exact (accounts_writeEscaped hs).mono fun _ => ⟨inOrder_of rfl rfl, List.forall_mem_nil _⟩
  | rule => exact accounts_rule.mono fun _ => ⟨inOrder_of rfl rfl, List.forall_mem_nil _⟩
  | comment s persist =>
    refine Accounts.mono (Q := True) ?_ fun _ => ⟨inOrder_of rfl rfl, List.forall_mem_nil _⟩
    rw [renderNode]
    split
    · exact accounts_pure ()
    · exact accounts_comment s
  | image src title alt =>
    have hsrc : Covers E l src := covers_of_blame hE List.mem_cons_self
    exact (accounts_image hsrc title alt).mono fun _ =>
      ⟨inOrder_of rfl rfl, List.forall_mem_nil _⟩
  | code language s =>
    exact (accounts_codeBlock language s).mono fun _ =>
      ⟨inOrder_of rfl rfl, List.forall_mem_nil _⟩
  | notice => exact accounts_notice.mono fun _ => ⟨inOrder_of rfl rfl, List.forall_mem_nil _⟩
  | group children ih => exact (hnodes ih hparts).mono (And.intro (inOrder_of rfl rfl))
  | quote children ih => exact (hnodes ih hparts).quote.mono (And.intro (inOrder_of rfl rfl))
  | element tag attributes children ih =>
    have htag : Covers E l tag := covers_of_blame hE List.mem_cons_self
    have hnames : ∀ e ∈ attributes.entries, Covers E l e.1 := fun e he =>
      covers_of_blame hE <| List.mem_cons_of_mem _ <|
        List.mem_flatMap.2 ⟨e, he, List.mem_cons_self⟩
    refine Accounts.mono ?_ (And.intro (inOrder_of rfl rfl))
    rw [parts_element] at hparts ⊢
    by_cases hvoid : Html.TagClass.ofTag tag = .void
    · rw [if_pos hvoid]
      exact (accounts_voidElement htag hnames hvoid).mono fun _ => List.forall_mem_nil _
    · rw [if_neg hvoid] at hparts ⊢
      exact (hnodes ih hparts).element htag hnames hvoid
  | emphasis style children ih =>
    exact ((hnodes ih hparts).emphasis style _).mono (And.intro (inOrder_of rfl rfl))
  | codeSpan children =>
    exact (accounts_codeSpan _).mono fun _ => ⟨inOrder_of rfl rfl, List.forall_mem_nil _⟩
  | richCode language children ih =>
    refine Accounts.mono ?_ (And.intro (inOrder_of rfl rfl))
    rw [parts_richCode] at hparts ⊢
    rw [renderNode]
    split
    · next hlink =>
      rw [if_pos hlink] at hparts
      exact (hnodes ih hparts).linkedCode language
    · exact (accounts_codeBlock _ _).mono fun _ => List.forall_mem_nil _
  | link target destination title children ih =>
    exact ((hnodes ih hparts).link (covers_address hE) title).mono
      (And.intro (inOrder_of rfl rfl))
  | paragraph children ih =>
    have hclass : Html.TagClass.ofTag "p" ≠ .void := by decide +kernel
    have htag : Covers E l "p" := fun _ => .inl (by decide)
    exact ((hnodes ih hparts).element htag (List.forall_mem_nil _) hclass).mono
      (And.intro (inOrder_of rfl rfl))
  | heading level anchor children ih =>
    have herror : ∀ e, headingError? level anchor = some e → E e := fun e he =>
      hE e (headingError?_blame he)
    refine ((hnodes ih hparts).heading herror).mono ?_
    rintro ⟨hchecked, hchildren⟩
    exact ⟨inOrder_of (inOrder_heading.2 hchecked) rfl, hchildren⟩
  | list style items ih =>
    rw [renderNode, renderParts_eq_map]
    rw [parts, List.forall_mem_map] at hparts ⊢
    exact (accounts_list (fun n hn => ih n hn (hparts n hn)) style).mono
      (And.intro (inOrder_of rfl rfl))
  | table header rows ihheader ihrows =>
    rw [renderNode, renderParts_eq_map, renderRows_eq_map]
    rw [parts, List.forall_mem_map, List.forall_mem_append, List.forall_mem_flatten] at hparts ⊢
    obtain ⟨hheader, hcells⟩ := hparts
    have herror (hnone : columnCount header rows = 0) : E .emptyTable :=
      hE _ ⟨header, rows, rfl, hnone⟩
    refine (accounts_table (fun n hn => ihheader n hn (hheader n hn))
      (fun row hrow n hn => ihrows row hrow n hn (hcells row hrow n hn)) herror).mono ?_
    rintro ⟨hcolumns, hqs⟩
    exact ⟨inOrder_of (bne_iff_ne.2 hcolumns) rfl, hqs⟩
  | collapsible summary children ihsummary ih =>
    rw [parts, List.forall_mem_cons] at hparts ⊢
    exact ((ihsummary hparts.1).collapsible (hnodes ih hparts.2)).mono
      (And.intro (inOrder_of rfl rfl))
  | page metadata children ih =>
    have hbody : Framed (renderNodes o head false children) :=
      framed_renderNodes (fun n _ => framed_renderNode hhead n) false
    refine (hpage _ _ rfl _ _ hbody (hnodes ih hparts)).mono ?_
    rintro ⟨hline, hchildren⟩
    exact ⟨⟨rfl, fun hq => Bool.false_ne_true (hline.symm.trans hq.1)⟩, hchildren⟩

/-- If the steps succeed where a line may not end, the line has begun. -/
def Begins {α : Type} (steps : Render α) : Prop :=
  ∀ (out out' : Output) (a : α), out.constrained → steps out = (.ok a, out') →
    out'.buffer.atLineStart = false

theorem begins_notice : Begins notice := by
  intro out out' a hc hok
  obtain ⟨_, mid, hmid, hout'⟩ := bind_eq_ok hok
  have hmidbegun : mid.buffer.atLineStart = false := by
    rw [write_ok hmid]
    exact out.buffer.begun_write (by decide) (by decide)
  have hnext : Framed (do if ← constrained then pure () else ensureNewLine) :=
    (framed_pure ()).ifConstrained framed_ensureNewLine
  have hcmid : mid.constrained :=
    (Output.constrained_congr ((framed_write _).of_eq hmid).modes).trans hc
  exact (hnext.of_eq hout').buffer.begun hcmid hmidbegun

theorem Begins.then {α : Type} {steps : Render Unit} {next : Render α} (h : Begins steps)
    (hf : Framed steps) (hnext : Framed next) : Begins (do steps; next) := by
  intro out out' a hc hok
  obtain ⟨_, mid, hmid, hout'⟩ := bind_eq_ok hok
  have hcmid : mid.constrained := (Output.constrained_congr (hf.of_eq hmid).modes).trans hc
  exact (hnext.of_eq hout').buffer.begun hcmid (h out mid () hc hmid)

/-- A line that has begun cannot be ended where it may not end. -/
theorem Begins.not_ended {first body : Render Unit} (h : Begins first) (hf : Framed first)
    (hbody : Framed body) {out out' : Output} (hc : out.constrained) :
    (do first; body; ensureNewLine) out ≠ (.ok (), out') := by
  intro hok
  obtain ⟨_, mid, hmid, hrest⟩ := bind_eq_ok hok
  obtain ⟨_, last, hlast, hend⟩ := bind_eq_ok hrest
  have hcmid : mid.constrained := (Output.constrained_congr (hf.of_eq hmid).modes).trans hc
  have hextends : mid.Extends last := hbody.of_eq hlast
  have hclast : last.constrained := (Output.constrained_congr hextends.modes).trans hcmid
  have hbegun : last.buffer.atLineStart = false := hextends.buffer.begun hcmid (h _ _ _ hc hmid)
  rw [ensureNewLine, bind_apply] at hend
  simp only [look, hbegun, Bool.false_eq_true, if_false, write, hclast] at hend
  cases hend

/-- A table of contents is written without an error, except where no line may end. -/
theorem answers_contents {contents : TableOfContents} {q : Position}
    (hq : Rendered ⟨l, contents.toNode⟩ q) (hl : l → ∀ t, E (.newlineInSingleLine t)) :
    Answers o E head q := by
  have hplain : q.node.isPlain := plain_contents contents _ hq.mem_nodes
  have hline : q.inLine = l := hq.inLine_of_plain (plain_contents contents)
  have hpage : ¬ q.node.isPage := Node.not_isPage_of_isPlain hplain
  constructor
  · intro e he
    cases e with
    | newlineInSingleLine t =>
      obtain ⟨hin, -⟩ | ⟨hin, -⟩ := he
      · exact hl (hline ▸ hin) t
      · exact hl (hline ▸ hin.resolve_right hpage) t
    | emptyTable =>
      obtain ⟨header, rows, heq, -⟩ := he
      rw [heq] at hplain
      cases hplain
    | invalidHeadingLevel level =>
      obtain ⟨⟨anchor, children, heq⟩, -⟩ := he
      rw [heq] at hplain
      cases hplain
    | invalidAnchor id =>
      obtain ⟨⟨level, children, heq⟩, -⟩ := he
      rw [heq] at hplain
      cases hplain
    | _ => exact he.elim
  · intro metadata children heq
    rw [heq] at hpage
    exact absurd rfl hpage

theorem accounts_pageHead {metadata : PageMetadata} {children : List Node}
    (hE : ∀ e, Blame o ⟨l, .page metadata children⟩ e → E e) :
    PageAccounts E (pageHead o) l metadata := by
  have htitle : Covers E true metadata.title := by
    intro _
    by_cases hone : OneLine metadata.title
    · exact .inl hone
    · exact .inr fun _ => hE _ (.inr ⟨.inr rfl, _, List.mem_cons_self, hone⟩)
  have herror : ∀ e, headingError? 1 none = some e → E e := by
    rw [headingError?_eq_none.2 ⟨by decide, by simp⟩]
    exact nofun
  have hheading : Accounts E (InLine l) True (heading 1 none (writeEscaped metadata.title)) :=
    ((accounts_writeEscaped htitle).heading herror).mono fun _ => trivial
  have hnewline : l → ∀ t, E (.newlineInSingleLine t) := fun hl _ => hE _ (.inl ⟨hl, .inl rfl⟩)
  have hcontents : Accounts E (InLine l) True (renderPlain o metadata.contents.toNode) :=
    (accounts_renderNode (fun _ => framed_pure ()) fun _ hq =>
      answers_contents hq hnewline).mono fun _ => trivial
  have hhead : Accounts E (InLine l) True (pageHead o metadata) := by
    refine accounts_notice.then (hheading.then ?_)
    split
    · exact accounts_pure ()
    · exact hcontents
  intro Q body hframed hbody
  cases l with
  | false => exact (hhead.then (hbody.after accounts_ensureNewLine)).mono fun hq => ⟨rfl, hq⟩
  | true =>
    have hcovers : Covers E true "\n" := fun hl => .inr (hnewline hl)
    have hbegins : Begins (pageHead o metadata) := begins_notice.then framed_notice <|
      ((framed_writeEscaped _).heading 1 none).then (by
        split
        · exact framed_pure ()
        · exact framed_renderNode (fun _ => framed_pure ()) _)
    intro out hout
    obtain ⟨hmodes, hsettles⟩ := (hhead.then (hbody.after (accounts_endLine hcovers))) out hout
    refine ⟨hmodes, ?_⟩
    cases hresult : (do pageHead o metadata; body; ensureNewLine : Render Unit) out with
    | mk result out' =>
      rw [hresult] at hsettles
      cases result with
      | error e => exact hsettles
      | ok => exact absurd hresult (hbegins.not_ended (framed_pageHead metadata) hframed hout)

theorem accounts_render {node : Node} (hE : ∀ q, Rendered ⟨l, node⟩ q → ∀ e, q.Blame o e → E e) :
    Accounts E (InLine l) (∀ q, Rendered ⟨l, node⟩ q → q.InOrder) (render o node) := by
  refine accounts_renderNode framed_pageHead fun q hq => ⟨hE q hq, ?_⟩
  rintro metadata children heq
  obtain ⟨inLine, node⟩ := q
  subst heq
  exact accounts_pageHead (hE _ hq)

end Tree

section Run
variable {o : Options} {node : Node} {out out' : Output} {e : RenderError}

/-- Every error has a cause at a position that is rendered. -/
theorem exists_blame (h : (render o node out).1 = .error e) :
    ∃ q, Rendered ⟨out.constrained, node⟩ q ∧ q.Blame o e := by
  have haccounts := accounts_render (o := o) (E := fun e =>
    ∃ q, Rendered ⟨out.constrained, node⟩ q ∧ q.Blame o e) fun q hq _ he => ⟨q, hq, he⟩
  have hsettles := (haccounts out rfl).2
  rwa [h] at hsettles

theorem inOrder_of_render_ok (h : render o node out = (.ok (), out')) :
    ∀ q, Rendered ⟨out.constrained, node⟩ q → q.InOrder := by
  have haccounts : Accounts (fun _ => True) (InLine out.constrained)
      (∀ q, Rendered ⟨out.constrained, node⟩ q → q.InOrder) (render o node) :=
    accounts_render fun _ _ _ _ => trivial
  have hsettles := (haccounts out rfl).2
  rwa [h] at hsettles

/-- If no text can be the cause, then every position that is rendered is in order exactly if
rendering succeeds. -/
theorem render_ok_iff (ho : o.OneLine)
    (hstrings : ∀ q, Rendered ⟨out.constrained, node⟩ q → ∀ s ∈ q.node.strings, OneLine s) :
    (∃ out', render o node out = (.ok (), out')) ↔
      ∀ q, Rendered ⟨out.constrained, node⟩ q → q.InOrder := by
  constructor
  · rintro ⟨out', hok⟩
    exact inOrder_of_render_ok hok
  · intro horder
    cases hresult : render o node out with
    | mk result out' =>
      cases result with
      | ok => exact ⟨out', rfl⟩
      | error e =>
        obtain ⟨q, hq, hblame⟩ := exists_blame (congrArg Prod.fst hresult)
        exact absurd (horder q hq) (hblame.not_inOrder ho (hstrings q hq))

theorem Render.exists_toText_iff {steps : Render Unit} :
    (∃ markdown, steps.toText = .ok markdown) ↔ ∃ out, steps {} = (.ok (), out) := by
  rw [toText]
  cases steps {} with
  | mk result out => cases result <;> simp

theorem Render.toText_eq_error {steps : Render Unit} :
    steps.toText = .error e ↔ (steps {}).1 = .error e := by
  rw [toText]
  cases steps {} with
  | mk result out => cases result <;> simp

theorem renderRaw_ok_iff (ho : o.OneLine)
    (hstrings : ∀ q, Rendered ⟨false, node⟩ q → ∀ s ∈ q.node.strings, OneLine s) :
    (∃ markdown, renderRaw o node = .ok markdown) ↔
      ∀ q, Rendered ⟨false, node⟩ q → q.InOrder := by
  rw [renderRaw, Render.exists_toText_iff]
  exact render_ok_iff ho hstrings

theorem renderRaw_ok_iff_of_pages (ho : o.OneLine)
    (hstrings : ∀ m ∈ node.nodes, ∀ s ∈ m.strings, OneLine s)
    (hpages : ∀ m ∈ node.nodes.tail, ¬ m.isPage) :
    (∃ markdown, renderRaw o node = .ok markdown) ↔
      ∀ q, Rendered ⟨false, node⟩ q → q.node.inOrder := by
  have hpage : ∀ q, Rendered ⟨false, node⟩ q → ¬ (q.inLine ∧ q.node.isPage) := by
    rintro q hq ⟨hline, hq'⟩
    obtain rfl | hmem := hq.eq_or_mem_tail
    · exact Bool.false_ne_true hline
    · exact hpages _ hmem hq'
  rw [renderRaw_ok_iff ho fun q hq => hstrings _ (Rendered.mem_nodes hq)]
  exact forall₂_congr fun q hq => and_iff_left (hpage q hq)

theorem render_error_of_tree (h : (render o node out).1 = .error e) :
    e ≠ .paragraphBreakInSingleLine ∧ (∀ name kind, e ≠ .duplicateDeclaration name kind) ∧
      (∀ name page, e ≠ .missingExport name page) ∧
      ∀ kind name, e ≠ .missingLocation kind name := by
  obtain ⟨q, -, hblame⟩ := exists_blame h
  cases e with
  | paragraphBreakInSingleLine | duplicateDeclaration | missingExport | missingLocation =>
    exact hblame.elim
  | _ => simp

/-- Where no text holds a line break and no page stands below the root, a tree is rendered exactly
if its headings and tables that are rendered are in order. No tree at all makes rendering begin a
paragraph where no line may end, or fail for want of a declaration. -/
theorem render_failures :
    (∀ (o : Options) (node : Node), o.OneLine → (∀ m ∈ node.nodes, ∀ s ∈ m.strings, OneLine s) →
      (∀ m ∈ node.nodes.tail, ¬ m.isPage) →
      ((∃ markdown, renderRaw o node = .ok markdown) ↔
        ∀ q, Rendered ⟨false, node⟩ q → q.node.inOrder)) ∧
    ∀ (o : Options) (node : Node) (out : Output) (e : RenderError),
      (render o node out).1 = .error e →
        e ≠ .paragraphBreakInSingleLine ∧ (∀ name kind, e ≠ .duplicateDeclaration name kind) ∧
          (∀ name page, e ≠ .missingExport name page) ∧
          ∀ kind name, e ≠ .missingLocation kind name :=
  ⟨fun _ _ => renderRaw_ok_iff_of_pages, fun _ _ _ _ => render_error_of_tree⟩

/-- A page with headings out of order in a code span and in a code block, and a table without
columns in an element without content. -/
def unreadFaults : Node :=
  .page ⟨"t", ⟨[.mk "A" (some "a") [] []]⟩⟩
    [.heading 1 (some "a") [.codeSpan [.heading 9 none []]],
      .element "br" ∅ [.table [] []], .richCode "text" [.heading 0 (some " ") []]]

theorem render_failures_unreadFaults :
    (∃ markdown, renderRaw {} unreadFaults = .ok markdown) ∧
      (render {} (.table [] []) {}).1 = .error .emptyTable ∧
      RenderError.emptyTable ≠ .paragraphBreakInSingleLine := by
  have hspan : ∀ q, Rendered ⟨true, .codeSpan [.heading 9 none []]⟩ q → q.node.inOrder :=
    forall_rendered.2 ⟨rfl, List.forall_mem_nil _⟩
  have hvoid : parts ⟨false, .element "br" ∅ [.table [] []]⟩ = [] := by
    rw [parts_element, if_pos (by decide +kernel)]
  have hrendered : ∀ q, Rendered ⟨false, unreadFaults⟩ q → q.node.inOrder := by
    refine forall_rendered.2 ⟨rfl, List.forall_mem_cons.2 ⟨?_, List.forall_mem_cons.2
      ⟨?_, List.forall_mem_singleton.2 ?_⟩⟩⟩
    · exact forall_rendered.2 ⟨by decide, List.forall_mem_singleton.2 hspan⟩
    · exact forall_rendered.2 ⟨rfl, hvoid ▸ List.forall_mem_nil _⟩
    · exact forall_rendered.2 ⟨rfl, List.forall_mem_nil _⟩
  have ho : Options.OneLine {} := ⟨by decide, by simp⟩
  have hempty : (render {} (.table [] []) {}).1 = .error .emptyTable := rfl
  exact ⟨(render_failures.1 {} unreadFaults ho (by decide) (by decide)).2 hrendered, hempty,
    (render_failures.2 {} (.table [] []) {} .emptyTable hempty).1⟩

end Run
end Markdown
end DocTree
