import DocTree.Proofs.Account
import DocTree.Proofs.TagReader

/-! How the tags of a tree on one line of HTML nest. Every node has a form there, and each form closes
what it opens, but for a line break in code that is written on one line: it ends the code element and
begins another, and that fits only if no other element has been opened in the code. -/
namespace DocTree
open Html

mutual

/-- Whether a line break of the tree ends a code element in which another element is open. `code` says
whether the tree stands in code that is written on one line, `direct` whether the innermost open element
is code. -/
def Node.splitsTag (code direct : Bool) : Node → Bool
  | .text s => code && !direct && s.toList.contains '\n'
  | .group children => Node.splitsTags code direct children
  | .element tag _ children =>
    TagClass.ofTag tag != .void && Node.splitsTags code (lowerAscii tag == "code") children
  | .richCode _ children => Node.anyContainsLink children && Node.splitsTags true true children
  | .quote children | .emphasis _ children | .link _ _ _ children | .paragraph children
  | .heading _ _ children | .list _ children => Node.splitsTags code false children
  | .table header rows => Node.splitsTags code false header || Node.splitsTagRows code rows
  | .collapsible summary children =>
    summary.splitsTag code false || Node.splitsTags code false children
  | .rule | .comment _ _ | .image _ _ _ | .code _ _ | .notice | .codeSpan _ | .page _ _ => false

def Node.splitsTags (code direct : Bool) : List Node → Bool
  | [] => false
  | node :: rest => node.splitsTag code direct || Node.splitsTags code direct rest

def Node.splitsTagRows (code : Bool) : List (List Node) → Bool
  | [] => false
  | row :: rest => Node.splitsTags code false row || Node.splitsTagRows code rest

end

/-- A node whose form on one line of HTML is made of tags and text alone. -/
def Node.hasHtmlForm : Node → Bool
  | .page _ _ | .comment _ _ | .notice => false
  | .element tag attributes _ =>
    isTagName tag && attributes.entries.all fun e => e.1.toList.all Unicode.isAlphanumeric
  | _ => true

namespace Markdown
open Text Render

/-- On a line that may not end, in an HTML block that is open, outside of Markdown code and of
attributes. -/
structure Output.OnHtmlLine (code : Bool) (out : Output) : Prop where
  indents : out.buffer.indents = []
  singleLine : out.modes.singleLine
  htmlBlock : out.modes.htmlBlock
  table : out.modes.table = false
  markdownCode : out.modes.markdownCode = false
  preformatted : out.modes.preformatted = false
  htmlAttribute : out.modes.htmlAttribute = false
  singleLineCode : out.modes.singleLineCode = code

theorem Output.OnHtmlLine.constrained {code : Bool} {out : Output} (h : out.OnHtmlLine code) :
    out.constrained := by
  rw [Output.constrained, Modes.constrained, h.singleLine, Bool.or_true]

theorem Output.OnHtmlLine.congr {code : Bool} {out out' : Output} (h : out.OnHtmlLine code)
    (hmodes : out'.modes = out.modes) (hindents : out'.buffer.indents = out.buffer.indents) :
    out'.OnHtmlLine code := by
  obtain ⟨hnone, hline, hblock, htable, hmarkdown, hpre, hattribute, hcode⟩ := h
  rw [← hmodes] at hline hblock htable hmarkdown hpre hattribute hcode
  exact ⟨hindents.trans hnone, hline, hblock, htable, hmarkdown, hpre, hattribute, hcode⟩

namespace Render
variable {code : Bool} {P Q R : List Char → Prop} {steps next body : Render Unit}
  {splits others : Bool → Bool}

/-- If the steps succeed on a line of HTML, they stay on it and what they add satisfies `Q`. -/
def Yields (code : Bool) (Q : List Char → Prop) (steps : Render Unit) : Prop :=
  ∀ out out' : Output, out.OnHtmlLine code → steps out = (.ok (), out') →
    out'.OnHtmlLine code ∧ ∃ added, out'.text = out.text ++ added ∧ Q added.toList

/-- The tags that are added leave the open elements alone, unless they do not fit. -/
abbrev Nests (code : Bool) (splits : Bool → Bool) (steps : Render Unit) : Prop :=
  Yields code (Balanced splits) steps

theorem Yields.mono (h : Yields code P steps) (hpq : ∀ cs, P cs → Q cs) : Yields code Q steps := by
  intro out out' hout hok
  obtain ⟨hout', added, htext, hp⟩ := h out out' hout hok
  exact ⟨hout', added, htext, hpq _ hp⟩

theorem Nests.congr (h : Nests code splits steps) (heq : ∀ direct, splits direct = others direct) :
    Nests code others steps := h.mono fun _ hbalanced => hbalanced.congr heq

theorem yields_pure (h : Q []) : Yields code Q (pure ()) := by
  rintro out _ hout ⟨⟩
  exact ⟨hout, "", by simp, h⟩

theorem yields_fail (error : RenderError) : Yields code Q (fail error) := by
  intro out out' _ hok
  cases hok

theorem nests_pure : Nests code (fun _ => false) (pure ()) := yields_pure (balanced_text (by simp))

theorem Yields.append (h : Yields code P steps) (hnext : Yields code Q next) :
    Yields code (fun cs => ∃ x y, P x ∧ Q y ∧ cs = x ++ y) (do steps; next) := by
  intro out out' hout hok
  obtain ⟨_, mid, hmid, hlast⟩ := bind_eq_ok hok
  obtain ⟨hmid', s, hs, hp⟩ := h out mid hout hmid
  obtain ⟨hout', t, ht, hq⟩ := hnext mid out' hmid' hlast
  exact ⟨hout', s ++ t, by rw [ht, hs, String.append_assoc], s.toList, t.toList, hp, hq,
    String.toList_append⟩

theorem Nests.then (h : Nests code splits steps) (hnext : Nests code others next) :
    Nests code (fun direct => splits direct || others direct) (do steps; next) := by
  refine (h.append hnext).mono ?_
  rintro _ ⟨cs, ds, hcs, hds, rfl⟩
  exact hcs.append hds

theorem yields_look {α : Type} {view : Output → α} {next : α → Render Unit}
    (h : ∀ out : Output, out.OnHtmlLine code → Yields code Q (next (view out))) :
    Yields code Q (look view >>= next) := fun out out' hout hok => h out hout out out' hout hok

theorem Yields.ifConstrained (h : Yields code Q steps) :
    Yields code Q (do if ← constrained then steps else next) := by
  refine yields_look fun out hout => ?_
  rwa [if_pos hout.constrained]

theorem Yields.ifHtml (h : Yields code Q steps) :
    Yields code Q (do if ← usesHtml then steps else next) := by
  refine yields_look fun out hout => ?_
  rwa [if_pos (by simp [hout.htmlBlock, hout.table])]

theorem Yields.unlessCode (h : Yields code Q next) :
    Yields code Q (do if ← inMode .markdownCode then steps else next) := by
  refine yields_look fun out hout => ?_
  have hoff : ¬ out.modes.get .markdownCode = true := by simp [Modes.get, hout.markdownCode]
  rwa [if_neg hoff]

theorem yields_write (s : String) : Yields code (· = s.toList) (write s) := by
  intro out out' hout hok
  have hextends := (framed_write s).of_eq hok
  refine ⟨hout.congr hextends.modes hextends.buffer.indents, s, ?_, rfl⟩
  rw [Output.text, write_ok hok]
  exact Layout.Buffer.write_text hout.indents s

theorem yields_writeEscaped {s : String} {Q : List Char → Prop}
    (h : ∀ out : Output, out.OnHtmlLine code → Q (out.escapeContext.escape s).toList) :
    Yields code Q (writeEscaped s) :=
  yields_look fun out hout => (yields_write _).mono fun _ heq => heq ▸ h out hout

/-- The block that is open stays open. -/
theorem Yields.inBlock (h : Yields code Q steps) :
    Yields code Q (withMode .htmlBlock true steps) := by
  intro out out' hout hok
  have hset : out.modes.set .htmlBlock true = out.modes := by
    rw [← hout.htmlBlock]
    exact Modes.set_get out.modes .htmlBlock
  cases hsteps : steps out with
  | mk result last =>
    rw [withMode, hset, hsteps] at hok
    obtain ⟨rfl, rfl⟩ := Prod.mk.inj hok
    obtain ⟨hlast, hadded⟩ := h out last hout hsteps
    refine ⟨hlast.congr ?_ rfl, hadded⟩
    have hkept : out.modes.get .htmlBlock = last.modes.get .htmlBlock :=
      hout.htmlBlock.trans hlast.htmlBlock.symm
    rw [hkept]
    exact Modes.set_get last.modes .htmlBlock

/-- In the steps inside, the line is one of code. -/
theorem Yields.inCode (h : Yields true Q steps) :
    Yields code Q (withMode .singleLineCode true steps) := by
  intro out out' hout hok
  have hcode : Output.OnHtmlLine true
      { out with modes := out.modes.set .singleLineCode true } := by
    obtain ⟨hnone, hline, hblock, htable, hmarkdown, hpre, hattribute, -⟩ := hout
    exact ⟨hnone, hline, hblock, htable, hmarkdown, hpre, hattribute, rfl⟩
  cases hsteps : steps { out with modes := out.modes.set .singleLineCode true } with
  | mk result last =>
    rw [withMode, hsteps] at hok
    obtain ⟨rfl, rfl⟩ := Prod.mk.inj hok
    obtain ⟨hlast, hadded⟩ := h _ last hcode hsteps
    obtain ⟨hnone, hline, hblock, htable, hmarkdown, hpre, hattribute, -⟩ := hlast
    exact ⟨⟨hnone, hline, hblock, htable, hmarkdown, hpre, hattribute, hout.singleLineCode⟩, hadded⟩

section Text

theorem lineBreak_onHtmlLine {out : Output} (hout : out.OnHtmlLine code) :
    out.escapeContext.lineBreak =
      if code then "</code><br><code>".toList else "<br>".toList := by
  have hattribute : out.escapeContext.htmlAttribute = false := hout.htmlAttribute
  have hcode : out.escapeContext.singleLineCode = code := hout.singleLineCode
  have hblock : (out.escapeContext.table ||
      (out.escapeContext.htmlBlock && !out.escapeContext.preformatted)) = true := by
    rw [show out.escapeContext.htmlBlock = true from hout.htmlBlock,
      show out.escapeContext.preformatted = false from hout.preformatted]
    exact Bool.or_true _
  rw [EscapeContext.lineBreak, hattribute, if_neg Bool.false_ne_true, hcode, hblock, if_pos rfl]

/-- What is written for one character of a text: only a line break in code does not fit everywhere. -/
theorem balanced_escapeChar {out : Output} (hout : out.OnHtmlLine code) (blank : Bool) (c : Char) :
    Balanced (fun direct => code && !direct && c == '\n')
      (out.escapeContext.escapeChar blank c) := by
  have hcode : out.escapeContext.markdownCode = false := hout.markdownCode
  by_cases hc : c = '\n'
  · subst hc
    rw [EscapeContext.escapeChar_break, lineBreak_onHtmlLine hout]
    cases code with
    | true => exact balanced_codeBreak.congr fun direct => (Bool.and_true _).symm
    | false => exact (isVoid_fallback "br" (by decide)).balanced (isOpening_bare "br")
  · have hother : (c == '\n') = false := beq_eq_false_iff_ne.2 hc
    refine (balanced_text fun hangle => ?_).congr fun direct => by rw [hother, Bool.and_false]
    obtain ⟨inner, outer, hsplit⟩ := List.append_of_mem hangle
    exact hc ((EscapeContext.escapeChar_markup hcode hsplit).2.1 (.inl rfl)).1

theorem balanced_escape {out : Output} (hout : out.OnHtmlLine code) (s : String) :
    Balanced (fun direct => code && !direct && s.toList.contains '\n')
      (out.escapeContext.escape s).toList := by
  have hfrom (cs : List Char) (blank : Bool) :
      Balanced (fun direct => code && !direct && cs.contains '\n')
        (out.escapeContext.escapeFrom blank cs) := by
    induction cs generalizing blank with
    | nil => exact (balanced_text (List.not_mem_nil)).congr fun direct => (Bool.and_false _).symm
    | cons c rest ih =>
      refine ((balanced_escapeChar hout blank c).append (ih _)).congr fun direct => ?_
      rw [List.contains_cons, Bool.and_or_distrib_left, BEq.comm]
  rw [EscapeContext.escape, String.toList_ofList]
  exact hfrom _ _

theorem nests_writeEscaped (s : String) :
    Nests code (fun direct => code && !direct && s.toList.contains '\n') (writeEscaped s) :=
  yields_writeEscaped fun _ hout => balanced_escape hout s

/-- A text without line breaks fits everywhere. -/
theorem nests_line {s : String} (h : OneLine s) : Nests code (fun _ => false) (writeEscaped s) :=
  (nests_writeEscaped s).congr fun direct => by
    have hnone : s.toList.contains '\n' = false := by simpa [OneLine] using h
    rw [hnone, Bool.and_false]

end Text

section Tags
variable {name : String} {direct : Bool} {opening : Render Unit}

/-- Steps between the tags of an element. -/
theorem Nests.between (h : Nests code splits steps) (hname : IsElement name direct)
    (hopening : Yields code (IsOpening name) opening) {after : String}
    (ha : after = s!"</{name}>") :
    Nests code (fun _ => splits direct) (do opening; steps; write after) := by
  refine (hopening.append (h.append (yields_write after))).mono ?_
  rintro _ ⟨cs, _, hcs, ⟨inside, _, hinside, rfl, rfl⟩, rfl⟩
  rw [ha]
  exact hinside.element hname hcs

theorem yields_bareTag {before : String} (hb : before = s!"<{name}>") :
    Yields code (IsOpening name) (write before) :=
  (yields_write before).mono fun _ heq => heq ▸ hb ▸ isOpening_bare name

/-- Steps between two tags without attributes. -/
theorem Nests.tagged (h : Nests code splits steps) (hname : IsElement name direct)
    {before after : String} (hb : before = s!"<{name}>") (ha : after = s!"</{name}>") :
    Nests code (fun _ => splits direct) (do write before; steps; write after) :=
  h.between hname (yields_bareTag hb) ha

/-- A tag that stands alone. -/
theorem nests_void (hname : IsVoid name) (h : Yields code (IsOpening name) steps) :
    Nests code (fun _ => false) steps := h.mono fun _ hopening => hname.balanced hopening

/-- What may stand behind the name of a tag. -/
def IsAttributes (cs : List Char) : Prop :=
  '>' ∉ cs ∧ ∀ c ∈ cs.head?, isNameChar c = false

theorem yields_attributeValue (value : String) :
    Yields code ('>' ∉ ·) (attributeValue value) := by
  intro out out' hout hok
  rw [attributeValue_apply] at hok
  obtain ⟨hout', added, htext, heq⟩ := yields_write _ out out' hout hok
  refine ⟨hout', added, htext, ?_⟩
  rw [heq]
  exact notMem_attributeText (by decide)

theorem yields_optionalAttribute {key : String} (h : '>' ∉ key.toList)
    (value : Option String) : Yields code ('>' ∉ ·) (optionalAttribute key value) := by
  cases value with
  | none => exact yields_pure List.not_mem_nil
  | some value =>
    refine ((yields_write (" " ++ key ++ "=\"")).append <|
      (yields_attributeValue value).append (yields_write "\"")).mono ?_
    rintro _ ⟨_, _, rfl, ⟨cs, _, hvalue, rfl, rfl⟩, rfl⟩
    simp [h, hvalue]

theorem yields_attributeList {attributes : List (String × String)}
    (h : ∀ e ∈ attributes, e.1.toList.all Unicode.isAlphanumeric) :
    Yields code IsAttributes (attributeList attributes) := by
  induction attributes with
  | nil => exact yields_pure ⟨List.not_mem_nil, by simp⟩
  | cons e rest ih =>
    obtain ⟨hname, hrest⟩ := List.forall_mem_cons.1 h
    refine ((yields_write " ").append <| (yields_write e.1).append <|
      (yields_write "=\"").append <| (yields_attributeValue e.2).append <|
      (yields_write "\"").append (ih hrest)).mono ?_
    rintro _ ⟨_, _, rfl, ⟨_, _, rfl, ⟨_, _, rfl, ⟨cs, _, hvalue, ⟨_, ds, rfl, hmore, rfl⟩, rfl⟩, rfl⟩,
      rfl⟩, rfl⟩
    have hbracket : '>' ∉ e.1.toList := fun hmem =>
      absurd (List.all_eq_true.1 hname _ hmem) (by decide)
    refine ⟨?_, ?_⟩
    · simp [hbracket, hvalue, hmore.1]
    · rintro c ⟨⟩
      decide

theorem yields_openTag {attributes : Dict String}
    (h : ∀ e ∈ attributes.entries, e.1.toList.all Unicode.isAlphanumeric) (selfClosing : Bool) :
    Yields code (IsOpening name) (openTag name attributes selfClosing) := by
  refine ((yields_write "<").append <| (yields_write name).append <|
    (yields_attributeList h).append (yields_write (if selfClosing then "/>" else ">"))).mono ?_
  rintro _ ⟨_, _, rfl, ⟨_, _, rfl, ⟨cs, _, hcs, rfl, rfl⟩, rfl⟩, rfl⟩
  cases selfClosing with
  | false => exact ⟨cs, by simp, hcs.1, hcs.2⟩
  | true =>
    refine ⟨cs ++ ['/'], by simp, by simp [hcs.1], fun c hc => ?_⟩
    cases cs with
    | nil =>
      obtain rfl : '/' = c := by simpa using hc
      decide
    | cons d rest => exact hcs.2 c hc

end Tags

section Inline
variable {style : Emphasis}

theorem Nests.link (h : Nests code splits body) (destination : String) (title : Option String) :
    Nests code (fun _ => splits false) (link destination title body) := by
  have hkey : '>' ∉ "title".toList := by decide
  have hopening : Yields code (IsOpening "a") (do
      write "<a href=\""
      attributeValue destination
      write "\""
      optionalAttribute "title" title
      write ">") := by
    refine ((yields_write "<a href=\"").append <| (yields_attributeValue destination).append <|
      (yields_write "\"").append <|
      (yields_optionalAttribute hkey title).append (yields_write ">")).mono ?_
    rintro _ ⟨_, _, rfl, ⟨cs, _, hvalue, ⟨_, _, rfl, ⟨ds, _, htitle, rfl, rfl⟩, rfl⟩, rfl⟩, rfl⟩
    exact ⟨" href=\"".toList ++ cs ++ "\"".toList ++ ds, by simp, by simp [hvalue, htitle],
      fun _ hc => Option.some.inj hc ▸ rfl⟩
  have hclosing : "</a>" = "</" ++ "a" ++ ">" := by decide
  have hsteps := h.between (isElement_fallback "a" (by decide)) hopening hclosing
  simp only [bind_assoc] at hsteps
  exact hsteps.ifHtml.unlessCode

theorem Nests.emphasis (h : Nests code splits body) (style : Emphasis) :
    Nests code (fun _ => splits false) (emphasis style false body) := by
  have htagged : Nests code (fun _ => splits false) (do
      write s!"<{emphasisTag style}>"
      body
      closeTag (emphasisTag style)) := by
    refine h.tagged (isElement_fallback _ ?_) rfl rfl
    cases style <;> decide
  refine yields_look fun out hout => ?_
  have hoff : ¬ (false || out.modes.get .markdownCode) = true := by
    simp [Modes.get, hout.markdownCode]
  rw [if_neg hoff]
  exact htagged.ifHtml

theorem nests_codeSpan (content : String) : Nests code (fun _ => false) (codeSpan content) := by
  have hline : OneLine (Text.replaceChar '\n' " " content) :=
    oneLine_replaceChar (by decide) (.inr rfl)
  unfold codeSpan
  dsimp only
  split
  · exact nests_pure
  · have htags : "<code>" = "<" ++ "code" ++ ">" ∧ "</code>" = "</" ++ "code" ++ ">" := by decide
    exact ((nests_line hline).tagged isElement_code htags.1 htags.2).ifHtml

theorem nests_image (src : String) (title alt : Option String) :
    Nests code (fun _ => false) (image src title alt) := by
  have hkeys : '>' ∉ "alt".toList ∧ '>' ∉ "title".toList := by decide
  have hname : IsVoid "img" := isVoid_fallback _ (by decide)
  refine Yields.ifHtml (nests_void hname (((yields_write "<img src=\"").append <|
    (yields_attributeValue src).append <| (yields_write "\"").append <|
    (yields_optionalAttribute hkeys.1 alt).append <|
    (yields_optionalAttribute hkeys.2 title).append (yields_write "/>")).mono ?_))
  rintro _ ⟨_, _, rfl, ⟨cs, _, hvalue, ⟨_, _, rfl, ⟨ds, _, halt, ⟨es, _, htitle, rfl, rfl⟩, rfl⟩,
    rfl⟩, rfl⟩, rfl⟩
  exact ⟨" src=\"".toList ++ cs ++ "\"".toList ++ ds ++ es ++ ['/'], by simp,
    by simp [hvalue, halt, htitle], fun _ hc => Option.some.inj hc ▸ rfl⟩

end Inline

end Render
end Markdown
end DocTree
