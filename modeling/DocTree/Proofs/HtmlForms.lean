import DocTree.Proofs.TagNesting

/-! Blocks on one line of HTML, and whole trees. What a tree writes there nests its tags unless a line
break in it ends a code element in which another element is open. -/
namespace DocTree.Markdown
open Html Text Render

namespace Render
variable {code : Bool} {steps next body summary : Render Unit} {splits others : Bool → Bool}

/-- Steps between the tags of an element that stands for a block. -/
theorem Nests.fallback {name before after : String} (h : Nests code splits steps)
    (hname : IsElement name false) (hb : before = s!"<{name}>") (ha : after = s!"</{name}>") :
    Nests code (fun _ => splits false)
      (do write before; withMode .htmlBlock true steps; write after) :=
  Nests.tagged h.inBlock hname hb ha

theorem nests_rule : Nests code (fun _ => false) rule := by
  refine Yields.ifConstrained (nests_void (isVoid_fallback "hr" (by decide)) ?_)
  refine (yields_write "<hr/>").mono ?_
  rintro _ rfl
  exact ⟨['/'], by decide, by decide, fun _ hc => Option.some.inj hc ▸ rfl⟩

theorem Nests.quote (h : Nests code splits body) : Nests code (fun _ => splits false) (quote body) := by
  have htags : "<blockquote>" = "<" ++ "blockquote" ++ ">" ∧
      "</blockquote>" = "</" ++ "blockquote" ++ ">" := by decide
  exact (h.fallback (isElement_fallback _ (by decide)) htags.1 htags.2).ifConstrained

/-! ## Headings -/

theorem isElement_heading {level : UInt8} (h : 1 ≤ level ∧ level ≤ 6) :
    IsElement s!"h{level}" false := by
  have hlevels : level.toNat ∈ [1, 2, 3, 4, 5, 6] := by
    obtain ⟨hlow, hhigh⟩ := h
    rw [UInt8.le_iff_toNat_le] at hlow hhigh
    have hone : (1 : UInt8).toNat = 1 ∧ (6 : UInt8).toNat = 6 := by decide
    simp only [List.mem_cons, List.not_mem_nil, or_false]
    omega
  have hnames : ∀ n ∈ [1, 2, 3, 4, 5, 6], IsElement ("h" ++ n.repr) false := by
    decide +kernel
  exact hnames _ hlevels

/-- The anchor of a heading has a name without angle brackets. -/
theorem nests_optionalAnchor {anchor : Option String} (h : ∀ id ∈ anchor, isValidAnchor id) :
    Nests code (fun _ => false) (optionalAnchor anchor) := by
  cases anchor with
  | none => exact nests_pure
  | some id =>
    have hvalid := h id rfl
    rw [isValidAnchor, Bool.and_eq_true, List.all_eq_true] at hvalid
    have hbracket : '>' ∉ id.toList := fun hmem => absurd (hvalid.2 _ hmem) (by decide)
    refine (yields_write _).mono ?_
    rintro _ rfl
    have hopening : IsOpening "a" ("<a name=\"".toList ++ id.toList ++ "\">".toList) :=
      ⟨" name=\"".toList ++ id.toList ++ ['"'], by simp, by simp [hbracket],
        fun _ hc => Option.some.inj hc ▸ rfl⟩
    have hbalanced := (balanced_text List.not_mem_nil).element
      (isElement_fallback "a" (by decide)) hopening
    have htext : ("<a name=\"" ++ id ++ "\"></a>").toList =
        "<a name=\"".toList ++ id.toList ++ "\">".toList ++ ([] ++ ("</" ++ "a" ++ ">").toList) := by
      simp
    change Balanced _ ("<a name=\"" ++ id ++ "\"></a>").toList
    rw [htext]
    exact hbalanced

theorem Nests.heading (h : Nests code splits body) (level : UInt8) (anchor : Option String) :
    Nests code (fun _ => splits false) (heading level anchor body) := by
  rw [heading_eq]
  cases hchecked : headingError? level anchor with
  | some error => exact yields_fail error
  | none =>
    obtain ⟨hlevel, hanchor⟩ := headingError?_eq_none.1 hchecked
    have htag (front : String) : front ++ ("h" ++ toString level) = front ++ "h" ++ toString level :=
      String.append_assoc.symm
    have hopen : "<h" ++ toString level ++ ">" = "<" ++ ("h" ++ toString level) ++ ">" := by
      rw [htag]
      rfl
    have hclose : "</h" ++ toString level ++ ">" = "</" ++ ("h" ++ toString level) ++ ">" := by
      rw [htag]
      rfl
    have hbody := ((nests_optionalAnchor hanchor).then h).congr fun direct => Bool.false_or _
    exact (hbody.fallback (isElement_heading hlevel) hopen hclose).ifConstrained

/-! ## Code -/

theorem nests_codeElement (h : Nests true splits body) :
    Nests code (fun _ => splits true) (do
      write "<code>"
      withMode .htmlBlock true (withMode .singleLineCode true body)
      write "</code>") := by
  have htags : "<code>" = "<" ++ "code" ++ ">" ∧ "</code>" = "</" ++ "code" ++ ">" := by decide
  exact Nests.tagged h.inCode.inBlock isElement_code htags.1 htags.2

/-- In a block of code the code element is the innermost one, so that its lines may end. -/
theorem nests_codeBlock (language : Option String) (s : String) :
    Nests code (fun _ => false) (codeBlock language s) :=
  (nests_codeElement (nests_writeEscaped s)).ifConstrained

theorem Nests.linkedCode (h : Nests true splits body) (language : String) :
    Nests code (fun _ => splits true) (linkedCode language body) :=
  (nests_codeElement h).ifConstrained

/-! ## Sections and elements -/

theorem Nests.collapsible (hsummary : Nests code others summary) (h : Nests code splits body) :
    Nests code (fun _ => others false || splits false) (collapsible summary body) := by
  have hinside := (hsummary.append ((yields_write "</summary>").append h)).inBlock
  refine Yields.ifConstrained
    (((yields_write "<details><summary>").append (hinside.append (yields_write "</details>"))).mono ?_)
  rintro _ ⟨_, _, rfl, ⟨_, _, ⟨cs, _, hcs, ⟨_, ds, rfl, hds, rfl⟩, rfl⟩, rfl, rfl⟩, rfl⟩
  have hfirst := hcs.element (isElement_fallback "summary" (by decide)) (isOpening_bare "summary")
  have hwhole := (hfirst.append hds).element (isElement_fallback "details" (by decide))
    (isOpening_bare "details")
  have htext : "<details><summary>".toList ++
        (cs ++ ("</summary>".toList ++ ds) ++ "</details>".toList) =
      ("<" ++ "details" ++ ">").toList ++ (("<" ++ "summary" ++ ">").toList ++
        (cs ++ ("</" ++ "summary" ++ ">").toList) ++ ds ++ ("</" ++ "details" ++ ">").toList) := by
    simp
  rw [htext]
  exact hwhole

/-- An element with a closing tag. -/
theorem Nests.withTags {tag : String} {attributes : Dict String} (h : Nests code splits body)
    (hname : isTagName tag) (hclass : TagClass.ofTag tag ≠ .void)
    (hattributes : ∀ e ∈ attributes.entries, e.1.toList.all Unicode.isAlphanumeric) :
    Nests code (fun _ => splits (lowerAscii tag == "code"))
      (do openTag tag attributes false; body; closeTag tag) :=
  h.between ⟨hname, Bool.eq_false_iff.2 (ofTag_eq_void_iff.not.1 hclass), rfl⟩
    (yields_openTag hattributes false) rfl

theorem Nests.element {tag : String} {attributes : Dict String} (h : Nests code splits body)
    (hname : isTagName tag)
    (hattributes : ∀ e ∈ attributes.entries, e.1.toList.all Unicode.isAlphanumeric) :
    Nests code (fun _ => TagClass.ofTag tag != .void && splits (lowerAscii tag == "code"))
      (element tag attributes body) := by
  cases hclass : TagClass.ofTag tag with
  | void =>
    have hvoid : IsVoid tag := ⟨hname, ofTag_eq_void_iff.1 hclass⟩
    simp only [Markdown.element, hclass]
    exact (nests_void hvoid (yields_openTag hattributes true)).congr fun _ => rfl
  | inline =>
    simp only [Markdown.element, hclass]
    exact h.withTags hname (by rw [hclass]; decide) hattributes
  | block =>
    simp only [Markdown.element, hclass]
    refine yields_look fun out hout => ?_
    have hline : out.constrained := hout.constrained
    simp only [hline, Bool.not_true, Bool.false_and, Bool.true_or, if_true]
    exact yields_look fun _ _ =>
      Nests.withTags h.inBlock hname (by rw [hclass]; decide) hattributes

/-- Without attributes a paragraph keeps its tags on a line that may not end. -/
theorem Nests.paragraph (h : Nests code splits body) :
    Nests code (fun _ => splits false) (Markdown.element "p" ∅ body) := by
  obtain ⟨hname, hnotVoid, hcode⟩ := isElement_fallback "p" (by decide)
  have hclass : TagClass.ofTag "p" ≠ .void :=
    ofTag_eq_void_iff.not.2 (Bool.eq_false_iff.1 hnotVoid)
  refine (h.element hname (List.forall_mem_nil _)).congr fun direct => ?_
  simp [hclass, hcode]

/-- Lists are not kept apart on a line that may not end. -/
theorem nests_separateLists (afterList isList : Bool) :
    Nests code (fun _ => false) (separateLists afterList isList) := by
  refine yields_look fun out hout => ?_
  rw [hout.constrained, Bool.not_true, Bool.and_false]
  exact nests_pure

end Render

section Tree
variable {o : Options} {head : PageMetadata → Render Unit} {code : Bool} {nodes header : List Node}
  {rows : List (List Node)} {node : Node}

/-- What the nodes write nests its tags, each in the place of the nodes. -/
def NestsAll (o : Options) (head : PageMetadata → Render Unit) (code : Bool) (nodes : List Node) :
    Prop :=
  ∀ n ∈ nodes, Nests code (fun direct => n.splitsTag code direct) (renderNode o head n)

theorem nests_renderNodes (h : NestsAll o head code nodes) (afterList : Bool) :
    Nests code (fun direct => Node.splitsTags code direct nodes)
      (renderNodes o head afterList nodes) := by
  induction nodes generalizing afterList with
  | nil => exact nests_pure
  | cons node rest ih =>
    obtain ⟨hnode, hrest⟩ := List.forall_mem_cons.1 h
    exact ((nests_separateLists _ _).then (hnode.then (ih hrest _))).congr fun direct =>
      Bool.false_or _

theorem nests_htmlItems (h : NestsAll o head code nodes) :
    Nests code (fun _ => Node.splitsTags code false nodes)
      (htmlItems (nodes.map (renderNode o head))) := by
  have htags : "<li>" = "<" ++ "li" ++ ">" ∧ "</li>" = "</" ++ "li" ++ ">" := by decide
  induction nodes with
  | nil => exact nests_pure
  | cons item rest ih =>
    obtain ⟨hitem, hrest⟩ := List.forall_mem_cons.1 h
    have htagged := Nests.tagged hitem (isElement_fallback "li" (by decide)) htags.1 htags.2
    have hsteps := htagged.then (ih hrest)
    simp only [bind_assoc] at hsteps
    exact hsteps

theorem nests_list (h : NestsAll o head code nodes) (style : ListStyle) :
    Nests code (fun _ => Node.splitsTags code false nodes)
      (list style (nodes.map (renderNode o head))) := by
  have hitems : Nests code _ _ := (nests_htmlItems h).inBlock
  cases style with
  | unordered =>
    have htags : "<ul>" = "<" ++ "ul" ++ ">" ∧ "</ul>" = "</" ++ "ul" ++ ">" := by decide
    exact (Nests.tagged hitems (isElement_fallback "ul" (by decide)) htags.1 htags.2).ifConstrained
  | ordered start =>
    have hbare : "<ol>" = "<" ++ "ol" ++ ">" ∧ "</ol>" = "</" ++ "ol" ++ ">" := by decide
    have hopening : Yields code (IsOpening "ol") (write (listOpenTag (.ordered start))) := by
      rw [listOpenTag]
      split
      · exact yields_bareTag hbare.1
      · refine (yields_write _).mono ?_
        rintro _ rfl
        have hdigits : '>' ∉ (toString start).toList := by
          have hall : (toString start).toList.all (· != '>') :=
            all_repr (fun c hc => bne_iff_ne.2 (by rintro rfl; cases hc)) start.toNat
          exact fun hmem => absurd (List.all_eq_true.1 hall _ hmem) (by decide)
        refine ⟨" start=\"".toList ++ (toString start).toList ++ ['"'], ?_, by simp [hdigits],
          fun _ hc => Option.some.inj hc ▸ rfl⟩
        change ("<ol start=\"" ++ toString start ++ "\">").toList = _
        simp
    exact (Nests.between hitems (isElement_fallback "ol" (by decide)) hopening hbare.2).ifConstrained

theorem nests_htmlCells {tag : String} (htag : tag = "th" ∨ tag = "td")
    (h : NestsAll o head code nodes) {columns : Nat} (hfits : nodes.length ≤ columns) :
    Nests code (fun _ => Node.splitsTags code false nodes)
      (htmlCells tag columns (nodes.map (renderNode o head))) := by
  have hname : IsElement tag false := by
    rcases htag with rfl | rfl <;> exact isElement_fallback _ (by decide)
  induction columns generalizing nodes with
  | zero =>
    obtain rfl := List.eq_nil_of_length_eq_zero (Nat.le_zero.1 hfits)
    exact nests_pure
  | succ columns ih =>
    cases nodes with
    | nil =>
      have hsteps := (Nests.tagged nests_pure hname rfl rfl).then
        (ih (List.forall_mem_nil _) (Nat.zero_le _))
      simp only [bind_assoc, pure_bind] at hsteps
      exact hsteps
    | cons cell rest =>
      obtain ⟨hcell, hrest⟩ := List.forall_mem_cons.1 h
      have hsteps := (Nests.tagged hcell hname rfl rfl).then
        (ih hrest (Nat.le_of_succ_le_succ hfits))
      simp only [bind_assoc] at hsteps
      exact hsteps

theorem nests_htmlRow {tag : String} (htag : tag = "th" ∨ tag = "td")
    (h : NestsAll o head code nodes) {columns : Nat} (hfits : nodes.length ≤ columns) :
    Nests code (fun _ => Node.splitsTags code false nodes)
      (htmlRow tag columns (nodes.map (renderNode o head))) := by
  have htags : "<tr>" = "<" ++ "tr" ++ ">" ∧ "</tr>" = "</" ++ "tr" ++ ">" := by decide
  exact (nests_htmlCells htag h hfits).tagged (isElement_fallback "tr" (by decide)) htags.1 htags.2

theorem nests_htmlRows {columns : Nat} (h : ∀ row ∈ rows, NestsAll o head code row)
    (hfits : ∀ row ∈ rows, row.length ≤ columns) :
    Nests code (fun _ => Node.splitsTagRows code rows)
      (htmlRows columns (rows.map fun row => row.map (renderNode o head))) := by
  induction rows with
  | nil => exact nests_pure
  | cons row rest ih =>
    obtain ⟨hrow, hrest⟩ := List.forall_mem_cons.1 h
    obtain ⟨hfirst, hothers⟩ := List.forall_mem_cons.1 hfits
    exact (nests_htmlRow (.inr rfl) hrow hfirst).then (ih hrest hothers)

theorem nests_table (hheader : NestsAll o head code header)
    (hrows : ∀ row ∈ rows, NestsAll o head code row) :
    Nests code (fun _ => Node.splitsTags code false header || Node.splitsTagRows code rows)
      (table (header.map (renderNode o head)) (rows.map fun row => row.map (renderNode o head))) := by
  have htags : "<table>" = "<" ++ "table" ++ ">" ∧ "</table>" = "</" ++ "table" ++ ">" := by decide
  obtain ⟨hfirst, hothers⟩ := length_le_columnCount header rows
  rw [table_eq, columnCount_map]
  split
  · exact yields_fail _
  · exact (((nests_htmlRow (.inl rfl) hheader hfirst).then
      (nests_htmlRows hrows hothers)).fallback (isElement_fallback "table" (by decide)) htags.1
        htags.2).ifConstrained

theorem nests_children (h : ∀ n ∈ nodes, ∀ m ∈ n.nodes, m.hasHtmlForm)
    (ih : ∀ n ∈ nodes, ∀ code, (∀ m ∈ n.nodes, m.hasHtmlForm) →
      Nests code (fun direct => n.splitsTag code direct) (renderNode o head n)) (code : Bool) :
    Nests code (fun direct => Node.splitsTags code direct nodes) (renderNodes o head false nodes) :=
  nests_renderNodes (fun n hn => ih n hn code (h n hn)) false

/-- What a tree of such nodes writes on a line of HTML nests its tags, unless a line break in code
splits them. -/
theorem nests_renderNode (code : Bool) (h : ∀ m ∈ node.nodes, m.hasHtmlForm) :
    Nests code (fun direct => node.splitsTag code direct) (renderNode o head node) := by
  induction node generalizing code with
    simp only [Node.nodes, List.forall_mem_cons, List.forall_mem_append, Node.forall_mem_nodesOf,
      Node.forall_mem_nodesOfRows] at h
  | text s => exact nests_writeEscaped s
  | rule => exact nests_rule
  | image src title alt => exact nests_image src title alt
  | code language s => exact nests_codeBlock language s
  | codeSpan children => exact nests_codeSpan _
  | group children ih => exact nests_children h.2 ih code
  | quote children ih => exact (nests_children h.2 ih code).quote
  | element tag attributes children ih =>
    obtain ⟨hform, hchildren⟩ := h
    rw [Node.hasHtmlForm, Bool.and_eq_true] at hform
    exact (nests_children hchildren ih code).element hform.1 (List.all_eq_true.1 hform.2)
  | emphasis style children ih =>
    cases children with
    | nil => exact nests_pure
    | cons first rest => exact (nests_children h.2 ih code).emphasis style
  | richCode language children ih =>
    rw [renderNode]
    simp only [Node.splitsTag]
    cases Node.anyContainsLink children with
    | true => exact (nests_children h.2 ih true).linkedCode language
    | false => exact nests_codeBlock (some language) (Node.textsContent children)
  | link target destination title children ih =>
    exact (nests_children h.2 ih code).link _ title
  | paragraph children ih => exact (nests_children h.2 ih code).paragraph
  | heading level anchor children ih =>
    exact (nests_children h.2 ih code).heading level anchor
  | list style items ih =>
    rw [renderNode, renderParts_eq_map]
    exact nests_list (fun n hn => ih n hn code (h.2 n hn)) style
  | table header rows ihheader ihrows =>
    rw [renderNode, renderParts_eq_map, renderRows_eq_map]
    exact nests_table (fun n hn => ihheader n hn code (h.2.1 n hn))
      fun row hrow n hn => ihrows row hrow n hn code (h.2.2 row hrow n hn)
  | collapsible summary children ihsummary ih =>
    exact (ihsummary code h.2.1).collapsible (nests_children h.2.2 ih code)
  | comment | notice | page => exact absurd h.1 Bool.false_ne_true

/-- Where a summary is written, on a line of HTML that is still empty, a tree without pages and comments
is written with its tags nested if and only if no line break of it ends a code element in which another
element is open. -/
theorem nestsTags_summary_iff {out : Output} (h : ∀ m ∈ node.nodes, m.hasHtmlForm)
    (hrun : withMode .htmlBlock true (inSingleLine (render o node)) {} = (.ok (), out)) :
    NestsTags out.text ↔ ¬ node.splitsTag false false := by
  have hframed : Framed (render o node) := framed_renderNode framed_pageHead node
  obtain ⟨_, hline, rfl⟩ := hframed.inSingleLine.withMode_ok hrun
  obtain ⟨_, hmode, rfl⟩ := (hframed.withMode (by decide)).withMode_ok
    (show withMode .inlineMarkdown false (withMode .singleLine true (render o node)) _ = _ from hline)
  obtain ⟨inner, hinner, rfl⟩ := hframed.withMode_ok hmode
  obtain ⟨-, added, htext, hbalanced⟩ :=
    nests_renderNode false h _ inner ⟨rfl, rfl, rfl, rfl, rfl, rfl, rfl, rfl⟩ hinner
  have hadded : inner.text = added := htext.trans String.empty_append
  rw [← hadded] at hbalanced
  exact (nestsTags_iff hbalanced).trans Bool.eq_false_iff

/-- A table with a list and a void tag in its cells, and code over two lines with a link behind the
line break. -/
def taggedTree : Node :=
  .table [.list (.ordered 3) [.emphasis .bold [.text "a\nb"], .rule]]
    [[.element "img" (.ofList [("alt", "a>b")]) [],
      .richCode "ts" [.text "c\nd", .link .address "e" (some ">") [.text "f"]]]]

theorem nestsTags_summary_taggedTree :
    (∀ m ∈ taggedTree.nodes, m.hasHtmlForm) ∧ ∃ out,
      withMode .htmlBlock true (inSingleLine (render {} taggedTree)) {} = (.ok (), out) ∧
        NestsTags out.text := by
  have hforms : ∀ m ∈ taggedTree.nodes, m.hasHtmlForm := by decide +kernel
  have hok : (withMode .htmlBlock true (inSingleLine (render {} taggedTree)) {}).1 = .ok () := by
    decide +kernel
  have hrun : withMode .htmlBlock true (inSingleLine (render {} taggedTree)) {} =
    (.ok (), (withMode .htmlBlock true (inSingleLine (render {} taggedTree)) {}).2) := Prod.ext hok rfl
  exact ⟨hforms, _, hrun, (nestsTags_summary_iff hforms hrun).2 (by decide +kernel)⟩

/-- A line break in the text of a link in code ends the code element inside the link. -/
def splitLink : Node := .richCode "ts" [.link .address "d" none [.text "a\nb"]]

theorem not_nestsTags_splitLink :
    (∀ m ∈ splitLink.nodes, m.hasHtmlForm) ∧
      (withMode .htmlBlock true (inSingleLine (render {} splitLink)) {}).1 = .ok () ∧
      (withMode .htmlBlock true (inSingleLine (render {} splitLink)) {}).2.text =
        "<code><a href=\"d\">a</code><br><code>b</a></code>" ∧
      ¬ NestsTags "<code><a href=\"d\">a</code><br><code>b</a></code>" := by
  refine ⟨?_, ?_, ?_, ?_⟩ <;> decide +kernel

end Tree
end DocTree.Markdown
