import DocTree.Proofs.Body

/-! Text between the tags of a block. The writer escapes a text there if and only if a block that
Markdown is read in again has been started around it since the tag. -/
namespace DocTree

/-- Whether a node is written between the tags of a block. A paragraph without attributes has no
tags. -/
def Node.hasBlockTags : Node → Bool
  | element tag attributes _ =>
    Html.TagClass.ofTag tag == .block && !(attributes.isEmpty && Html.lowerAscii tag == "p")
  | _ => false

/-- Code that is written as the text of its parts. -/
def Node.isCode : Node → Bool
  | codeSpan _ | richCode _ _ => true
  | _ => false

namespace Markdown
open Render

/-- Whether writing the node starts a block in which Markdown is read again. A list always does,
another block unless the block before it is still empty. -/
def startsBlock : Node → Output → Bool
  | .list _ _, _ => true
  | .quote _, out | .paragraph _, out | .collapsible _ _, out => !out.fresh
  | .element tag attributes _, out =>
    Html.TagClass.ofTag tag == .block && (attributes.isEmpty && Html.lowerAscii tag == "p")
      && !out.fresh
  | _, _ => false

variable (o : Options)

/-- The steps that write nodes one after the other, with a body in the place of `node`. -/
def among (node : Node) (after : List Node) : Bool → List Node → Render Unit → Render Unit
  | afterList, [], body => do
    separateLists afterList node.isList
    body
    renderNodes o (pageHead o) node.isList after
  | afterList, first :: before, body => do
    separateLists afterList first.isList
    render o first
    among node after first.isList before body

/-- The second tree is written as a part of the first. The steps are those that write the first
tree, with a body in the place of the second. -/
inductive Part : Node → Node → (Render Unit → Render Unit) → Prop
  | group (before node after) :
    Part (.group (before ++ node :: after)) node (among o node after false before)
  | quote (before node after) : Part (.quote (before ++ node :: after)) node
      fun body => quote (among o node after false before body)
  | element (tag attributes before node after) :
    Part (.element tag attributes (before ++ node :: after)) node
      fun body => element tag attributes (among o node after false before body)
  | emphasis (style before node after) : Part (.emphasis style (before ++ node :: after)) node
      fun body => emphasis style false (among o node after false before body)
  | richCode (language before node after) (h : Node.anyContainsLink (before ++ node :: after)) :
    Part (.richCode language (before ++ node :: after)) node
      fun body => linkedCode language (among o node after false before body)
  | link (target destination title before node after) :
    Part (.link target destination title (before ++ node :: after)) node
      fun body => link (o.address target destination) title (among o node after false before body)
  | paragraph (before node after) : Part (.paragraph (before ++ node :: after)) node
      fun body => element "p" ∅ (among o node after false before body)
  | heading (level anchor before node after) :
    Part (.heading level anchor (before ++ node :: after)) node
      fun body => heading level anchor (among o node after false before body)
  | item (style before node after) : Part (.list style (before ++ node :: after)) node
      fun body => list style (before.map (render o) ++ body :: after.map (render o))
  | header (before node after rows) : Part (.table (before ++ node :: after) rows) node
      fun body => table (before.map (render o) ++ body :: after.map (render o))
        (rows.map (·.map (render o)))
  | cell (header above before node after below) :
    Part (.table header (above ++ (before ++ node :: after) :: below)) node
      fun body => table (header.map (render o)) (above.map (·.map (render o)) ++
        (before.map (render o) ++ body :: after.map (render o)) :: below.map (·.map (render o)))
  | summary (node children) : Part (.collapsible node children) node
      fun body => collapsible body (renderNodes o (pageHead o) false children)
  | collapsible (summary before node after) :
    Part (.collapsible summary (before ++ node :: after)) node
      fun body => collapsible (render o summary) (among o node after false before body)
  | page (metadata before node after) : Part (.page metadata (before ++ node :: after)) node
      fun body => do
        pageHead o metadata
        among o node after false before body
        ensureNewLine
  | contents (metadata children) (h : metadata.contents.entries.isEmpty = false) :
    Part (.page metadata children) metadata.contents.toNode
      fun body => do
        notice
        heading 1 none (writeEscaped metadata.title)
        body
        renderNodes o (pageHead o) false children
        ensureNewLine

variable {o} {node tree : Node} {before after : List Node} {steps : Render Unit → Render Unit}

theorem among_render (afterList : Bool) : among o node after afterList before (render o node) =
    renderNodes o (pageHead o) afterList (before ++ node :: after) := by
  induction before generalizing afterList with
  | nil => rfl
  | cons first rest ih => rw [among, ih, List.cons_append, renderNodes, render]

/-- A table of contents does not ask what pages begin with. -/
theorem renderPlain_contents (contents : TableOfContents) :
    renderPlain o contents.toNode = render o contents.toNode :=
  renderNode_congr (readsAlike_contents contents)

/-- A tree is written as the steps around a part say. -/
theorem Part.render_eq (h : Part o tree node steps) : render o tree = steps (render o node) := by
  cases h with
  | group | quote | element | link | paragraph | heading | collapsible | page =>
    simp only [render, renderNode, ← among_render]
  | emphasis style before node after =>
    have hempty : (before ++ node :: after).isEmpty = false := by simp
    simp only [render, renderNode, ← among_render, hempty]
  | richCode language before node after h => simp only [render, renderNode, ← among_render, if_pos h]
  | item | header | cell =>
    simp only [render, renderNode, renderParts_eq_map, renderRows_eq_map, List.map_append,
      List.map_cons]
    rfl
  | summary => rfl
  | contents metadata children h =>
    rw [← renderPlain_contents]
    simp only [render, renderNode, pageHead, h, Bool.false_eq_true, if_false, bind_assoc]

theorem framed_render (node : Node) : Framed (render o node) :=
  framed_renderNode framed_pageHead node

theorem carries_among {holds : Modes → Prop} {out : Output} (h : holds out.modes)
    (afterList : Bool) : Carries (among o node after afterList before) out holds := by
  have hseparate (afterList isList : Bool) := framed_separateLists afterList isList
  induction before generalizing afterList out with
  | nil =>
    exact (hseparate _ _).carries fun _ mid hmid => (carries_body (hmid ▸ h)).after _
  | cons first rest ih =>
    refine (hseparate _ _).carries fun _ u hu => (framed_render first).carries fun _ v hv => ih ?_ _
    rwa [hv, hu]

/-- Whether an HTML block is open around the parts of a node. -/
def blockInside (node : Node) (out : Output) : Bool :=
  node.hasBlockTags || (out.modes.htmlBlock && !startsBlock node out)

/-- The modes are those before but for lists and the flag of an open HTML block, if a line may end
and the text is not preformatted. -/
def Follows (htmlBlock : Bool) (before modes : Modes) : Prop :=
  modes.constrained = false → modes.preformatted = false →
    ∃ listItem, modes = { before with htmlBlock := htmlBlock, listItem := listItem }

theorem follows_of_constrained {htmlBlock : Bool} {start modes : Modes} (h : modes.constrained) :
    Follows htmlBlock start modes := by
  intro hline
  rw [h] at hline
  cases hline

theorem follows_of_preformatted {htmlBlock : Bool} {start modes : Modes} (h : modes.preformatted) :
    Follows htmlBlock start modes := by
  intro _ hpre
  rw [h] at hpre
  cases hpre

theorem follows_self (modes : Modes) : Follows modes.htmlBlock modes modes :=
  fun _ _ => ⟨modes.listItem, rfl⟩

theorem follows_blockModes (out : Output) :
    Follows (out.modes.htmlBlock && out.fresh) out.modes out.blockModes := by
  intro _ _
  refine ⟨out.modes.listItem, ?_⟩
  unfold Output.blockModes
  split
  · next hfresh => rw [hfresh, Bool.and_true]
  · next hfresh => rw [Bool.not_eq_true] at hfresh; rw [hfresh, Bool.and_false]; rfl

theorem framed_renders (nodes : List Node) : ∀ steps ∈ nodes.map (render o), Framed steps :=
  List.forall_mem_map.2 fun n _ => framed_render n

theorem framed_rows (rows : List (List Node)) :
    ∀ row ∈ rows.map (·.map (render o)), ∀ steps ∈ row, Framed steps :=
  List.forall_mem_map.2 fun row _ => framed_renders row

/-- What holds of the modes that a step down a tree may set, or of all in which a line may not end,
holds of those in which the part is written. -/
theorem Part.carries_of {holds : Modes → Prop} (h : Part o tree node steps) (out : Output)
    (hline : ∀ modes : Modes, modes.constrained → holds modes)
    (hself : tree.hasBlockTags = false → startsBlock tree out = false → holds out.modes)
    (hblock : tree.hasBlockTags = false → startsBlock tree out = !out.fresh → holds out.blockModes)
    (htags : tree.hasBlockTags → holds (out.modes.set .htmlBlock true))
    (hlist : tree.hasBlockTags = false → startsBlock tree out →
      holds ((out.modes.set .htmlBlock false).set .listItem true))
    (hpre : holds ((out.blockModes.set .htmlBlock true).set .preformatted true)) :
    Carries steps out holds := by
  have hamong {before after : List Node} {node : Node} (mid : Output) (h : holds mid.modes) :
      Carries (among o node after false before) mid holds := carries_among h false
  cases h with
  | group before node after => exact carries_among (hself rfl rfl) false
  | quote before node after => exact carries_quote hline hamong (hblock rfl rfl)
  | element tag attributes before node after =>
    refine carries_element hline hamong (fun hclass => hself ?_ ?_)
      (fun hclass hbare => hblock ?_ ?_) fun hclass hbare => htags ?_
    · simp [Node.hasBlockTags, hclass]
    · simp [startsBlock, hclass]
    · rw [Node.hasBlockTags, hbare, Bool.not_true, Bool.and_false]
    · simp only [startsBlock, hclass, hbare, beq_self_eq_true, Bool.true_and]
    · rw [Bool.not_eq_true] at hbare
      simp only [Node.hasBlockTags, hclass, hbare, beq_self_eq_true, Bool.not_false, Bool.and_self]
  | emphasis style before node after => exact carries_emphasis hamong (hself rfl rfl) style false
  | richCode language before node after h => exact carries_linkedCode hline hamong hpre language
  | link target destination title before node after =>
    exact carries_link hamong (hself rfl rfl) _ title
  | paragraph before node after =>
    have hclass : Html.TagClass.ofTag "p" = .block := by decide +kernel
    have hbare : Dict.isEmpty (∅ : Dict String) && Html.lowerAscii "p" == "p" := by decide +kernel
    refine carries_element hline hamong (fun h => ?_) (fun _ _ => hblock rfl rfl)
      fun _ h => absurd hbare h
    rw [hclass] at h
    cases h
  | heading level anchor before node after => exact carries_heading hline hamong level anchor
  | item style before node after =>
    exact carries_list hline (framed_renders before) (hlist rfl rfl) style
  | header before node after rows => exact carries_header hline (framed_renders before)
  | cell header above before node after below =>
    exact carries_cell hline (framed_renders before) (framed_renders header) (framed_rows above)
  | summary node children => exact carries_summary hline fun mid h => carries_body h
  | collapsible summary before node after =>
    exact carries_collapsible hline hamong (framed_render summary) (hblock rfl rfl)
  | page metadata before node after =>
    refine (framed_pageHead metadata).carries fun _ mid hmid => (hamong mid ?_).after _
    rw [hmid]
    exact hself rfl rfl
  | contents metadata children h =>
    refine framed_notice.carries fun _ u hu => ?_
    refine ((framed_writeEscaped _).heading 1 none).carries fun _ v hv => (carries_body ?_).after _
    rw [hv, hu]
    exact hself rfl rfl

/-- What one step down a tree does to the modes. -/
theorem Part.carries (h : Part o tree node steps) (out : Output) :
    Carries steps out (Follows (blockInside tree out) out.modes) := by
  refine h.carries_of out (fun _ => follows_of_constrained) (fun htags hstarts => ?_)
    (fun htags hstarts => ?_) (fun htags => ?_) (fun htags hstarts => ?_) (follows_of_preformatted rfl)
  -- A tree that is neither tagged nor a block of its own leaves the flag alone.
  · simpa [blockInside, htags, hstarts] using follows_self out.modes
  · simpa [blockInside, htags, hstarts] using follows_blockModes out
  · rw [blockInside, htags, Bool.true_or]
    exact fun _ _ => ⟨out.modes.listItem, rfl⟩
  · rw [blockInside, htags, hstarts, Bool.not_true, Bool.and_false, Bool.or_false]
    exact fun _ _ => ⟨true, rfl⟩

/-- When the first node is written to its output, the second is written as a part of it to its
own. -/
def LeadsTo (o : Options) (v w : Node × Output) : Prop :=
  ∃ steps, Part o v.1 w.1 steps ∧ RunsAt steps v.2 w.2

/-- A tree that is written, the nodes on the way down to a node in it and that node, each with the
output as it is when the node is written. -/
inductive Path (o : Options) : Node × Output → List (Node × Output) → Node × Output → Prop
  | nil (v) : Path o v [] v
  | cons {v w last} {path} (h : LeadsTo o v w) (hrest : Path o w path last) :
    Path o v (v :: path) last

/-- A node at any depth of a tree, with the steps around it. -/
inductive Within (o : Options) : Node → Node → (Render Unit → Render Unit) → Prop
  | refl (a : Node) : Within o a a id
  | step {a b c : Node} {outer inner : Render Unit → Render Unit} (h : Part o a b outer)
    (hrest : Within o b c inner) : Within o a c (outer ∘ inner)

theorem Within.render_eq (h : Within o tree node steps) :
    render o tree = steps (render o node) := by
  induction h with
  | refl => rfl
  | step h _ ih => rw [h.render_eq, ih, Function.comp_apply]

theorem Within.carries (h : Within o tree node steps) (out : Output) :
    Carries steps out fun _ => True := by
  induction h generalizing out with
  | refl => exact carries_body trivial
  | step h _ ih => exact (h.carries out).comp fun u _ => ih u

/-- Every node of a tree that does not stand in code is written as a part of the tree. -/
theorem exists_within (hm : node ∈ tree.nodes)
    (hcode : ∀ code ∈ tree.nodes, code.isCode → node ∉ code.nodes) :
    ∃ steps, Within o tree node steps := by
  have hbelow {whole : Node} {parts : List Node}
      (hpart : ∀ before n after, parts = before ++ n :: after → ∃ outer, Part o whole n outer)
      (ih : ∀ n ∈ parts, node ∈ n.nodes →
        (∀ code ∈ n.nodes, code.isCode → node ∉ code.nodes) → ∃ steps, Within o n node steps)
      (hm : node ∈ Node.nodesOf parts)
      (hcode : ∀ n ∈ parts, ∀ code ∈ n.nodes, code.isCode → node ∉ code.nodes) :
      ∃ steps, Within o whole node steps := by
    obtain ⟨n, hn, hmem⟩ := Node.mem_nodesOf.1 hm
    obtain ⟨inner, hinner⟩ := ih n hn hmem (hcode n hn)
    obtain ⟨before, after, heq⟩ := List.append_of_mem hn
    obtain ⟨outer, houter⟩ := hpart before n after heq
    exact ⟨outer ∘ inner, .step houter hinner⟩
  -- `List.forall_mem_cons` has to split `hcode` before `List.mem_cons` can open it.
  induction tree with
    (simp only [Node.nodes, List.forall_mem_cons, List.forall_mem_append,
      Node.forall_mem_nodesOf, Node.forall_mem_nodesOfRows] at hcode
     simp only [Node.nodes, List.mem_cons, List.mem_append, List.not_mem_nil, or_false] at hm)
  | text | rule | comment | image | code | notice => exact hm ▸ ⟨id, .refl _⟩
  | codeSpan | richCode => exact absurd (List.mem_cons.2 (hm.imp_right id)) (hcode.1 rfl)
  | group children ih =>
    obtain rfl | hm := hm
    · exact ⟨id, .refl _⟩
    · exact hbelow (by rintro _ _ _ rfl; exact ⟨_, .group ..⟩) ih hm hcode.2
  | quote children ih =>
    obtain rfl | hm := hm
    · exact ⟨id, .refl _⟩
    · exact hbelow (by rintro _ _ _ rfl; exact ⟨_, .quote ..⟩) ih hm hcode.2
  | element tag attributes children ih =>
    obtain rfl | hm := hm
    · exact ⟨id, .refl _⟩
    · exact hbelow (by rintro _ _ _ rfl; exact ⟨_, .element ..⟩) ih hm hcode.2
  | emphasis style children ih =>
    obtain rfl | hm := hm
    · exact ⟨id, .refl _⟩
    · exact hbelow (by rintro _ _ _ rfl; exact ⟨_, .emphasis ..⟩) ih hm hcode.2
  | link target destination title children ih =>
    obtain rfl | hm := hm
    · exact ⟨id, .refl _⟩
    · exact hbelow (by rintro _ _ _ rfl; exact ⟨_, .link ..⟩) ih hm hcode.2
  | paragraph children ih =>
    obtain rfl | hm := hm
    · exact ⟨id, .refl _⟩
    · exact hbelow (by rintro _ _ _ rfl; exact ⟨_, .paragraph ..⟩) ih hm hcode.2
  | heading level anchor children ih =>
    obtain rfl | hm := hm
    · exact ⟨id, .refl _⟩
    · exact hbelow (by rintro _ _ _ rfl; exact ⟨_, .heading ..⟩) ih hm hcode.2
  | list style items ih =>
    obtain rfl | hm := hm
    · exact ⟨id, .refl _⟩
    · exact hbelow (by rintro _ _ _ rfl; exact ⟨_, .item ..⟩) ih hm hcode.2
  | page metadata children ih =>
    obtain rfl | hm := hm
    · exact ⟨id, .refl _⟩
    · exact hbelow (by rintro _ _ _ rfl; exact ⟨_, .page ..⟩) ih hm hcode.2
  | table header rows ihheader ihrows =>
    obtain rfl | hm | hm := hm
    · exact ⟨id, .refl _⟩
    · exact hbelow (by rintro _ _ _ rfl; exact ⟨_, .header ..⟩) ihheader hm hcode.2.1
    · obtain ⟨row, hrow, hmrow⟩ := Node.mem_nodesOfRows.1 hm
      obtain ⟨above, below, rfl⟩ := List.append_of_mem hrow
      exact hbelow (by rintro _ _ _ rfl; exact ⟨_, .cell ..⟩) (ihrows row hrow) hmrow
        (hcode.2.2 row hrow)
  | collapsible summary children ihsummary ih =>
    obtain rfl | hm | hm := hm
    · exact ⟨id, .refl _⟩
    · obtain ⟨inner, hinner⟩ := ihsummary hm hcode.2.1
      exact ⟨_, .step (.summary ..) hinner⟩
    · exact hbelow (by rintro _ _ _ rfl; exact ⟨_, .collapsible ..⟩) ih hm hcode.2.2

/-- The paths down a tree lead to the nodes that are written when the tree is. -/
theorem exists_path_iff {out st : Output} : (∃ path, Path o (tree, out) path (node, st)) ↔
    ∃ steps, Within o tree node steps ∧ RunsAt steps out st := by
  constructor
  · rintro ⟨path, hpath⟩
    generalize hv : (tree, out) = v at hpath
    generalize hlast : (node, st) = last at hpath
    induction hpath generalizing tree out with
    | nil v =>
      cases hv.trans hlast.symm
      exact ⟨id, .refl _, fun _ => rfl, fun _ _ => rfl⟩
    | cons h _ ih =>
      obtain ⟨steps, hpart, hruns⟩ := h
      obtain ⟨inner, hwithin, hinner⟩ := ih rfl hlast
      cases hv
      exact ⟨steps ∘ inner, .step hpart hwithin, hruns.comp hinner⟩
  · rintro ⟨steps, hwithin, hruns⟩
    induction hwithin generalizing out with
    | refl node =>
      have hst : out = st := RunsAt.unique ⟨fun _ => rfl, fun _ _ => rfl⟩ hruns
      exact ⟨[], hst ▸ .nil _⟩
    | step h hrest ih =>
      obtain ⟨s, hs, hinner⟩ := RunsAt.of_comp (h.carries out) hrest.carries hruns
      obtain ⟨path, hpath⟩ := ih hinner
      exact ⟨_ :: path, .cons ⟨_, h, hs⟩ hpath⟩

/-- Whether an HTML block is open behind a step down from a node, given whether one is before. -/
def stepDown (isOpen : Bool) (v : Node × Output) : Bool :=
  v.1.hasBlockTags || (isOpen && !startsBlock v.1 v.2)

/-- What the nodes on the way do to the modes. -/
theorem Path.modes {v last : Node × Output} {path : List (Node × Output)} (h : Path o v path last)
    (hline : last.2.constrained = false) (hpre : last.2.modes.preformatted = false) :
    ∃ listItem, last.2.modes = { v.2.modes with
      htmlBlock := path.foldl stepDown v.2.modes.htmlBlock
      listItem := listItem } := by
  induction h with
  | nil v => exact ⟨v.2.modes.listItem, rfl⟩
  | @cons v w last path h _ ih =>
    obtain ⟨steps, hpart, hruns⟩ := h
    obtain ⟨listItem, hlast⟩ := ih hline hpre
    have hfollows := (hpart.carries v.2).of_runsAt hruns
    rw [Output.constrained, hlast] at hline
    rw [hlast] at hpre
    obtain ⟨_, hw⟩ := hfollows hline hpre
    refine ⟨listItem, ?_⟩
    rw [hlast, hw]
    rfl

/-- No HTML block is open at the end of a path if and only if a block is started behind every tag
on it, and one if an HTML block has been open before. -/
theorem foldl_stepDown {isOpen : Bool} {path : List (Node × Output)} :
    path.foldl stepDown isOpen = false ↔
      (∀ outer v inner, path = outer ++ v :: inner → v.1.hasBlockTags →
        ∃ w ∈ inner, startsBlock w.1 w.2) ∧ (isOpen → ∃ w ∈ path, startsBlock w.1 w.2) := by
  -- From the outside in, as the fold goes, so the flag before the rest of the path varies.
  induction path generalizing isOpen with
  | nil => simp
  | cons v rest ih =>
    have hsplit : (∀ outer u inner, v :: rest = outer ++ u :: inner → u.1.hasBlockTags →
          ∃ w ∈ inner, startsBlock w.1 w.2) ↔
        (v.1.hasBlockTags → ∃ w ∈ rest, startsBlock w.1 w.2) ∧
          ∀ outer u inner, rest = outer ++ u :: inner → u.1.hasBlockTags →
            ∃ w ∈ inner, startsBlock w.1 w.2 := by
      constructor
      · intro h
        exact ⟨h [] v rest rfl, fun outer u inner heq => h (v :: outer) u inner (by rw [heq]; rfl)⟩
      · rintro ⟨hfirst, hlater⟩ outer u inner heq htags
        cases outer with
        | nil =>
          obtain ⟨rfl, rfl⟩ := List.cons.inj heq
          exact hfirst htags
        | cons x outer =>
          obtain ⟨-, hrest⟩ := List.cons.inj heq
          exact hlater outer u inner hrest htags
    have hstep : (stepDown isOpen v → ∃ w ∈ rest, startsBlock w.1 w.2) ↔
        (v.1.hasBlockTags → ∃ w ∈ rest, startsBlock w.1 w.2) ∧
          (isOpen → ∃ w ∈ v :: rest, startsBlock w.1 w.2) := by
      rw [List.exists_mem_cons_iff]
      cases htags : v.1.hasBlockTags <;> cases isOpen <;> cases hstarts : startsBlock v.1 v.2 <;>
        simp [stepDown, htags, hstarts]
    rw [List.foldl_cons, ih, hsplit, hstep]
    tauto

/-- Where text is not preformatted, no HTML block is open at the end of a path if and only if a block
is started behind every tag of a block on it. -/
theorem Path.htmlBlock_iff {path : List (Node × Output)} {st : Output}
    (hpath : Path o (tree, {}) path (node, st)) (hline : st.constrained = false)
    (hpre : st.modes.preformatted = false) :
    st.modes.htmlBlock = false ↔ ∀ outer v inner, path = outer ++ v :: inner → v.1.hasBlockTags →
      ∃ w ∈ inner, startsBlock w.1 w.2 := by
  obtain ⟨_, hmodes⟩ := hpath.modes hline hpre
  have hopen : st.modes.htmlBlock = path.foldl stepDown false := congrArg Modes.htmlBlock hmodes
  rw [hopen, foldl_stepDown]
  simp

/-- Every character that means something to Markdown gets a backslash. -/
def Output.EscapesMarkdown (out : Output) : Prop :=
  ∀ c ∈ ['*', '_', '[', ']', '\\'], ∀ blank, out.escapeContext.escapeChar blank c = ['\\', c]

theorem escapesMarkdown_iff {out : Output} : out.EscapesMarkdown ↔ out.escapeContext.isMarkdown := by
  constructor
  · intro h
    have hstar := h '*' (by decide) false
    by_contra hm
    simp [EscapeContext.escapeChar, EscapeContext.entity?, hm] at hstar
  · intro hm c hc blank
    have hentity : EscapeContext.entity? c = none ∧ c ≠ '|' ∧ c ≠ '\n' ∧
        c ∈ EscapeContext.markdownChars := by
      simp only [List.mem_cons, List.not_mem_nil, or_false] at hc
      rcases hc with rfl | rfl | rfl | rfl | rfl <;> decide
    obtain ⟨hnone, hbar, hbreak, hchars⟩ := hentity
    simp [EscapeContext.escapeChar, hnone, hbar, hbreak, hchars, hm]

/-- A text on a line that may end is escaped if and only if a block is started around it behind
every tag of a block that is open around it. -/
theorem text_escaped_iff {path : List (Node × Output)} {s : String} {st : Output}
    (hpath : Path o (tree, {}) path (.text s, st)) (hline : st.constrained = false)
    (hpre : st.modes.preformatted = false) :
    st.EscapesMarkdown ↔ ∀ outer v inner, path = outer ++ v :: inner → v.1.hasBlockTags →
      ∃ w ∈ inner, startsBlock w.1 w.2 := by
  obtain ⟨listItem, hmodes⟩ := hpath.modes hline hpre
  have hst : st.modes = { htmlBlock := path.foldl stepDown false, listItem := listItem } := hmodes
  have hmarkdown : st.escapeContext.isMarkdown = !path.foldl stepDown false := by
    simp [Output.escapeContext, EscapeContext.isMarkdown, hst]
  rw [escapesMarkdown_iff, hmarkdown, Bool.not_eq_true', foldl_stepDown]
  simp

/-- Between the tags of a block, a paragraph and a text. -/
def openDiv : Node := .element "div" ∅ [.paragraph [.text "x"], .text " *a*"]

/-- The output behind the paragraph. -/
def behindParagraph : Output where
  buffer := { text := "\n<div>\n\nx", content := some "x", afterBlank := true }
  modes := { htmlBlock := true }

/-- Behind the blank line that a paragraph begins with, a text is still not escaped. -/
theorem text_escaped_iff_openDiv :
    Path {} (openDiv, {}) [(openDiv, {})] (.text " *a*", behindParagraph) ∧
      behindParagraph.constrained = false ∧ behindParagraph.modes.preformatted = false ∧
      ¬ behindParagraph.EscapesMarkdown := by
  have hpart : Part {} openDiv (.text " *a*") _ :=
    .element "div" ∅ [.paragraph [.text "x"]] (.text " *a*") []
  have hruns := (hpart.carries {}).runsAt_of_probe (s := behindParagraph) (by decide +kernel)
    (by decide +kernel)
  have hpath : Path {} (openDiv, {}) [(openDiv, {})] (.text " *a*", behindParagraph) :=
    .cons ⟨_, hpart, hruns⟩ (.nil _)
  refine ⟨hpath, rfl, rfl, fun hescapes => ?_⟩
  obtain ⟨_, hmem, -⟩ := (text_escaped_iff hpath rfl rfl).1 hescapes [] _ [] rfl (by decide +kernel)
  cases hmem

theorem renderRaw_openDiv : renderRaw {} openDiv = .ok "\n<div>\n\nx *a*\n\n</div>\n" := by
  decide +kernel

end Markdown
end DocTree
