import DocTree.Proofs.FencedCode
import DocTree.Proofs.Spelling

/-! The text of words and runs of emphasis. Outside of HTML and code it is their spelling, so paragraphs
of them are told apart by their texts as far as spellings are. -/
namespace DocTree

namespace Node

/-- A word of letters, or a run of emphasis around something. -/
def isMarked : Node → Bool
  | text s => !s.isEmpty && s.toList.all Char.isAlpha
  | emphasis _ children => !children.isEmpty
  | _ => false

/-- Two runs of italics, or two of bold text. -/
def sameStars : Node → Node → Bool
  | emphasis style _, node => style != .strikethrough && node.hasStyle style
  | _, _ => false

mutual

/-- No run of emphasis in the node stands in one of its style, as far as that is told by `around`, or
right beside another run of stars of its style, and no italics stand around nothing but bold text. -/
def standsApart (around : Around) : Node → Bool
  | emphasis style children =>
    !around.holds style && !(style == .italics && isLoneBold children)
      && standApart (around.inside style) children
  | _ => true

def standApart (around : Around) : List Node → Bool
  | [] => true
  | node :: rest =>
    node.standsApart around && !rest.head?.any node.sameStars && standApart around rest

end

/-- The children of a simplified paragraph of words and runs of emphasis. -/
structure IsMarkedText (children : List Node) : Prop where
  normal : (paragraph children).normal = paragraph children
  marked : ∀ m ∈ nodesOf children, m.isMarked

section Spelled
variable {around : Around} {nodes children rest : List Node} {node : Node}

/-- The node in front of others that are spelled is spelled with them. -/
def Continues (node : Node) : Prop :=
  ∀ (around : Around) (rest : List Node), node.normal = node → (∀ m ∈ node.nodes, m.isMarked) →
    node.standsApart around → (∀ next ∈ rest.head?, Apart node next ∧ ¬ node.sameStars next) →
    Spelled around rest → Spelled around (node :: rest)

theorem spelled_of_continues (h : ∀ n ∈ nodes, Continues n) (hchain : nodes.IsChain Apart)
    (hnormal : ∀ n ∈ nodes, n.normal = n) (hmarked : ∀ n ∈ nodes, ∀ m ∈ n.nodes, m.isMarked)
    (hapart : standApart around nodes) : Spelled around nodes := by
  induction nodes with
  | nil => exact .nil
  | cons node rest ih =>
    obtain ⟨hnode, hrest⟩ := List.forall_mem_cons.1 h
    obtain ⟨hnext, hchain⟩ := List.isChain_cons.1 hchain
    obtain ⟨hsettled, hnormal⟩ := List.forall_mem_cons.1 hnormal
    obtain ⟨hword, hmarked⟩ := List.forall_mem_cons.1 hmarked
    simp only [standApart, Bool.and_eq_true, Bool.not_eq_true'] at hapart
    obtain ⟨⟨hfirst, hstars⟩, hothers⟩ := hapart
    refine hnode around rest hsettled hword hfirst (fun next hmem => ⟨hnext next hmem, fun hsame => ?_⟩)
      (ih hrest hchain hnormal hmarked hothers)
    rw [Option.mem_def.1 hmem, Option.any_some, hsame] at hstars
    cases hstars

/-- What a normal form says about the children of a node. -/
theorem normal_children (h : joined (normals children) = children) :
    children.IsChain Apart ∧ ∀ n ∈ children, n.normal = n := by
  obtain ⟨hmembers, -⟩ := settled_joined fun n (_ : n ∈ children) => settled_normal n
  rw [h] at hmembers
  exact ⟨h ▸ isChain_joined _, fun n hn => (hmembers n hn).1⟩

theorem continues (node : Node) : Continues node := by
  induction node with
  | text s =>
    intro around rest _ hmarked _ hnext hrest
    have hword := hmarked _ (mem_nodes_self _)
    simp only [isMarked, Bool.and_eq_true, Bool.not_eq_true', String.isEmpty_eq_false_iff,
      List.all_eq_true] at hword
    refine .text (fun hnil => hword.1 (String.toList_inj.1 hnil)) hword.2 (fun next hmem => ?_) hrest
    exact fun htext => (hnext next hmem).1 ⟨rfl, htext⟩
  | emphasis style children ih =>
    intro around rest hnormal hmarked hapart hnext hrest
    have hne := hmarked _ (mem_nodes_self _)
    simp only [isMarked, Bool.not_eq_true', List.isEmpty_eq_false_iff] at hne
    simp only [standsApart, Bool.and_eq_true, Bool.not_eq_true', Bool.and_eq_false_iff] at hapart
    obtain ⟨⟨hstyle, hlone⟩, hinside⟩ := hapart
    rw [nodes, List.forall_mem_cons, forall_mem_nodesOf] at hmarked
    obtain ⟨hchain, hsettled⟩ := normal_children (emphasis.inj hnormal).2
    refine .emphasis (by rw [hstyle]; decide) hne ?_ (fun hstars next hmem hsame => ?_)
      (spelled_of_continues ih hchain hsettled hmarked.2 hinside) hrest
    · rintro ⟨rfl, hbold⟩
      simp [hbold] at hlone
    · exact (hnext next hmem).2 (by simp [sameStars, hstars, hsame])
  | _ => exact fun _ _ _ hmarked => absurd (hmarked _ (mem_nodes_self _)) Bool.false_ne_true

theorem IsMarkedText.spelled (h : IsMarkedText children) (hapart : standApart {} children) :
    Spelled {} children := by
  obtain ⟨hchain, hnormal⟩ := normal_children (paragraph.inj h.normal)
  exact spelled_of_continues (fun n _ => continues n) hchain hnormal
    (forall_mem_nodesOf.1 h.marked) hapart

end Spelled
end Node

namespace Markdown
open Text Render

/-- A letter is written as it is wherever it lands. -/
theorem EscapeContext.escapeFrom_word (ctx : EscapeContext) {cs : List Char}
    (h : ∀ c ∈ cs, c.isAlpha) (blank : Bool) : ctx.escapeFrom blank cs = cs := by
  have hletter {c : Char} (hc : c.isAlpha) (blank : Bool) : ctx.escapeChar blank c = [c] := by
    have hsigns : ('|' :: '\n' :: '#' :: markdownChars).all fun d => !d.isAlpha := by decide
    have hother : c ∉ '|' :: '\n' :: '#' :: markdownChars := by
      intro hmem
      have hsign := List.all_eq_true.1 hsigns c hmem
      rw [hc] at hsign
      cases hsign
    have hentity : entity? c = none := by
      unfold entity?
      split <;> first | rfl | exact absurd hc (by decide)
    simp only [List.mem_cons, not_or] at hother
    simp [escapeChar, hentity, hother]
  induction cs generalizing blank with
  | nil => rfl
  | cons c rest ih =>
    obtain ⟨hc, hrest⟩ := List.forall_mem_cons.1 h
    rw [escapeFrom, hletter hc, ih hrest, List.singleton_append]

namespace Render
variable {cs ds : List Char} {steps next : Render Unit}

/-- Outside of HTML and Markdown code the steps write the given text. -/
def Spells (cs : List Char) (steps : Render Unit) : Prop :=
  ∀ out : Output, out.modes.markdownCode = false → out.modes.htmlBlock = false →
    steps out = (.ok (), out.wrote (.ofList cs))

theorem spells_pure : Spells [] (pure ()) := by
  intro out _ _
  rw [String.ofList_nil, Output.wrote_empty]
  rfl

theorem spells_look {α : Type} {view : Output → α} {next : α → Render Unit}
    (h : ∀ out : Output, out.modes.markdownCode = false → out.modes.htmlBlock = false →
      Spells cs (next (view out))) : Spells cs (look view >>= next) :=
  fun out hcode hblock => h out hcode hblock out hcode hblock

theorem Spells.then (h : Spells cs steps) (hnext : Spells ds next) :
    Spells (cs ++ ds) (do steps; next) := by
  intro out hcode hblock
  rw [bind_of_ok (h out hcode hblock), String.ofList_append, ← Output.wrote_wrote]
  exact hnext _ hcode hblock

theorem spells_write {s : String} (h : OneLine s) : Spells s.toList (write s) := by
  intro out _ _
  rw [write_of_fits fun _ => h, String.ofList_toList]

theorem spells_word {s : String} (h : ∀ c ∈ s.toList, c.isAlpha) : Spells s.toList (writeEscaped s) := by
  have hline : OneLine s := fun hbreak => absurd (h _ hbreak) (by decide)
  intro out hcode hblock
  have hsame : out.escapeContext.escape s = s := by
    rw [EscapeContext.escape, EscapeContext.escapeFrom_word _ h, String.ofList_toList]
  have hwrite : writeEscaped s out = write s out :=
    congrArg (fun text => write text out) hsame
  rw [hwrite, spells_write hline out hcode hblock]

theorem Spells.emphasis (h : Spells cs steps) (style : Emphasis) :
    Spells ((delimiter style).toList ++ (cs ++ (delimiter style).toList))
      (emphasis style false steps) := by
  have hline : OneLine (delimiter style) := by
    cases style <;> decide
  refine spells_look fun out hcode _ => ?_
  have hoff : ¬ (false || out.modes.get .markdownCode) = true := by
    simp [Modes.get, hcode]
  rw [if_neg hoff]
  refine spells_look fun out _ hblock => ?_
  rw [hblock, Bool.false_and, if_neg Bool.false_ne_true]
  exact (spells_write hline).then (h.then (spells_write hline))

/-- Only lists are kept apart. -/
theorem spells_separateLists (afterList : Bool) : Spells [] (separateLists afterList false) := by
  refine spells_look fun out _ _ => ?_
  rw [Bool.and_false, Bool.false_and, if_neg Bool.false_ne_true]
  exact spells_pure

end Render

section Tree
variable {o o' : Options} {head : PageMetadata → Render Unit} {node : Node}
  {children others nodes : List Node}

theorem spells_renderNodes (h : ∀ n ∈ nodes, Spells n.spelling (renderNode o head n) ∧ ¬ n.isList)
    (afterList : Bool) : Spells (Node.spellings nodes) (renderNodes o head afterList nodes) := by
  induction nodes generalizing afterList with
  | nil => exact spells_pure
  | cons node rest ih =>
    obtain ⟨⟨hnode, hlist⟩, hrest⟩ := List.forall_mem_cons.1 h
    have hseparate : Spells [] (separateLists afterList node.isList) :=
      Bool.eq_false_iff.2 hlist ▸ spells_separateLists afterList
    exact hseparate.then (hnode.then (ih hrest _))

theorem not_isList_of_isMarked (h : node.isMarked) : ¬ node.isList := by
  cases node <;> first | exact Bool.false_ne_true | cases h

theorem spells_renderNode (h : ∀ m ∈ node.nodes, m.isMarked) :
    Spells node.spelling (renderNode o head node) := by
  induction node with
  | text s =>
    have hword := h _ (Node.mem_nodes_self _)
    simp only [Node.isMarked, Bool.and_eq_true, List.all_eq_true] at hword
    exact spells_word hword.2
  | emphasis style children ih =>
    have hne := h _ (Node.mem_nodes_self _)
    simp only [Node.isMarked, Bool.not_eq_true'] at hne
    rw [Node.nodes, List.forall_mem_cons, Node.forall_mem_nodesOf] at h
    have hchildren : Spells (Node.spellings children) (renderNodes o head false children) :=
      spells_renderNodes (fun n hn => ⟨ih n hn (h.2 n hn),
        not_isList_of_isMarked (h.2 n hn n (Node.mem_nodes_self n))⟩) false
    rw [renderNode, hne]
    exact hchildren.emphasis style
  | _ => exact absurd (h _ (Node.mem_nodes_self _)) Bool.false_ne_true

/-- A paragraph of words and runs of emphasis is their spelling behind a line break. -/
theorem toMarkdown_marked (h : Node.IsMarkedText children) :
    toMarkdown o (.paragraph children) = .ok ("\n" ++ .ofList (Node.spellings children)) := by
  have hmarked := Node.forall_mem_nodesOf.1 h.marked
  have hbody : Spells (Node.spellings children) (renderNodes o (pageHead o) false children) :=
    spells_renderNodes (fun n hn => ⟨spells_renderNode (hmarked n hn),
      not_isList_of_isMarked (hmarked n hn n (Node.mem_nodes_self n))⟩) false
  have hframed : Framed (renderNodes o (pageHead o) false children) :=
    framed_renderNodes (fun n _ => framed_render n) false
  have hclass : Html.TagClass.ofTag "p" = .block := by decide +kernel
  have hname : Html.lowerAscii "p" = "p" := by decide +kernel
  have hbreak : render o (.paragraph children) {} =
      paragraphBreak (renderNodes o (pageHead o) false children) {} := by
    rw [render, renderNode, element, hclass]
    change (if (!({} : Output).constrained && _ && Html.lowerAscii "p" == "p") = true then _
      else _ : Render Unit) {} = _
    rw [hname]
    rfl
  rw [hframed.paragraphBreak_apply (by decide), block_fresh, hbody _ rfl rfl] at hbreak
  rw [toMarkdown, h.normal, renderRaw, toText, hbreak]
  exact congrArg Except.ok (Layout.Buffer.write_text rfl _)

/-- Two simplified paragraphs of words and runs of emphasis that stand apart have texts, and the same
text only if they are the same. -/
theorem toMarkdown_inj (h : Node.IsMarkedText children) (h' : Node.IsMarkedText others)
    (hapart : Node.standApart {} children) (hapart' : Node.standApart {} others) :
    (∃ text, toMarkdown o (.paragraph children) = .ok text) ∧
      (toMarkdown o (.paragraph children) = toMarkdown o' (.paragraph others) →
        Node.paragraph children = .paragraph others) := by
  refine ⟨⟨_, toMarkdown_marked h⟩, fun heq => ?_⟩
  rw [toMarkdown_marked h, toMarkdown_marked h'] at heq
  have hspelled : Node.spellings children = Node.spellings others := by
    have hlists := congrArg String.toList (Except.ok.inj heq)
    simpa using hlists
  have hunique := Node.unique (Node.spellings children) {} children others [] []
    (h.spelled hapart) (h'.spelled hapart') .done .done (List.append_nil _)
    ((List.append_nil _).trans hspelled.symm)
  rw [hunique.1]

section Examples

def italic (children : List Node) : Node := .emphasis .italics children

def bold (children : List Node) : Node := .emphasis .bold children

def struck (children : List Node) : Node := .emphasis .strikethrough children

/-- Bold text that begins together with the italics in it and ends behind them. -/
def boldAround : List Node :=
  [bold [italic [.text "a"], .text "b"], italic [.text "c", struck [italic [.text "d"]], struck [.text "e"]]]

/-- Italics that begin together with the bold text in them and end behind it. -/
def italicAround : List Node :=
  [italic [bold [.text "a"], .text "b"], bold [.text "c", struck [italic [.text "d"]], struck [.text "e"]]]

theorem toMarkdown_inj_around :
    (Node.IsMarkedText boldAround ∧ Node.standApart {} boldAround) ∧
      (Node.IsMarkedText italicAround ∧ Node.standApart {} italicAround) ∧
      toMarkdown {} (.paragraph boldAround) ≠ toMarkdown {} (.paragraph italicAround) := by
  have hbold : Node.IsMarkedText boldAround := ⟨rfl, by decide +kernel⟩
  have hitalic : Node.IsMarkedText italicAround := ⟨rfl, by decide +kernel⟩
  have hapart : Node.standApart {} boldAround := by decide +kernel
  have hapart' : Node.standApart {} italicAround := by decide +kernel
  refine ⟨⟨hbold, hapart⟩, ⟨hitalic, hapart'⟩, fun heq => ?_⟩
  have hsame := (toMarkdown_inj hbold hitalic hapart hapart').2 heq
  simp [boldAround, italicAround, bold, italic] at hsame

/-- Two paragraphs of words and runs of emphasis that are not the same have the same text. -/
def Confused (nodes others : List Node) : Prop :=
  (Node.IsMarkedText nodes ∧ Node.IsMarkedText others) ∧
    toMarkdown {} (.paragraph nodes) = toMarkdown {} (.paragraph others) ∧
    Node.paragraph nodes ≠ .paragraph others

/-- Italics in italics, strikethroughs in one another, italics and bold texts side by side, and italics
around nothing but bold text are confused. -/
theorem toMarkdown_confused :
    Confused [italic [italic [.text "a"]]] [bold [.text "a"]] ∧
      Confused [struck [.text "a", struck [.text "b"], .text "c"]]
        [struck [.text "a"], .text "b", struck [.text "c"]] ∧
      Confused [italic [.text "a"], italic [.text "b"], italic [.text "c"]]
        [italic [.text "a", bold [.text "b"], .text "c"]] ∧
      Confused [italic [bold [.text "a"], bold [.text "b"], .text "c"], bold [italic [.text "d"]]]
        [bold [italic [.text "a"]], italic [.text "b", bold [.text "c"], bold [.text "d"]]] ∧
      Confused [italic [bold [.text "a"]]] [bold [italic [.text "a"]]] := by
  refine ⟨?_, ?_, ?_, ?_, ?_⟩ <;>
    exact ⟨⟨⟨rfl, by decide +kernel⟩, ⟨rfl, by decide +kernel⟩⟩, by decide +kernel,
      by simp [italic, bold, struck]⟩

end Examples

end Tree
end Markdown
end DocTree
