import DocTree.Proofs.AnchorNames
import DocTree.Proofs.Diagnosis
import DocTree.Proofs.LowerCase
import DocTree.Proofs.Outline
import DocTree.Proofs.PageText
import DocTree.Proofs.SiteFailure

/-! Which of the anchors that are made for names and titles are valid. An anchor takes the
characters that it can hold and then their lower case, and the lower case of a dotted capital I has a
dot that no anchor can hold. It is the only such character, so an anchor is valid exactly if it is
made without it. -/
namespace DocTree

/-- Of the characters that an anchor can hold, the dotted capital I alone has a lower case that it
cannot hold: a dot of its own goes with the letter. -/
theorem isAnchorChar_lowercase {c : Char} (h : isAnchorChar c) :
    (∀ d ∈ Unicode.lowercase c, isAnchorChar d) ↔ c ≠ 'İ' := by
  by_cases hc : c = 'İ'
  · subst hc
    refine iff_of_false (fun hall => ?_) (not_not_intro rfl)
    have hdot : Char.ofNat 775 ∈ Unicode.lowercase 'İ' := by decide
    exact absurd (hall _ hdot) (by decide)
  · have hcode : c.toNat ≠ 304 := fun hcode => hc (Char.toNat_inj.1 hcode)
    refine iff_of_true ?_ hc
    rw [Unicode.lowercase, if_neg hcode, List.forall_mem_singleton]
    simp only [isAnchorChar, Bool.or_eq_true, beq_iff_eq, or_assoc] at h ⊢
    refine h.imp Unicode.isAlphanumeric_lowercaseCode fun hmark => ?_
    rcases hmark with rfl | rfl | rfl | rfl <;> decide

theorem slug_ne_empty (text : String) : slug text ≠ "" := by
  rw [slug]
  split
  · decide
  · next hkept => simpa using hkept

theorem isValidAnchor_iff {id : String} (h : id ≠ "") :
    isValidAnchor id ↔ ∀ c ∈ id.toList, isAnchorChar c := by
  rw [isValidAnchor, String.isEmpty_eq_false_iff.2 h, Bool.not_false, Bool.true_and,
    List.all_eq_true]

theorem isValidAnchor_slug {text : String} : isValidAnchor (slug text) ↔ 'İ' ∉ text.toList := by
  have hcapital : isAnchorChar 'İ' := by decide
  have hkept : (∀ c ∈ (slug text).toList, isAnchorChar c) ↔
      ∀ c ∈ text.toList.filter isAnchorChar, ∀ d ∈ Unicode.lowercase c, isAnchorChar d := by
    rw [slug]
    split
    · next hnone =>
      have hnone : (text.toList.filter isAnchorChar).flatMap Unicode.lowercase = [] := by
        simpa using hnone
      refine iff_of_true (List.all_eq_true.1 (by decide)) fun c hc d hd => ?_
      rw [List.flatMap_eq_nil_iff.1 hnone c hc] at hd
      cases hd
    · rw [String.toList_ofList, List.forall_mem_flatMap]
  rw [isValidAnchor_iff (slug_ne_empty text), hkept]
  constructor
  · intro hall hmem
    exact (isAnchorChar_lowercase hcapital).1 (hall _ (List.mem_filter.2 ⟨hmem, hcapital⟩)) rfl
  · intro hfree c hc
    obtain ⟨hmem, hanchor⟩ := List.mem_filter.1 hc
    exact (isAnchorChar_lowercase hanchor).2 (ne_of_mem_of_not_mem hmem hfree)

/-- The words of a text are the text without its white space. -/
theorem flatten_words (text : String) :
    (words text).flatten = text.toList.filter (!Unicode.isBlank ·) := by
  rw [words, List.flatten_filter_not_isEmpty, Text.flatten_pieces]

theorem isValidAnchor_sectionAnchor {title : String} :
    isValidAnchor (sectionAnchor title) ↔ 'İ' ∉ title.toList := by
  have hblank : Unicode.isBlank 'İ' = false := by decide
  have hwords : (∃ word ∈ words title, 'İ' ∈ word) ↔ 'İ' ∈ title.toList := by
    rw [← List.mem_flatten, flatten_words, List.mem_filter, hblank]
    exact and_iff_left rfl
  rw [sectionAnchor, isValidAnchor_slug, ← hwords, Text.mem_intercalate (by decide)]
  simp

namespace Api

theorem isValidAnchor_kindAnchor {name : String} {kind : Kind} :
    isValidAnchor (kindAnchor name kind) ↔ 'İ' ∉ name.toList := by
  have hlabel : (slug kind.label).toList.all isAnchorChar := by cases kind <;> decide
  have hdash : "-".toList.all isAnchorChar := by decide
  have hne : kindAnchor name kind ≠ "" := by simp [kindAnchor]
  rw [← isValidAnchor_slug, isValidAnchor_iff hne, isValidAnchor_iff (slug_ne_empty name)]
  simp only [kindAnchor, String.toList_append, List.forall_mem_append]
  exact (and_iff_left (List.all_eq_true.1 hlabel)).trans (and_iff_left (List.all_eq_true.1 hdash))

end Api

namespace Node

/-- The headings of a tree and of its normal form have the same anchors. -/
theorem anchors_normal (node : Node) : node.normal.anchors = node.anchors := by
  have houtline (nodes : List Node) : headingAnchors nodes =
      (outlineOf nodes).filterMap fun entry => entry.1.headingAnchor? := by
    rw [outlineOf, List.filterMap_map, List.filterMap_filter]
    refine List.filterMap_congr fun n _ => ?_
    cases n <;> rfl
  rw [anchors, anchors, houtline, houtline]
  exact congrArg (List.filterMap _) (outline_normal node)

theorem mem_headingAnchors {nodes : List Node} {id : String} :
    id ∈ headingAnchors nodes ↔ ∃ level children, .heading level (some id) children ∈ nodes := by
  rw [headingAnchors, List.mem_filterMap]
  constructor
  · rintro ⟨n, hn, hid⟩
    cases n <;> cases hid
    exact ⟨_, _, hn⟩
  · rintro ⟨level, children, hn⟩
    exact ⟨_, hn, rfl⟩

end Node

namespace Markdown
open Position
variable {o : Options} {node : Node}

/-- Where an anchor makes rendering fail, it is one of the tree and it is not valid. -/
theorem mem_anchors_of_toMarkdown {id : String}
    (h : toMarkdown o node = .error (.invalidAnchor id)) :
    id ∈ node.anchors ∧ ¬ isValidAnchor id := by
  have hrun := Render.toText_eq_error.1 h
  obtain ⟨⟨line, m⟩, hq, ⟨level, children, rfl⟩, hid⟩ := exists_blame hrun
  rw [← Node.anchors_normal]
  exact ⟨Node.mem_headingAnchors.2 ⟨level, children, hq.mem_nodes⟩, hid⟩

/-- What a page holds itself is in order if the page can be rendered. -/
theorem inOrder_of_toMarkdown_page {metadata : PageMetadata} {children : List Node}
    {markdown : String} (h : toMarkdown o (.page metadata children) = .ok markdown) :
    ∀ n ∈ children, n.inOrder := by
  obtain ⟨out, hrun, -⟩ := renderRaw_ok h
  have horder := inOrder_rendered_normal.1 (inOrder_of_render_ok hrun)
  exact fun n hn => (horder _ (.single (List.mem_map_of_mem hn))).1

end Markdown

namespace Site
open Api

/-- The headings that a page makes have valid anchors exactly if nothing that the page lists holds a
dotted capital I. -/
theorem pageHeadings_valid_iff (anchors : Anchors) (entry : PageEntry) :
    (∀ id ∈ headingAnchors (pageHeadings anchors entry), isValidAnchor id) ↔
      ∀ text ∈ entry.titles ++ entry.exports, 'İ' ∉ text.toList := by
  have hname (name : String) :
      (∀ id ∈ nameAnchor name :: anchors.kindAnchors name, isValidAnchor id) ↔
        'İ' ∉ name.toList := by
    rw [List.forall_mem_cons, nameAnchor, isValidAnchor_slug]
    refine and_iff_left_of_imp fun hfree id hid => ?_
    obtain ⟨kind, rfl⟩ := Anchors.exists_kind_of_mem hid
    exact isValidAnchor_kindAnchor.2 hfree
  simp only [headingAnchors_pageHeadings, (perm_tableOfContents anchors entry).mem_iff,
    List.forall_mem_append, List.forall_mem_map, isValidAnchor_sectionAnchor]
  refine and_congr_right fun _ => List.forall_mem_flatMap.trans ?_
  exact forall₂_congr fun name _ => hname name

section Rendering
variable {model : Model} {config : Config}

theorem buildPages_ne_invalidAnchor {id : String} :
    buildPages model config ≠ .error (.invalidAnchor id) := by
  intro h
  rw [buildPages_eq, pageDefects_eq_missingOn, resultOf_eq_error, List.head?_append,
    Option.or_eq_some_iff, duplicates_head?_eq_some] at h
  obtain ⟨_, _, hkind, -⟩ | ⟨-, hmissing⟩ := h
  · cases hkind
  · cases isMissing_of_mem model (List.mem_of_head? hmissing)

/-- An anchor that makes a site fail is one of a page, in the documentation of what it lists or in a
heading that the page makes. -/
theorem exists_entry_of_invalidAnchor {id : String}
    (h : renderPages model config = .error (.invalidAnchor id)) : ¬ isValidAnchor id ∧
      ∃ entry ∈ config.pages, id ∈ docAnchors model entry.exports ∨
        id ∈ headingAnchors (pageHeadings (context model config).anchors entry) := by
  rw [renderPages] at h
  obtain hbuild | ⟨built, hbuilt, h⟩ := error_of_bind h
  · exact absurd hbuild buildPages_ne_invalidAnchor
  obtain hpages | ⟨pages, -, h⟩ := error_of_bind h
  · obtain ⟨node, hnode, herror⟩ := markdownPages_error hpages
    rw [buildPages_ok hbuilt] at hnode
    obtain ⟨entry, hentry, rfl⟩ := List.mem_map.1 hnode
    obtain ⟨hanchor, hid⟩ := Markdown.mem_anchors_of_toMarkdown herror
    rw [(anchors_pageOf rfl entry).mem_iff, List.mem_append, ← headingAnchors_pageHeadings] at hanchor
    exact ⟨hid, entry, hentry, hanchor.symm⟩
  · cases h

theorem pageHeadings_valid_of_toMarkdown {o : Markdown.Options} {entry : PageEntry}
    {markdown : String}
    (h : Markdown.toMarkdown o (pageOf (context model config) entry).2 = .ok markdown) :
    ∀ id ∈ headingAnchors (pageHeadings (context model config).anchors entry),
      isValidAnchor id := by
  intro id hid
  obtain ⟨level, children, hheading⟩ := Node.mem_headingAnchors.1 hid
  have hpart := (pageParts_perm rfl entry).mem_iff.2 (List.mem_append_left _ hheading)
  have horder := Markdown.inOrder_of_toMarkdown_page h _ hpart
  simp only [Node.inOrder, Bool.and_eq_true, Option.all_some] at horder
  exact horder.2

/-- A site is rendered only if nothing that its pages list holds a dotted capital I. -/
theorem undotted_of_renderPages {built : Built String}
    (h : renderPages model config = .ok built) : ∀ entry ∈ config.pages,
      ∀ text ∈ entry.titles ++ entry.exports, 'İ' ∉ text.toList :=
  forall_mem_of_forall₂ (forall₂_of_renderPages h) fun entry _ hpage =>
    (pageHeadings_valid_iff _ entry).1 (pageHeadings_valid_of_toMarkdown hpage.2)

end Rendering

/-- The anchors of names and titles are valid exactly if these have no dotted capital I, and so are
those of the headings that a page makes. A site fails with an anchor only if that is not valid and
stands in the documentation or in such a heading, and with a dotted capital I in what its pages list
it is not rendered at all. -/
theorem ownAnchors_valid_iff (model : Model) (config : Config) :
    (∀ name, isValidAnchor (nameAnchor name) ↔ 'İ' ∉ name.toList) ∧
    (∀ name kind, isValidAnchor (kindAnchor name kind) ↔ 'İ' ∉ name.toList) ∧
    (∀ title, isValidAnchor (sectionAnchor title) ↔ 'İ' ∉ title.toList) ∧
    (∀ entry ∈ config.pages,
      (∀ id ∈ headingAnchors (pageHeadings (context model config).anchors entry),
        isValidAnchor id) ↔ ∀ text ∈ entry.titles ++ entry.exports, 'İ' ∉ text.toList) ∧
    (∀ id, renderPages model config = .error (.invalidAnchor id) → ¬ isValidAnchor id ∧
      ∃ entry ∈ config.pages, id ∈ docAnchors model entry.exports ∨
        id ∈ headingAnchors (pageHeadings (context model config).anchors entry)) ∧
    ∀ built, renderPages model config = .ok built → ∀ entry ∈ config.pages,
      ∀ text ∈ entry.titles ++ entry.exports, 'İ' ∉ text.toList :=
  ⟨fun _ => isValidAnchor_slug, fun _ _ => isValidAnchor_kindAnchor,
    fun _ => isValidAnchor_sectionAnchor, fun entry _ => pageHeadings_valid_iff _ entry,
    fun _ => exists_entry_of_invalidAnchor, fun _ => undotted_of_renderPages⟩

/-- A class whose documentation has a heading with a blank in its anchor. -/
def noteModel : Model where
  package := "pkg"
  items :=
    [⟨"Note", .classDecl, "pkg!Note:class", none, [⟨"src/note.ts", 1⟩], ⟨[]⟩,
      some (.heading 4 (some "see also") [.text "See also"])⟩]
  localDeclarations := ∅

def noteConfig : Config :=
  { Config.empty with pages := [⟨"note.md", "Note", [⟨some "Classes", ["Note"]⟩]⟩] }

theorem ownAnchors_valid_iff_note :
    renderPages noteModel noteConfig = .error (.invalidAnchor "see also") ∧
      isValidAnchor (kindAnchor "Note" .classDecl) ∧ ∃ entry ∈ noteConfig.pages,
        "see also" ∈ docAnchors noteModel entry.exports := by
  have hfails : renderPages noteModel noteConfig = .error (.invalidAnchor "see also") :=
    error_of_map (f := fun _ => ()) (by decide +kernel)
  obtain ⟨-, hkind, -, hheadings, hcause, -⟩ := ownAnchors_valid_iff noteModel noteConfig
  obtain ⟨hid, entry, hentry, hdoc | hown⟩ := hcause _ hfails
  · exact ⟨hfails, (hkind "Note" .classDecl).2 (by decide), entry, hentry, hdoc⟩
  · have hlisted : ∀ entry ∈ noteConfig.pages, ∀ text ∈ entry.titles ++ entry.exports,
        'İ' ∉ text.toList := by decide
    exact absurd ((hheadings entry hentry).2 (hlisted entry hentry) _ hown) hid

/-- A class with a name whose lower case has a dot of its own. -/
def dottedModel : Model where
  package := "pkg"
  items := [⟨"İ", .classDecl, "pkg!İ:class", none, [⟨"src/i.ts", 1⟩], ⟨[]⟩, none⟩]
  localDeclarations := ∅

def dottedConfig : Config := { Config.empty with pages := [⟨"a.md", "A", [⟨none, ["İ"]⟩]⟩] }

theorem renderPages_dottedName :
    isValidAnchor (nameAnchor "İ") = false ∧ isValidAnchor (sectionAnchor "İ") = false ∧
      docAnchors dottedModel ["İ"] = [] ∧
      renderPages dottedModel dottedConfig = .error (.invalidAnchor (nameAnchor "İ")) :=
  ⟨by decide, by decide, rfl,
    error_of_map (f := fun _ => ()) (by decide +kernel)⟩

end Site
end DocTree
