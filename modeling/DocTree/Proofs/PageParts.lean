import DocTree.Proofs.Building
import DocTree.Proofs.Inlining
import DocTree.Proofs.Tree
import Mathlib.Data.List.Perm.Basic

/-! What a page is made of: the pieces of its signatures, and, up to their order, the headings that
it makes and the parts of the items that it shows. -/
namespace DocTree.Site
open Api Signature

/-- What stands in a block of code with links: text, and links to items that are shown. -/
inductive Piece (ctx : Context) : Node → Prop where
  | text (s : String) : Piece ctx (.text s)
  | link {token : Token} {item : Item} {page : String}
      (hitem : ctx.scope.resolve token = .ok (.exported item))
      (hpage : ctx.routes.get? item.name = some page) :
      Piece ctx (.link .page (page ++ "#" ++ ctx.anchors.anchor item.name item.kind) none
        [.text token.text])

section Signatures
variable {ctx : Context} {r : Reading}

theorem Piece.of_meaning {levels : Nat} {token : Token} {destination : String}
    (h : ctx.meaning levels token = .link destination) :
    Piece ctx (.link .page destination none [.text token.text]) := by
  unfold Context.meaning Context.destination at h
  split at h
  · cases h
  · next item hitem =>
    cases hpage : ctx.routes.get? item.name with
    | none => simp [hpage] at h
    | some page =>
      simp only [hpage, Meaning.link.injEq] at h
      exact h ▸ .link hitem hpage
  · split at h <;> cases h
  · cases h

theorem forall_piece_addText (h : ∀ n ∈ r.reversed, Piece ctx n) (text : String) :
    ∀ n ∈ (r.addText text).reversed, Piece ctx n := by
  have htext (s : String) : Piece ctx (.text s) := .text s
  unfold Reading.addText Node.pushMerged
  split <;> simp_all

theorem forall_piece_readQueue (queue : List (Token × Nat)) (h : ∀ n ∈ r.reversed, Piece ctx n) :
    ∀ n ∈ (readQueue ctx queue r).reversed, Piece ctx n :=
  readQueue_induction (motive := fun r => ∀ n ∈ r.reversed, Piece ctx n)
    (fun _ text h => forall_piece_addText h text)
    (fun _ _ _ _ hmeaning h => List.forall_mem_cons.2 ⟨.of_meaning hmeaning, h⟩)
    (fun _ _ text h => forall_piece_addText h text) queue h

/-- A signature is code as it stands, or code with links that holds nothing but pieces. -/
theorem build_cases (ctx : Context) (excerpt : Excerpt) :
    (∃ code, (build ctx excerpt).1 = .code (some language) code) ∨
      ∃ children, (build ctx excerpt).1 = .richCode language children ∧
        ∀ n ∈ children, Piece ctx n := by
  have hpieces : ∀ n ∈ (readQueue ctx (excerpt.tokens.map (·, maxLevels)) {}).reversed,
      Piece ctx n := forall_piece_readQueue _ (by simp)
  unfold build Reading.finish
  split
  · exact .inr ⟨_, rfl, by simpa using hpieces⟩
  · exact .inl ⟨_, rfl⟩

/-- Below its block of code a signature has nothing but pieces. -/
theorem mem_nodes_build {excerpt : Excerpt} {m : Node} (h : m ∈ (build ctx excerpt).1.nodes) :
    m = (build ctx excerpt).1 ∨ Piece ctx m := by
  obtain ⟨code, hcode⟩ | ⟨children, hcode, hpieces⟩ := build_cases ctx excerpt
  · rw [hcode] at h ⊢
    exact .inl (List.mem_singleton.1 h)
  · rw [hcode] at h ⊢
    refine (List.mem_cons.1 h).imp_right fun hbelow => ?_
    obtain ⟨n, hn, hm⟩ := Node.mem_nodesOf.1 hbelow
    cases hpieces n hn with
    | text s =>
      rw [List.mem_singleton.1 hm]
      exact .text s
    | link hitem hpage =>
      obtain rfl | htext := List.mem_cons.1 hm
      · exact .link hitem hpage
      · rw [List.mem_singleton.1 htext]
        exact .text _

/-- The links in a signature are pieces of it. -/
theorem piece_of_link_mem {excerpt : Excerpt} {target : LinkTarget} {destination : String}
    {title : Option String} {children : List Node}
    (h : .link target destination title children ∈ (build ctx excerpt).1.nodes) :
    Piece ctx (.link target destination title children) := by
  refine (mem_nodes_build h).resolve_left fun hlink => ?_
  obtain ⟨code, hcode⟩ | ⟨pieces, hcode, -⟩ := build_cases ctx excerpt
  · simp [hcode] at hlink
  · simp [hcode] at hlink

end Signatures

/-- Kind by kind, items come up once each. -/
theorem perm_by_kind {kinds : List Kind} (hkinds : kinds.Nodup) {items : List Item}
    (hitems : ∀ item ∈ items, item.kind ∈ kinds) :
    (kinds.flatMap fun kind => items.filter (·.kind == kind)).Perm items := by
  induction kinds generalizing items with
  | nil =>
    have hnone : items = [] := List.eq_nil_iff_forall_not_mem.2 fun item hitem =>
      List.not_mem_nil (hitems item hitem)
    simp [hnone]
  | cons kind rest ih =>
    obtain ⟨hfirst, hrest⟩ := List.nodup_cons.1 hkinds
    -- The other kinds find all that they need in what the first one leaves.
    have hothers : ∀ item ∈ items.filter (!·.kind == kind), item.kind ∈ rest := by
      intro item hitem
      simp only [List.mem_filter, Bool.not_eq_true', beq_eq_false_iff_ne] at hitem
      exact (List.mem_cons.1 (hitems item hitem.1)).resolve_left hitem.2
    have hsame : (rest.flatMap fun other => items.filter (·.kind == other)) =
        rest.flatMap fun other => (items.filter (!·.kind == kind)).filter (·.kind == other) := by
      refine List.flatMap_congr fun other hother => ?_
      rw [List.filter_filter]
      refine List.filter_congr fun item _ => ?_
      have hne : other ≠ kind := by
        rintro rfl
        exact hfirst hother
      by_cases hkind : item.kind = other <;> simp [hkind, hne]
    rw [List.flatMap_cons, hsame]
    exact ((ih hrest hothers).append_left _).trans (List.filter_append_perm _ items)

/-- The headings that a page makes for a name. -/
def exportHeadings (anchors : Anchors) (name : String) : List Node :=
  .heading 3 (some (nameAnchor name)) [.text name]
    :: (anchors.kindsOf name).flatMap (kindHeading anchors name)

def sectionHeadings (anchors : Anchors) (part : Section) : List Node :=
  sectionHeading part ++ part.exports.flatMap (exportHeadings anchors)

def pageHeadings (anchors : Anchors) (entry : PageEntry) : List Node :=
  entry.sections.flatMap (sectionHeadings anchors)

/-- The items of the names that are listed, as often as they are. -/
def itemsOf (model : Model) (exports : List String) : List Item :=
  exports.flatMap fun name => model.items.filter (·.name == name)

/-- Where each part falls into two, so do all of them together, up to their order. -/
theorem flatMap_perm_append {α β : Type} {whole first second : α → List β} {as : List α}
    (h : ∀ a ∈ as, (whole a).Perm (first a ++ second a)) :
    (as.flatMap whole).Perm (as.flatMap first ++ as.flatMap second) :=
  (List.Perm.flatMap_left as h).trans (List.flatMap_append_perm as first second).symm

section Context
variable {model : Model} {config : Config} {ctx : Context} (hctx : ctx = context model config)
include hctx

theorem exportParts_perm (name : String) : (exportParts ctx name).Perm
    (exportHeadings ctx.anchors name
      ++ (model.items.filter (·.name == name)).flatMap (itemParts ctx)) := by
  have hnamed := hctx ▸ context_named model config name
  have hkinds := hctx ▸ context_kindsOf model config name
  have hparts : ((ctx.anchors.kindsOf name).flatMap (kindParts ctx name)).Perm
      ((ctx.anchors.kindsOf name).flatMap (kindHeading ctx.anchors name)
        ++ (ctx.anchors.kindsOf name).flatMap fun kind =>
          ((model.items.filter (·.name == name)).filter (·.kind == kind)).flatMap
            (itemParts ctx)) :=
    flatMap_perm_append fun kind _ => .of_eq (by rw [kindParts, hnamed])
  have hitems := perm_by_kind (Anchors.nodup_kindsAmong (model.items.filter (·.name == name)))
    fun item hitem => Anchors.mem_kindsAmong.2 ⟨item, hitem, rfl⟩
  rw [← List.flatMap_assoc, hkinds] at hparts
  rw [exportParts, exportHeadings, hkinds]
  exact (hparts.trans ((hitems.flatMap_right _).append_left _)).cons _

theorem sectionParts_perm (part : Section) : (sectionParts ctx part).Perm
    (sectionHeadings ctx.anchors part ++ (itemsOf model part.exports).flatMap (itemParts ctx)) := by
  have hexports := flatMap_perm_append fun name (_ : name ∈ part.exports) =>
    exportParts_perm hctx name
  rw [← List.flatMap_assoc] at hexports
  rw [sectionParts, sectionHeadings, List.append_assoc]
  exact hexports.append_left _

/-- The parts of a page are the headings that it makes and the parts of the items that it shows. -/
theorem pageParts_perm (entry : PageEntry) : (pageParts ctx entry).Perm
    (pageHeadings ctx.anchors entry ++ (itemsOf model entry.exports).flatMap (itemParts ctx)) := by
  have hsections := flatMap_perm_append fun part (_ : part ∈ entry.sections) =>
    sectionParts_perm hctx part
  rw [← List.flatMap_assoc] at hsections
  have hshown : entry.sections.flatMap (itemsOf model ·.exports) = itemsOf model entry.exports := by
    simp [itemsOf, PageEntry.exports, List.flatMap_assoc]
  exact hshown ▸ hsections

end Context
end DocTree.Site
