import DocTree.Proofs.Building
import DocTree.Proofs.Inlining
import DocTree.Proofs.Landing
import Mathlib.Data.List.Perm.Basic
import Mathlib.Data.List.Nodup

/-! The order of items with different names or kinds does not matter to a site. -/
namespace DocTree

namespace Api

/-- The models have the same items, and those with the same name and kind in the same order. -/
structure Reordered (model other : Model) : Prop where
  package : other.package = model.package
  locals : other.localDeclarations = model.localDeclarations
  items : other.items.Perm model.items
  inOrder : ∀ name kind,
    (other.items.filter fun item => item.name == name && item.kind == kind) =
      model.items.filter fun item => item.name == name && item.kind == kind

/-- Where keys are not repeated, what is found under a key does not depend on the order. -/
theorem find?_perm {α : Type} {key : α → String} {as bs : List α} (h : as.Perm bs)
    (hdistinct : (as.map key).Nodup) (k : String) :
    as.find? (key · == k) = bs.find? (key · == k) := by
  induction h with
  | nil => rfl
  | cons a _ ih => rw [List.find?_cons, List.find?_cons, ih (List.nodup_cons.1 hdistinct).2]
  | swap a b rest =>
    have hne : key b ≠ key a := fun heq =>
      (List.nodup_cons.1 hdistinct).1 (heq ▸ List.mem_cons_self)
    rw [List.find?_cons, List.find?_cons, List.find?_cons, List.find?_cons]
    cases hb : key b == k with
    | false => rfl
    | true =>
      have ha : (key a == k) = false :=
        beq_false_of_ne fun ha => hne ((beq_iff_eq.1 hb).trans ha.symm)
      rw [ha]
  | trans hfirst _ ihfirst ihsecond =>
    rw [ihfirst hdistinct, ihsecond ((hfirst.map key).nodup_iff.1 hdistinct)]

section Reordered
variable {model other : Model} (h : Reordered model other)
include h

theorem names_reordered : (Index.ofModel other).names = (Index.ofModel model).names := by
  have hmem (name : String) :
      name ∈ (Index.ofModel other).names ↔ name ∈ (Index.ofModel model).names := by
    simp only [Index.mem_names, h.items.mem_iff]
  have hperm : (Index.ofModel other).names.Perm (Index.ofModel model).names :=
    (List.perm_ext_iff_of_nodup (Dict.nodup_keys _) (Dict.nodup_keys _)).2 hmem
  exact hperm.eq_of_pairwise (fun _ _ _ _ hab hba => absurd hba (String.lt_asymm hab))
    (Dict.pairwise_keys _) (Dict.pairwise_keys _)

theorem kindsAmong_reordered (name : String) :
    Anchors.kindsAmong (other.items.filter (·.name == name)) =
      Anchors.kindsAmong (model.items.filter (·.name == name)) :=
  List.filter_congr fun _ _ => (h.items.filter _).any_eq

theorem repeatedKind?_reordered (name : String) :
    Anchors.repeatedKind? (other.items.filter (·.name == name)) =
      Anchors.repeatedKind? (model.items.filter (·.name == name)) := by
  simp only [Anchors.repeatedKind?, (h.items.filter (·.name == name)).countP_eq]

theorem kinds_reordered : (Index.ofModel other).byName.map Anchors.kindsAmong =
    (Index.ofModel model).byName.map Anchors.kindsAmong := by
  refine Dict.ext ?_
  simp only [Dict.map, Index.entries_byName, names_reordered h, List.map_map, Function.comp_def,
    kindsAmong_reordered h]

theorem resolve_reordered (hdistinct : (model.items.map Item.normalReference).Nodup)
    (renamed : Dict String) (token : Token) :
    (Scope.ofModel other renamed).resolve token = (Scope.ofModel model renamed).resolve token := by
  have hfind (reference : String) :
      (Index.ofModel other).find? reference = (Index.ofModel model).find? reference := by
    have hreversed : other.items.reverse.Perm model.items.reverse :=
      other.items.reverse_perm.trans (h.items.trans model.items.reverse_perm.symm)
    have hkeys : (other.items.reverse.map Item.normalReference).Nodup :=
      ((other.items.reverse_perm.trans h.items).map _).nodup_iff.2 hdistinct
    rw [Index.find?_ofModel, Index.find?_ofModel, find?_perm hreversed hkeys]
  simp only [Scope.resolve, Scope.resolveReference, Scope.findExported, Scope.findLocal,
    Scope.renamed?, Scope.ofModel, hfind, h.locals]

end Reordered
end Api

namespace Site
open Api Signature

section Reordered
variable {model other : Model} (config : Config) (h : Reordered model other)
include h

theorem anchors_reordered : (context other config).anchors = (context model config).anchors :=
  congrArg Anchors.mk (kinds_reordered h)

theorem group_reordered (name : String) (kind : Kind) :
    ((context other config).scope.index.named name).filter (·.kind == kind) =
      ((context model config).scope.index.named name).filter (·.kind == kind) := by
  have hinOrder := h.inOrder name kind
  simp only [context_named, List.filter_filter, Bool.and_comm] at hinOrder ⊢
  exact hinOrder

theorem duplicates_reordered : duplicates other = duplicates model := by
  simp only [duplicates, names_reordered h, repeatedKind?_reordered h]

theorem pageDefects_reordered :
    pageDefects (context other config) = pageDefects (context model config) := by
  have hempty (name : String) : ((context other config).scope.index.named name).isEmpty =
      ((context model config).scope.index.named name).isEmpty := by
    simp only [context_named]
    exact (h.items.filter _).isEmpty_eq
  have hexport : exportDefects (context other config) = exportDefects (context model config) := by
    funext page name
    simp only [exportDefects, hempty, anchors_reordered config h, group_reordered config h]
  funext entry
  rw [pageDefects, pageDefects, hexport]

variable (hdistinct : (model.items.map Item.normalReference).Nodup)
include hdistinct

theorem build_reordered (excerpt : Excerpt) :
    build (context other config) excerpt = build (context model config) excerpt := by
  have hmeaning (levels : Nat) (token : Token) :
      (context other config).meaning levels token =
        (context model config).meaning levels token := by
    have hresolve : (context other config).scope.resolve token =
        (context model config).scope.resolve token := resolve_reordered h hdistinct _ token
    have hanchors := anchors_reordered config h
    have hroutes : (context other config).routes = (context model config).routes := rfl
    simp only [Context.meaning, Context.destination, hresolve, hanchors, hroutes]
  rw [build, build, readQueue_congr hmeaning]

theorem pageOf_reordered : pageOf (context other config) = pageOf (context model config) := by
  have hanchors := anchors_reordered config h
  have hitem : itemParts (context other config) = itemParts (context model config) := by
    funext item
    rw [itemParts, itemParts, build_reordered config h hdistinct]
  have hkind : kindParts (context other config) = kindParts (context model config) := by
    funext name kind
    rw [kindParts, kindParts, hanchors, group_reordered config h, hitem]
  have hexport : exportParts (context other config) = exportParts (context model config) := by
    funext name
    rw [exportParts, exportParts, hanchors, hkind]
  have hsection : sectionParts (context other config) = sectionParts (context model config) := by
    funext part
    rw [sectionParts, sectionParts, hexport]
  funext entry
  rw [pageOf, pageOf, pageParts, pageParts, hanchors, hsection]

theorem pageRemarks_reordered :
    pageRemarks (context other config) = pageRemarks (context model config) := by
  have hitem : itemRemarks (context other config) = itemRemarks (context model config) := by
    funext item
    rw [itemRemarks, itemRemarks, build_reordered config h hdistinct]
  have hexport : exportRemarks (context other config) = exportRemarks (context model config) := by
    funext name
    simp only [exportRemarks, anchors_reordered config h, group_reordered config h, hitem]
  funext entry
  rw [pageRemarks, pageRemarks, hexport]

/-- Building a site and rendering it come to the same for models that differ in the order of items
with different names or kinds. -/
theorem buildPages_reordered : buildPages other config = buildPages model config ∧
    renderPages other config = renderPages model config := by
  have hbuild : buildPages other config = buildPages model config := by
    rw [buildPages_eq, buildPages_eq, duplicates_reordered h, pageDefects_reordered config h,
      pageOf_reordered config h hdistinct, pageRemarks_reordered config h hdistinct,
      unlistedRemarks, unlistedRemarks, names_reordered h]
  exact ⟨hbuild, by rw [renderPages, renderPages, hbuild]⟩

end Reordered

/-- The model with its items from the last to the first. -/
def reversedBarModel : Model := { barModel with items := barModel.items.reverse }

theorem buildPages_reordered_bar : Reordered barModel reversedBarModel ∧
    (barModel.items.map Item.normalReference).Nodup ∧
    buildPages reversedBarModel barConfig = buildPages barModel barConfig ∧
    renderPages reversedBarModel barConfig = renderPages barModel barConfig := by
  have hreordered : Reordered barModel reversedBarModel := by
    refine ⟨rfl, rfl, List.reverse_perm _, fun name kind => ?_⟩
    cases kind <;> simp [reversedBarModel, barModel, List.filter_cons]
  have hdistinct : (barModel.items.map Item.normalReference).Nodup := by decide +kernel
  exact ⟨hreordered, hdistinct, buildPages_reordered barConfig hreordered hdistinct⟩

end Site
end DocTree
