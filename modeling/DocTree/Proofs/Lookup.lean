import DocTree.Api.Anchors
import DocTree.Site.Config

/-! What is found in a model and in a configuration: the items of a name, the last item of a
reference, the kinds of a name, and the first page that lists an export. -/
namespace DocTree.Api

namespace Index

theorem get?_byName (model : Model) (name : String) :
    (ofModel model).byName.get? name =
      if model.items.filter (·.name == name) = [] then none
      else some (model.items.filter (·.name == name)) := by
  have hfold (items : List Item) (d : Dict (List Item)) :
      (items.foldl (fun d item => d.alter item.name fun items => items.getD [] ++ [item]) d).get?
        name = if items.filter (·.name == name) = [] then d.get? name
          else some ((d.get? name).getD [] ++ items.filter (·.name == name)) := by
    induction items generalizing d with
    | nil => simp
    | cons item rest ih =>
      rw [List.foldl_cons, ih, Dict.get?_alter]
      by_cases hname : name = item.name
      · by_cases hrest : rest.filter (·.name == item.name) = [] <;> simp [hname, hrest]
      · have hne : (item.name == name) = false := beq_false_of_ne (Ne.symm hname)
        simp [hname, hne]
  simpa [ofModel] using hfold model.items ∅

/-- The items of a name are those of the model, in its order. -/
theorem named_ofModel (model : Model) (name : String) :
    (ofModel model).named name = model.items.filter (·.name == name) := by
  rw [named, get?_byName]
  split
  · next hnone => exact hnone.symm
  · rfl

/-- The names are those of the items. -/
theorem mem_names {model : Model} {name : String} :
    name ∈ (ofModel model).names ↔ ∃ item ∈ model.items, item.name = name := by
  rw [names, Dict.mem_keys_iff, get?_byName]
  by_cases hnone : model.items.filter (·.name == name) = []
  · have hno : ∀ item ∈ model.items, item.name ≠ name := by simpa using hnone
    simpa [hnone] using hno
  · obtain ⟨item, hitem⟩ := List.exists_mem_of_ne_nil _ hnone
    rw [List.mem_filter, beq_iff_eq] at hitem
    exact ⟨fun _ => ⟨item, hitem⟩, fun _ => ⟨_, if_neg hnone⟩⟩

theorem entries_byName (model : Model) : (ofModel model).byName.entries =
    (ofModel model).names.map fun name => (name, model.items.filter (·.name == name)) := by
  rw [names, Dict.keys, List.map_map]
  refine (List.map_id _).symm.trans (List.map_congr_left fun e he => ?_)
  have hnamed : (ofModel model).named e.1 = e.2 := by
    rw [named, Dict.mem_entries_iff.1 he, Option.getD_some]
  rw [named_ofModel] at hnamed
  simp [hnamed]

/-- Of the items with a reference the last one is found. -/
theorem find?_ofModel (model : Model) (reference : String) :
    (ofModel model).find? reference =
      model.items.reverse.find? (·.normalReference == reference) := by
  have hlookup (items : List Item) :
      (items.map fun item => (item.normalReference, item)).lookup reference =
        items.find? (·.normalReference == reference) := by
    induction items with
    | nil => rfl
    | cons item rest ih =>
      rw [List.map_cons, Dict.lookup_cons_eq, ih, List.find?_cons]
      by_cases hr : reference = item.normalReference
      · simp [hr]
      · have hne : (item.normalReference == reference) = false := beq_false_of_ne (Ne.symm hr)
        simp [hr, hne]
  rw [find?, ofModel, Dict.get?_ofList, ← List.map_reverse, hlookup]

theorem mem_of_find? {model : Model} {reference : String} {item : Item}
    (h : (ofModel model).find? reference = some item) : item ∈ model.items := by
  rw [find?_ofModel] at h
  exact List.mem_reverse.1 (List.mem_of_find?_eq_some h)

end Index

/-- Only an item of the model is what a reference stands for. -/
theorem Scope.mem_of_resolve {model : Model} {renamed : Dict String} {token : Token} {item : Item}
    (h : (ofModel model renamed).resolve token = .ok (.exported item)) : item ∈ model.items := by
  have hfound {reference : String}
      (h : (ofModel model renamed).findExported reference = .ok (.exported item)) :
      item ∈ model.items := by
    simp only [findExported] at h
    split at h
    · next found hfind =>
      simp only [Except.ok.injEq, Resolution.exported.injEq] at h
      exact h ▸ Index.mem_of_find? hfind
    · cases h
  have hlocal (reference : String) :
      (ofModel model renamed).findLocal reference ≠ .ok (.exported item) := by
    unfold findLocal
    split <;> simp
  unfold resolve at h
  split at h
  · cases h
  unfold resolveReference at h
  split at h
  · cases h
  split at h
  · cases h
  split at h
  · split at h
    · exact hfound h
    · exact absurd h (hlocal _)
  · exact hfound h

namespace Anchors

theorem kindsOf_map (index : Index) (name : String) :
    kindsOf ⟨index.byName.map kindsAmong⟩ name = kindsAmong (index.named name) := by
  have hnone : kindsAmong [] = [] := by simp [kindsAmong]
  rw [kindsOf, Dict.get?_map, Index.named]
  cases index.byName.get? name with
  | none => exact hnone.symm
  | some items => rfl

theorem mem_kindsAmong {items : List Item} {kind : Kind} :
    kind ∈ kindsAmong items ↔ ∃ item ∈ items, item.kind = kind := by
  simp [kindsAmong, Kind.mem_all]

theorem nodup_kindsAmong (items : List Item) : (kindsAmong items).Nodup := by
  have hall : Kind.all.Nodup := by decide
  exact hall.filter _

end Anchors
end DocTree.Api

namespace DocTree.Site
open Api

theorem get?_foldl_insertNew {α : Type} (entries : List (String × α)) (d : Dict α) (key : String) :
    (entries.foldl (fun d e => if d.contains e.1 then d else d.insert e.1 e.2) d).get? key =
      (d.get? key).or (entries.lookup key) := by
  induction entries generalizing d with
  | nil => simp
  | cons e rest ih =>
    rw [List.foldl_cons, ih, Dict.lookup_cons_eq]
    by_cases hpresent : d.contains e.1
    · by_cases hkey : key = e.1
      · obtain ⟨value, hvalue⟩ := Option.isSome_iff_exists.1 hpresent
        simp [hpresent, hkey, hvalue]
      · simp [hpresent, hkey]
    · rw [if_neg hpresent, Dict.get?_insert]
      by_cases hkey : key = e.1
      · have hnone : d.get? e.1 = none := by simpa [Dict.contains] using hpresent
        simp [hkey, hnone]
      · simp [hkey]

theorem lookup_exports (exports : List String) (path name : String) :
    (exports.map (·, path)).lookup name = if exports.contains name then some path else none := by
  induction exports with
  | nil => rfl
  | cons first rest ih =>
    rw [List.map_cons, Dict.lookup_cons_eq, ih]
    by_cases hname : name = first <;> simp [hname]

/-- An export is shown on the first page that lists it. -/
theorem Config.get?_routes (config : Config) (name : String) :
    config.routes.get? name =
      (config.pages.find? fun page => page.exports.contains name).map PageEntry.path := by
  have hlookup (pages : List PageEntry) :
      (pages.flatMap fun page => page.exports.map (·, page.path)).lookup name =
        (pages.find? fun page => page.exports.contains name).map PageEntry.path := by
    induction pages with
    | nil => rfl
    | cons page rest ih =>
      rw [List.flatMap_cons, List.lookup_append, lookup_exports, ih, List.find?_cons]
      cases page.exports.contains name <;> simp
  rw [routes, ← hlookup]
  exact (get?_foldl_insertNew _ ∅ name).trans (by simp)

end DocTree.Site
