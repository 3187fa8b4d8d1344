import DocTree.Proofs.Resolution
import Mathlib.Data.List.Basic

/-! References to functions with and without the number of an overload. Without one the first
overload is meant where items are searched for, but not where a declaration that is not exported
is looked up. -/
namespace DocTree.Api
open Text

section Suffix
variable {word before after : List Char} {c : Char}

/-- A word without a character stands at the end of a text if it stands at the end of what is
behind that character. -/
theorem suffix_behind_iff (hc : c ∉ word) : word <:+ before ++ c :: after ↔ word <:+ after := by
  constructor
  · intro h
    obtain hword | hbehind := List.suffix_or_suffix_of_suffix h (List.suffix_append before (c :: after))
    · exact (List.suffix_cons_iff.1 hword).resolve_left fun heq => hc (heq ▸ List.mem_cons_self)
    · exact absurd (hbehind.mem List.mem_cons_self) hc
  · intro h
    exact List.suffix_append_of_suffix (List.suffix_cons_iff.2 (.inr h))

/-- A word at the end of a text stands at the end of what is behind a beginning without the word's
first character. -/
theorem suffix_of_notMem (h : c :: word <:+ before ++ after) (hc : c ∉ before) :
    c :: word <:+ after := by
  obtain hword | hafter := List.suffix_or_suffix_of_suffix h (List.suffix_append before after)
  · exact hword
  obtain ⟨front, hfront⟩ := h
  obtain ⟨middle, hmiddle⟩ := hafter
  rw [← hmiddle, ← List.append_assoc, List.append_cancel_right_eq] at hfront
  cases middle with
  | nil => exact hmiddle ▸ List.suffix_refl _
  | cons d middle =>
    obtain ⟨rfl, -⟩ := List.cons.inj hmiddle
    exact absurd (hfront ▸ by simp) hc

end Suffix

section Function
variable {reference package path name rest target : String} {renamed : Dict String}

theorem isFunction_iff : isFunction reference ↔ ":function".toList <:+ reference.toList :=
  List.isSuffixOf_iff_suffix

/-- The end of a reference is the end of its path. -/
theorem Names.isFunction_iff (h : Names reference package path) :
    isFunction reference ↔ isFunction path := by
  have hsplit : reference.toList = package.toList ++ '!' :: path.toList := by simp [h.split]
  rw [Api.isFunction_iff, Api.isFunction_iff, hsplit]
  exact suffix_behind_iff (by decide)

theorem isFunction_tilde : isFunction ("~" ++ path) ↔ isFunction path := by
  have hsplit : ("~" ++ path).toList = [] ++ '~' :: path.toList := by simp
  rw [Api.isFunction_iff, Api.isFunction_iff, hsplit]
  exact suffix_behind_iff (by decide)

/-- The end of the path to a function is behind the name. -/
theorem BeginsWith.isFunction (h : BeginsWith path name rest) (hpath : Api.isFunction path) :
    Api.isFunction rest := by
  rw [Api.isFunction_iff, h.split, String.toList_append] at hpath
  exact Api.isFunction_iff.2 (suffix_of_notMem hpath fun hmark => h.name _ hmark (.inl rfl))

theorem normalReference_function (h : isFunction reference) :
    normalReference reference none = reference ++ "(1)" := by
  have hnumber : toString (1 : UInt32) = "1" := by decide
  rw [normalReference, if_pos h, Option.getD_none, hnumber]
  change reference ++ "(" ++ "1" ++ ")" = reference ++ "(1)"
  rw [String.append_assoc, String.append_assoc]
  exact congrArg (reference ++ ·) (by decide)

/-- A reference with a number is complete. -/
theorem normalReference_numbered (reference : String) :
    normalReference (reference ++ "(1)") none = reference ++ "(1)" := by
  have hend : ¬ isFunction (reference ++ "(1)") := by
    rw [Api.isFunction_iff, ← List.reverse_prefix]
    simp
  rw [normalReference, if_neg hend]

theorem Names.append (h : Names reference package path) (s : String) :
    Names (reference ++ s) package (path ++ s) :=
  ⟨by rw [h.split, String.append_assoc], h.first, h.named⟩

/-- A path to a function begins as it does with a number behind it. -/
theorem head?_numbered (h : isFunction path) :
    (path ++ "(1)").toList.head? = path.toList.head? := by
  have hne : path.toList ≠ [] := by
    rintro hnil
    rw [Api.isFunction_iff, hnil] at h
    simp at h
  rw [String.toList_append, List.head?_append_of_ne_nil _ hne]

theorem BeginsWith.numbered (h : BeginsWith path name rest) (hpath : Api.isFunction path) :
    BeginsWith (path ++ "(1)") name (rest ++ "(1)") := by
  refine ⟨by rw [h.split, String.append_assoc], h.name, ?_⟩
  rw [head?_numbered (h.isFunction hpath)]
  exact h.rest

/-- A reference to a function that is not exported is none to an export with a number. -/
theorem IsLocal.numbered (h : IsLocal renamed reference) (hfunction : isFunction reference) :
    IsLocal renamed (reference ++ "(1)") := by
  obtain ⟨package, path, name, rest, hnames, hname, hnew⟩ := h
  have hpath : isFunction path := isFunction_tilde.1 (hnames.isFunction_iff.1 hfunction)
  have hnumbered := hnames.append "(1)"
  rw [String.append_assoc] at hnumbered
  exact ⟨package, path ++ "(1)", name, rest ++ "(1)", hnumbered, hname.numbered hpath, hnew⟩

/-- Where items are searched for a function, they are searched for its first overload. -/
theorem LooksUp.numbered (h : LooksUp renamed reference target)
    (hfunction : isFunction reference) :
    isFunction target ∧ LooksUp renamed (reference ++ "(1)") (target ++ "(1)") := by
  cases h with
  | @itself package path hnames hpath =>
    refine ⟨hfunction, .itself (hnames.append "(1)") ?_⟩
    rwa [head?_numbered (hnames.isFunction_iff.1 hfunction)]
  | @renamed package path name rest new hnames hname hnew =>
    have hpath : isFunction path := isFunction_tilde.1 (hnames.isFunction_iff.1 hfunction)
    have hnumbered := hnames.append "(1)"
    rw [String.append_assoc] at hnumbered
    have htarget := LooksUp.renamed hnumbered (hname.numbered hpath) hnew
    rw [← String.append_assoc] at htarget
    refine ⟨?_, htarget⟩
    have hrest := Api.isFunction_iff.1 (hname.isFunction hpath)
    rw [Api.isFunction_iff, String.toList_append]
    exact List.suffix_append_of_suffix hrest

end Function

namespace Scope
variable {model : Model} {renamed : Dict String} {reference target : String}

theorem findExported_numbered (h : isFunction target) :
    (ofModel model renamed).findExported (target ++ "(1)") =
      (ofModel model renamed).findExported target := by
  rw [findExported, findExported, normalReference_numbered, normalReference_function h]

/-- Items are found under a function with and without the number of its first overload. -/
theorem resolveReference_numbered (h : LooksUp renamed reference target)
    (hfunction : isFunction reference) :
    (ofModel model renamed).resolveReference (reference ++ "(1)") =
      (ofModel model renamed).resolveReference reference := by
  obtain ⟨htarget, hnumbered⟩ := h.numbered hfunction
  rw [resolveReference_lookup h, resolveReference_lookup hnumbered, findExported_numbered htarget]

/-- Two references to what is not exported come to the same just if the same is declared. -/
theorem findLocal_alike {other : String} :
    ((ofModel model renamed).findLocal reference).mapError ResolveError.code =
        ((ofModel model renamed).findLocal other).mapError ResolveError.code ↔
      (model.localDeclarations.get? reference).map Excerpt.tokens =
        (model.localDeclarations.get? other).map Excerpt.tokens := by
  cases hfirst : model.localDeclarations.get? reference <;>
    cases hother : model.localDeclarations.get? other <;>
    simp [findLocal, ofModel, hfirst, hother, Except.mapError, ResolveError.code]

/-- A reference to a function comes to the same with and without the number of the first overload
just if it leads to something that is exported, or the same is declared under both references. -/
theorem reference_firstOverload_iff {package path : String} (hnames : Names reference package path)
    (hfunction : isFunction reference) (text other : String) :
    ((ofModel model renamed).resolve ⟨.reference, text, some reference⟩).mapError
          ResolveError.code =
        ((ofModel model renamed).resolve ⟨.reference, other, some (reference ++ "(1)")⟩).mapError
          ResolveError.code ↔
      (IsLocal renamed reference →
        (model.localDeclarations.get? reference).map Excerpt.tokens =
          (model.localDeclarations.get? (reference ++ "(1)")).map Excerpt.tokens) := by
  rw [resolve_eq rfl rfl, resolve_eq rfl rfl]
  by_cases hlocal : IsLocal renamed reference
  · rw [resolveReference_local hlocal, resolveReference_local (hlocal.numbered hfunction),
      findLocal_alike]
    exact ⟨fun h _ => h, fun h => h hlocal⟩
  · obtain ⟨target, htarget⟩ := (hnames.local_or_lookup renamed).resolve_left hlocal
    rw [resolveReference_numbered htarget hfunction]
    exact iff_of_true rfl fun h => absurd h hlocal

/-- A function that is exported under another name because it hides a global. -/
def renamedModel : Model where
  package := "pkg"
  items := [⟨"fetch_2", .functionDecl, "pkg!fetch_2:function", some 1, [], ⟨[]⟩, none⟩]
  localDeclarations := ∅

theorem reference_firstOverload_renamed :
    Names "pkg!~fetch:function" "pkg" "~fetch:function" ∧ isFunction "pkg!~fetch:function" ∧
      ((ofModel renamedModel (Dict.ofList [("fetch", "fetch_2")])).resolve
          ⟨.reference, "fetch", some "pkg!~fetch:function"⟩).mapError ResolveError.code =
        ((ofModel renamedModel (Dict.ofList [("fetch", "fetch_2")])).resolve
          ⟨.reference, "fetch", some "pkg!~fetch:function(1)"⟩).mapError ResolveError.code := by
  have hnames : Names "pkg!~fetch:function" "pkg" "~fetch:function" :=
    ⟨by decide, by decide, by decide⟩
  have hfunction : isFunction "pkg!~fetch:function" := by decide
  exact ⟨hnames, hfunction,
    (reference_firstOverload_iff hnames hfunction "fetch" "fetch").2 fun _ => rfl⟩

/-- A function that is not exported, declared with the number of its overload. -/
def numberedModel : Model where
  package := "pkg"
  items := []
  localDeclarations := Dict.ofList [("pkg!~f:function(1)", ⟨[⟨.content, "() => void", none⟩]⟩)]

theorem resolve_numberedLocal :
    Names "pkg!~f:function" "pkg" "~f:function" ∧ isFunction "pkg!~f:function" ∧
      (ofModel numberedModel ∅).resolve ⟨.reference, "f", some "pkg!~f:function"⟩ =
        .error (.unknownLocal "pkg!~f:function") ∧
      (ofModel numberedModel ∅).resolve ⟨.reference, "f", some "pkg!~f:function(1)"⟩ =
        .ok (.expansion [⟨.content, "() => void", none⟩]) ∧
      ((ofModel numberedModel ∅).resolve
          ⟨.reference, "f", some "pkg!~f:function"⟩).mapError ResolveError.code ≠
        ((ofModel numberedModel ∅).resolve
          ⟨.reference, "f", some "pkg!~f:function(1)"⟩).mapError ResolveError.code := by
  have hbare : (ofModel numberedModel ∅).resolve ⟨.reference, "f", some "pkg!~f:function"⟩ =
      .error (.unknownLocal "pkg!~f:function") := rfl
  have hnumbered : (ofModel numberedModel ∅).resolve
      ⟨.reference, "f", some "pkg!~f:function(1)"⟩ =
        .ok (.expansion [⟨.content, "() => void", none⟩]) := rfl
  refine ⟨⟨by decide, by decide, by decide⟩, by decide, hbare, hnumbered, ?_⟩
  rw [hbare, hnumbered]
  simp [Except.mapError]

end Scope
end DocTree.Api
