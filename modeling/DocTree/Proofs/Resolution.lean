import DocTree.Proofs.Cuts
import DocTree.Proofs.Lookup

/-! What a reference comes to, said of the text of the reference and of the items of the model
alone. A reference names a package and a path in it. A path with a tilde in front leads to something
that is not exported, unless its name is that of a global which is exported under another name. -/
namespace DocTree.Api
open Text

/-- The reference names the package, and the path behind the first mark. -/
structure Names (reference package path : String) : Prop where
  split : reference = package ++ "!" ++ path
  first : '!' ∉ package.toList
  named : package ≠ ""

/-- The path begins with the name, up to the first mark of what is inside it. -/
structure BeginsWith (path name rest : String) : Prop where
  split : path = name ++ rest
  name : ∀ c ∈ name.toList, ¬ (c = ':' ∨ c = '.' ∨ c = '#')
  rest : ∀ c ∈ rest.toList.head?, c = ':' ∨ c = '.' ∨ c = '#'

/-- The reference leads to something that is not exported, and no global has its name. -/
def IsLocal (renamed : Dict String) (reference : String) : Prop :=
  ∃ package path name rest, Names reference package ("~" ++ path) ∧ BeginsWith path name rest ∧
    renamed.get? name = none

/-- The reference under which the items are searched for what a reference leads to: that reference
itself, or the one with the other name of a global. -/
inductive LooksUp (renamed : Dict String) (reference : String) : String → Prop where
  | itself {package path : String} (h : Names reference package path)
    (hpath : path.toList.head? ≠ some '~') : LooksUp renamed reference reference
  | renamed {package path name rest new : String} (h : Names reference package ("~" ++ path))
    (hname : BeginsWith path name rest) (hnew : renamed.get? name = some new) :
    LooksUp renamed reference (package ++ "!" ++ new ++ rest)

section Reference
variable {reference package path name rest : String} {renamed : Dict String}

theorem names_iff (hnamed : package ≠ "") :
    cutAt? '!' reference = some (package, path) ↔ Names reference package path := by
  have hsplit : reference.toList = package.toList ++ '!' :: path.toList ↔
      reference = package ++ "!" ++ path := by simp [← String.toList_inj]
  rw [cutAt?_eq_some, hsplit]
  exact ⟨fun ⟨hs, hfirst⟩ => ⟨hs, hfirst, hnamed⟩, fun h => ⟨h.split, h.first⟩⟩

theorem splitName_eq_iff : splitName path = (name, rest) ↔ BeginsWith path name rest := by
  rw [splitName, breakAt_eq_iff]
  have hmark (c : Char) : (c == ':' || c == '.' || c == '#') ↔ (c = ':' ∨ c = '.' ∨ c = '#') := by
    simp [or_assoc]
  simp only [hmark]
  exact ⟨fun ⟨hs, hn, hr⟩ => ⟨hs, hn, hr⟩, fun h => ⟨h.split, h.name, h.rest⟩⟩

theorem exists_beginsWith (path : String) : ∃ name rest, BeginsWith path name rest :=
  ⟨_, _, splitName_eq_iff.1 rfl⟩

/-- A path without a tilde in front, or the path behind it. -/
theorem tilde_cases (path : String) :
    path.toList.head? ≠ some '~' ∨ ∃ localPath, path = "~" ++ localPath := by
  cases hpath : path.toList with
  | nil => exact .inl (by simp)
  | cons c rest =>
    by_cases hc : c = '~'
    · exact .inr ⟨String.ofList rest, by simp [← String.toList_inj, hpath, hc]⟩
    · exact .inl (by simpa using hc)

/-- A reference that names a package leads to something that is not exported, or the items are
searched for it. -/
theorem Names.local_or_lookup (h : Names reference package path) (renamed : Dict String) :
    IsLocal renamed reference ∨ ∃ target, LooksUp renamed reference target := by
  obtain hpath | ⟨localPath, rfl⟩ := tilde_cases path
  · exact .inr ⟨_, .itself h hpath⟩
  obtain ⟨name, rest, hname⟩ := exists_beginsWith localPath
  cases hnew : renamed.get? name with
  | none => exact .inl ⟨package, localPath, name, rest, h, hname, hnew⟩
  | some new => exact .inr ⟨_, .renamed h hname hnew⟩

end Reference

namespace Scope
variable {model : Model} {renamed : Dict String} {reference target : String}

theorem resolveReference_local (h : IsLocal renamed reference) :
    (ofModel model renamed).resolveReference reference =
      (ofModel model renamed).findLocal reference := by
  obtain ⟨package, path, name, rest, hnames, hname, hnew⟩ := h
  have hrenamed : (ofModel model renamed).renamed? package path = none := by
    rw [renamed?, splitName_eq_iff.2 hname]
    exact congrArg (Option.map _) hnew
  rw [resolveReference, (names_iff hnames.named).2 hnames]
  simp [hnames.named, hrenamed]

theorem resolveReference_lookup (h : LooksUp renamed reference target) :
    (ofModel model renamed).resolveReference reference =
      (ofModel model renamed).findExported target := by
  cases h with
  | @itself package path hnames hpath =>
    rw [resolveReference, (names_iff hnames.named).2 hnames]
    dsimp only
    rw [if_neg hnames.named]
    split
    · next localPath hlocal => exact absurd (by rw [hlocal]; rfl) hpath
    · rfl
  | @renamed package path name rest new hnames hname hnew =>
    have hrenamed : (ofModel model renamed).renamed? package path =
        some (package ++ "!" ++ new ++ rest) := by
      rw [renamed?, splitName_eq_iff.2 hname]
      exact congrArg (Option.map _) hnew
    rw [resolveReference, (names_iff hnames.named).2 hnames]
    simp [hnames.named, hrenamed]

theorem resolve_eq {token : Token} (hkind : token.kind = .reference)
    (h : token.reference = some reference) :
    (ofModel model renamed).resolve token =
      (ofModel model renamed).resolveReference reference := by
  simp [resolve, Token.reference?, hkind, h]

end Scope
end DocTree.Api
