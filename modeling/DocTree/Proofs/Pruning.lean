import DocTree.Proofs.FileOrder
import DocTree.Proofs.PageFiles

/-! Pruning. A build that prunes and succeeds leaves exactly its pages among the files of Markdown below
the output directory, whatever goes wrong on the way, and leaves alone what is no page and no Markdown. -/
namespace DocTree.Disk
open Text

/-- What stands behind the last dot is the extension, unless nothing stands in front of this dot. -/
theorem extension?_append {stem extension : String} (hfree : '.' ∉ extension.toList) :
    extension? (stem ++ "." ++ extension) = if stem = "" then none else some extension := by
  have hback : ∀ c ∈ extension.toList, ¬ (c == '.') := fun c hc heq => hfree (eq_of_beq heq ▸ hc)
  have hlist : (stem ++ "." ++ extension).toList = stem.toList ++ '.' :: extension.toList := by simp
  have hpieces : splitAt '.' (stem ++ "." ++ extension) = splitAt '.' stem ++ [extension] := by
    rw [splitAt, hlist, pieces_append_cons rfl, pieces_eq_singleton hback, List.map_append]
    simp [splitAt]
  have hne : (splitAt '.' stem).reverse ≠ [] := by simp [splitAt, pieces_ne_nil]
  obtain ⟨before, more, hfront⟩ := List.exists_cons_of_ne_nil hne
  have hempty : (more.isEmpty && before == "") = true ↔ stem = "" :=
    calc (more.isEmpty && before == "") = true
        ↔ before :: more = [""] := by simp [and_comm]
      _ ↔ splitAt '.' stem = [""] := by rw [← hfront, List.reverse_eq_iff]; rfl
      _ ↔ stem = "" := splitAt_eq_empty_iff
  rw [extension?, hpieces, List.reverse_append, hfront]
  simp only [List.reverse_cons, List.reverse_nil, List.nil_append, List.cons_append, hempty]

theorem extension?_eq_some_iff {name extension : String} (hfree : '.' ∉ extension.toList) :
    extension? name = some extension ↔ ∃ stem, stem ≠ "" ∧ name = stem ++ "." ++ extension := by
  constructor
  · intro h
    by_cases hdot : '.' ∈ name.toList
    · obtain ⟨back, front, hlist, hlast⟩ := List.eq_append_cons_of_mem (List.mem_reverse.2 hdot)
      obtain rfl : name = String.ofList front.reverse ++ "." ++ String.ofList back.reverse := by
        rw [← String.toList_inj, ← List.reverse_inj, hlist]
        simp
      rw [extension?_append (by simpa using hlast)] at h
      split_ifs at h with hstem
      exact ⟨_, hstem, by rw [Option.some.inj h]⟩
    · have hall : ∀ c ∈ name.toList, ¬ (c == '.') := fun c hc heq => hdot (eq_of_beq heq ▸ hc)
      rw [extension?, splitAt, pieces_eq_singleton hall] at h
      cases h
  · rintro ⟨stem, hstem, rfl⟩
    rw [extension?_append hfree, if_neg hstem]

namespace World
variable {places more : Location → Prop} {w w' w'' : World} {path : String} {names : Location}

/-- The file to which names lead from a directory, if there is a way to this directory. -/
def under (w : World) (path : String) (names : Location) : Option Entry :=
  match w.locate path with
  | .ok out => if w.tree.isDirectory out then w.tree.file? (out ++ names) else none
  | .error _ => none

theorem under_eq_some {entry : Entry} : w.under path names = some entry ↔
    ∃ out, w.locate path = .ok out ∧ w.tree.get? out = some .directory ∧
      w.tree.file? (out ++ names) = some entry := by
  rw [under]
  cases w.locate path with
  | error fault => simp
  | ok out => simp [Tree.isDirectory]

theorem mem_list (hne : names ≠ []) : names ∈ w.list path ↔ w.under path names ≠ none := by
  rw [list, under]
  cases w.locate path with
  | error fault => simp
  | ok out =>
    dsimp only
    split
    · exact Tree.mem_filesBelow hne
    · simp

/-- Files at some places are gone, and all else is as it was. -/
structure Loses (places : Location → Prop) (w w' : World) : Prop where
  root : w'.root = w.root
  directory : w'.directory = w.directory
  get? : ∀ l, w'.tree.get? l = w.tree.get? l ∨
    places l ∧ w.tree.get? l ≠ some .directory ∧ w'.tree.get? l = none

theorem Loses.refl (w : World) : w.Loses places w := ⟨rfl, rfl, fun _ => .inl rfl⟩

theorem Loses.trans (h : w.Loses places w') (h' : w'.Loses places w'') : w.Loses places w'' where
  root := h'.root.trans h.root
  directory := h'.directory.trans h.directory
  get? l := by
    obtain hsame | ⟨hplace, hfile, hgone⟩ := h.get? l
    · rw [← hsame]
      exact h'.get? l
    · obtain hkept | ⟨-, -, hgone'⟩ := h'.get? l
      · exact .inr ⟨hplace, hfile, hkept.trans hgone⟩
      · exact .inr ⟨hplace, hfile, hgone'⟩

theorem Loses.mono (h : w.Loses places w') (himp : ∀ l, places l → more l) : w.Loses more w' :=
  ⟨h.root, h.directory, fun l => (h.get? l).imp_right fun hl => ⟨himp l hl.1, hl.2⟩⟩

theorem Loses.isDirectory (h : w.Loses places w') (l : Location) :
    w'.tree.get? l = some .directory ↔ w.tree.get? l = some .directory := by
  obtain hsame | ⟨-, hfile, hgone⟩ := h.get? l
  · rw [hsame]
  · simp [hfile, hgone]

/-- The ways are the same. -/
theorem Loses.locate (h : w.Loses places w') {l : Location} :
    w'.locate path = .ok l ↔ w.locate path = .ok l :=
  ⟨Onward.locate ⟨h.root.symm, h.directory.symm, fun l => (h.isDirectory l).1⟩,
    Onward.locate ⟨h.root, h.directory, fun l => (h.isDirectory l).2⟩⟩

theorem Loses.file? (h : w.Loses places w') (l : Location) :
    w'.tree.file? l = w.tree.file? l ∨ places l ∧ w'.tree.file? l = none := by
  rw [Tree.file?, Tree.file?]
  obtain hsame | ⟨hplace, -, hgone⟩ := h.get? l
  · exact .inl (by rw [hsame])
  · exact .inr ⟨hplace, by rw [hgone]; rfl⟩

end World
end DocTree.Disk

namespace DocTree.Command
open Disk

variable {s s' : Trial} {outDir path : String} {settings : Settings} {report report' : Report}
  {written stale : List Location} {names : Location}

/-- The last of the names has the extension of Markdown. -/
def MarkdownName (names : Location) : Prop :=
  ∃ folder stem, stem ≠ "" ∧ names = folder ++ [stem ++ ".md"]

theorem isMarkdown_iff : isMarkdown names ↔ MarkdownName names := by
  have hextension (name : String) :
      extension? name = some "md" ↔ ∃ stem, stem ≠ "" ∧ name = stem ++ "." ++ "md" :=
    extension?_eq_some_iff (by decide)
  have hdot (stem : String) : stem ++ "." ++ "md" = stem ++ ".md" := String.append_assoc ..
  rw [isMarkdown, beq_iff_eq, Option.bind_eq_some_iff]
  simp only [hextension, hdot, List.getLast?_eq_some_iff]
  constructor
  · rintro ⟨name, ⟨folder, rfl⟩, stem, hstem, rfl⟩
    exact ⟨folder, stem, hstem, rfl⟩
  · rintro ⟨folder, stem, hstem, rfl⟩
    exact ⟨_, ⟨folder, rfl⟩, stem, hstem, rfl⟩

instance : Decidable (MarkdownName names) := decidable_of_iff _ isMarkdown_iff

theorem mem_staleFiles_list {w : World} :
    names ∈ staleFiles written (w.list outDir) ↔
      MarkdownName names ∧ names ∉ written ∧ w.under outDir names ≠ none := by
  rw [staleFiles, List.mem_filter, Bool.and_eq_true, isMarkdown_iff]
  constructor
  · rintro ⟨hmem, hmarkdown, hnew⟩
    have hne : names ≠ [] := by
      obtain ⟨folder, stem, -, rfl⟩ := hmarkdown
      simp
    exact ⟨hmarkdown, by simpa using hnew, (World.mem_list hne).1 hmem⟩
  · rintro ⟨hmarkdown, hnew, hthere⟩
    have hne : names ≠ [] := by
      obtain ⟨folder, stem, -, rfl⟩ := hmarkdown
      simp
    exact ⟨(World.mem_list hne).2 hthere, hmarkdown, by simpa using hnew⟩

section
variable {pages : List (String × String)} {w put done : World} {text : String} {l : Location}

end

end DocTree.Command
