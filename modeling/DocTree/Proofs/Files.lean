import DocTree.Disk.Trial
import DocTree.Proofs.Paths

/-! What a step does to the files of a world, whether or not it goes wrong: making directories
changes no file, and writing or removing one changes no file but the one at its place. -/
namespace DocTree.Disk

theorem lookup_filter_ne {entries : List (Location × Entry)} (place location : Location) :
    (entries.filter fun e => e.1 != place).lookup location =
      if location = place then none else entries.lookup location := by
  induction entries with
  | nil => simp
  | cons e rest ih =>
    by_cases hkept : e.1 = place
    · rw [List.filter_cons_of_neg (by simpa using hkept), ih, Dict.lookup_cons_eq, hkept]
      split_ifs <;> rfl
    · rw [List.filter_cons_of_pos (by simpa using hkept), Dict.lookup_cons_eq,
        Dict.lookup_cons_eq, ih]
      split_ifs with h hplace
      · exact absurd (h.symm.trans hplace) hkept
      · rfl
      · rfl
      · rfl

namespace Tree
variable {t : Tree} {place location : Location}

@[simp] theorem get?_root (t : Tree) : t.get? [] = some .directory := rfl

theorem get?_of_ne (t : Tree) (h : location ≠ []) : t.get? location = t.entries.lookup location :=
  if_neg h

theorem get?_set (t : Tree) (entry : Entry) (hplace : place ≠ []) (location : Location) :
    (t.set place entry).get? location =
      if location = place then some entry else t.get? location := by
  by_cases hroot : location = []
  · rw [hroot, if_neg (Ne.symm hplace), get?_root, get?_root]
  · rw [get?_of_ne _ hroot, get?_of_ne _ hroot, set, Dict.lookup_cons_eq, lookup_filter_ne]
    split_ifs <;> rfl

theorem get?_erase (t : Tree) (hplace : place ≠ []) (location : Location) :
    (t.erase place).get? location = if location = place then none else t.get? location := by
  by_cases hroot : location = []
  · rw [hroot, if_neg (Ne.symm hplace), get?_root, get?_root]
  · rw [get?_of_ne _ hroot, get?_of_ne _ hroot, erase, lookup_filter_ne]

/-- The file at a location. -/
def file? (t : Tree) (location : Location) : Option Entry :=
  (t.get? location).filter (· != .directory)

/-- Every name in the tree is one that a file or a directory can have. -/
def Named (t : Tree) : Prop := ∀ e ∈ t.entries, ∀ name ∈ e.1, IsName name

instance (t : Tree) : Decidable t.Named :=
  inferInstanceAs (Decidable (∀ e ∈ t.entries, ∀ name ∈ e.1, IsName name))

theorem Named.of_file? (h : t.Named) (hfile : t.file? location ≠ none) :
    ∀ name ∈ location, IsName name := by
  have hne : location ≠ [] := by rintro rfl; exact hfile rfl
  obtain ⟨entry, hentry⟩ : ∃ entry, t.get? location = some entry :=
    Option.ne_none_iff_exists'.1 fun hnone => hfile (by rw [file?, hnone]; rfl)
  rw [get?_of_ne _ hne] at hentry
  obtain ⟨before, after, hentries, -⟩ := List.lookup_eq_some_iff.1 hentry
  exact h (location, entry) (by simp [hentries])

/-- What is listed below a directory are the files that stand there. -/
theorem file?_of_mem_filesBelow {names : Location} (h : names ∈ t.filesBelow place)
    (hne : names ≠ []) : t.file? (place ++ names) ≠ none := by
  obtain ⟨⟨location, entry⟩, hmem, hnames⟩ := List.mem_filterMap.1 (List.mem_mergeSort.1 h)
  obtain ⟨hfile, hbelow, rfl⟩ : entry ≠ .directory ∧ place <+: location ∧
      location.drop place.length = names := by
    dsimp only at hnames
    split at hnames
    · cases hnames
    · next hfile => exact ⟨hfile, by simpa using hnames⟩
  obtain ⟨names, rfl⟩ := hbelow
  rw [List.drop_left] at hne ⊢
  have hget : t.get? (place ++ names) = some entry :=
    (get?_of_ne t (by simp [hne])).trans (Dict.lookup_of_mem t.distinct hmem)
  rw [file?, hget]
  simpa using hfile

/-- Making directories changes no file, and takes no directory away. -/
theorem get?_makeDirectories (t : Tree) (here : Location) (pieces : List String)
    (location : Location) :
    (t.makeDirectories here pieces).2.get? location = t.get? location ∨
      t.get? location = none ∧
        (t.makeDirectories here pieces).2.get? location = some .directory := by
  induction pieces generalizing t here with
  | nil => exact .inl rfl
  | cons piece rest ih =>
    rw [makeDirectories]
    split_ifs
    · exact ih t here
    · exact ih t here.dropLast
    · have hne : here ++ [piece] ≠ [] := by simp
      dsimp only
      split
      · exact ih t (here ++ [piece])
      · exact .inl rfl
      · next hnone =>
        have hset := get?_set t .directory hne location
        rcases ih (t.set (here ++ [piece]) .directory) (here ++ [piece]) with h | ⟨h, hmade⟩
        · rw [h, hset]
          split_ifs with hplace
          · exact .inr ⟨hplace ▸ hnone, rfl⟩
          · exact .inl rfl
        · rw [hset] at h
          split_ifs at h
          exact .inr ⟨h, hmade⟩

theorem file?_makeDirectories (t : Tree) (here : Location) (pieces : List String)
    (location : Location) :
    (t.makeDirectories here pieces).2.file? location = t.file? location := by
  rw [file?, file?]
  rcases t.get?_makeDirectories here pieces location with h | ⟨hnone, hmade⟩
  · rw [h]
  · rw [hnone, hmade]; rfl

end Tree

/-- Files of a world differ from those of another one only at some locations. -/
structure World.Differs (places : Location → Prop) (w w' : World) : Prop where
  root : w'.root = w.root
  directory : w'.directory = w.directory
  file? : ∀ location, w'.tree.file? location ≠ w.tree.file? location → places location

namespace World
variable {places more : Location → Prop} {w w' w'' : World}

theorem Differs.refl (w : World) : w.Differs places w := ⟨rfl, rfl, fun _ h => absurd rfl h⟩

theorem Differs.trans (h : w.Differs places w') (h' : w'.Differs places w'') :
    w.Differs places w'' where
  root := h'.root.trans h.root
  directory := h'.directory.trans h.directory
  file? location hne := by
    by_cases hsame : w''.tree.file? location = w'.tree.file? location
    · exact h.file? location (hsame ▸ hne)
    · exact h'.file? location hsame

theorem Differs.mono (h : w.Differs places w') (himp : ∀ l, places l → more l) :
    w.Differs more w' :=
  ⟨h.root, h.directory, fun l hne => himp l (h.file? l hne)⟩

theorem Differs.place (h : w.Differs places w') (path : String) : w'.place path = w.place path :=
  place_congr h.root h.directory

theorem differs_make (w : World) (path : String) : w.Differs places (w.make path).2 := by
  rw [make]
  split
  · exact ⟨rfl, rfl, fun _ h => absurd (Tree.file?_makeDirectories ..) h⟩
  · exact .refl w

theorem differs_makeSome (w : World) (progress : Nat) (path : String) :
    w.Differs places (w.makeSome progress path) := by
  rw [makeSome]
  split
  · exact ⟨rfl, rfl, fun _ h => absurd (Tree.file?_makeDirectories ..) h⟩
  · exact .refl w

theorem write_cases (w : World) (path content : String) :
    w.write path content = (false, w) ∨
      ∃ place, w.locate path = .ok place ∧ w.tree.get? place ≠ some .directory ∧
        w.write path content = (true, { w with tree := w.tree.set place (.file content) }) := by
  rw [write]
  split
  · next place hplace =>
    split
    · exact .inl rfl
    · next hfile => exact .inr ⟨place, hplace, by simpa [Tree.isDirectory] using hfile, rfl⟩
  · exact .inl rfl

theorem differs_write (w : World) (path content : String) :
    w.Differs (w.place path = some ·) (w.write path content).2 := by
  obtain h | ⟨place, hplace, hfile, h⟩ := w.write_cases path content
  · rw [h]
    exact .refl w
  · rw [h]
    have hne : place ≠ [] := by rintro rfl; exact hfile rfl
    refine ⟨rfl, rfl, fun l hchanged => ?_⟩
    by_contra hother
    refine hchanged ?_
    rw [Tree.file?, Tree.file?, Tree.get?_set _ _ hne, if_neg]
    rintro rfl
    exact hother (place_of_locate hplace)

theorem differs_remove (w : World) (path : String) :
    w.Differs (w.place path = some ·) (w.remove path).2 := by
  rw [remove]
  split
  · next place hplace =>
    split
    · exact .refl w
    · exact .refl w
    · next entry hfile hentry =>
      have hne : place ≠ [] := by
        rintro rfl
        exact hfile (Option.some.inj hentry).symm
      refine ⟨rfl, rfl, fun l h => ?_⟩
      by_contra hother
      refine h ?_
      rw [Tree.file?, Tree.file?, Tree.get?_erase _ hne, if_neg]
      rintro rfl
      exact hother (place_of_locate hplace)
  · exact .refl w

end World

namespace Trial
variable {places : Location → Prop}

theorem differs_look {α : Type} (s : Trial) (view : World → α) (otherwise : α) :
    s.world.Differs places (s.look view otherwise).2.world := .refl _

theorem differs_make (s : Trial) (path : String) :
    s.world.Differs places (s.make path).2.world := by
  rw [make]
  split
  · exact s.world.differs_make path
  · exact .refl _
  · exact s.world.differs_makeSome _ path

theorem differs_write (s : Trial) (path content : String) :
    s.world.Differs (s.world.place path = some ·) (s.write path content).2.world := by
  rw [write]
  split
  · exact s.world.differs_write path content
  · exact .refl _
  · exact s.world.differs_write path _

theorem differs_remove (s : Trial) (path : String) :
    s.world.Differs (s.world.place path = some ·) (s.remove path).2.world := by
  rw [remove]
  split
  · exact s.world.differs_remove path
  · exact .refl _

end Trial
end DocTree.Disk
