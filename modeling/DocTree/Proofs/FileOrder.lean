import DocTree.Proofs.Files
import Mathlib.Data.List.Sort

/-! The files below a directory, in order. Lists of locations that hold the same and are in this
order are the same list, in whatever way they have been put in order. -/
namespace DocTree.Disk.Tree

variable {l l' l'' : Location}

theorem comesFirst_cons {a b : String} : comesFirst (a :: l) (b :: l') ↔
    a < b ∨ a = b ∧ comesFirst l l' := by
  simp only [comesFirst, Bool.or_eq_true, Bool.and_eq_true, decide_eq_true_eq, beq_iff_eq]

theorem comesFirst_total (l l' : Location) : comesFirst l l' ∨ comesFirst l' l := by
  induction l generalizing l' with
  | nil => exact .inl rfl
  | cons a as ih =>
    cases l' with
    | nil => exact .inr rfl
    | cons b bs =>
      rw [comesFirst_cons, comesFirst_cons]
      by_cases hlt : a < b
      · exact .inl (.inl hlt)
      by_cases hgt : b < a
      · exact .inr (.inl hgt)
      obtain rfl := String.le_antisymm (String.not_lt.1 hgt) (String.not_lt.1 hlt)
      exact (ih bs).imp (fun h => .inr ⟨rfl, h⟩) fun h => .inr ⟨rfl, h⟩

theorem comesFirst_trans (h : comesFirst l l') (h' : comesFirst l' l'') : comesFirst l l'' := by
  induction l generalizing l' l'' with
  | nil => rfl
  | cons a as ih =>
    cases l' with
    | nil => cases h
    | cons b bs =>
      cases l'' with
      | nil => cases h'
      | cons c cs =>
        rw [comesFirst_cons] at h h' ⊢
        obtain hlt | ⟨rfl, hrest⟩ := h
        · obtain hlt' | ⟨rfl, -⟩ := h'
          · exact .inl (String.lt_trans hlt hlt')
          · exact .inl hlt
        · exact h'.imp_right fun hsame => ⟨hsame.1, ih hrest hsame.2⟩

theorem comesFirst_antisymm (h : comesFirst l l') (h' : comesFirst l' l) : l = l' := by
  induction l generalizing l' with
  | nil =>
    cases l' with
    | nil => rfl
    | cons b bs => cases h'
  | cons a as ih =>
    cases l' with
    | nil => cases h
    | cons b bs =>
      rw [comesFirst_cons] at h h'
      obtain hlt | ⟨rfl, hrest⟩ := h
      · obtain hgt | ⟨rfl, -⟩ := h'
        · exact absurd hgt (String.lt_asymm hlt)
        · exact absurd hlt (String.lt_irrefl _)
      · obtain hlt | ⟨-, hrest'⟩ := h'
        · exact absurd hlt (String.lt_irrefl _)
        · rw [ih hrest hrest']

variable {names names' : List Location}

theorem eq_of_comesFirst (hperm : names.Perm names') (h : names.Pairwise (comesFirst · ·))
    (h' : names'.Pairwise (comesFirst · ·)) : names = names' :=
  hperm.eq_of_pairwise (fun _ _ _ _ => comesFirst_antisymm) h h'

theorem pairwise_mergeSort (names : List Location) :
    (names.mergeSort comesFirst).Pairwise (comesFirst · ·) := by
  refine List.pairwise_mergeSort (fun l l' l'' => ?_) (fun l l' => ?_) names
  · exact comesFirst_trans
  · rw [Bool.or_eq_true]
    exact comesFirst_total l l'

variable {t : Tree} {place : Location}

/-- The names of the files below a directory in the order of the tree. -/
def namesBelow (t : Tree) (place : Location) : List Location :=
  (t.entries.filter fun e => e.2 != .directory && place.isPrefixOf e.1).map
    (·.1.drop place.length)

theorem filesBelow_eq_mergeSort (t : Tree) (place : Location) :
    t.filesBelow place = (t.namesBelow place).mergeSort comesFirst := by
  rw [filesBelow, namesBelow, ← List.filterMap_eq_map, List.filterMap_filter]
  congr 2
  funext e
  obtain ⟨l, entry⟩ := e
  cases entry <;> simp

theorem nodup_filesBelow (t : Tree) (place : Location) : (t.filesBelow place).Nodup := by
  have hkeys := nodup_filter (fun e => e.2 != .directory && place.isPrefixOf e.1) t.distinct
  rw [filesBelow_eq_mergeSort, (List.mergeSort_perm ..).nodup_iff, namesBelow]
  refine List.Nodup.map_on ?_ hkeys.of_map
  intro e he e' he' hsame
  simp only [List.mem_filter, Bool.and_eq_true, List.isPrefixOf_iff_prefix] at he he'
  obtain ⟨more, hmore⟩ := he.2.2
  obtain ⟨more', hmore'⟩ := he'.2.2
  have hplace : e.1 = e'.1 := by
    rw [← hmore, ← hmore', List.drop_left, List.drop_left] at hsame
    rw [← hmore, ← hmore', hsame]
  exact List.inj_on_of_nodup_map t.distinct he.1 he'.1 hplace

theorem mem_filesBelow {names : Location} (hne : names ≠ []) :
    names ∈ t.filesBelow place ↔ t.file? (place ++ names) ≠ none := by
  refine ⟨fun h => file?_of_mem_filesBelow h hne, fun h => ?_⟩
  obtain ⟨entry, hentry⟩ := Option.ne_none_iff_exists'.1 h
  obtain ⟨hget, hfile⟩ := Option.filter_eq_some_iff.1 hentry
  rw [get?_of_ne t (by simp [hne])] at hget
  obtain ⟨before, after, hentries, -⟩ := List.lookup_eq_some_iff.1 hget
  rw [filesBelow_eq_mergeSort, List.mem_mergeSort]
  refine List.mem_map.2 ⟨(place ++ names, entry), List.mem_filter.2 ⟨?_, ?_⟩, List.drop_left⟩
  · simp [hentries]
  · simp [hfile]

end DocTree.Disk.Tree
