import DocTree.Text.Split
import Mathlib.Data.List.TakeWhile

/-! Where texts are cut: the parts put together give the text, and the first part ends as soon as it
can. -/
namespace DocTree.Text

/-- A list falls apart at the first member that fails in one way only. -/
theorem takeWhile_dropWhile_eq_iff {p : Char → Bool} {cs before rest : List Char} :
    cs.takeWhile p = before ∧ cs.dropWhile p = rest ↔
      cs = before ++ rest ∧ (∀ c ∈ before, p c) ∧ ∀ c ∈ rest.head?, ¬ p c := by
  constructor
  · rintro ⟨rfl, rfl⟩
    refine ⟨List.takeWhile_append_dropWhile.symm, fun c hc => List.mem_takeWhile_imp hc, ?_⟩
    intro c hc
    have hfails := List.head?_dropWhile_not p cs
    rw [hc] at hfails
    exact Bool.eq_false_iff.1 hfails
  · rintro ⟨rfl, hbefore, hrest⟩
    rw [List.takeWhile_append_of_pos hbefore, List.dropWhile_append_of_pos hbefore]
    cases rest with
    | nil => exact ⟨List.append_nil _, rfl⟩
    | cons c rest =>
      have hc : ¬ p c := hrest c rfl
      exact ⟨by rw [List.takeWhile_cons_of_neg hc, List.append_nil],
        List.dropWhile_cons_of_neg hc⟩

theorem cutAt?_eq_none {sep : Char} {s : String} : cutAt? sep s = none ↔ sep ∉ s.toList := by
  have hnone : s.toList.dropWhile (· != sep) = [] ↔ sep ∉ s.toList := by
    rw [List.dropWhile_eq_nil_iff]
    exact ⟨fun h hsep => by simpa using h sep hsep, fun h c hc => bne_iff_ne.2 fun heq => h (heq ▸ hc)⟩
  rw [← hnone, cutAt?]
  cases s.toList.dropWhile (· != sep) <;> simp

/-- A text is cut where the character occurs first. -/
theorem cutAt?_eq_some {sep : Char} {s before after : String} :
    cutAt? sep s = some (before, after) ↔
      s.toList = before.toList ++ sep :: after.toList ∧ sep ∉ before.toList := by
  have hcut : cutAt? sep s = some (before, after) ↔
      s.toList.takeWhile (· != sep) = before.toList ∧
        ∃ c, s.toList.dropWhile (· != sep) = c :: after.toList := by
    rw [cutAt?]
    cases s.toList.dropWhile (· != sep) <;> simp [← String.toList_inj]
  rw [hcut, ← exists_and_left]
  simp only [takeWhile_dropWhile_eq_iff]
  constructor
  · rintro ⟨c, hsplit, hbefore, hc⟩
    obtain rfl : c = sep := by simpa using hc
    exact ⟨hsplit, fun hsep => by simpa using hbefore c hsep⟩
  · rintro ⟨hsplit, hbefore⟩
    exact ⟨sep, hsplit, fun c hc => bne_iff_ne.2 fun heq => hbefore (heq ▸ hc), by simp⟩

theorem breakAt_eq_iff {sep : Char → Bool} {s before rest : String} :
    breakAt sep s = (before, rest) ↔ s = before ++ rest ∧
      (∀ c ∈ before.toList, ¬ sep c) ∧ ∀ c ∈ rest.toList.head?, sep c := by
  have hbreak : breakAt sep s = (before, rest) ↔
      (s.toList.takeWhile fun c => !sep c) = before.toList ∧
        (s.toList.dropWhile fun c => !sep c) = rest.toList := by
    simp [breakAt, ← String.toList_inj]
  rw [hbreak, takeWhile_dropWhile_eq_iff]
  simp [← String.toList_inj]

end DocTree.Text
