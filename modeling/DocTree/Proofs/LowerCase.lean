import DocTree.Unicode.Alphanumeric
import DocTree.Unicode.Lowercase
import Mathlib.Data.List.Basic

/-! The lower case of a letter is a letter, one character at a time: where a run of capitals leads,
all characters are letters or numbers. The dotted capital I stands in no run. -/
namespace DocTree.Unicode

section Ranges
variable {ranges : List (Nat × Nat)} {n : Nat}

theorem exists_range (h : inRanges ranges n) : ∃ range ∈ ranges, range.1 ≤ n ∧ n ≤ range.2 := by
  induction ranges with
  | nil => cases h
  | cons range rest ih =>
    simp only [inRanges, Bool.and_eq_true, Bool.or_eq_true, decide_eq_true_eq] at h
    obtain ⟨hlo, hhi | hrest⟩ := h
    · exact ⟨range, List.mem_cons_self, hlo, hhi⟩
    · obtain ⟨later, hlater, hn⟩ := ih hrest
      exact ⟨later, List.mem_cons_of_mem _ hlater, hn⟩

/-- Whether one of the ranges holds all code points from the first to the last. -/
def holdsAll : List (Nat × Nat) → Nat → Nat → Bool
  | [], _, _ => false
  | (lo, hi) :: rest, first, last => lo ≤ first && (last ≤ hi || holdsAll rest first last)

theorem inRanges_of_holdsAll {first last : Nat} (h : holdsAll ranges first last)
    (hfirst : first ≤ n) (hlast : n ≤ last) : inRanges ranges n := by
  induction ranges with
  | nil => cases h
  | cons range rest ih =>
    simp only [holdsAll, Bool.and_eq_true, Bool.or_eq_true, decide_eq_true_eq] at h
    simp only [inRanges, Bool.and_eq_true, Bool.or_eq_true, decide_eq_true_eq]
    exact ⟨Nat.le_trans h.1 hfirst, h.2.imp (Nat.le_trans hlast) ih⟩

end Ranges

/-- The lower case of a code point is the code point itself, or is that of a run around it. -/
theorem lowercaseCode_cases {P : Nat → Prop} {runs : List (Nat × Nat × Nat × Nat)} {n : Nat}
    (hself : P n) (hrun : ∀ run ∈ runs, run.1 ≤ n → n ≤ run.2.1 → P (run.2.2.2 + (n - run.1))) :
    P (lowercaseCode runs n) := by
  induction runs with
  | nil => exact hself
  | cons run rest ih =>
    obtain ⟨hfirst, hrest⟩ := List.forall_mem_cons.1 hrun
    obtain ⟨first, last, step, image⟩ := run
    rw [lowercaseCode]
    split
    · exact hself
    · next hle =>
      split
      · next hin =>
        simp only [Bool.and_eq_true, decide_eq_true_eq] at hin
        exact hfirst (Nat.le_of_not_lt hle) hin.1
      · exact ih hrest

theorem lowercaseRuns_alphanumeric : lowercaseRuns.all (fun run =>
    holdsAll alphanumericRanges run.2.2.2 (run.2.2.2 + (run.2.1 - run.1))) := by
  decide +kernel

theorem alphanumericRanges_valid : alphanumericRanges.all (fun range =>
    range.2 < 0xD800 || 0xDFFF < range.1 && range.2 < 0x110000) := by
  decide +kernel

/-- Letters and numbers are characters. -/
theorem isAlphanumeric_ofNat {n : Nat} (h : inRanges alphanumericRanges n) :
    isAlphanumeric (Char.ofNat n) := by
  have hvalid : n.isValidChar := by
    obtain ⟨range, hrange, hlo, hhi⟩ := exists_range h
    have hchars := List.all_eq_true.1 alphanumericRanges_valid range hrange
    simp only [Bool.and_eq_true, Bool.or_eq_true, decide_eq_true_eq] at hchars
    unfold Nat.isValidChar
    omega
  have hcode : (Char.ofNat n).toNat = n := by
    rw [Char.ofNat, dif_pos hvalid]
    rfl
  rwa [isAlphanumeric, hcode]

theorem isAlphanumeric_lowercaseCode {c : Char} (h : isAlphanumeric c) :
    isAlphanumeric (Char.ofNat (lowercaseCode lowercaseRuns c.toNat)) := by
  refine isAlphanumeric_ofNat (lowercaseCode_cases (P := fun n => inRanges alphanumericRanges n) h ?_)
  intro run hrun hfirst hlast
  have himage := List.all_eq_true.1 lowercaseRuns_alphanumeric run hrun
  exact inRanges_of_holdsAll himage (Nat.le_add_right _ _)
    (Nat.add_le_add_left (Nat.sub_le_sub_right hlast _) _)

end DocTree.Unicode
