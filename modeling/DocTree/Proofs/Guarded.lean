import DocTree.Proofs.Markup
import Mathlib.Algebra.Ring.Parity
import Mathlib.Data.List.Induction

/-! Characters behind backslashes. A reader takes a backslash together with the character behind it, so
a character means nothing of its own behind an odd number of them. Texts in which some marks always
stand like that can be put behind one another if they end in an even number of backslashes. -/
namespace DocTree.Markdown
open Text

/-- How many backslashes a text ends in. -/
def backslashes (cs : List Char) : Nat := (cs.reverse.takeWhile (· == '\\')).length

/-- Each of the marks stands behind an odd number of backslashes, and an even number of them is at the
end. -/
structure Guarded (marks cs : List Char) : Prop where
  behind : ∀ before c after, cs = before ++ c :: after → c ∈ marks → Odd (backslashes before)
  ends : Even (backslashes cs)

variable {marks cs ds : List Char}

theorem backslashes_concat (cs : List Char) (c : Char) :
    backslashes (cs ++ [c]) = if c = '\\' then backslashes cs + 1 else 0 := by
  by_cases hc : c = '\\' <;> simp [backslashes, hc]

/-- Only the backslashes of the second part count where those of the first one are even. -/
theorem even_backslashes_append (h : Even (backslashes cs)) (ds : List Char) :
    Even (backslashes (cs ++ ds)) ↔ Even (backslashes ds) := by
  induction ds using List.reverseRecOn with
  | nil => simpa [backslashes] using h
  | append_singleton ds c ih =>
    rw [← List.append_assoc, backslashes_concat, backslashes_concat]
    split
    · rw [Nat.even_add_one, Nat.even_add_one, ih]
    · rfl

theorem Guarded.append (hcs : Guarded marks cs) (hds : Guarded marks ds) :
    Guarded marks (cs ++ ds) := by
  refine ⟨fun before c after hsplit hc => ?_, (even_backslashes_append hcs.ends ds).2 hds.ends⟩
  rcases split_append hsplit with ⟨tail, hfirst, -⟩ | ⟨more, hbefore, hsecond⟩
  · exact hcs.behind before c tail hfirst hc
  · -- Before the second part there are an even number of backslashes, which make no difference.
    have hodd := hds.behind more c after hsecond hc
    rwa [hbefore, ← Nat.not_even_iff_odd, even_backslashes_append hcs.ends, Nat.not_even_iff_odd]

theorem guarded_nil (marks : List Char) : Guarded marks [] :=
  ⟨fun before _ _ hsplit => by simp at hsplit, Even.zero⟩

/-- Parts that are guarded on their own make a guarded text. -/
theorem guarded_flatMap {α : Type} {parts : List α} {write : α → List Char}
    (h : ∀ part ∈ parts, Guarded marks (write part)) : Guarded marks (parts.flatMap write) := by
  induction parts with
  | nil => exact guarded_nil marks
  | cons part rest ih =>
    obtain ⟨hpart, hrest⟩ := List.forall_mem_cons.1 h
    rw [List.flatMap_cons]
    exact hpart.append (ih hrest)

/-- Without marks and backslashes there is nothing to guard. -/
theorem guarded_plain (h : ∀ c ∈ cs, c ∉ '\\' :: marks) : Guarded marks cs := by
  refine ⟨?_, ?_⟩
  · rintro before c after rfl hc
    exact absurd (List.mem_cons_of_mem _ hc) (h c (by simp))
  · rcases List.eq_nil_or_concat' cs with rfl | ⟨front, c, rfl⟩
    · exact Even.zero
    · have hc : c ≠ '\\' := fun heq => h c (by simp) (heq ▸ List.mem_cons_self)
      rw [backslashes_concat, if_neg hc]
      exact Even.zero

/-- A backslash guards any one character, another backslash included. -/
theorem guarded_backslash (h : '\\' ∉ marks) (c : Char) : Guarded marks ['\\', c] := by
  have hone : backslashes ['\\'] = 1 := rfl
  refine ⟨fun before d after hsplit hd => ?_, ?_⟩
  · cases before with
    | nil =>
      obtain ⟨rfl, -⟩ := List.cons.inj hsplit
      exact absurd hd h
    | cons first before =>
      obtain ⟨rfl, hrest⟩ := List.cons.inj hsplit
      cases before with
      | nil => exact hone ▸ odd_one
      | cons e more => simp at hrest
  · have hconcat := backslashes_concat ['\\'] c
    rw [hone] at hconcat
    rw [← List.singleton_append, hconcat]
    split <;> decide

end DocTree.Markdown
