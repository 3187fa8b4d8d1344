import DocTree.Unicode.Ranges

/-! White space: the White_Space property, and what is cut off a text by it. -/
namespace DocTree.Unicode

def blankRanges : List (Nat × Nat) :=
  [(9, 13), (32, 32), (133, 133), (160, 160), (5760, 5760), (8192, 8202), (8232, 8233),
    (8239, 8239), (8287, 8287), (12288, 12288)]

/-- Whether a character is white space. -/
def isBlank (c : Char) : Bool := inRanges blankRanges c.toNat

/-- The text without the white space at its end. -/
def dropBlankEnd (cs : List Char) : List Char := (cs.reverse.dropWhile isBlank).reverse

theorem dropBlankEnd_append {cs rest : List Char} (h : ∀ c ∈ rest, isBlank c) :
    dropBlankEnd (cs ++ rest) = dropBlankEnd cs := by
  unfold dropBlankEnd
  rw [List.reverse_append, List.dropWhile_append_of_pos (by simpa using h)]

/-- The text without the white space at its start and at its end. -/
def trimBlank (cs : List Char) : List Char := dropBlankEnd (cs.dropWhile isBlank)

end DocTree.Unicode
