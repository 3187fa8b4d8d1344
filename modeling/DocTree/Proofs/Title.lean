import DocTree.Proofs.Guarded
import DocTree.Unicode.Punctuation

/-! Titles of links are read back. What is written for a title has its quotes, and in a table its bars,
behind backslashes, and no backslash of the title is left to take the quote that ends it away. -/
namespace DocTree.Markdown
open Text Unicode
variable {inTable : Bool} {c : Char}

/-- The characters that would end a title, or the cell that it stands in. -/
def titleMarks (inTable : Bool) : List Char := if inTable then ['"', '|'] else ['"']

/-- The text with one level of backslashes taken away: those in front of punctuation. -/
def withoutBackslashes : List Char → List Char
  | '\\' :: c :: rest =>
    if isAsciiPunctuation c then c :: withoutBackslashes rest
    else '\\' :: withoutBackslashes (c :: rest)
  | c :: rest => c :: withoutBackslashes rest
  | [] => []

/-- The title with one kind of character replaced after the other, each in the whole text. -/
def replacedInTurn (title : String) (inTable : Bool) : String :=
  let oneLine := replaceChar '\n' " " title
  let quoted := replaceChar '"' "\\\"" (replaceChar '\\' "\\\\" oneLine)
  if inTable then replaceChar '|' "\\|" quoted else quoted

/-- A character of a title becomes a space, or it gets a backslash, or it is neither a backslash nor a
mark and stays as it is. -/
theorem titleChar_forms (inTable : Bool) (c : Char) :
    c = '\n' ∧ titleChar inTable c = [' '] ∨
      c ≠ '\n' ∧ isAsciiPunctuation c ∧ titleChar inTable c = ['\\', c] ∨
      c ≠ '\n' ∧ c ∉ '\\' :: titleMarks inTable ∧ titleChar inTable c = [c] := by
  by_cases hbreak : c = '\n'
  · exact .inl ⟨hbreak, if_pos hbreak⟩
  · by_cases hmark : c = '\\' ∨ c = '"' ∨ (c = '|' ∧ inTable)
    · have hpunctuation : isAsciiPunctuation c := by
        obtain rfl | rfl | ⟨rfl, -⟩ := hmark <;> rfl
      exact .inr (.inl ⟨hbreak, hpunctuation, by rw [titleChar, if_neg hbreak, if_pos hmark]⟩)
    · have hplain : c ∉ '\\' :: titleMarks inTable := by
        cases inTable <;> simpa [titleMarks] using hmark
      exact .inr (.inr ⟨hbreak, hplain, by rw [titleChar, if_neg hbreak, if_neg hmark]⟩)

theorem guarded_titleChar (inTable : Bool) (c : Char) :
    Guarded (titleMarks inTable) (titleChar inTable c) := by
  have hnone : '\\' ∉ titleMarks inTable := by cases inTable <;> decide
  have hspace : ' ' ∉ '\\' :: titleMarks inTable := by cases inTable <;> decide
  obtain ⟨-, h⟩ | ⟨-, -, h⟩ | ⟨-, hplain, h⟩ := titleChar_forms inTable c
  · exact h ▸ guarded_plain (List.forall_mem_singleton.2 hspace)
  · exact h ▸ guarded_backslash hnone c
  · exact h ▸ guarded_plain (List.forall_mem_singleton.2 hplain)

theorem withoutBackslashes_cons (h : c ≠ '\\') (rest : List Char) :
    withoutBackslashes (c :: rest) = c :: withoutBackslashes rest := by
  rw [withoutBackslashes]
  rintro d ds heq -
  exact h heq

/-- What is written for a character is read as the character, whatever stands behind it. -/
theorem withoutBackslashes_titleChar (c : Char) (rest : List Char) :
    withoutBackslashes (titleChar inTable c ++ rest) =
      (if c = '\n' then [' '] else [c]) ++ withoutBackslashes rest := by
  obtain ⟨hbreak, h⟩ | ⟨hbreak, hpunctuation, h⟩ | ⟨hbreak, hplain, h⟩ := titleChar_forms inTable c
  · rw [h, if_pos hbreak, List.singleton_append, withoutBackslashes_cons (by decide)]
    rfl
  · rw [h, if_neg hbreak, List.cons_append, List.singleton_append, withoutBackslashes,
      if_pos hpunctuation]
    rfl
  · have hc : c ≠ '\\' := fun heq => hplain (heq ▸ List.mem_cons_self)
    rw [h, if_neg hbreak, List.singleton_append, withoutBackslashes_cons hc]
    rfl

theorem withoutBackslashes_escapeTitle (title : String) (inTable : Bool) :
    withoutBackslashes (escapeTitle title inTable).toList = (replaceChar '\n' " " title).toList := by
  rw [escapeTitle, replaceChar, String.toList_ofList, String.toList_ofList]
  induction title.toList with
  | nil => rfl
  | cons c rest ih =>
    rw [List.flatMap_cons, List.flatMap_cons, withoutBackslashes_titleChar, ih]
    rfl

/-- Replacing one kind of character after the other comes to the same: none of the replacements
brings a character that a later one looks for, but for the backslashes, which are doubled first. -/
theorem escapeTitle_eq_replacedInTurn (title : String) (inTable : Bool) :
    escapeTitle title inTable = replacedInTurn title inTable := by
  rw [← String.toList_inj, escapeTitle, String.toList_ofList]
  cases inTable
  all_goals
    simp only [replacedInTurn, replaceChar, String.toList_ofList, List.flatMap_assoc,
      Bool.false_eq_true, if_false, if_true]
    refine List.flatMap_congr fun c _ => ?_
    by_cases hbreak : c = '\n'
    · subst hbreak; rfl
    by_cases hbackslash : c = '\\'
    · subst hbackslash; rfl
    by_cases hquote : c = '"'
    · subst hquote; rfl
    by_cases hbar : c = '|'
    · subst hbar; rfl
    simp [titleChar, hbreak, hbackslash, hquote, hbar]

/-- A title is written with its characters replaced kind by kind. A quote in what is written, and in a
table a bar, stands behind an odd number of backslashes, and an even number of them is at the end. There
is no line break in it, and without its backslashes it is the title with spaces for line breaks. -/
theorem escapeTitle_reads_back (title : String) (inTable : Bool) :
    escapeTitle title inTable = replacedInTurn title inTable ∧
      Guarded (titleMarks inTable) (escapeTitle title inTable).toList ∧
      OneLine (escapeTitle title inTable) ∧
      withoutBackslashes (escapeTitle title inTable).toList = (replaceChar '\n' " " title).toList := by
  refine ⟨escapeTitle_eq_replacedInTurn title inTable, ?_, oneLine_escapeTitle title inTable,
    withoutBackslashes_escapeTitle title inTable⟩
  rw [escapeTitle, String.toList_ofList]
  exact guarded_flatMap fun c _ => guarded_titleChar inTable c

/-- The backslash at the end of the title does not take the closing quote away. -/
example : escapeTitle "\"a|b\n\\" true = "\\\"a\\|b \\\\" := by decide

end DocTree.Markdown
