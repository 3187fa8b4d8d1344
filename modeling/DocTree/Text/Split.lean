/-! Texts cut at a character. -/
namespace DocTree.Text

/-- The pieces of a text between the characters that `sep` picks, empty ones included. -/
def pieces (sep : Char → Bool) : List Char → List (List Char)
  | [] => [[]]
  | c :: rest =>
    if sep c then [] :: pieces sep rest
    else
      match pieces sep rest with
      | [] => [[c]]
      | piece :: more => (c :: piece) :: more

theorem pieces_ne_nil (sep : Char → Bool) (cs : List Char) : pieces sep cs ≠ [] := by
  cases cs with
  | nil => simp [pieces]
  | cons c rest =>
    unfold pieces
    split
    · simp
    · split <;> simp

/-- The pieces of a text between the occurrences of one character. -/
def splitAt (sep : Char) (s : String) : List String :=
  (pieces (· == sep) s.toList).map String.ofList

/-- The text before the first character that `sep` picks, and the rest from there on. -/
def breakAt (sep : Char → Bool) (s : String) : String × String :=
  (String.ofList (s.toList.takeWhile fun c => !sep c),
    String.ofList (s.toList.dropWhile fun c => !sep c))

/-- The text before the first occurrence of a character and the text after it. -/
def cutAt? (sep : Char) (s : String) : Option (String × String) :=
  match s.toList.dropWhile (· != sep) with
  | [] => none
  | _ :: after => some (String.ofList (s.toList.takeWhile (· != sep)), String.ofList after)

/-- The text with every occurrence of one character replaced. -/
def replaceChar (old : Char) (new : String) (s : String) : String :=
  String.ofList (s.toList.flatMap fun c => if c = old then new.toList else [c])

/-- The text after a leading `lead`, if it has one. -/
def dropLead? : List Char → List Char → Option (List Char)
  | [], rest => some rest
  | _ :: _, [] => none
  | c :: lead, d :: rest => if c = d then dropLead? lead rest else none

theorem dropLead?_append (lead rest : List Char) : dropLead? lead (lead ++ rest) = some rest := by
  induction lead with
  | nil => rfl
  | cons c lead ih => simp [dropLead?, ih]

theorem eq_append_of_dropLead? {lead cs rest : List Char} (h : dropLead? lead cs = some rest) :
    cs = lead ++ rest := by
  induction lead generalizing cs with
  | nil => simpa [dropLead?] using h
  | cons c lead ih =>
    cases cs with
    | nil => simp [dropLead?] at h
    | cons d cs =>
      simp only [dropLead?] at h
      split at h
      · next hc => rw [hc, ih h, List.cons_append]
      · simp at h

/-- The text with every line ended by one line feed. -/
def unifyBreaks : List Char → List Char
  | '\r' :: '\n' :: rest => '\n' :: unifyBreaks rest
  | '\r' :: rest => '\n' :: unifyBreaks rest
  | c :: rest => c :: unifyBreaks rest
  | [] => []

end DocTree.Text
