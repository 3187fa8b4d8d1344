import DocTree.Proofs.OneLine

/-! Bars in a line of a table. A bar ends a cell unless an odd number of backslashes stands right
before it, so what counts is the parity of the backslashes on the way. -/
namespace DocTree.Markdown
open Text

/-- The number of bars behind an odd number of backslashes, or of those that are not. Whether the
number of backslashes right before the text is odd is given. -/
def barsFrom (behindOdd : Bool) : Bool → List Char → Nat
  | _, [] => 0
  | odd, c :: rest =>
    (if c = '|' ∧ odd = behindOdd then 1 else 0) + barsFrom behindOdd (c == '\\' && !odd) rest

/-- The number of bars that end a cell. -/
def delimiters (line : List Char) : Nat := barsFrom false false line

/-- The number of bars that a backslash in front of each of them makes end a cell. -/
def exposedBars (line : List Char) : Nat := barsFrom true false line

/-- A character that is neither a bar nor a backslash nor a line break. -/
def isPlain (c : Char) : Bool := c != '|' && c != '\\' && c != '\n'

/-- The sum of the counts of all entries. -/
def total {α : Type} (count : α → Nat) : List α → Nat
  | [] => 0
  | entry :: rest => count entry + total count rest

variable {behindOdd odd : Bool} {cs ds : List Char} {c : Char} {m n : Nat}

theorem isPlain_iff : isPlain c ↔ c ≠ '|' ∧ c ≠ '\\' ∧ c ≠ '\n' := by simp [isPlain, and_assoc]

theorem plain_of_all {p : Char → Bool} (h : cs.all p) (hbar : ¬ p '|') (hback : ¬ p '\\')
    (hbreak : ¬ p '\n') : cs.all isPlain := by
  rw [List.all_eq_true] at h ⊢
  intro c hc
  have hp : p c := h c hc
  refine isPlain_iff.2 ⟨?_, ?_, ?_⟩ <;> rintro rfl <;> contradiction

theorem oneLine_of_plain {s : String} (h : s.toList.all isPlain) : OneLine s := by
  intro hbreak
  exact (isPlain_iff.1 (List.all_eq_true.1 h _ hbreak)).2.2 rfl

theorem barsFrom_plain (hc : isPlain c) (rest : List Char) :
    barsFrom behindOdd odd (c :: rest) = barsFrom behindOdd false rest := by
  obtain ⟨hbar, hback, -⟩ := isPlain_iff.1 hc
  simp [barsFrom, hbar, beq_eq_false_iff_ne.2 hback]

/-- Where the backslashes before the second part make no difference to it, the parts count on
their own. -/
theorem barsFrom_append {k : Nat} (hds : ∀ odd, barsFrom behindOdd odd ds = k) :
    barsFrom behindOdd odd (cs ++ ds) = barsFrom behindOdd odd cs + k := by
  induction cs generalizing odd with
  | nil => rw [List.nil_append, hds, barsFrom, Nat.zero_add]
  | cons d cs ih => simp only [List.cons_append, barsFrom, ih, Nat.add_assoc]

theorem barsFrom_append_plain (hc : isPlain c) (rest : List Char) :
    barsFrom behindOdd odd (cs ++ c :: rest) =
      barsFrom behindOdd odd cs + barsFrom behindOdd false rest :=
  barsFrom_append fun _ => barsFrom_plain hc rest

theorem barsFrom_plains (hcs : cs.all isPlain) (hne : cs ≠ []) (rest : List Char) :
    barsFrom behindOdd odd (cs ++ rest) = barsFrom behindOdd false rest := by
  induction cs generalizing odd with
  | nil => exact absurd rfl hne
  | cons c cs ih =>
    simp only [List.all_cons, Bool.and_eq_true] at hcs
    rw [List.cons_append, barsFrom_plain hcs.1]
    by_cases hempty : cs = []
    · rw [hempty, List.nil_append]
    · exact ih hcs.2 hempty

/-- The text ends `n` cells, whatever stands behind it. -/
def Delimits (n : Nat) (cs : List Char) : Prop :=
  ∀ rest, delimiters (cs ++ rest) = n + delimiters rest

theorem Delimits.count (h : Delimits n cs) : delimiters cs = n := by
  simpa [delimiters, barsFrom] using h []

theorem delimits_nil : Delimits 0 [] := fun rest => by simp

theorem Delimits.append (hm : Delimits m cs) (hn : Delimits n ds) : Delimits (m + n) (cs ++ ds) := by
  intro rest
  rw [List.append_assoc, hm, hn, Nat.add_assoc]

theorem delimits_plain (h : cs.all isPlain) : Delimits 0 cs := by
  intro rest
  by_cases hempty : cs = []
  · simp [hempty]
  · rw [delimiters, barsFrom_plains h hempty, Nat.zero_add, delimiters]

/-- A text of any kind in front of a plain character. -/
theorem Delimits.behind (h : Delimits n (c :: ds)) (hc : isPlain c) (cs : List Char) :
    Delimits (delimiters cs + n) (cs ++ c :: ds) := by
  intro rest
  rw [List.append_assoc, Nat.add_assoc, ← h rest]
  exact barsFrom_append fun _ => by
    rw [List.cons_append, barsFrom_plain hc, delimiters, barsFrom_plain hc]

theorem delimits_between (before cs after : List Char) (hb : before.all isPlain)
    (ha : after.all isPlain) (hne : after ≠ []) :
    Delimits (delimiters cs) (before ++ cs ++ after) := by
  obtain ⟨c, ds, rfl⟩ := List.exists_cons_of_ne_nil hne
  have hc : isPlain c := (List.all_eq_true.1 ha) c (List.mem_cons_self ..)
  have h := (delimits_plain hb).append ((delimits_plain ha).behind hc cs)
  rwa [Nat.zero_add, Nat.add_zero, ← List.append_assoc] at h

namespace EscapeContext
variable {ctx : EscapeContext}

theorem isPlain_of_entity? {entity : String} (h : entity? c = some entity) :
    isPlain c ∧ entity.toList.all isPlain ∧ entity.toList ≠ [] := by
  unfold entity? at h
  split at h <;> cases h <;> decide

theorem barsFrom_lineBreak (ht : ctx.table) (rest : List Char) :
    barsFrom false odd (ctx.lineBreak ++ rest) = barsFrom false false rest := by
  unfold lineBreak
  split
  · simp [barsFrom]
  split
  · exact barsFrom_plains (by decide) (by decide) rest
  · rw [ht, Bool.true_or, if_pos rfl]
    exact barsFrom_plains (by decide) (by decide) rest

/-- Where Markdown is read, a character in a cell never ends the cell. -/
theorem delimits_escapeChar (ht : ctx.table) (hm : ctx.isMarkdown) (blank : Bool) (c : Char) :
    Delimits 0 (ctx.escapeChar blank c) := by
  unfold escapeChar
  split
  · next entity heq =>
    split at heq
    · cases heq
    · exact delimits_plain (isPlain_of_entity? heq).2.1
  · split
    · exact fun rest => by simp [delimiters, barsFrom]
    split
    · exact fun rest => by rw [delimiters, barsFrom_lineBreak ht, Nat.zero_add, delimiters]
    split
    · exact fun rest => by simp [delimiters, barsFrom]
    · next hbar _ hescaped =>
      refine delimits_plain ?_
      simp_all [isPlain, markdownChars]

theorem delimits_escape (ht : ctx.table) (hm : ctx.isMarkdown) (s : String) :
    Delimits 0 (ctx.escape s).toList := by
  rw [escape, String.toList_ofList]
  generalize ctx.lineIsBlank = blank
  induction s.toList generalizing blank with
  | nil => exact delimits_nil
  | cons c rest ih => exact (delimits_escapeChar ht hm blank c).append (ih _)

/-- In code and in attributes a bar gets a backslash, but a backslash before it gets none. -/
theorem barsFrom_escapeChar (ht : ctx.table) (hm : ctx.isMarkdown = false) (blank : Bool)
    (c : Char) (rest : List Char) :
    barsFrom false odd (ctx.escapeChar blank c ++ rest) =
      (if c = '|' ∧ odd = true then 1 else 0) + barsFrom false (c == '\\' && !odd) rest := by
  unfold escapeChar
  split
  · next entity heq =>
    split at heq
    · cases heq
    · obtain ⟨hc, hall, hne⟩ := isPlain_of_entity? heq
      obtain ⟨hbar, hback, -⟩ := isPlain_iff.1 hc
      rw [barsFrom_plains hall hne]
      simp [hbar, beq_eq_false_iff_ne.2 hback]
  · split
    · next hbar => cases odd <;> simp [barsFrom, hbar.1]
    split
    · next hbreak => simp [hbreak, barsFrom_lineBreak ht]
    · next hbar _ =>
      rw [hm]
      simp_all [barsFrom]

theorem barsFrom_escape (ht : ctx.table) (hm : ctx.isMarkdown = false) (s : String)
    (hc : isPlain c) (rest : List Char) :
    barsFrom false odd ((ctx.escape s).toList ++ c :: rest) =
      barsFrom true odd s.toList + barsFrom false false rest := by
  rw [escape, String.toList_ofList]
  generalize ctx.lineIsBlank = blank
  -- Behind every character the parity is the same in the text and in what is written for it.
  induction s.toList generalizing blank odd with
  | nil => rw [escapeFrom, List.nil_append, barsFrom_plain hc, barsFrom, Nat.zero_add]
  | cons d ds ih =>
    rw [escapeFrom, List.append_assoc, barsFrom_escapeChar ht hm, ih, barsFrom, Nat.add_assoc]

end EscapeContext

theorem delimits_titleChar (c : Char) : Delimits 0 (titleChar true c) := by
  unfold titleChar
  split
  · exact delimits_plain (by decide)
  split
  · exact fun rest => by simp [delimiters, barsFrom]
  · next hc => exact delimits_plain (by simp_all [isPlain])

theorem delimits_escapeTitle (title : String) : Delimits 0 (escapeTitle title true).toList := by
  rw [escapeTitle, String.toList_ofList]
  induction title.toList with
  | nil => exact delimits_nil
  | cons c rest ih => exact (delimits_titleChar c).append ih

theorem barsFrom_of_not_mem (h : '|' ∉ cs) : barsFrom behindOdd odd cs = 0 := by
  induction cs generalizing odd with
  | nil => rfl
  | cons c rest ih =>
    simp only [List.mem_cons, not_or] at h
    rw [barsFrom, if_neg fun hc => h.1 hc.1.symm, ih h.2]

theorem delimiters_escapeDestination (destination : String) :
    delimiters (escapeDestination destination true).toList = 0 := by
  have hbar : '|' ∉ (replaceChar '|' "%7C" destination).toList :=
    notMem_replaceChar (by decide) (.inr rfl)
  refine barsFrom_of_not_mem ?_
  unfold escapeDestination
  rw [if_pos rfl]
  generalize replaceChar '|' "%7C" destination = d at hbar ⊢
  dsimp only
  split
  · have hangles : '|' ∉ (replaceChar '>' "%3E" (replaceChar '<' "%3C" d)).toList :=
      notMem_replaceChar (by decide) (.inl (notMem_replaceChar (by decide) (.inl hbar)))
    simpa using hangles
  · exact hbar

theorem barsFrom_closeSafe (cs : List Char) :
    barsFrom behindOdd odd (closeSafe cs) = barsFrom behindOdd odd cs := by
  fun_induction closeSafe cs generalizing odd with
  | case1 rest ih => simp [barsFrom, ih]
  | case2 c rest _ ih => rw [barsFrom, barsFrom, ih]
  | case3 => rfl

theorem barsFrom_breaksToSpaces (s : String) :
    barsFrom behindOdd odd (replaceChar '\n' " " s).toList = barsFrom behindOdd odd s.toList := by
  rw [replaceChar, String.toList_ofList]
  induction s.toList generalizing odd with
  | nil => rfl
  | cons c rest ih =>
    rw [List.flatMap_cons]
    by_cases hc : c = '\n'
    · rw [if_pos hc, hc, barsFrom_plains (by decide) (by decide), ih]
      simp [barsFrom]
    · rw [if_neg hc, List.singleton_append, barsFrom, ih, barsFrom]

theorem delimiters_commentBody (s : String) :
    delimiters (commentBody s true).toList = delimiters s.toList := by
  rw [delimiters, commentBody, if_pos rfl, barsFrom_breaksToSpaces, String.toList_ofList,
    barsFrom_closeSafe, delimiters]

end DocTree.Markdown
