import DocTree.Proofs.Markup

/-! Escaping can be undone. What is written for the characters of a text is a prefix free code: the
entities, what stands for a line break and the characters with a backslash. Only a backslash that is
no Markdown is written as it is, and in a cell it can meet no bar behind it. -/
namespace DocTree.Markdown.EscapeContext
variable {ctx : EscapeContext} {blank : Bool} {word rest cs : List Char} {c d : Char}

/-- The characters that take a backslash, here or at the start of a line. -/
def backslashed (ctx : EscapeContext) : List Char :=
  (if ctx.table then ['|'] else []) ++ if ctx.isMarkdown then '#' :: markdownChars else []

/-- The words that stand for a character of the text, with the character. -/
def codes (ctx : EscapeContext) : List (List Char × Char) :=
  [("&amp;".toList, '&'), ("&quot;".toList, '"'), ("&lt;".toList, '<'), ("&gt;".toList, '>'),
    (ctx.lineBreak, '\n')] ++ ctx.backslashed.map fun c => (['\\', c], c)

/-- The text behind the characters that are skipped: a word of the code stands for its character,
and any other character stands for itself. -/
def unescapeFrom (ctx : EscapeContext) : Nat → List Char → List Char
  | _, [] => []
  | skip + 1, _ :: rest => ctx.unescapeFrom skip rest
  | 0, c :: rest =>
    match ctx.codes.find? fun code => code.1.isPrefixOf (c :: rest) with
    | some (word, d) => d :: ctx.unescapeFrom (word.length - 1) rest
    | none => c :: ctx.unescapeFrom 0 rest

/-- The text that was escaped in the context. -/
def unescape (ctx : EscapeContext) (text : String) : String :=
  String.ofList (ctx.unescapeFrom 0 text.toList)

theorem unescapeFrom_append (word rest : List Char) :
    ctx.unescapeFrom word.length (word ++ rest) = ctx.unescapeFrom 0 rest := by
  induction word with
  | nil => rfl
  | cons c word ih => simpa [unescapeFrom] using ih

/-- No word of the code is the start of another one. -/
theorem prefixFree_codes (hattr : ctx.htmlAttribute = false) :
    ∀ x ∈ ctx.codes, ∀ y ∈ ctx.codes, x.1 <+: y.1 → x = y := by
  unfold codes backslashed
  rcases lineBreak_outside hattr with h | h | h <;> rw [h] <;>
    cases ctx.table <;> cases ctx.isMarkdown <;> decide

/-- An empty word would be the start of every other one. -/
theorem word_ne_nil (hattr : ctx.htmlAttribute = false) (h : (word, c) ∈ ctx.codes) :
    word ≠ [] := by
  rintro rfl
  have hamp : ("&amp;".toList, '&') ∈ ctx.codes := by simp [codes]
  cases prefixFree_codes hattr ([], c) h _ hamp List.nil_prefix

/-- The word that a text begins with is the one that is found. -/
theorem find?_codes (hattr : ctx.htmlAttribute = false) (h : (word, c) ∈ ctx.codes)
    (rest : List Char) :
    (ctx.codes.find? fun code => code.1.isPrefixOf (word ++ rest)) = some (word, c) := by
  cases hfound : ctx.codes.find? fun code => code.1.isPrefixOf (word ++ rest) with
  | none =>
    have hno := List.find?_eq_none.mp hfound (word, c) h
    simp at hno
  | some found =>
    have hmem := List.mem_of_find?_eq_some hfound
    have hfit : found.1 <+: word ++ rest := by simpa using List.find?_some hfound
    rcases List.prefix_or_prefix_of_prefix hfit (List.prefix_append word rest) with hle | hle
    · rw [prefixFree_codes hattr found hmem (word, c) h hle]
    · rw [prefixFree_codes hattr (word, c) h found hmem hle]

/-- A word of the code is read as its character, whatever follows it. -/
theorem unescapeFrom_word (hattr : ctx.htmlAttribute = false) (h : (word, c) ∈ ctx.codes)
    (rest : List Char) :
    ctx.unescapeFrom 0 (word ++ rest) = c :: ctx.unescapeFrom 0 rest := by
  have hfind := find?_codes hattr h rest
  cases word with
  | nil => exact absurd rfl (word_ne_nil hattr h)
  | cons first word =>
    rw [List.cons_append] at hfind ⊢
    simp only [unescapeFrom, hfind, List.length_cons, Nat.add_sub_cancel, unescapeFrom_append]

/-- Where a word of the code begins with a character that has no entity and is no line break, it is
a backslash in front of another one. -/
theorem code_of_head (hattr : ctx.htmlAttribute = false) (hentity : entity? c = none)
    (hbreak : c ≠ '\n') (h : (c :: word, d) ∈ ctx.codes) :
    c = '\\' ∧ word = [d] ∧ d ∈ ctx.backslashed := by
  have hinert := isInert_iff.1 (isInert_of_entity? hentity)
  rcases lineBreak_outside hattr with hline | hline | hline <;>
    simp [codes, hline] at h <;> grind

/-- A character is written with a word of the code, or it is written as itself. It begins no word
then, but for a backslash that in a cell stands in front of a bar. -/
theorem escapeChar_code (hcode : ctx.markdownCode = false) (hattr : ctx.htmlAttribute = false)
    (blank : Bool) (c : Char) :
    (ctx.escapeChar blank c, c) ∈ ctx.codes ∨
      ctx.escapeChar blank c = [c] ∧ (ctx.table → c ≠ '|') ∧
        ∀ word d, (c :: word, d) ∈ ctx.codes → ctx.table ∧ word = ['|'] := by
  cases hentity : entity? c with
  | some entity =>
    rw [escapeChar_entity hcode hentity]
    unfold entity? at hentity
    split at hentity <;> cases hentity <;> simp [codes]
  | none =>
    simp only [escapeChar, hentity, ite_self]
    split_ifs with hbar hbreak hmark
    · simp [codes, backslashed, hbar]
    · simp [codes, hbreak]
    · obtain ⟨hmarkdown, hc⟩ := hmark
      have hmem : c ∈ '#' :: markdownChars := by
        rcases hc with hc | ⟨rfl, -⟩
        · exact List.mem_cons_of_mem _ hc
        · exact List.mem_cons_self
      have hback : c ∈ ctx.backslashed := by
        rw [backslashed, if_pos hmarkdown]
        exact List.mem_append_right _ hmem
      exact .inl (List.mem_append_right _ (List.mem_map_of_mem hback))
    · refine .inr ⟨rfl, fun htable hc => hbar ⟨hc, htable⟩, fun word d hword => ?_⟩
      obtain ⟨rfl, rfl, hd⟩ := code_of_head hattr hentity hbreak hword
      have hplain : ctx.isMarkdown = false := by
        by_contra hmarkdown
        exact hmark ⟨by simpa using hmarkdown, .inl (by decide)⟩
      simpa [backslashed, hplain] using hd

/-- In a cell no escaped text begins with a bar. -/
theorem head?_escapeFrom (hcode : ctx.markdownCode = false) (hattr : ctx.htmlAttribute = false)
    (htable : ctx.table) (blank : Bool) (cs : List Char) :
    (ctx.escapeFrom blank cs).head? ≠ some '|' := by
  cases cs with
  | nil => simp [escapeFrom]
  | cons c rest =>
    rw [escapeFrom]
    rcases escapeChar_code hcode hattr blank c with hword | ⟨hform, hbar, -⟩
    · cases hshape : ctx.escapeChar blank c with
      | nil => exact absurd hshape (word_ne_nil hattr hword)
      | cons first word =>
        rw [hshape] at hword
        rintro hhead
        obtain rfl : first = '|' := by simpa using hhead
        have hbackslash := (code_of_head hattr rfl (by decide) hword).1
        cases hbackslash
    · simpa [hform] using hbar htable

/-- A character is read back from what is written for it, whatever escaped text follows. -/
theorem unescapeFrom_escapeChar (hcode : ctx.markdownCode = false)
    (hattr : ctx.htmlAttribute = false) (blank : Bool) (c : Char)
    (hrest : ctx.table → rest.head? ≠ some '|') :
    ctx.unescapeFrom 0 (ctx.escapeChar blank c ++ rest) = c :: ctx.unescapeFrom 0 rest := by
  rcases escapeChar_code hcode hattr blank c with hword | ⟨hform, -, hbegins⟩
  · exact unescapeFrom_word hattr hword rest
  · -- The only word that could begin here is that of a bar, and no bar follows.
    have hnone : (ctx.codes.find? fun code => code.1.isPrefixOf (c :: rest)) = none := by
      refine List.find?_eq_none.mpr ?_
      rintro ⟨word, d⟩ hmem hfit
      cases word with
      | nil => exact word_ne_nil hattr hmem rfl
      | cons first word =>
        obtain ⟨rfl, more, hmore⟩ : first = c ∧ word <+: rest := by simpa using hfit
        obtain ⟨htable, rfl⟩ := hbegins word d hmem
        exact hrest htable (by rw [← hmore]; rfl)
    rw [hform, List.cons_append, List.nil_append, unescapeFrom, hnone]

/-- An escaped text is read back whatever stands before it. -/
theorem unescapeFrom_escapeFrom (hcode : ctx.markdownCode = false)
    (hattr : ctx.htmlAttribute = false) (blank : Bool) (cs : List Char) :
    ctx.unescapeFrom 0 (ctx.escapeFrom blank cs) = cs := by
  induction cs generalizing blank with
  | nil => rfl
  | cons c rest ih =>
    have hrest : ctx.table → (ctx.escapeFrom (blankAfter blank c) rest).head? ≠ some '|' :=
      fun htable => head?_escapeFrom hcode hattr htable _ rest
    rw [escapeFrom, unescapeFrom_escapeChar hcode hattr blank c hrest, ih]

/-- Outside code and attributes an escaped text is read back by putting the entities, what stands
for a line break and the characters with a backslash back. So no two texts are escaped alike. -/
theorem escape_undone {ctx : EscapeContext} (hcode : ctx.markdownCode = false)
    (hattr : ctx.htmlAttribute = false) :
    Function.LeftInverse ctx.unescape ctx.escape ∧ Function.Injective ctx.escape := by
  have hundone : Function.LeftInverse ctx.unescape ctx.escape := by
    intro text
    rw [unescape, escape, String.toList_ofList, unescapeFrom_escapeFrom hcode hattr,
      String.ofList_toList]
  exact ⟨hundone, hundone.injective⟩

/-- In an HTML block of a cell the backslash of `\|` stays alone and only the bar takes one: both
are read back, and so are the line break and the ampersand behind them. -/
theorem escape_undone_bar :
    escape { table := true, htmlBlock := true } "\\|\n&" = "\\\\|<br>&amp;" ∧
      unescape { table := true, htmlBlock := true } "\\\\|<br>&amp;" = "\\|\n&" := by
  have hform : escape { table := true, htmlBlock := true } "\\|\n&" = "\\\\|<br>&amp;" := by
    decide +kernel
  have hback := (@escape_undone { table := true, htmlBlock := true } rfl rfl).1 "\\|\n&"
  rw [hform] at hback
  exact ⟨hform, hback⟩

end DocTree.Markdown.EscapeContext
