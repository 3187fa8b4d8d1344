import DocTree.Signature.Layout
import Mathlib.Data.List.Basic

/-! What a signature says, apart from its white space: its atoms, each a string literal or a
character outside literals. A text can be read as atoms in at most one way, it cannot be read at
all if a literal has no end, and the lexemes of a text are those of its atoms. -/
namespace DocTree.Signature

/-- A string literal, or a character outside literals that is no white space. -/
inductive Atom where
  | literal (quote : Char) (body : List Char)
  | char (c : Char)
  deriving DecidableEq

/-- What may stand between the quotes of a literal: a backslash takes the next character with it,
whatever it is, and outside of such pairs there is no quote of the same kind. -/
inductive Enclosed (quote : Char) : List Char → Prop where
  | nil : Enclosed quote []
  | char {c : Char} {rest : List Char} (hquote : c ≠ quote) (hescape : c ≠ '\\')
      (more : Enclosed quote rest) : Enclosed quote (c :: rest)
  | escape {c : Char} {rest : List Char} (more : Enclosed quote rest) :
      Enclosed quote ('\\' :: c :: rest)

/-- A literal that is opened by the quote does not end in this text. -/
def Unended (quote : Char) (cs : List Char) : Prop :=
  ∀ body rest, Enclosed quote body → cs ≠ body ++ quote :: rest

namespace Atom

def chars : Atom → List Char
  | literal quote body => quote :: body ++ [quote]
  | char c => [c]

def Valid : Atom → Prop
  | literal quote body => Lexeme.isQuote quote ∧ Enclosed quote body
  | char c => ¬ Lexeme.isQuote c ∧ ¬ Unicode.isBlank c

end Atom

/-- An atom with the white space in front of it. -/
structure Spaced where
  gap : List Char
  atom : Atom
  deriving DecidableEq

namespace Spaced

def chars (p : Spaced) : List Char := p.gap ++ p.atom.chars

def Valid (p : Spaced) : Prop := (∀ c ∈ p.gap, Unicode.isBlank c) ∧ p.atom.Valid

end Spaced

/-- The text of atoms with the white space in front of them. -/
def textOf (parts : List Spaced) : List Char := parts.flatMap Spaced.chars

/-- The text is these atoms with white space in front of them, and white space at the end. -/
structure Reads (source : List Char) (parts : List Spaced) (trail : List Char) : Prop where
  text : source = textOf parts ++ trail
  valid : ∀ p ∈ parts, p.Valid
  blank : ∀ c ∈ trail, Unicode.isBlank c

/-- The number of bytes of a text. -/
def bytes (cs : List Char) : Nat := (String.ofList cs).utf8ByteSize

@[simp] theorem bytes_nil : bytes [] = 0 := by simp [bytes]

@[simp] theorem bytes_cons (c : Char) (cs : List Char) :
    bytes (c :: cs) = c.utf8Size + bytes cs := by
  simp [bytes, String.ofList_cons]

@[simp] theorem bytes_append (cs ds : List Char) : bytes (cs ++ ds) = bytes cs + bytes ds := by
  simp [bytes, String.ofList_append]

@[simp] theorem textOf_nil : textOf [] = [] := rfl

@[simp] theorem textOf_cons (p : Spaced) (rest : List Spaced) :
    textOf (p :: rest) = p.chars ++ textOf rest := rfl

@[simp] theorem textOf_append (ps qs : List Spaced) :
    textOf (ps ++ qs) = textOf ps ++ textOf qs := by
  simp [textOf]

/-! The classes of characters have nothing in common -/

namespace Lexeme
variable {c : Char}

theorem of_isOpening (h : isOpening c) :
    isQuote c = false ∧ isClosing c = false ∧ isSeparator c = false := by
  simp only [isOpening, Bool.or_eq_true, beq_iff_eq] at h
  rcases h with (rfl | rfl) | rfl <;> decide

theorem of_isClosing (h : isClosing c) :
    isQuote c = false ∧ isOpening c = false ∧ isSeparator c = false := by
  simp only [isClosing, Bool.or_eq_true, beq_iff_eq] at h
  rcases h with (rfl | rfl) | rfl <;> decide

theorem of_isSeparator (h : isSeparator c) : isOpening c = false ∧ isClosing c = false := by
  simp only [isSeparator, Bool.or_eq_true, beq_iff_eq] at h
  rcases h with rfl | rfl <;> decide

theorem not_isBlank_of_special (h : isQuote c || isOpening c || isClosing c || isSeparator c) :
    Unicode.isBlank c = false := by
  simp only [isQuote, isOpening, isClosing, isSeparator, Bool.or_eq_true, beq_iff_eq, or_assoc] at h
  rcases h with rfl | rfl | rfl | rfl | rfl | rfl | rfl | rfl | rfl | rfl | rfl <;> decide

theorem of_isBlank (h : Unicode.isBlank c) :
    isQuote c = false ∧ isOpening c = false ∧ isClosing c = false ∧ isSeparator c = false := by
  have hspecial : ¬ (isQuote c || isOpening c || isClosing c || isSeparator c) := by
    intro hc
    simp [not_isBlank_of_special hc] at h
  simpa [and_assoc] using hspecial

end Lexeme

/-! Reading a text from the left -/

theorem reads_nil : Reads [] [] [] := ⟨rfl, by simp, by simp⟩

theorem Reads.atom {rest trail : List Char} {parts : List Spaced} {a : Atom}
    (h : Reads rest parts trail) (ha : a.Valid) :
    Reads (a.chars ++ rest) (⟨[], a⟩ :: parts) trail where
  text := by simp [h.text, Spaced.chars]
  valid := by simpa [Spaced.Valid, ha] using h.valid
  blank := h.blank

/-- White space in front of a text belongs to its first atom, or to its end if it has none. -/
theorem Reads.space {c : Char} {rest trail : List Char} {parts : List Spaced}
    (h : Reads rest parts trail) (hc : Unicode.isBlank c) :
    ∃ parts' trail', Reads (c :: rest) parts' trail' := by
  cases parts with
  | nil =>
    have hrest : rest = trail := h.text
    exact ⟨[], c :: trail, by simp [hrest], by simp, by simpa [hc] using h.blank⟩
  | cons p parts =>
    obtain ⟨gap, a⟩ := p
    have hvalid := h.valid
    simp only [List.forall_mem_cons, Spaced.Valid] at hvalid
    exact ⟨⟨c :: gap, a⟩ :: parts, trail, by simp [h.text, Spaced.chars],
      by simpa [Spaced.Valid, hc] using hvalid, h.blank⟩

/-- Every text is read up to its end, or up to a literal that has no end. -/
theorem exists_reads (source : List Char) :
    ∃ before after parts trail, source = before ++ after ∧ Reads before parts trail ∧
      (after = [] ∨
        ∃ quote rest, after = quote :: rest ∧ Lexeme.isQuote quote ∧ Unended quote rest) := by
  induction hsize : source.length using Nat.strongRecOn generalizing source with
  | _ size ih =>
    cases source with
    | nil => exact ⟨[], [], [], [], rfl, reads_nil, .inl rfl⟩
    | cons c rest =>
      by_cases hquote : Lexeme.isQuote c
      · by_cases hend : Unended c rest
        · exact ⟨[], c :: rest, [], [], rfl, reads_nil, .inr ⟨c, rest, rfl, hquote, hend⟩⟩
        · simp only [Unended, not_forall, not_not] at hend
          obtain ⟨body, more, hbody, rfl⟩ := hend
          obtain ⟨before, after, parts, trail, rfl, h, hend⟩ :=
            ih more.length (by simp [← hsize]; omega) more rfl
          have hvalid : (Atom.literal c body).Valid := ⟨hquote, hbody⟩
          exact ⟨_, after, _, trail, by simp [Atom.chars], h.atom hvalid, hend⟩
      · obtain ⟨before, after, parts, trail, rfl, h, hend⟩ :=
          ih rest.length (by simp [← hsize]) rest rfl
        by_cases hblank : Unicode.isBlank c
        · obtain ⟨parts', trail', h'⟩ := h.space hblank
          exact ⟨c :: before, after, parts', trail', rfl, h', hend⟩
        · have hvalid : (Atom.char c).Valid := ⟨hquote, hblank⟩
          exact ⟨_, after, _, trail, rfl, h.atom hvalid, hend⟩

/-! A text has one reading -/

theorem ne_backslash_of_isQuote {quote : Char} (h : Lexeme.isQuote quote) : quote ≠ '\\' := by
  rintro rfl
  simp [Lexeme.isQuote] at h

/-- A literal ends at one place only. -/
theorem Enclosed.unique {quote : Char} (hquote : Lexeme.isQuote quote) {body body' : List Char}
    (h : Enclosed quote body) (h' : Enclosed quote body') {rest rest' : List Char}
    (heq : body ++ quote :: rest = body' ++ quote :: rest') : body = body' ∧ rest = rest' := by
  have hescape := ne_backslash_of_isQuote hquote
  induction h generalizing body' with
  | nil =>
    cases h' with
    | nil => simpa using heq
    | char hne => exact absurd (List.cons.inj heq).1.symm hne
    | escape => exact absurd (List.cons.inj heq).1 hescape
  | char hne hplain _ ih =>
    cases h' with
    | nil => exact absurd (List.cons.inj heq).1 hne
    | char _ _ more =>
      simp only [List.cons_append, List.cons.injEq] at heq
      obtain ⟨rfl, heq⟩ := heq
      simpa using ih more heq
    | escape => exact absurd (List.cons.inj heq).1 hplain
  | escape _ ih =>
    cases h' with
    | nil => exact absurd (List.cons.inj heq).1.symm hescape
    | char _ hplain => exact absurd (List.cons.inj heq).1.symm hplain
    | escape more =>
      simp only [List.cons_append, List.cons.injEq, true_and] at heq
      obtain ⟨rfl, heq⟩ := heq
      simpa using ih more heq

/-- The atom at the start of a text is one only. -/
theorem Atom.Valid.unique {a b : Atom} (ha : a.Valid) (hb : b.Valid) {rest rest' : List Char}
    (heq : a.chars ++ rest = b.chars ++ rest') : a = b ∧ rest = rest' := by
  cases a with
  | literal quote body =>
    cases b with
    | literal quote' body' =>
      simp only [chars, List.cons_append, List.append_assoc, List.nil_append,
        List.cons.injEq] at heq
      obtain ⟨rfl, heq⟩ := heq
      obtain ⟨rfl, rfl⟩ := ha.2.unique ha.1 hb.2 heq
      exact ⟨rfl, rfl⟩
    | char c =>
      simp only [chars, List.cons_append, List.cons.injEq] at heq
      exact absurd ha.1 (heq.1 ▸ hb.1)
  | char c =>
    cases b with
    | literal quote body =>
      simp only [chars, List.cons_append, List.cons.injEq] at heq
      exact absurd hb.1 (heq.1 ▸ ha.1)
    | char d => simpa [chars] using heq

/-- An atom neither begins nor ends with white space. -/
theorem Atom.Valid.solid {a : Atom} (h : a.Valid) :
    (∃ c rest, a.chars = c :: rest ∧ ¬ Unicode.isBlank c) ∧
      ∃ front c, a.chars = front ++ [c] ∧ ¬ Unicode.isBlank c := by
  cases a with
  | literal quote body =>
    have hquote : ¬ Unicode.isBlank quote := by
      simp [Lexeme.not_isBlank_of_special (c := quote) (by simp [h.1])]
    exact ⟨⟨quote, body ++ [quote], rfl, hquote⟩, quote :: body, quote, rfl, hquote⟩
  | char c => exact ⟨⟨c, [], rfl, h.2⟩, [], c, rfl, h.2⟩

/-- The white space before an atom is all there is at the start of the text. -/
theorem Spaced.Valid.takeWhile_isBlank {p : Spaced} (h : p.Valid) (rest : List Char) :
    (p.chars ++ rest).takeWhile Unicode.isBlank = p.gap ∧
      (p.chars ++ rest).dropWhile Unicode.isBlank = p.atom.chars ++ rest := by
  obtain ⟨⟨c, cs, hchars, hc⟩, -⟩ := h.2.solid
  rw [Spaced.chars, List.append_assoc, List.takeWhile_append_of_pos h.1,
    List.dropWhile_append_of_pos h.1]
  simp [hchars, hc]

/-- The first atom of a text and the white space in front of it are one only. -/
theorem Spaced.Valid.unique {p q : Spaced} (hp : p.Valid) (hq : q.Valid) {rest rest' : List Char}
    (heq : p.chars ++ rest = q.chars ++ rest') : p = q ∧ rest = rest' := by
  have hgap : p.gap = q.gap := by
    rw [← (hp.takeWhile_isBlank rest).1, heq, (hq.takeWhile_isBlank rest').1]
  have hatoms := (hp.takeWhile_isBlank rest).2
  rw [heq, (hq.takeWhile_isBlank rest').2] at hatoms
  obtain ⟨hatom, hrest⟩ := hq.2.unique hp.2 hatoms
  exact ⟨by cases p; cases q; simp_all, hrest.symm⟩

/-- A text has one reading at most. -/
theorem Reads.unique {source trail trail' : List Char} {parts parts' : List Spaced}
    (h : Reads source parts trail) (h' : Reads source parts' trail') :
    parts = parts' ∧ trail = trail' := by
  -- White space is no atom.
  have blank {p : Spaced} {ps : List Spaced} {text trail : List Char}
      (h : Reads text (p :: ps) trail) (hblank : ∀ c ∈ text, Unicode.isBlank c) : False := by
    obtain ⟨⟨c, cs, hchars, hc⟩, -⟩ := (h.valid p (by simp)).2.solid
    exact hc (hblank c (by simp [h.text, Spaced.chars, hchars]))
  have rest {p : Spaced} {ps : List Spaced} {text trail : List Char}
      (h : Reads text (p :: ps) trail) : Reads (textOf ps ++ trail) ps trail :=
    ⟨rfl, (List.forall_mem_cons.1 h.valid).2, h.blank⟩
  induction parts generalizing source parts' with
  | nil =>
    have hsource : source = trail := h.text
    cases parts' with
    | nil => exact ⟨rfl, hsource ▸ h'.text⟩
    | cons q qs => exact (blank h' (hsource ▸ h.blank)).elim
  | cons p ps ih =>
    cases parts' with
    | nil =>
      have hsource : source = trail' := h'.text
      exact (blank h (hsource ▸ h'.blank)).elim
    | cons q qs =>
      have hp := h.valid p (by simp)
      have hq := h'.valid q (by simp)
      have htext := h.text.symm.trans h'.text
      simp only [textOf_cons, List.append_assoc] at htext
      obtain ⟨rfl, hrest⟩ := hp.unique hq htext
      obtain ⟨rfl, rfl⟩ := ih (rest h) (hrest ▸ rest h')
      exact ⟨rfl, rfl⟩

/-! The lexemes of a text -/

/-- The lexeme of an atom at a byte of the source. -/
def Atom.lexeme (offset : Nat) : Atom → Lexeme
  | literal quote body => .literal (quote :: body ++ [quote])
  | char c => .ofChar c offset

/-- The lexemes of atoms and the white space in front of them, from a byte of the source on. -/
def lexemesOf : Nat → List Spaced → List Lexeme
  | _, [] => []
  | offset, p :: rest =>
    List.replicate p.gap.length .space ++
      p.atom.lexeme (offset + bytes p.gap) :: lexemesOf (offset + bytes p.chars) rest

theorem lexemesOf_append (offset : Nat) (ps qs : List Spaced) :
    lexemesOf offset (ps ++ qs) =
      lexemesOf offset ps ++ lexemesOf (offset + bytes (textOf ps)) qs := by
  induction ps generalizing offset with
  | nil => simp [lexemesOf]
  | cons p ps ih => simp [lexemesOf, ih, Nat.add_assoc]

theorem scan_space {c : Char} (h : Unicode.isBlank c) (offset : Nat) (rest : List Char) :
    Lexeme.scan .outside offset (c :: rest) =
      .space :: Lexeme.scan .outside (offset + c.utf8Size) rest := by
  obtain ⟨hquote, hopening, hclosing, hseparator⟩ := Lexeme.of_isBlank h
  simp [Lexeme.scan, Lexeme.ofChar, hquote, hopening, hclosing, hseparator, h]

theorem scan_gap {gap : List Char} (h : ∀ c ∈ gap, Unicode.isBlank c) (offset : Nat)
    (rest : List Char) :
    Lexeme.scan .outside offset (gap ++ rest) =
      List.replicate gap.length .space ++ Lexeme.scan .outside (offset + bytes gap) rest := by
  induction gap generalizing offset with
  | nil => simp
  | cons c gap ih =>
    simp only [List.forall_mem_cons] at h
    simp [scan_space h.1, ih h.2, List.replicate_succ, Nat.add_assoc]

/-- A literal is read up to the quote that ends it. -/
theorem scan_enclosed {quote : Char} (hquote : Lexeme.isQuote quote) {body : List Char}
    (h : Enclosed quote body) (start offset : Nat) (read rest : List Char) :
    Lexeme.scan (.inside quote start false read) offset (body ++ quote :: rest) =
      .literal (read.reverse ++ body ++ [quote]) ::
        Lexeme.scan .outside (offset + bytes body + quote.utf8Size) rest := by
  have hescape := ne_backslash_of_isQuote hquote
  induction h generalizing offset read with
  | nil => simp [Lexeme.scan]
  | char hne hplain _ ih =>
    simp [Lexeme.scan, hne, beq_eq_false_iff_ne.2 hplain, ih, Nat.add_assoc]
  | escape _ ih => simp [Lexeme.scan, hescape.symm, ih, Nat.add_assoc]

theorem Unended.tail {quote c : Char} {rest : List Char} (h : Unended quote (c :: rest))
    (hne : c ≠ quote) (hplain : c ≠ '\\') : Unended quote rest := by
  intro body more hbody heq
  exact h (c :: body) more (.char hne hplain hbody) (by simp [heq])

/-- A literal without an end takes the rest of the text. -/
theorem scan_unended {quote : Char} {cs : List Char} (h : Unended quote cs) (start offset : Nat)
    (read : List Char) :
    Lexeme.scan (.inside quote start false read) offset cs = [.unterminated start] := by
  induction hsize : cs.length using Nat.strongRecOn generalizing cs offset read with
  | _ size ih =>
    cases cs with
    | nil => rfl
    | cons c rest =>
      have hne : c ≠ quote := by
        rintro rfl
        exact h [] rest .nil rfl
      by_cases hplain : c = '\\'
      · subst hplain
        cases rest with
        | nil => simp [Lexeme.scan, hne]
        | cons d rest =>
          have hrest : Unended quote rest := by
            intro body more hbody heq
            exact h ('\\' :: d :: body) more (.escape hbody) (by simp [heq])
          have hshorter : rest.length < size := by
            rw [← hsize, List.length_cons, List.length_cons]
            omega
          have := ih rest.length hshorter hrest
            (offset + '\\'.utf8Size + d.utf8Size) (d :: '\\' :: read) rfl
          simpa [Lexeme.scan, hne] using this
      · have := ih rest.length (by simp [← hsize]) (h.tail hne hplain) (offset + c.utf8Size)
          (c :: read) rfl
        simpa [Lexeme.scan, hne, beq_eq_false_iff_ne.2 hplain] using this

theorem Atom.Valid.scan {a : Atom} (h : a.Valid) (offset : Nat) (rest : List Char) :
    Lexeme.scan .outside offset (a.chars ++ rest) =
      a.lexeme offset :: Lexeme.scan .outside (offset + bytes a.chars) rest := by
  cases a with
  | literal quote body =>
    have hbody := scan_enclosed h.1 h.2 offset (offset + quote.utf8Size) [quote] rest
    simpa [Lexeme.scan, chars, lexeme, h.1, Nat.add_assoc] using hbody
  | char c => simp [Lexeme.scan, chars, lexeme, h.1]

/-- The lexemes of a text are those of its atoms and of what follows them. -/
theorem scan_textOf {parts : List Spaced} (h : ∀ p ∈ parts, p.Valid) (offset : Nat)
    (rest : List Char) :
    Lexeme.scan .outside offset (textOf parts ++ rest) =
      lexemesOf offset parts ++ Lexeme.scan .outside (offset + bytes (textOf parts)) rest := by
  induction parts generalizing offset with
  | nil => simp [lexemesOf]
  | cons p parts ih =>
    simp only [List.forall_mem_cons] at h
    simp [lexemesOf, Spaced.chars, scan_gap h.1.1, h.1.2.scan, ih h.2, Nat.add_assoc]

/-- A text that can be read has the lexemes of its atoms, white space, and what follows it. -/
theorem Reads.scan {before trail : List Char} {parts : List Spaced} (h : Reads before parts trail)
    (offset : Nat) (rest : List Char) :
    Lexeme.scan .outside offset (before ++ rest) =
      lexemesOf offset parts ++ (List.replicate trail.length .space ++
        Lexeme.scan .outside (offset + bytes before) rest) := by
  rw [h.text, List.append_assoc, scan_textOf h.valid, scan_gap h.blank]
  simp [Nat.add_assoc]

end DocTree.Signature
