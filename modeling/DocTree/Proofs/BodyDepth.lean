import DocTree.Proofs.Respacing

/-! The lines of a signature that has been laid out. Behind a line break outside literals stands the
indentation of the bodies that are open there and right behind it the next atom, and no white space is
left at the end of a line or of the text. -/
namespace DocTree.Signature
open Unicode

/-- The brackets that are open behind some atoms when these are open before them. -/
def openedBy (opened : List Char) (atoms : List Atom) : List Char :=
  atoms.foldl (fun opened a => a.opens opened) opened

/-- The text begins with four spaces for each body that the character behind them stands in, and that
character is no white space. A body counts if the parts before the text begin it, and neither they nor
the character itself end it. -/
def Indented (parts : List Spaced) (text : List Char) : Prop :=
  ∃ bodies c rest, text = List.replicate (4 * bodies) ' ' ++ c :: rest ∧ ¬ isBlank c ∧
    bodies + (parts.map Spaced.atom).count .bodyEnd + (if c = '\x7d' then 1 else 0) =
      (parts.map Spaced.atom).count .bodyStart

section Brackets
variable {atoms : List Atom} {opened : List Char} {o c : Char}

@[simp] theorem openedBy_nil (opened : List Char) : openedBy opened [] = opened := rfl

@[simp] theorem openedBy_cons (opened : List Char) (a : Atom) (atoms : List Atom) :
    openedBy opened (a :: atoms) = openedBy (a.opens opened) atoms := rfl

@[simp] theorem openedBy_append (opened : List Char) (as bs : List Atom) :
    openedBy opened (as ++ bs) = openedBy (openedBy opened as) bs := List.foldl_append

theorem Atom.opens_plain {a : Atom} (h : a.isBracket = false) (opened : List Char) :
    a.opens opened = opened := by
  cases a with
  | literal quote body => rfl
  | char c =>
    simp only [isBracket, Bool.or_eq_false_iff] at h
    simp [opens, h]

theorem Atom.opens_opening (h : Lexeme.isOpening o) (opened : List Char) :
    (Atom.char o).opens opened = o :: opened := if_pos h

theorem Atom.opens_closing (h : Lexeme.isClosing c) (opened : List Char) :
    (Atom.char c).opens opened = opened.tail := by
  simp [opens, h, (Lexeme.of_isClosing h).2.1]

/-- Well-nested brackets leave the open ones as they are, and as many bodies end as begin. -/
theorem Nested.closed (h : Nested atoms) (opened : List Char) :
    openedBy opened atoms = opened ∧ atoms.count .bodyEnd = atoms.count .bodyStart := by
  induction h generalizing opened with
  | nil => exact ⟨rfl, rfl⟩
  | @skip a rest plain _ ih =>
    have hstart : a ≠ .bodyStart := by rintro rfl; cases plain
    have hend : a ≠ .bodyEnd := by rintro rfl; cases plain
    rw [openedBy_cons, Atom.opens_plain plain, List.count_cons_of_ne hstart,
      List.count_cons_of_ne hend]
    exact ih opened
  | @wrap o c inner rest partners _ _ ihInner ihRest =>
    have hopening : Lexeme.isOpening o := by cases partners <;> rfl
    have hclosing : Lexeme.isClosing c := (matching_iff.1 partners).1
    have hbodies : [Atom.char o, .char c].count .bodyEnd = [Atom.char o, .char c].count .bodyStart := by
      cases partners <;> rfl
    refine ⟨?_, ?_⟩
    · simp [Atom.opens_opening hopening, Atom.opens_closing hclosing, (ihInner _).1, (ihRest _).1]
    · have hinner := (ihInner opened).2
      have hrest := (ihRest opened).2
      simp only [List.cons_append, List.count_cons, List.count_append, List.count_nil] at hbodies ⊢
      omega

/-- The brackets that are left open are those that have not been closed, and for each body that has
been begun its end stands among the atoms or its brace among the open brackets. -/
theorem Leaves.bodies (h : Leaves atoms opened) :
    openedBy [] atoms = opened ∧
      opened.count '\x7b' + atoms.count .bodyEnd = atoms.count .bodyStart := by
  induction h with
  | nested all =>
    obtain ⟨hopened, hbodies⟩ := all.closed []
    exact ⟨hopened, by rw [hbodies, List.count_nil, Nat.zero_add]⟩
  | @opening before inner o opened _ bracket inside ih =>
    obtain ⟨hbefore, hcount⟩ := ih
    obtain ⟨hinner, hbodies⟩ := inside.closed (o :: opened)
    refine ⟨?_, ?_⟩
    · simp [hbefore, Atom.opens_opening bracket, hinner]
    · have hend : Atom.char o ≠ .bodyEnd := Atom.ne_bodyEnd (Lexeme.of_isOpening bracket).2.1
      have hstart : (Atom.char o == .bodyStart) = (o == '\x7b') := by
        simp [Atom.bodyStart, beq_eq_decide]
      rw [List.count_append, List.count_append, List.count_cons_of_ne hend, List.count_cons,
        List.count_cons, hstart]
      omega

/-- Before each atom of a text that can be laid out some brackets are open, and if it ends a body then
the innermost of them is a brace. -/
theorem exists_leaves {source text : String} {ps qs : List Spaced} {p : Spaced} {trail : List Char}
    (h : layOut source = .ok text) (read : Reads source.toList (ps ++ p :: qs) trail) :
    ∃ opened, Leaves (ps.map Spaced.atom) opened ∧
      (p.atom = .bodyEnd → ∃ outer, opened = '\x7b' :: outer) := by
  rcases leaves_or_mismatch (ps.map Spaced.atom) with
    ⟨opened, left⟩ | ⟨front, c, back, opened, hatoms, left, hclosing, hmismatch⟩
  · refine ⟨opened, left, fun hend => ?_⟩
    obtain ⟨hsplit, hfront, -⟩ := read.split
    rw [hend] at hsplit
    by_contra hopened
    refine not_firstFault_of_layOut h _
      (.closing hsplit hfront left rfl fun o outer heq hmatching => hopened ?_)
    obtain ⟨-, rfl⟩ := matching_iff.1 hmatching
    exact ⟨outer, heq⟩
  · obtain ⟨ps, gap, back, rfl, rfl, rfl⟩ := exists_split hatoms
    rw [List.append_assoc, List.cons_append] at read
    obtain ⟨hsplit, hfront, -⟩ := read.split
    exact (not_firstFault_of_layOut h _ (.closing hsplit hfront left hclosing hmismatch)).elim

end Brackets

/-! The white space of the respaced text -/

/-- White space in a text that is read up to its last atom stands in front of an atom, and the text
before it is read as the parts before that atom. -/
theorem Reads.exists_gap {before after trail : List Char} {parts laid : List Spaced} {c : Char}
    (h : Reads (before ++ c :: after) laid []) (hbefore : Reads before parts trail)
    (hc : isBlank c) :
    ∃ gap a rest, laid = parts ++ ⟨trail ++ c :: gap, a⟩ :: rest ∧
      after = gap ++ (a.chars ++ textOf rest) := by
  induction parts generalizing before laid with
  | nil =>
    obtain rfl : before = trail := hbefore.text
    cases laid with
    | nil => simpa using h.text
    | cons p laid =>
      have hp := (List.forall_mem_cons.1 h.valid).1
      have htext : before ++ c :: after = p.chars ++ textOf laid := by simpa using h.text
      have hgap : p.gap = before ++ c :: after.takeWhile isBlank := by
        rw [← (hp.takeWhile_isBlank _).1, ← htext, List.takeWhile_append_of_pos hbefore.blank,
          List.takeWhile_cons_of_pos hc]
      refine ⟨after.takeWhile isBlank, p.atom, laid, by rw [← hgap]; rfl, ?_⟩
      rw [Spaced.chars, hgap] at htext
      simpa using htext
  | cons q parts ih =>
    have hq := List.forall_mem_cons.1 hbefore.valid
    have hchars : before = q.chars ++ (textOf parts ++ trail) := by simp [hbefore.text]
    cases laid with
    | nil => simpa using h.text
    | cons p laid =>
      have hp := List.forall_mem_cons.1 h.valid
      have htext : p.chars ++ textOf laid = q.chars ++ (textOf parts ++ trail ++ c :: after) := by
        simpa [hchars] using h.text.symm
      obtain ⟨rfl, hrest⟩ := hp.1.unique hq.1 htext
      obtain ⟨gap, a, rest, hlaid, hafter⟩ :=
        ih ⟨by rw [hrest, List.append_nil], hp.2, h.blank⟩ ⟨rfl, hq.2, hbefore.blank⟩
      exact ⟨gap, a, rest, by rw [hlaid, List.cons_append], hafter⟩

/-- The white space in front of an atom is what it gets behind the atoms before it. -/
theorem respaced_split {opened gap : List Char} {prev : Option Atom} {parts front back : List Spaced}
    {a : Atom} (h : respaced opened prev parts = front ++ ⟨gap, a⟩ :: back) :
    ∃ ps sourceGap qs last, parts = ps ++ ⟨sourceGap, a⟩ :: qs ∧
      front.map Spaced.atom = ps.map Spaced.atom ∧
      gap = gapBehind (openedBy opened (ps.map Spaced.atom)) last a sourceGap := by
  induction front generalizing opened prev parts with
  | nil =>
    cases parts with
    | nil => simp [respaced] at h
    | cons q parts =>
      obtain ⟨heq, -⟩ := List.cons.inj h
      obtain ⟨rfl, rfl⟩ := Spaced.mk.inj heq
      exact ⟨[], q.gap, parts, prev, rfl, rfl, rfl⟩
  | cons f front ih =>
    cases parts with
    | nil => simp [respaced] at h
    | cons q parts =>
      obtain ⟨rfl, hrest⟩ := List.cons.inj h
      obtain ⟨ps, sourceGap, qs, last, rfl, hfront, hgap⟩ := ih hrest
      exact ⟨q :: ps, sourceGap, qs, last, rfl, by simp [hfront], hgap⟩

/-- A line break in the white space of an atom is the first character of it, and the indentation of
the bodies that the atom stands in is the rest. -/
theorem gapBehind_break {opened gap before after : List Char} {last : Option Atom} {a : Atom}
    (h : gapBehind opened last a gap = before ++ '\n' :: after) :
    before = [] ∧ after = List.replicate (4 * bodyDepth opened a) ' ' := by
  have hbreak : '\n' ∈ gapBehind opened last a gap := by simp [h]
  have hgap : gapBehind opened last a gap =
      '\n' :: List.replicate (4 * bodyDepth opened a) ' ' := by
    cases last with
    | none => simp [gapBehind] at hbreak
    | some prev =>
      rw [gapBehind, gapBetween] at hbreak ⊢
      split_ifs at hbreak ⊢ <;> simp_all
  rw [hgap] at h
  cases before with
  | nil => exact ⟨rfl, (List.cons.inj h).2.symm⟩
  | cons c before =>
    have hmem : '\n' ∈ List.replicate (4 * bodyDepth opened a) ' ' := by
      rw [(List.cons.inj h).2]
      simp
    simp at hmem

/-! The laid out text -/

/-- An atom begins with a brace that ends a body only if it is that brace. -/
theorem Atom.Valid.begins_bodyEnd {a : Atom} (h : a.Valid) {c : Char} {cs : List Char}
    (hchars : a.chars = c :: cs) : c = '\x7d' ↔ a = .bodyEnd := by
  cases a with
  | literal quote body =>
    obtain ⟨rfl, -⟩ := List.cons.inj hchars
    refine iff_of_false (fun hc => ?_) (by simp [bodyEnd])
    exact absurd h.1 (by rw [hc]; decide)
  | char d =>
    obtain ⟨rfl, -⟩ := List.cons.inj hchars
    simp [bodyEnd]

/-- Nothing is written in front of the first atom. -/
theorem dropWhile_respaced {parts : List Spaced} (h : ∀ p ∈ parts, p.Valid) :
    (textOf (respaced [] none parts)).dropWhile isBlank = textOf (respaced [] none parts) := by
  have read := reads_respaced h [] none
  cases parts with
  | nil => rfl
  | cons p parts =>
    have hp := (List.forall_mem_cons.1 read.valid).1
    exact (hp.takeWhile_isBlank _).2

/-- Behind a line break the bodies that are open decide how far the next atom is indented. -/
theorem indented_behind {source text : String} {parts : List Spaced} {before after trail : List Char}
    (h : layOut source = .ok text) (hsplit : text.toList = before ++ '\n' :: after)
    (hbefore : Reads before parts trail) : trail = [] ∧ Indented parts after := by
  obtain ⟨sourceParts, sourceTrail, read, -⟩ := exists_nested_of_layOut h
  have readLaid := reads_layOut read h
  rw [hsplit] at readLaid
  obtain ⟨gap, a, rest, hlaid, hafter⟩ := readLaid.exists_gap hbefore isBlank_newline
  obtain ⟨ps, sourceGap, qs, last, rfl, hatoms, hgap⟩ := respaced_split hlaid
  obtain ⟨opened, left, hinner⟩ := exists_leaves h read
  obtain ⟨hopened, hcount⟩ := left.bodies
  rw [hopened] at hgap
  obtain ⟨rfl, rfl⟩ := gapBehind_break hgap.symm
  have hvalid : a.Valid := (read.valid ⟨sourceGap, a⟩ (by simp)).2
  obtain ⟨⟨c, cs, hchars, hc⟩, -⟩ := hvalid.solid
  refine ⟨rfl, bodyDepth opened a, c, cs ++ textOf rest, by rw [hafter, hchars]; rfl, hc, ?_⟩
  rw [hatoms, ← hcount, bodyDepth]
  by_cases hend : a = .bodyEnd
  · obtain ⟨outer, rfl⟩ := hinner hend
    rw [if_pos hend, if_pos ((hvalid.begins_bodyEnd hchars).2 hend), List.tail_cons,
      List.count_cons_self]
    omega
  · rw [if_neg hend, if_neg ((hvalid.begins_bodyEnd hchars).not.2 hend), Nat.add_zero]

/-- A text that has been laid out has no white space at its start and at its end. Each line break in
it outside literals, that is one before which no literal is left open, stands right behind an atom, and
behind it stands the indentation of the bodies that the next atom stands in. -/
theorem layOut_indented {source text : String} (h : layOut source = .ok text) :
    trimBlank text.toList = text.toList ∧
      ∀ before after parts trail, text.toList = before ++ '\n' :: after →
        Reads before parts trail →
          (∃ front c, before = front ++ [c] ∧ ¬ isBlank c) ∧ Indented parts after := by
  obtain ⟨sourceParts, sourceTrail, read, -⟩ := exists_nested_of_layOut h
  have readLaid := reads_layOut read h
  have hstart : text.toList.dropWhile isBlank = text.toList := by
    rw [layOut_respaced read h]
    exact dropWhile_respaced read.valid
  refine ⟨by rw [trimBlank, hstart, readLaid.dropBlankEnd], ?_⟩
  intro before after parts trail hsplit hbefore
  obtain ⟨rfl, hafter⟩ := indented_behind h hsplit hbefore
  refine ⟨hbefore.exists_last ?_, hafter⟩
  rintro rfl
  rw [hsplit, List.nil_append, List.dropWhile_cons_of_pos isBlank_newline] at hstart
  have hshorter := (List.dropWhile_suffix (l := after) isBlank).length_le
  rw [hstart, List.length_cons] at hshorter
  omega

/-- The parts of two bodies up to the end of a member that is a literal with a brace and a line break. -/
def literalMember : List Spaced :=
  [⟨[], .bodyStart⟩, ⟨"\n    ".toList, .char 'a'⟩, ⟨[], .bodyStart⟩,
    ⟨"\n        ".toList, .literal '"' ['\x7d', '\n']⟩, ⟨[], .char ','⟩]

/-- The brace in the literal ends no body, and the line break in it is not followed by spaces. -/
theorem layOut_indented_literalMember :
    layOut "\x7ba\x7b\"\x7d\n\", b\x7d\x7d" =
        .ok "\x7b\n    a\x7b\n        \"\x7d\n\",\n        b\n    \x7d\n\x7d" ∧
      Reads "\x7b\n    a\x7b\n        \"\x7d\n\",".toList literalMember [] ∧
      Indented literalMember "        b\n    \x7d\n\x7d".toList := by
  have h : layOut "\x7ba\x7b\"\x7d\n\", b\x7d\x7d" =
      .ok "\x7b\n    a\x7b\n        \"\x7d\n\",\n        b\n    \x7d\n\x7d" := by decide
  have hbody : Enclosed '"' ['\x7d', '\n'] := .char (by decide) (by decide)
    (.char (by decide) (by decide) .nil)
  have read : Reads "\x7b\n    a\x7b\n        \"\x7d\n\",".toList literalMember [] := by
    refine ⟨by decide, ?_, by simp⟩
    simp [literalMember, Spaced.Valid, Atom.Valid, Atom.bodyStart, hbody]
    decide
  exact ⟨h, read, ((layOut_indented h).2 _ _ _ _ (by decide) read).2⟩

end DocTree.Signature
