import DocTree.Proofs.Atoms
import Mathlib.Data.List.Induction

/-! Which signatures can be laid out: those whose literals end and whose brackets outside literals
are well nested. Any other one has a first fault, and that is the error. -/
namespace DocTree.Signature

/-- An opening bracket and the one that closes it. -/
inductive Matching : Char → Char → Prop where
  | round : Matching '(' ')'
  | square : Matching '[' ']'
  | curly : Matching '\x7b' '\x7d'

def Atom.isBracket : Atom → Bool
  | literal _ _ => false
  | char c => Lexeme.isOpening c || Lexeme.isClosing c

/-- Each bracket has its partner, and what stands between two partners is well nested, too. -/
inductive Nested : List Atom → Prop where
  | nil : Nested []
  | skip {a : Atom} {rest : List Atom} (plain : a.isBracket = false) (more : Nested rest) :
      Nested (a :: rest)
  | wrap {o c : Char} {inner rest : List Atom} (partners : Matching o c) (inside : Nested inner)
      (more : Nested rest) : Nested (.char o :: inner ++ .char c :: rest)

/-- Each closing bracket is the partner of the innermost open one, and these brackets are left
open, the innermost first. -/
inductive Leaves : List Atom → List Char → Prop where
  | nested {atoms : List Atom} (all : Nested atoms) : Leaves atoms []
  | opening {before inner : List Atom} {o : Char} {opened : List Char} (left : Leaves before opened)
      (bracket : Lexeme.isOpening o) (inside : Nested inner) :
      Leaves (before ++ .char o :: inner) (o :: opened)

/-- The first thing that is wrong with a text, read from the left: a literal that has no end, or a
closing bracket that is not the partner of the innermost open one. If there is neither, it is the
innermost bracket that is still open at the end. -/
inductive FirstFault (source : List Char) : LayoutError → Prop where
  | unterminated {before after trail : List Char} {parts : List Spaced} {opened : List Char}
      {quote : Char} (split : source = before ++ quote :: after) (read : Reads before parts trail)
      (left : Leaves (parts.map Spaced.atom) opened) (opens : Lexeme.isQuote quote)
      (unended : Unended quote after) : FirstFault source (.unterminated (bytes before))
  | closing {before after trail : List Char} {parts : List Spaced} {opened : List Char} {c : Char}
      (split : source = before ++ c :: after) (read : Reads before parts trail)
      (left : Leaves (parts.map Spaced.atom) opened) (closes : Lexeme.isClosing c)
      (mismatch : ∀ o outer, opened = o :: outer → ¬ Matching o c) :
      FirstFault source (.unbalanced c (bytes before))
  | opening {before inner trail trail' : List Char} {parts parts' : List Spaced}
      {opened : List Char} {o : Char} (split : source = before ++ o :: inner)
      (read : Reads before parts trail) (left : Leaves (parts.map Spaced.atom) opened)
      (opens : Lexeme.isOpening o) (readInner : Reads inner parts' trail')
      (inside : Nested (parts'.map Spaced.atom)) :
      FirstFault source (.unbalanced o (bytes before))

/-! Well-nested brackets, and every text as one of the four -/

theorem Nested.append {as bs : List Atom} (ha : Nested as) (hb : Nested bs) :
    Nested (as ++ bs) := by
  induction ha with
  | nil => exact hb
  | skip plain _ ih => exact .skip plain ih
  | @wrap o c inner rest partners inside _ _ ih =>
    have := Nested.wrap partners inside ih
    simpa using this

theorem Leaves.append {as bs : List Atom} {opened : List Char} (ha : Leaves as opened)
    (hb : Nested bs) : Leaves (as ++ bs) opened := by
  cases ha with
  | nested all => exact .nested (all.append hb)
  | opening left bracket inside =>
    have := Leaves.opening left bracket (inside.append hb)
    simpa using this

theorem Leaves.close {as : List Atom} {o c : Char} {opened : List Char}
    (h : Leaves as (o :: opened)) (hc : Matching o c) : Leaves (as ++ [.char c]) opened := by
  cases h with
  | opening left bracket inside =>
    have := left.append (.wrap hc inside .nil)
    simpa using this

/-- Atoms have a closing bracket that is not the partner of the innermost open one, or they leave
brackets open. -/
theorem leaves_or_mismatch (atoms : List Atom) :
    (∃ opened, Leaves atoms opened) ∨
      ∃ front c back opened, atoms = front ++ .char c :: back ∧ Leaves front opened ∧
        Lexeme.isClosing c ∧ ∀ o outer, opened = o :: outer → ¬ Matching o c := by
  induction atoms using List.reverseRecOn with
  | nil => exact .inl ⟨[], .nested .nil⟩
  | append_singleton atoms a ih =>
    rcases ih with ⟨opened, h⟩ | ⟨front, c, back, opened, rfl, h, hclosing, hmismatch⟩
    · by_cases hplain : a.isBracket = false
      · exact .inl ⟨opened, h.append (.skip hplain .nil)⟩
      · cases a with
        | literal quote body => simp [Atom.isBracket] at hplain
        | char c =>
          by_cases hopening : Lexeme.isOpening c
          · exact .inl ⟨c :: opened, .opening h hopening .nil⟩
          · have hclosing : Lexeme.isClosing c := by simpa [Atom.isBracket, hopening] using hplain
            by_cases hmatch : ∃ o outer, opened = o :: outer ∧ Matching o c
            · obtain ⟨o, outer, rfl, hmatch⟩ := hmatch
              exact .inl ⟨outer, h.close hmatch⟩
            · refine .inr ⟨atoms, c, [], opened, rfl, h, hclosing, ?_⟩
              intro o outer hopened hmatching
              exact hmatch ⟨o, outer, hopened, hmatching⟩
    · exact .inr ⟨front, c, back ++ [a], opened, by simp, h, hclosing, hmismatch⟩

/-- A text that is read is read before each of its atoms, and behind it. -/
theorem Reads.split {source trail : List Char} {ps qs : List Spaced} {p : Spaced}
    (h : Reads source (ps ++ p :: qs) trail) :
    source = (textOf ps ++ p.gap) ++ (p.atom.chars ++ (textOf qs ++ trail)) ∧
      Reads (textOf ps ++ p.gap) ps p.gap ∧ Reads (textOf qs ++ trail) qs trail := by
  have hvalid := h.valid
  simp only [List.forall_mem_append, List.forall_mem_cons] at hvalid
  exact ⟨by simp [h.text, Spaced.chars], ⟨rfl, hvalid.1, hvalid.2.1.1⟩,
    rfl, hvalid.2.2, h.blank⟩

/-- The parts of a text around one of its atoms. -/
theorem exists_split {parts : List Spaced} {front back : List Atom} {a : Atom}
    (h : parts.map Spaced.atom = front ++ a :: back) :
    ∃ ps gap qs, parts = ps ++ ⟨gap, a⟩ :: qs ∧ ps.map Spaced.atom = front ∧
      qs.map Spaced.atom = back := by
  obtain ⟨ps, rest, rfl, hfront, hrest⟩ := List.map_eq_append_iff.1 h
  obtain ⟨p, qs, rfl, rfl, hback⟩ := List.map_eq_cons_iff.1 hrest
  exact ⟨ps, p.gap, qs, rfl, hfront, hback⟩

/-- A text is well nested or has a first fault. -/
theorem nested_or_fault (source : List Char) :
    (∃ parts trail, Reads source parts trail ∧ Nested (parts.map Spaced.atom)) ∨
      ∃ e, FirstFault source e := by
  obtain ⟨before, after, parts, trail, rfl, read, hafter⟩ := exists_reads source
  rcases leaves_or_mismatch (parts.map Spaced.atom) with
    ⟨opened, left⟩ | ⟨front, c, back, opened, hatoms, left, hclosing, hmismatch⟩
  · rcases hafter with rfl | ⟨quote, rest, rfl, hquote, hend⟩
    · rw [List.append_nil]
      generalize hatoms : parts.map Spaced.atom = atoms at left
      cases left with
      | nested all => exact .inl ⟨parts, trail, read, hatoms ▸ all⟩
      | opening left bracket inside =>
        obtain ⟨ps, gap, qs, rfl, rfl, rfl⟩ := exists_split hatoms
        obtain ⟨rfl, hfront, hback⟩ := read.split
        exact .inr ⟨_, .opening rfl hfront left bracket hback inside⟩
    · exact .inr ⟨_, .unterminated rfl read left hquote hend⟩
  · obtain ⟨ps, gap, qs, rfl, rfl, rfl⟩ := exists_split hatoms
    obtain ⟨rfl, hfront, hback⟩ := read.split
    exact .inr ⟨_, .closing (by simp [Atom.chars]; rfl) hfront left hclosing hmismatch⟩

/-! The brackets of a draft -/

theorem matching_iff {o c : Char} : Matching o c ↔ Lexeme.isClosing c ∧ o = partner c := by
  constructor
  · intro h
    cases h <;> exact ⟨rfl, rfl⟩
  · rintro ⟨hc, rfl⟩
    simp only [Lexeme.isClosing, Bool.or_eq_true, beq_iff_eq] at hc
    rcases hc with (rfl | rfl) | rfl
    · exact .round
    · exact .square
    · exact .curly

namespace Draft

@[simp] theorem put_brackets (d : Draft) (s : String) : (d.put s).brackets = d.brackets := rfl

@[simp] theorem put_inEmptyBraces (d : Draft) (s : String) :
    (d.put s).inEmptyBraces = d.inEmptyBraces := rfl

@[simp] theorem newline_brackets (d : Draft) : d.newline.brackets = d.brackets := rfl

@[simp] theorem newline_inEmptyBraces (d : Draft) :
    d.newline.inEmptyBraces = d.inEmptyBraces := rfl

@[simp] theorem space_brackets (d : Draft) : d.space.brackets = d.brackets := by
  unfold space
  split <;> rfl

@[simp] theorem space_inEmptyBraces (d : Draft) : d.space.inEmptyBraces = d.inEmptyBraces := by
  unfold space
  split <;> rfl

@[simp] theorem ensureNewline_brackets (d : Draft) : d.ensureNewline.brackets = d.brackets := by
  unfold ensureNewline
  split <;> rfl

@[simp] theorem ensureNewline_inEmptyBraces (d : Draft) :
    d.ensureNewline.inEmptyBraces = d.inEmptyBraces := by
  unfold ensureNewline
  split <;> rfl

/-- These brackets are open in a draft when the lexemes follow. The brace of an empty body counts
until its partner is read, although both have been written. -/
def Opens (d : Draft) (opened : List (Char × Nat)) (next : List Lexeme) : Prop :=
  d.inEmptyBraces = false ∧ d.brackets = opened ∨
    d.inEmptyBraces = true ∧ closesBraces next = true ∧
      ∃ offset, opened = ('\x7b', offset) :: d.brackets

end Draft

/-- A lexeme that is neither a bracket nor the start of a literal without an end. -/
def Lexeme.isPlain : Lexeme → Bool
  | unterminated _ | opening _ _ | closing _ _ => false
  | _ => true

@[simp] theorem closesBraces_space (next : List Lexeme) :
    closesBraces (.space :: next) = closesBraces next := by
  simp [closesBraces, nextSignificant?]

section Steps
variable {d : Draft} {opened : List (Char × Nat)} {next : List Lexeme} {c : Char} {offset : Nat}

theorem Draft.Opens.plain {l : Lexeme} (h : d.Opens opened (l :: next)) (hl : l.isPlain) :
    ∃ d', d.add next l = .ok d' ∧ d'.Opens opened next := by
  cases l with
  | space =>
    refine ⟨_, rfl, ?_⟩
    rcases h with ⟨hempty, hopened⟩ | ⟨hempty, hcloses, hopened⟩
    · exact .inl (by simp [hempty, hopened])
    · exact .inr (by simpa [hempty] using ⟨by simpa using hcloses, hopened⟩)
  | separator mark =>
    refine ⟨_, rfl, ?_⟩
    rcases h with h | ⟨_, hcloses, _⟩
    · unfold separate
      dsimp only
      split <;> exact .inl (by simpa using h)
    · simp [closesBraces, nextSignificant?] at hcloses
  | literal text =>
    refine ⟨_, rfl, ?_⟩
    rcases h with h | ⟨_, hcloses, _⟩
    · exact .inl (by simpa using h)
    · simp [closesBraces, nextSignificant?] at hcloses
  | other c =>
    refine ⟨_, rfl, ?_⟩
    rcases h with h | ⟨_, hcloses, _⟩
    · exact .inl (by simpa using h)
    · simp [closesBraces, nextSignificant?] at hcloses
  | _ => simp [Lexeme.isPlain] at hl

theorem Draft.Opens.opening (h : d.Opens opened (.opening c offset :: next)) :
    (d.openBracket c offset next).Opens ((c, offset) :: opened) next := by
  rcases h with ⟨hempty, hopened⟩ | ⟨_, hcloses, _⟩
  · unfold openBracket
    dsimp only
    split
    · next hc =>
      split
      · next hnext => exact .inr ⟨rfl, hnext, offset, by simp [hc, hopened]⟩
      · exact .inl ⟨by simp [newline, hempty], by simp [newline, hopened]⟩
    · exact .inl ⟨by simp [hempty], by simp [hopened]⟩
  · simp [closesBraces, nextSignificant?] at hcloses

theorem Draft.Opens.closing {o : Char} {i : Nat}
    (h : d.Opens ((o, i) :: opened) (.closing c offset :: next)) (hc : Matching o c) :
    ∃ d', d.add next (.closing c offset) = .ok d' ∧ d'.Opens opened next := by
  obtain ⟨-, rfl⟩ := matching_iff.1 hc
  rcases h with ⟨hempty, hopened⟩ | ⟨hempty, _, j, hopened⟩
  · by_cases hbrace : c = '\x7d'
    · refine ⟨_, by simp [add, hempty, closeBracket, hopened, hbrace]; rfl, .inl ?_⟩
      simp
    · refine ⟨_, by simp [add, hempty, closeBracket, hopened, hbrace]; rfl, .inl ?_⟩
      simp
  · refine ⟨_, by simp [add, hempty]; rfl, .inl ?_⟩
    simpa using (List.cons.inj hopened).2.symm

theorem Draft.Opens.mismatch (h : d.Opens opened (.closing c offset :: next))
    (hc : Lexeme.isClosing c)
    (hmismatch : ∀ o i outer, opened = (o, i) :: outer → ¬ Matching o c) :
    d.add next (.closing c offset) = .error (.unbalanced c offset) := by
  rcases h with ⟨hempty, rfl⟩ | ⟨_, hcloses, i, rfl⟩
  · cases hbrackets : d.brackets with
    | nil => simp [add, hempty, closeBracket, hbrackets]
    | cons b outer =>
      have hpartner : b.1 ≠ partner c := by
        intro hb
        exact hmismatch b.1 b.2 outer (by simp [hbrackets]) (matching_iff.2 ⟨hc, hb⟩)
      simp [add, hempty, closeBracket, hbrackets, hpartner]
  · have hbrace : c = '\x7d' := by simpa [closesBraces, nextSignificant?] using hcloses
    exact (hmismatch _ _ _ rfl (hbrace ▸ .curly)).elim

end Steps

/-- Lexemes that are added without an error, and lead from some open brackets to others. -/
def Leads (lexemes : List Lexeme) (opened left : List (Char × Nat)) : Prop :=
  ∀ (d : Draft) (next : List Lexeme), d.Opens opened (lexemes ++ next) →
    ∃ d' : Draft, d.addAll (lexemes ++ next) = d'.addAll next ∧ d'.Opens left next

theorem leads_nil (opened : List (Char × Nat)) : Leads [] opened opened :=
  fun d _ h => ⟨d, rfl, h⟩

theorem Leads.append {ls ms : List Lexeme} {opened between left : List (Char × Nat)}
    (hl : Leads ls opened between) (hm : Leads ms between left) : Leads (ls ++ ms) opened left := by
  intro d next h
  rw [List.append_assoc] at h ⊢
  obtain ⟨d', hd, h'⟩ := hl d _ h
  obtain ⟨d'', hd', h''⟩ := hm d' _ h'
  exact ⟨d'', hd.trans hd', h''⟩

theorem leads_of_add {l : Lexeme} {opened left : List (Char × Nat)}
    (h : ∀ (d : Draft) next, d.Opens opened (l :: next) →
      ∃ d', d.add next l = .ok d' ∧ d'.Opens left next) : Leads [l] opened left := by
  intro d next hd
  obtain ⟨d', hadd, h'⟩ := h d next hd
  exact ⟨d', by simp [Draft.addAll, hadd], h'⟩

theorem leads_plains {ls : List Lexeme} (h : ∀ l ∈ ls, l.isPlain) (opened : List (Char × Nat)) :
    Leads ls opened opened := by
  induction ls with
  | nil => exact leads_nil opened
  | cons l ls ih =>
    simp only [List.forall_mem_cons] at h
    have hl : Leads [l] opened opened := leads_of_add fun _ _ hd => hd.plain h.1
    exact hl.append (ih h.2)

theorem leads_gap (gap : List Char) (opened : List (Char × Nat)) :
    Leads (List.replicate gap.length .space) opened opened :=
  leads_plains (by simp [Lexeme.isPlain]) opened

theorem leads_opening (o : Char) (offset : Nat) (opened : List (Char × Nat)) :
    Leads [.opening o offset] opened ((o, offset) :: opened) :=
  leads_of_add fun _ _ hd => ⟨_, rfl, hd.opening⟩

theorem leads_closing {o c : Char} (hc : Matching o c) (i offset : Nat)
    (opened : List (Char × Nat)) : Leads [.closing c offset] ((o, i) :: opened) opened :=
  leads_of_add fun _ _ hd => hd.closing hc

theorem Leads.part {p : Spaced} {rest : List Spaced} {offset : Nat}
    {opened between left : List (Char × Nat)}
    (hp : Leads [p.atom.lexeme (offset + bytes p.gap)] opened between)
    (hrest : Leads (lexemesOf (offset + bytes p.chars) rest) between left) :
    Leads (lexemesOf offset (p :: rest)) opened left := by
  have := (leads_gap p.gap opened).append (hp.append hrest)
  simpa [lexemesOf] using this

theorem isPlain_lexeme {a : Atom} (h : a.isBracket = false) (offset : Nat) :
    (a.lexeme offset).isPlain := by
  cases a with
  | literal quote body => rfl
  | char c =>
    simp only [Atom.isBracket, Bool.or_eq_false_iff] at h
    simp only [Atom.lexeme, Lexeme.ofChar, h.1, h.2, Bool.false_eq_true, if_false]
    split
    · rfl
    · split <;> rfl

theorem lexeme_opening {o : Char} (h : Lexeme.isOpening o) (offset : Nat) :
    (Atom.char o).lexeme offset = .opening o offset := by
  simp [Atom.lexeme, Lexeme.ofChar, h]

theorem lexeme_closing {c : Char} (h : Lexeme.isClosing c) (offset : Nat) :
    (Atom.char c).lexeme offset = .closing c offset := by
  simp [Atom.lexeme, Lexeme.ofChar, (Lexeme.of_isClosing h).2.1, h]

/-- Well-nested brackets leave the open ones as they are. -/
theorem Nested.leads {atoms : List Atom} (h : Nested atoms) {parts : List Spaced}
    (hparts : parts.map Spaced.atom = atoms) (offset : Nat) (opened : List (Char × Nat)) :
    Leads (lexemesOf offset parts) opened opened := by
  induction h generalizing parts offset opened with
  | nil =>
    rw [List.map_eq_nil_iff.1 hparts]
    exact leads_nil opened
  | skip plain _ ih =>
    obtain ⟨p, rest, rfl, rfl, hrest⟩ := List.map_eq_cons_iff.1 hparts
    exact .part (leads_plains (by simpa using isPlain_lexeme plain _) opened) (ih hrest _ _)
  | @wrap o c _ _ partners _ _ ihInner ihRest =>
    obtain ⟨⟨gap, a⟩, more, rfl, rfl, hmore⟩ := List.map_eq_cons_iff.1 hparts
    obtain ⟨ps, gap', qs, rfl, hinner, hrest⟩ := exists_split hmore
    have hopening : Lexeme.isOpening o := by cases partners <;> rfl
    have hclosing : Lexeme.isClosing c := (matching_iff.1 partners).1
    refine .part (p := ⟨gap, .char o⟩)
      (by rw [lexeme_opening hopening]; exact leads_opening o _ opened) ?_
    rw [lexemesOf_append]
    refine (ihInner hinner _ _).append (.part (p := ⟨gap', .char c⟩) ?_ (ihRest hrest _ _))
    rw [lexeme_closing hclosing]
    exact leads_closing partners _ _ opened

/-- Atoms lead to the brackets that they leave open. -/
theorem Leaves.leads {atoms : List Atom} {left : List Char} (h : Leaves atoms left)
    {parts : List Spaced} (hparts : parts.map Spaced.atom = atoms) (offset : Nat) :
    ∃ opened : List (Char × Nat), opened.map Prod.fst = left ∧
      Leads (lexemesOf offset parts) [] opened := by
  induction h generalizing parts offset with
  | nested all => exact ⟨[], rfl, all.leads hparts offset []⟩
  | @opening _ _ o _ _ bracket inside ih =>
    obtain ⟨ps, gap, qs, rfl, hbefore, hinner⟩ := exists_split hparts
    obtain ⟨opened, hopened, hleads⟩ := ih hbefore offset
    rw [lexemesOf_append]
    refine ⟨(o, offset + bytes (textOf ps) + bytes gap) :: opened, by simp [hopened],
      hleads.append ?_⟩
    exact .part (p := ⟨gap, .char o⟩)
      (by rw [lexeme_opening bracket]; exact leads_opening o _ opened) (inside.leads hinner _ _)

/-- Reading a text without a fault so far leads to a draft in which the brackets are open that it
leaves open. -/
theorem exists_draft {before trail : List Char} {parts : List Spaced} {left : List Char}
    (read : Reads before parts trail) (h : Leaves (parts.map Spaced.atom) left)
    (rest : List Char) :
    ∃ (d : Draft) (opened : List (Char × Nat)), opened.map Prod.fst = left ∧
      Draft.addAll {} (Lexeme.scan .outside 0 (before ++ rest)) =
        d.addAll (Lexeme.scan .outside (bytes before) rest) ∧
      d.Opens opened (Lexeme.scan .outside (bytes before) rest) := by
  obtain ⟨opened, hopened, hleads⟩ := h.leads rfl 0
  obtain ⟨d, hd, hopens⟩ := (hleads.append (leads_gap trail opened)) {}
    (Lexeme.scan .outside (bytes before) rest) (.inl ⟨rfl, rfl⟩)
  exact ⟨d, opened, hopened, by rw [read.scan, ← List.append_assoc, Nat.zero_add, hd], hopens⟩

theorem Draft.Opens.brackets {d : Draft} {opened : List (Char × Nat)} (h : d.Opens opened []) :
    d.brackets = opened := by
  rcases h with ⟨-, h⟩ | ⟨_, hcloses, _⟩
  · exact h
  · simp [closesBraces, nextSignificant?] at hcloses

theorem scan_opening {o : Char} (h : Lexeme.isOpening o) (offset : Nat) (rest : List Char) :
    Lexeme.scan .outside offset (o :: rest) =
      .opening o offset :: Lexeme.scan .outside (offset + o.utf8Size) rest := by
  simp [Lexeme.scan, Lexeme.ofChar, (Lexeme.of_isOpening h).1, h]

theorem scan_closing {c : Char} (h : Lexeme.isClosing c) (offset : Nat) (rest : List Char) :
    Lexeme.scan .outside offset (c :: rest) =
      .closing c offset :: Lexeme.scan .outside (offset + c.utf8Size) rest := by
  obtain ⟨hquote, hopening, -⟩ := Lexeme.of_isClosing h
  simp [Lexeme.scan, Lexeme.ofChar, hquote, hopening, h]

/-! What becomes of a text -/

theorem layOut_eq_finish {source : String} {d : Draft}
    (h : Draft.addAll {} (Lexeme.scan .outside 0 source.toList) = .ok d) :
    layOut source = d.finish := by
  simp [layOut, Lexeme.ofSource, h]

theorem layOut_eq_error {source : String} {e : LayoutError}
    (h : Draft.addAll {} (Lexeme.scan .outside 0 source.toList) = .error e) :
    layOut source = .error e := by
  simp [layOut, Lexeme.ofSource, h]

theorem exists_layOut_of_nested {source : String} {parts : List Spaced} {trail : List Char}
    (read : Reads source.toList parts trail) (h : Nested (parts.map Spaced.atom)) :
    ∃ text, layOut source = .ok text := by
  obtain ⟨d, opened, hopened, hd, hopens⟩ := exists_draft read (.nested h) []
  obtain rfl := List.map_eq_nil_iff.1 hopened
  rw [List.append_nil, Lexeme.scan] at hd
  have hfinish : d.finish = .ok (String.ofList (Unicode.dropBlankEnd d.text.toList)) := by
    simp [Draft.finish, hopens.brackets]
  exact ⟨_, (layOut_eq_finish hd).trans hfinish⟩

theorem layOut_of_fault {source : String} {e : LayoutError} (h : FirstFault source.toList e) :
    layOut source = .error e := by
  cases h with
  | @unterminated before after _ _ _ quote split read left hquote hend =>
    obtain ⟨d, opened, -, hd, -⟩ := exists_draft read left (quote :: after)
    have hlexemes : Lexeme.scan .outside (bytes before) (quote :: after) =
        [.unterminated (bytes before)] := by
      simp [Lexeme.scan, hquote, scan_unended hend]
    rw [← split, hlexemes] at hd
    exact layOut_eq_error hd
  | @closing before after _ _ _ c split read left hclosing hmismatch =>
    obtain ⟨d, opened, rfl, hd, hopens⟩ := exists_draft read left (c :: after)
    rw [scan_closing hclosing] at hd hopens
    have hadd := hopens.mismatch hclosing fun o i outer h => hmismatch o _ (by rw [h]; rfl)
    rw [← split, Draft.addAll, hadd] at hd
    exact layOut_eq_error hd
  | @opening before inner _ trail _ parts _ o split read left hopening readInner inside =>
    obtain ⟨d, opened, rfl, hd, hopens⟩ := exists_draft read left (o :: inner)
    have hlexemes := readInner.scan (bytes before + o.utf8Size) []
    rw [List.append_nil, Lexeme.scan, List.append_nil] at hlexemes
    rw [scan_opening hopening, hlexemes] at hd hopens
    have hleads := (leads_opening o (bytes before) opened).append
      ((inside.leads rfl (bytes before + o.utf8Size) _).append (leads_gap trail _))
    obtain ⟨d', hd', hopens'⟩ := hleads d [] (by simpa using hopens)
    rw [List.append_nil, List.singleton_append] at hd'
    rw [← split, hd'] at hd
    have hfinish : d'.finish = .error (.unbalanced o (bytes before)) := by
      simp [Draft.finish, hopens'.brackets]
    exact (layOut_eq_finish hd).trans hfinish

theorem not_firstFault_of_layOut {source text : String} (h : layOut source = .ok text)
    (e : LayoutError) : ¬ FirstFault source.toList e := by
  intro hfault
  simp [layOut_of_fault hfault] at h

theorem exists_nested_of_layOut {source text : String} (h : layOut source = .ok text) :
    ∃ parts trail, Reads source.toList parts trail ∧ Nested (parts.map Spaced.atom) :=
  (nested_or_fault source.toList).resolve_right fun ⟨fault, hfault⟩ =>
    not_firstFault_of_layOut h fault hfault

/-- A text is laid out exactly if all its literals end and its brackets outside literals are well
nested. Otherwise its first fault is the error. -/
theorem layOut_iff_nested (source : String) :
    ((∃ text, layOut source = .ok text) ↔
        ∃ parts trail, Reads source.toList parts trail ∧ Nested (parts.map Spaced.atom)) ∧
      ∀ e, layOut source = .error e ↔ FirstFault source.toList e := by
  constructor
  · constructor
    · rintro ⟨text, htext⟩
      exact exists_nested_of_layOut htext
    · rintro ⟨parts, trail, read, h⟩
      exact exists_layOut_of_nested read h
  · intro e
    constructor
    · intro he
      rcases nested_or_fault source.toList with ⟨parts, trail, read, h⟩ | ⟨fault, h⟩
      · obtain ⟨text, htext⟩ := exists_layOut_of_nested read h
        simp [htext] at he
      · rw [layOut_of_fault h] at he
        exact Except.error.inj he ▸ h
    · exact layOut_of_fault

/-- The bracket in the literal is none, and the place of the other one is counted in bytes. -/
example : layOut "\"(é\"(" = .error (.unbalanced '(' 5) := by decide

end DocTree.Signature
