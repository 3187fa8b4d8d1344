import DocTree.Proofs.Nesting

/-! What laying out does to a text. Its atoms stay as they are and in order; only the white space
between two neighbours is replaced, by what the two of them and the open brackets ask for, and
from what stood there it only matters whether there was any. -/
namespace DocTree.Signature

namespace Atom

/-- The brace that begins a body. -/
def bodyStart : Atom := .char '\x7b'

/-- The brace that ends a body. -/
def bodyEnd : Atom := .char '\x7d'

def isSeparator : Atom → Bool
  | literal _ _ => false
  | char c => Lexeme.isSeparator c

/-- The brackets that are open behind an atom, the innermost first. -/
def opens (opened : List Char) : Atom → List Char
  | literal _ _ => opened
  | char c =>
    if Lexeme.isOpening c then c :: opened
    else if Lexeme.isClosing c then opened.tail
    else opened

end Atom

/-- Whether an atom ends a member of a body, if another one follows. -/
def endsMember (opened : List Char) (a : Atom) : Bool :=
  a.isSeparator && opened.head? == some '\x7b'

/-- Whether a line ends between two neighbours. -/
def breaksBetween (opened : List Char) (prev next : Atom) : Bool :=
  prev == .bodyStart || next == .bodyEnd || endsMember opened prev

/-- How many bodies an atom stands in. The brace that ends a body does not stand in it. -/
def bodyDepth (opened : List Char) (a : Atom) : Nat :=
  (if a = .bodyEnd then opened.tail else opened).count '\x7b'

/-- The white space that two neighbours get, with these brackets open between them. -/
def gapBetween (opened : List Char) (prev next : Atom) (gap : List Char) : List Char :=
  if prev = .bodyStart ∧ next = .bodyEnd then []
  else if breaksBetween opened prev next then
    '\n' :: List.replicate (4 * bodyDepth opened next) ' '
  else if gap = [] then [] else [' ']

/-- The white space in front of an atom, which is none in front of the first one. -/
def gapBehind (opened : List Char) : Option Atom → Atom → List Char → List Char
  | none, _, _ => []
  | some prev, next, gap => gapBetween opened prev next gap

/-- A text with the white space that it gets, behind an atom and with some brackets open. -/
def respaced (opened : List Char) (prev : Option Atom) : List Spaced → List Spaced
  | [] => []
  | p :: rest =>
    ⟨gapBehind opened prev p.atom p.gap, p.atom⟩ ::
      respaced (p.atom.opens opened) (some p.atom) rest

@[simp] theorem isBlank_newline : Unicode.isBlank '\n' := rfl

@[simp] theorem isBlank_space : Unicode.isBlank ' ' := rfl

/-! The text of a draft -/

/-- Whether a draft is at the start of a line behind an atom, with these lexemes to come. -/
def startsLine (opened : List Char) (prev : Option Atom) (next : List Lexeme) : Bool :=
  match prev with
  | none => true
  | some a =>
    !closesBraces next &&
      (a == .bodyStart || endsMember opened a && (nextSignificant? next).isSome)

namespace Draft

/-- The draft behind an atom, when `out` has been made of the text so far. The brace that ends an
empty body and the line break behind an atom are written before their turn. -/
structure Holds (d : Draft) (opened : List Char) (prev : Option Atom) (out : List Char)
    (next : List Lexeme) : Prop where
  start : prev = none → opened = []
  brackets : (if d.inEmptyBraces then ['\x7b'] else []) ++ d.brackets.map Prod.fst = opened
  depth : d.depth = (d.brackets.map Prod.fst).count '\x7b'
  pending : d.pendingSpace = false
  empty : d.inEmptyBraces = (prev == some .bodyStart && closesBraces next)
  line : d.atLineStart = startsLine opened prev next
  text : d.text.toList = out ++
    if d.inEmptyBraces then ['\x7d'] else if d.atLineStart && prev.isSome then ['\n'] else []

/-- The draft when an atom has been written and nothing else. -/
structure Written (d : Draft) (opened out : List Char) : Prop where
  brackets : d.brackets.map Prod.fst = opened
  depth : d.depth = opened.count '\x7b'
  filled : d.inEmptyBraces = false
  pending : d.pendingSpace = false
  begun : d.atLineStart = false
  text : d.text.toList = out

/-- The draft behind white space. -/
def spaced (d : Draft) (gap : List Char) : Draft :=
  if gap.isEmpty || d.inEmptyBraces || d.atLineStart then d else { d with pendingSpace := true }

theorem addAll_gap (d : Draft) (gap : List Char) (next : List Lexeme) :
    d.addAll (List.replicate gap.length .space ++ next) = (d.spaced gap).addAll next := by
  induction gap generalizing d with
  | nil => simp [spaced]
  | cons c gap ih =>
    have hspace : (if d.inEmptyBraces then d else d.space) = d.spaced [c] := by
      unfold space spaced
      cases d.inEmptyBraces <;> cases d.atLineStart <;> rfl
    have hagain : (d.spaced [c]).spaced gap = d.spaced (c :: gap) := by
      unfold spaced
      cases hempty : d.inEmptyBraces <;> cases hline : d.atLineStart <;> simp [hempty, hline]
    simp only [List.length_cons, List.replicate_succ, List.cons_append, addAll, add]
    rw [hspace, ih, hagain]

end Draft

theorem closesBraces_gap (gap : List Char) (next : List Lexeme) :
    closesBraces (List.replicate gap.length .space ++ next) = closesBraces next := by
  induction gap with
  | nil => rfl
  | cons c gap ih => simp [List.replicate_succ, ih]

theorem nextSignificant?_gap (gap : List Char) (next : List Lexeme) :
    nextSignificant? (List.replicate gap.length .space ++ next) = nextSignificant? next := by
  induction gap with
  | nil => rfl
  | cons c gap ih => simp [nextSignificant?, List.replicate_succ]

theorem indentation_toList (depth : Nat) :
    (Draft.indentation depth).toList = List.replicate (4 * depth) ' ' := by
  simp [Draft.indentation]

theorem Atom.ne_bodyStart {c : Char} (h : Lexeme.isOpening c = false) : char c ≠ bodyStart := by
  rintro hc
  cases hc
  simp [Lexeme.isOpening] at h

theorem Atom.ne_bodyEnd {c : Char} (h : Lexeme.isClosing c = false) : char c ≠ bodyEnd := by
  rintro hc
  cases hc
  simp [Lexeme.isClosing] at h

/-- Looking ahead over white space finds the next atom. -/
theorem Atom.Valid.significant {a : Atom} (h : a.Valid) (offset : Nat) (next : List Lexeme) :
    nextSignificant? (a.lexeme offset :: next) = some (a.lexeme offset) ∧
      closesBraces (a.lexeme offset :: next) = (a == .bodyEnd) := by
  cases a with
  | literal quote body => exact ⟨rfl, rfl⟩
  | char c =>
    have hblank := h.2
    by_cases hclosing : Lexeme.isClosing c
    · simp [lexeme_closing hclosing, nextSignificant?, closesBraces, bodyEnd]
    · have hne : c ≠ '\x7d' := by
        rintro rfl
        exact hclosing rfl
      by_cases hopening : Lexeme.isOpening c <;> by_cases hseparator : Lexeme.isSeparator c <;>
        simp [lexeme, Lexeme.ofChar, hopening, hclosing, hseparator, hblank, nextSignificant?,
          closesBraces, bodyEnd, hne]

namespace Draft

@[simp] theorem put_depth (d : Draft) (s : String) : (d.put s).depth = d.depth := rfl

@[simp] theorem spaced_brackets (d : Draft) (gap : List Char) :
    (d.spaced gap).brackets = d.brackets := by
  unfold spaced
  split <;> rfl

@[simp] theorem spaced_depth (d : Draft) (gap : List Char) : (d.spaced gap).depth = d.depth := by
  unfold spaced
  split <;> rfl

@[simp] theorem spaced_inEmptyBraces (d : Draft) (gap : List Char) :
    (d.spaced gap).inEmptyBraces = d.inEmptyBraces := by
  unfold spaced
  split <;> rfl

@[simp] theorem spaced_atLineStart (d : Draft) (gap : List Char) :
    (d.spaced gap).atLineStart = d.atLineStart := by
  unfold spaced
  split <;> rfl

@[simp] theorem spaced_text (d : Draft) (gap : List Char) : (d.spaced gap).text = d.text := by
  unfold spaced
  split <;> rfl

theorem put_text (d : Draft) (s : String) :
    (d.put s).text.toList =
      d.text.toList ++
        (if d.atLineStart then List.replicate (4 * d.depth) ' '
          else if d.pendingSpace then [' '] else []) ++ s.toList := by
  unfold put
  cases d.atLineStart <;> cases d.pendingSpace <;> simp [indentation_toList]

variable {d e : Draft} {opened out gap : List Char} {prev : Option Atom} {next : List Lexeme}
  {a : Atom} {c : Char} {offset : Nat}

/-- Any atom but the end of a body is written behind the white space that it gets. -/
theorem Holds.put
    (h : d.Holds opened prev out (List.replicate gap.length .space ++ a.lexeme offset :: next))
    (ha : a.Valid) (hend : a ≠ .bodyEnd) (s : String) :
    ((d.spaced gap).put s).Written opened (out ++ gapBehind opened prev a gap ++ s.toList) := by
  obtain ⟨hnext, hcloses⟩ := ha.significant offset next
  have hempty : d.inEmptyBraces = false := by
    rw [h.empty, closesBraces_gap, hcloses]
    simp [hend]
  have hopened : d.brackets.map Prod.fst = opened := by simpa [hempty] using h.brackets
  have hdepth : d.depth = opened.count '\x7b' := hopened ▸ h.depth
  have hpending := h.pending
  have htext := h.text
  have hline := h.line
  simp only [startsLine, closesBraces_gap, nextSignificant?_gap, hcloses, hnext] at hline
  refine ⟨by simpa using hopened, by simpa [Draft.put] using hdepth, by simp [hempty], rfl, rfl, ?_⟩
  rw [put_text]
  cases prev with
  | none =>
    simp only at hline
    simp [hline, htext, hempty, hdepth, h.start rfl, gapBehind]
  | some q =>
    have hbreaks : d.atLineStart = breaksBetween opened q a := by
      simp [hline, breaksBetween, beq_eq_false_iff_ne.2 hend]
    by_cases hbreak : breaksBetween opened q a
    · simp [hbreaks, hbreak, htext, hempty, hdepth, gapBehind, gapBetween, bodyDepth, hend]
    · by_cases hgap : gap = []
      · simp [hbreaks, hbreak, htext, hempty, gapBehind, gapBetween, hend, hgap, spaced, hpending]
      · simp [hbreaks, hbreak, htext, hempty, gapBehind, gapBetween, hend, hgap, spaced]

theorem Holds.putChar
    (h : d.Holds opened prev out
      (List.replicate gap.length .space ++ (Atom.char c).lexeme offset :: next))
    (ha : (Atom.char c).Valid) (hend : Atom.char c ≠ .bodyEnd) :
    ((d.spaced gap).put (String.singleton c)).Written opened
      (out ++ gapBehind opened prev (.char c) gap ++ [c]) := by
  have hw := h.put ha hend (String.singleton c)
  rwa [String.toList_singleton] at hw

theorem Written.holds (h : d.Written opened out) (hline : startsLine opened (some a) next = false)
    (hempty : (a == .bodyStart && closesBraces next) = false) :
    d.Holds opened (some a) out next where
  start := by simp
  brackets := by simp [h.filled, h.brackets]
  depth := by rw [h.depth, h.brackets]
  pending := h.pending
  empty := by simpa [h.filled] using hempty.symm
  line := by rw [h.begun, hline]
  text := by simp [h.text, h.filled, h.begun]

theorem Written.newline (h : d.Written opened out) (hline : startsLine opened (some a) next) :
    d.newline.Holds opened (some a) out next := by
  have hcloses : closesBraces next = false := by
    simp only [startsLine, Bool.and_eq_true, Bool.not_eq_true'] at hline
    exact hline.1
  exact {
    start := by simp
    brackets := by simp [h.filled, h.brackets]
    depth := by
      rw [newline_brackets, h.brackets]
      exact h.depth
    pending := rfl
    empty := by simp [h.filled, hcloses]
    line := by simp [Draft.newline, hline]
    text := by simp [Draft.newline, h.text, h.filled] }

/-- Behind an atom that neither begins a body nor ends a member of one nothing else is due. -/
theorem Written.holds_plain (h : d.Written opened out) (hstart : a ≠ .bodyStart)
    (hseparator : a.isSeparator = false) (next : List Lexeme) : d.Holds opened (some a) out next :=
  h.holds (by simp [startsLine, endsMember, hstart, hseparator]) (by simp [hstart])

theorem Holds.separator
    (h : d.Holds opened prev out
      (List.replicate gap.length .space ++ (Atom.char c).lexeme offset :: next))
    (ha : (Atom.char c).Valid) (hc : Lexeme.isSeparator c) :
    ((d.spaced gap).separate c next).Holds opened (some (.char c))
      (out ++ gapBehind opened prev (.char c) gap ++ [c]) next := by
  obtain ⟨hopening, hclosing⟩ := Lexeme.of_isSeparator hc
  have hstart : (Atom.char c == .bodyStart) = false := by simpa using Atom.ne_bodyStart hopening
  have hw := h.putChar ha (Atom.ne_bodyEnd hclosing)
  have hbraces : (d.spaced gap).inBraces = endsMember opened (.char c) := by
    rw [← hw.brackets, endsMember, Atom.isSeparator, hc]
    cases hb : d.brackets <;> simp [inBraces, hb]
  have hline : startsLine opened (some (.char c)) next =
      ((d.spaced gap).inBraces && !closesBraces next && (nextSignificant? next).isSome) := by
    rw [hbraces, startsLine, hstart, Bool.false_or, ← Bool.and_assoc, Bool.and_comm (!_)]
  unfold separate
  dsimp only
  rw [← hline]
  split
  · next hstarts => exact hw.newline hstarts
  · next hstarts => exact hw.holds (by simpa using hstarts) (by simp [hstart])

/-- An empty body is written as a whole when it begins. -/
theorem Written.emptyBody (h : d.Written opened (out ++ ['\x7b', '\x7d']))
    (hcloses : closesBraces next) :
    Holds { d with inEmptyBraces := true } ('\x7b' :: opened) (some .bodyStart) (out ++ ['\x7b'])
      next where
  start := by simp
  brackets := by simp [h.brackets]
  depth := by simp [h.depth, h.brackets]
  pending := h.pending
  empty := by simp [hcloses]
  line := by simp [startsLine, hcloses, h.begun]
  text := by simp [h.text]

theorem Written.body (h : d.Written opened out) (offset : Nat) :
    Written { d with depth := d.depth + 1, brackets := ('\x7b', offset) :: d.brackets }
      ('\x7b' :: opened) out :=
  { h with
    brackets := by simp [h.brackets]
    depth := by simp [h.depth] }

theorem Written.bracket (h : d.Written opened out) (hc : c ≠ '\x7b') (offset : Nat) :
    Written { d with brackets := (c, offset) :: d.brackets } (c :: opened) out :=
  { h with
    brackets := by simp [h.brackets]
    depth := by simp [h.depth, hc] }

theorem Holds.opening
    (h : d.Holds opened prev out
      (List.replicate gap.length .space ++ (Atom.char c).lexeme offset :: next))
    (ha : (Atom.char c).Valid) (hc : Lexeme.isOpening c) :
    ((d.spaced gap).openBracket c offset next).Holds (c :: opened) (some (.char c))
      (out ++ gapBehind opened prev (.char c) gap ++ [c]) next := by
  obtain ⟨-, hclosing, hseparator⟩ := Lexeme.of_isOpening hc
  have hend := Atom.ne_bodyEnd hclosing
  unfold openBracket
  dsimp only
  split
  · next hbrace =>
    subst hbrace
    split
    · next hcloses => exact (h.put ha hend "\x7b\x7d").emptyBody hcloses
    · next hcloses =>
      have hbody := (h.putChar ha hend).body offset
      exact hbody.newline (by simpa [startsLine, Atom.bodyStart] using hcloses)
  · next hbrace =>
    have hbracket := (h.putChar ha hend).bracket hbrace offset
    have hstart : Atom.char c ≠ .bodyStart := by simpa [Atom.bodyStart] using hbrace
    exact hbracket.holds_plain hstart hseparator next

/-- A bracket other than a brace is closed like any other character. -/
theorem Written.unbracket {outer : List (Char × Nat)} {o : Char × Nat} (h : d.Written opened out)
    (hbrackets : d.brackets = o :: outer) (ho : o.1 ≠ '\x7b') :
    Written { d with brackets := outer } opened.tail out := by
  have hopened := h.brackets
  rw [hbrackets] at hopened
  exact { h with
    brackets := by simp [← hopened]
    depth := by rw [h.depth, ← hopened]; simp [ho] }

/-- Between the braces of an empty body nothing is written, and its end has been written. -/
theorem Holds.endEmptyBody
    (h : d.Holds opened prev out
      (List.replicate gap.length .space ++ .closing '\x7d' offset :: next))
    (hempty : d.inEmptyBraces) :
    Written { d.spaced gap with inEmptyBraces := false } opened.tail
      (out ++ gapBehind opened prev .bodyEnd gap ++ ['\x7d']) := by
  have hbrackets := h.brackets
  have hprev := h.empty
  have hline := h.line
  have hcloses : closesBraces (.closing '\x7d' offset :: next) := rfl
  simp only [hempty, if_true, List.singleton_append] at hbrackets
  simp only [hempty, closesBraces_gap, hcloses, Bool.and_true] at hprev
  obtain rfl := eq_of_beq hprev.symm
  simp only [startsLine, closesBraces_gap, hcloses, Bool.not_true, Bool.false_and] at hline
  have hspaced : d.spaced gap = d := by simp [spaced, hempty]
  rw [hspaced]
  exact {
    brackets := by simp [← hbrackets]
    depth := by simp [← hbrackets, h.depth]
    filled := rfl
    pending := h.pending
    begun := hline
    text := by simp [h.text, hempty, gapBehind, gapBetween] }

/-- A bracket is closed by its partner. -/
theorem closeBracket_ok (h : d.closeBracket c offset = .ok e) :
    ∃ i outer, d.brackets = (partner c, i) :: outer ∧
      e = if c = '\x7d' then
          (ensureNewline { d with brackets := outer, depth := d.depth - 1 }).put
            (String.singleton c)
        else put { d with brackets := outer } (String.singleton c) := by
  unfold closeBracket at h
  split at h
  · next top i outer hbrackets =>
    split at h
    · next htop =>
      refine ⟨i, outer, htop ▸ hbrackets, ?_⟩
      by_cases hc : c = '\x7d'
      · simp only [hc, if_true, Except.ok.injEq] at h ⊢
        exact h.symm
      · simp only [hc, if_false, Except.ok.injEq] at h ⊢
        exact h.symm
    · simp at h
  · simp at h

/-- The end of a body that is not empty stands on a line of its own. -/
theorem Holds.endBody {outer : List (Char × Nat)} {i : Nat}
    (h : d.Holds opened prev out
      (List.replicate gap.length .space ++ .closing '\x7d' offset :: next))
    (hempty : d.inEmptyBraces = false) (hbrackets : d.brackets = ('\x7b', i) :: outer) :
    Written
      ((ensureNewline { d.spaced gap with brackets := outer, depth := d.depth - 1 }).put
        (String.singleton '\x7d'))
      opened.tail (out ++ gapBehind opened prev .bodyEnd gap ++ ['\x7d']) := by
  have hopened := h.brackets
  have hline := h.line
  have hprev := h.empty
  have hcloses : closesBraces (.closing '\x7d' offset :: next) := rfl
  simp only [hempty, hbrackets, Bool.false_eq_true, if_false, List.nil_append,
    List.map_cons] at hopened
  have hdepth : d.depth - 1 = opened.tail.count '\x7b' := by
    simp [h.depth, hbrackets, ← hopened]
  cases prev with
  | none => simp [h.start rfl] at hopened
  | some q =>
    simp only [startsLine, closesBraces_gap, hcloses, Bool.not_true, Bool.false_and] at hline
    have hq : q ≠ .bodyStart := by
      rintro rfl
      simp [hempty, closesBraces_gap, hcloses] at hprev
    have hbreaks : breaksBetween opened q .bodyEnd := by simp [breaksBetween]
    exact {
      brackets := by simp [← hopened]
      depth := by
        rw [← hdepth]
        simp [ensureNewline, hline, Draft.newline]
      filled := by simpa using hempty
      pending := rfl
      begun := rfl
      text := by
        rw [put_text]
        simp [ensureNewline, hline, Draft.newline, h.text, hempty, gapBehind, gapBetween, hq,
          hbreaks, bodyDepth, hdepth] }

theorem Holds.closing
    (h : d.Holds opened prev out
      (List.replicate gap.length .space ++ (Atom.char c).lexeme offset :: next))
    (ha : (Atom.char c).Valid) (hc : Lexeme.isClosing c)
    (hok : (d.spaced gap).add next (.closing c offset) = .ok e) :
    e.Holds opened.tail (some (.char c))
      (out ++ gapBehind opened prev (.char c) gap ++ [c]) next := by
  obtain ⟨-, hopening, hseparator⟩ := Lexeme.of_isClosing hc
  have hstart := Atom.ne_bodyStart hopening
  by_cases hbrace : c = '\x7d'
  · subst hbrace
    cases hempty : d.inEmptyBraces with
    | true =>
      have hadd : (d.spaced gap).add next (.closing '\x7d' offset) =
          .ok { d.spaced gap with inEmptyBraces := false } := by simp [add, hempty]
      obtain rfl := Except.ok.inj (hadd.symm.trans hok)
      exact (h.endEmptyBody hempty).holds_plain hstart hseparator next
    | false =>
      have hclose : (d.spaced gap).closeBracket '\x7d' offset = .ok e := by
        simpa [add, hempty] using hok
      obtain ⟨i, outer, hbrackets, rfl⟩ := closeBracket_ok hclose
      rw [spaced_brackets] at hbrackets
      rw [if_pos rfl, spaced_depth]
      exact (h.endBody hempty hbrackets).holds_plain hstart hseparator next
  · have hw := h.putChar ha (by simpa [Atom.bodyEnd] using hbrace)
    have hempty : d.inEmptyBraces = false := by simpa using hw.filled
    have hclose : (d.spaced gap).closeBracket c offset = .ok e := by
      simpa [add, hempty] using hok
    obtain ⟨i, outer, hbrackets, rfl⟩ := closeBracket_ok hclose
    have hpartner : partner c ≠ '\x7b' := by
      simp only [Lexeme.isClosing, Bool.or_eq_true, beq_iff_eq] at hc
      rcases hc with (rfl | rfl) | rfl
      · decide
      · decide
      · simp at hbrace
    rw [if_neg hbrace]
    exact (hw.unbracket hbrackets hpartner).holds_plain hstart hseparator next

/-- An atom that is added without an error is written behind the white space that it gets. -/
theorem Holds.atom
    (h : d.Holds opened prev out (List.replicate gap.length .space ++ a.lexeme offset :: next))
    (ha : a.Valid) (hok : (d.spaced gap).add next (a.lexeme offset) = .ok e) :
    e.Holds (a.opens opened) (some a) (out ++ gapBehind opened prev a gap ++ a.chars) next := by
  cases a with
  | literal quote body =>
    obtain rfl := Except.ok.inj hok
    have hw := h.put ha (by simp [Atom.bodyEnd]) (String.ofList (quote :: body ++ [quote]))
    rw [String.toList_ofList] at hw
    exact hw.holds_plain (by simp [Atom.bodyStart]) rfl next
  | char c =>
    have hblank := ha.2
    by_cases hclosing : Lexeme.isClosing c
    · rw [lexeme_closing hclosing] at hok
      simpa [Atom.opens, (Lexeme.of_isClosing hclosing).2.1, hclosing, Atom.chars] using
        h.closing ha hclosing hok
    by_cases hopening : Lexeme.isOpening c
    · rw [lexeme_opening hopening] at hok
      obtain rfl := Except.ok.inj hok
      simpa [Atom.opens, hopening, Atom.chars] using h.opening ha hopening
    have hopens : (Atom.char c).opens opened = opened := by simp [Atom.opens, hopening, hclosing]
    rw [hopens]
    by_cases hseparator : Lexeme.isSeparator c
    · have hlexeme : (Atom.char c).lexeme offset = .separator c := by
        simp [Atom.lexeme, Lexeme.ofChar, hopening, hclosing, hseparator]
      rw [hlexeme] at hok
      obtain rfl := Except.ok.inj hok
      exact h.separator ha hseparator
    · have hlexeme : (Atom.char c).lexeme offset = .other c := by
        simp [Atom.lexeme, Lexeme.ofChar, hopening, hclosing, hseparator, hblank]
      rw [hlexeme] at hok
      obtain rfl := Except.ok.inj hok
      have hw := h.putChar ha (Atom.ne_bodyEnd (by simpa using hclosing))
      exact hw.holds_plain (Atom.ne_bodyStart (by simpa using hopening))
        (by simpa [Atom.isSeparator] using hseparator) next

/-- Adding the atoms of a text writes them with the white space that they get. White space at the
end may follow. -/
theorem Holds.parts {parts : List Spaced} {trail : Nat}
    (h : d.Holds opened prev out (lexemesOf offset parts ++ List.replicate trail .space))
    (hparts : ∀ p ∈ parts, p.Valid)
    (hok : d.addAll (lexemesOf offset parts ++ List.replicate trail .space) = .ok e) :
    ∃ rest, e.text.toList = out ++ textOf (respaced opened prev parts) ++ rest ∧
      ∀ c ∈ rest, Unicode.isBlank c := by
  induction parts generalizing d opened prev out offset with
  | nil =>
    have hspaces := addAll_gap d (List.replicate trail ' ') []
    have hcloses := closesBraces_gap (List.replicate trail ' ') []
    rw [List.length_replicate, List.append_nil] at hspaces hcloses
    rw [lexemesOf, List.nil_append] at h hok
    obtain rfl := Except.ok.inj (hspaces.symm.trans hok)
    have hempty : d.inEmptyBraces = false := by
      rw [h.empty, hcloses]
      simp [closesBraces, nextSignificant?]
    refine ⟨if d.atLineStart && prev.isSome then ['\n'] else [],
      by simp [h.text, hempty, respaced], ?_⟩
    split <;> simp
  | cons p parts ih =>
    simp only [List.forall_mem_cons] at hparts
    simp only [lexemesOf, List.append_assoc, List.cons_append] at h hok
    rw [addAll_gap, addAll] at hok
    split at hok
    · next d' hadd =>
      obtain ⟨rest, htext, hrest⟩ := ih (h.atom hparts.1.2 hadd) hparts.2 hok
      exact ⟨rest, by simp [htext, respaced, Spaced.chars], hrest⟩
    · simp at hok

theorem holds_empty (next : List Lexeme) : Holds {} [] none [] next where
  start := by simp
  brackets := rfl
  depth := rfl
  pending := rfl
  empty := rfl
  line := rfl
  text := rfl

end Draft

/-! The respaced text -/

@[simp] theorem map_atom_respaced (opened : List Char) (prev : Option Atom) (parts : List Spaced) :
    (respaced opened prev parts).map Spaced.atom = parts.map Spaced.atom := by
  induction parts generalizing opened prev with
  | nil => rfl
  | cons p parts ih => simp [respaced, ih]

theorem isBlank_gapBehind (opened : List Char) (prev : Option Atom) (next : Atom)
    (gap : List Char) : ∀ c ∈ gapBehind opened prev next gap, Unicode.isBlank c := by
  cases prev with
  | none => simp [gapBehind]
  | some q =>
    rw [gapBehind, gapBetween]
    split_ifs <;> simp

/-- The respaced text is read as it was made. -/
theorem reads_respaced {parts : List Spaced} (h : ∀ p ∈ parts, p.Valid) (opened : List Char)
    (prev : Option Atom) :
    Reads (textOf (respaced opened prev parts)) (respaced opened prev parts) [] := by
  refine ⟨by simp, ?_, by simp⟩
  induction parts generalizing opened prev with
  | nil => simp [respaced]
  | cons p parts ih =>
    simp only [List.forall_mem_cons] at h
    simp only [respaced, List.forall_mem_cons]
    exact ⟨⟨isBlank_gapBehind opened prev p.atom p.gap, h.1.2⟩, ih h.2 _ _⟩

/-- A text that is read without white space at its end ends with an atom. -/
theorem Reads.exists_last {source : List Char} {parts : List Spaced} (h : Reads source parts [])
    (hne : source ≠ []) : ∃ front c, source = front ++ [c] ∧ ¬ Unicode.isBlank c := by
  rcases List.eq_nil_or_concat parts with rfl | ⟨front, p, rfl⟩
  · exact absurd h.text hne
  · obtain ⟨-, before, c, hchars, hc⟩ := (h.valid p (by simp)).2.solid
    exact ⟨textOf front ++ (p.gap ++ before), c, by simp [h.text, Spaced.chars, hchars], hc⟩

theorem Reads.dropBlankEnd {source : List Char} {parts : List Spaced} (h : Reads source parts []) :
    Unicode.dropBlankEnd source = source := by
  by_cases hne : source = []
  · rw [hne]
    rfl
  · obtain ⟨front, c, rfl, hc⟩ := h.exists_last hne
    simp [Unicode.dropBlankEnd, hc]

/-- A text that can be laid out becomes the respaced one. -/
theorem layOut_respaced {source text : String} {parts : List Spaced} {trail : List Char}
    (read : Reads source.toList parts trail) (h : layOut source = .ok text) :
    text.toList = textOf (respaced [] none parts) := by
  have hlexemes := read.scan 0 []
  rw [List.append_nil, Lexeme.scan, List.append_nil] at hlexemes
  unfold layOut at h
  split at h
  · next d hd =>
    rw [Lexeme.ofSource, hlexemes] at hd
    obtain ⟨rest, htext, hrest⟩ := (Draft.holds_empty _).parts read.valid hd
    unfold Draft.finish at h
    split at h
    · simp at h
    · obtain rfl := Except.ok.inj h
      rw [String.toList_ofList, htext, Unicode.dropBlankEnd_append hrest, List.nil_append]
      exact (reads_respaced read.valid [] none).dropBlankEnd
  · simp at h

/-- A text that has been laid out is read as the respaced one, with no white space at its end. -/
theorem reads_layOut {source text : String} {parts : List Spaced} {trail : List Char}
    (read : Reads source.toList parts trail) (h : layOut source = .ok text) :
    Reads text.toList (respaced [] none parts) [] := by
  rw [layOut_respaced read h]
  exact reads_respaced read.valid [] none

/-- Two neighbours get the white space that they ask for. -/
theorem getElem?_respaced {parts : List Spaced} {i : Nat} {p q : Spaced} (hp : parts[i]? = some p)
    (hq : parts[i + 1]? = some q) (opened : List Char) (prev : Option Atom) :
    ∃ between, (respaced opened prev parts)[i + 1]? =
      some ⟨gapBetween between p.atom q.atom q.gap, q.atom⟩ := by
  induction parts generalizing opened prev i with
  | nil => simp at hp
  | cons a parts ih =>
    cases i with
    | zero =>
      cases parts with
      | nil => simp at hq
      | cons b parts =>
        simp only [List.getElem?_cons_zero, List.getElem?_cons_succ, Option.some.injEq] at hp hq
        subst hp hq
        exact ⟨_, rfl⟩
    | succ i =>
      simp only [List.getElem?_cons_succ] at hp hq
      simpa [respaced] using ih hp hq _ _

theorem gapBetween_ne_nil {opened gap : List Char} {prev next : Atom} (h : gap ≠ [])
    (hbody : ¬ (prev = .bodyStart ∧ next = .bodyEnd)) : gapBetween opened prev next gap ≠ [] := by
  unfold gapBetween
  rw [if_neg hbody]
  split <;> simp

/-- White space that neighbours got stays as it is when they get it again. -/
theorem gapBetween_gapBetween (opened gap : List Char) (prev next : Atom) :
    gapBetween opened prev next (gapBetween opened prev next gap) =
      gapBetween opened prev next gap := by
  unfold gapBetween
  split
  · rfl
  · split
    · rfl
    · split <;> simp_all

theorem respaced_respaced (opened : List Char) (prev : Option Atom) (parts : List Spaced) :
    respaced opened prev (respaced opened prev parts) = respaced opened prev parts := by
  induction parts generalizing opened prev with
  | nil => rfl
  | cons p parts ih =>
    cases prev with
    | none => simp [respaced, gapBehind, ih]
    | some q => simp [respaced, gapBehind, gapBetween_gapBetween, ih]

/-! The laid out text -/

/-- Laying a text out leaves its literals and its characters other than white space as they are, in
their order. Two neighbours that had white space between them still have some, except for the two
braces of an empty body. -/
theorem layOut_keeps_atoms {source text : String} (h : layOut source = .ok text) :
    (∃ parts trail, Reads source.toList parts trail) ∧
      (∃ laid trail, Reads text.toList laid trail) ∧
      ∀ parts trail laid trail', Reads source.toList parts trail →
        Reads text.toList laid trail' →
          laid.map Spaced.atom = parts.map Spaced.atom ∧
          ∀ i p q q', parts[i]? = some p → parts[i + 1]? = some q → laid[i + 1]? = some q' →
            q.gap ≠ [] → q'.gap ≠ [] ∨ p.atom = .bodyStart ∧ q.atom = .bodyEnd := by
  obtain ⟨parts, trail, read, -⟩ := exists_nested_of_layOut h
  have readLaid := reads_layOut read h
  refine ⟨⟨parts, trail, read⟩, ⟨_, _, readLaid⟩, ?_⟩
  intro parts' trail' laid trail'' read' readLaid'
  obtain ⟨rfl, -⟩ := read.unique read'
  obtain ⟨rfl, -⟩ := readLaid.unique readLaid'
  refine ⟨by simp, ?_⟩
  intro i p q q' hp hq hq' hgap
  obtain ⟨between, hlaid⟩ := getElem?_respaced hp hq [] none
  obtain rfl := Option.some.inj (hlaid.symm.trans hq')
  by_cases hbody : p.atom = .bodyStart ∧ q.atom = .bodyEnd
  · exact .inr hbody
  · exact .inl (gapBetween_ne_nil hgap hbody)

/-- The brace in the literal stays in it, and the space in front of the literal stays a space. -/
theorem layOut_keeps_atoms_member :
    layOut "\x7bx:  \"\x7d\",\x7d" = .ok "\x7b\n    x: \"\x7d\",\n\x7d" ∧
      ∃ laid trail, Reads "\x7b\n    x: \"\x7d\",\n\x7d".toList laid trail ∧
        laid.map Spaced.atom =
          [.bodyStart, .char 'x', .char ':', .literal '"' ['\x7d'], .char ',', .bodyEnd] ∧
        ∀ q, laid[3]? = some q → q.gap ≠ [] := by
  have h : layOut "\x7bx:  \"\x7d\",\x7d" = .ok "\x7b\n    x: \"\x7d\",\n\x7d" := by decide
  have read : Reads "\x7bx:  \"\x7d\",\x7d".toList
      [⟨[], .bodyStart⟩, ⟨[], .char 'x'⟩, ⟨[], .char ':'⟩, ⟨[' ', ' '], .literal '"' ['\x7d']⟩,
        ⟨[], .char ','⟩, ⟨[], .bodyEnd⟩] [] := by
    have hbody : Enclosed '"' ['\x7d'] := .char (by decide) (by decide) .nil
    refine ⟨by decide, ?_, by simp⟩
    simp [Spaced.Valid, Atom.Valid, Atom.bodyStart, Atom.bodyEnd, hbody]
    decide
  obtain ⟨-, ⟨laid, trail, readLaid⟩, keeps⟩ := layOut_keeps_atoms h
  obtain ⟨hatoms, hgaps⟩ := keeps _ _ _ _ read readLaid
  refine ⟨h, laid, trail, readLaid, hatoms, ?_⟩
  intro q hq
  simpa [Atom.bodyStart] using hgaps 2 _ _ q rfl rfl hq (by decide)

/-- A text that has been laid out stays as it is. -/
theorem layOut_layOut {source text : String} (h : layOut source = .ok text) :
    layOut text = .ok text := by
  obtain ⟨parts, trail, read, hnested⟩ := exists_nested_of_layOut h
  have readLaid := reads_layOut read h
  obtain ⟨again, hagain⟩ := exists_layOut_of_nested readLaid (by simpa using hnested)
  have hsame : again.toList = text.toList := by
    rw [layOut_respaced readLaid hagain, respaced_respaced, layOut_respaced read h]
  rw [hagain, String.toList_injective hsame]

/-- Line breaks and indentation are white space to the second run, which makes them again. -/
theorem layOut_layOut_nestedBodies :
    layOut "\x7ba:[\x7b \x7d,\x7bb;\x7d]\x7d" =
        .ok "\x7b\n    a:[\x7b\x7d,\x7b\n        b;\n    \x7d]\n\x7d" ∧
      layOut "\x7b\n    a:[\x7b\x7d,\x7b\n        b;\n    \x7d]\n\x7d" =
        .ok "\x7b\n    a:[\x7b\x7d,\x7b\n        b;\n    \x7d]\n\x7d" := by
  have h : layOut "\x7ba:[\x7b \x7d,\x7bb;\x7d]\x7d" =
      .ok "\x7b\n    a:[\x7b\x7d,\x7b\n        b;\n    \x7d]\n\x7d" := by decide
  exact ⟨h, layOut_layOut h⟩

end DocTree.Signature
