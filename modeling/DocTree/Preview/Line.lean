/-! A line of Markdown that is read from the left: how far it is indented, and what is left of
it when containers take their part. A tab reaches to the next column that is a multiple of
four. -/
namespace DocTree.Preview

/-- The rest of a line. -/
structure Line where
  /-- The columns of a tab that has been read in part. -/
  spare : Nat := 0
  column : Nat := 0
  rest : List Char
  /-- Whether a line break ends the line. -/
  ended : Bool

namespace Line

/-- The width of the white space at the start of a text that stands at a column. -/
def blankWidth : Nat → List Char → Nat
  | column, ' ' :: rest => 1 + blankWidth (column + 1) rest
  | column, '\t' :: rest =>
    let width := 4 - column % 4
    width + blankWidth (column + width) rest
  | _, _ => 0

/-- The width of the white space with which the rest begins. -/
def indent (l : Line) : Nat := l.spare + blankWidth l.column l.rest

/-- Nothing but white space is left. -/
def isBlank (l : Line) : Bool := l.rest.all fun c => c == ' ' || c == '\t'

/-- Takes white space of the given width off a text. -/
def skipFrom (width : Nat) (column : Nat) (ended : Bool) : List Char → Line
  | c :: rest =>
    if width = 0 then ⟨0, column, c :: rest, ended⟩
    else if c = ' ' then skipFrom (width - 1) (column + 1) ended rest
    else if c = '\t' then
      let tab := 4 - column % 4
      if width < tab then ⟨tab - width, column + tab, rest, ended⟩
      else skipFrom (width - tab) (column + tab) ended rest
    else ⟨0, column, c :: rest, ended⟩
  | [] => ⟨0, column, [], ended⟩

/-- Takes white space of the given width off. -/
def skip (l : Line) (width : Nat) : Line :=
  if width ≤ l.spare then { l with spare := l.spare - width }
  else skipFrom (width - l.spare) l.column l.ended l.rest

/-- Takes all white space off. -/
def trimStart (l : Line) : Line := l.skip l.indent

/-- Takes characters off that are no white space. -/
def drop (l : Line) (count : Nat) : Line :=
  { l with column := l.column + count, rest := l.rest.drop count }

/-- What is left as text. -/
def text (l : Line) : List Char := List.replicate l.spare ' ' ++ l.rest

/-- What is left with its line break. -/
def endedText (l : Line) : List Char := l.text ++ if l.ended then ['\n'] else []

/-- The lines of a text. -/
def ofText : List Char → List Line
  | [] => []
  | '\n' :: rest => ⟨0, 0, [], true⟩ :: ofText rest
  | c :: rest =>
    match ofText rest with
    | [] => [⟨0, 0, [c], false⟩]
    | line :: more => { line with rest := c :: line.rest } :: more

end Line

/-- The text without white space at its start and at its end. -/
def trimSpaces (cs : List Char) : List Char :=
  let isSpace (c : Char) : Bool := c == ' ' || c == '\t' || c == '\n'
  ((cs.dropWhile isSpace).reverse.dropWhile isSpace).reverse

end DocTree.Preview
