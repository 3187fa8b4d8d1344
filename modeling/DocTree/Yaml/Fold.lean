import DocTree.Json.Reader

/-! Scalars of a YAML document that may go over several lines. Between two lines of a quoted or
a plain scalar a line break becomes a space and each further one stays; a block scalar keeps
its lines or folds them. -/
namespace DocTree.Yaml

def isGap (c : Char) : Bool := c == ' ' || c == '\t'

def isGapOrBreak (c : Char) : Bool := isGap c || c == '\n'

/-- What follows is white space, a line break or the end. -/
def atGap : List Char → Bool
  | [] => true
  | c :: _ => isGapOrBreak c

/-- White space between two words of a scalar. -/
inductive Gap where
  /-- On one line, in reverse. -/
  | blanks (reversed : List Char)
  /-- With a number of line breaks. -/
  | breaks (count : Nat)
  /-- Behind a line break that a backslash took away, with a number of further ones. -/
  | glued (count : Nat)

namespace Gap

/-- The gap with one more character of white space. -/
def extend (gap : Gap) (c : Char) : Gap :=
  match gap, c with
  | .blanks _, '\n' => .breaks 1
  | .breaks n, '\n' => .breaks (n + 1)
  | .glued n, '\n' => .glued (n + 1)
  | .blanks reversed, c => .blanks (c :: reversed)
  | gap, _ => gap

/-- What a gap reads as, in reverse. -/
def reversedText : Gap → List Char
  | .blanks reversed => reversed
  | .breaks 0 => []
  | .breaks 1 => [' ']
  | .breaks (n + 2) => List.replicate (n + 1) '\n'
  | .glued n => List.replicate n '\n'

/-- Whether a line ends in the gap. -/
def hasBreak : Gap → Bool
  | .blanks _ => false
  | _ => true

def isNone : Gap → Bool
  | .blanks [] => true
  | _ => false

end Gap

/-- A single-quoted scalar from behind its opening quote: its text, and what follows. The text
read so far is in reverse. -/
def singleQuoted (read : List Char) (gap : Gap) : List Char → Option (String × List Char)
  | [] => none
  | '\x27' :: '\x27' :: rest =>
    singleQuoted ('\x27' :: (gap.reversedText ++ read)) (.blanks []) rest
  | '\x27' :: rest => some (String.ofList (gap.reversedText ++ read).reverse, rest)
  | c :: rest =>
    if isGapOrBreak c then singleQuoted read (gap.extend c) rest
    else singleQuoted (c :: (gap.reversedText ++ read)) (.blanks []) rest

/-- What a letter after a backslash stands for. -/
def escapeChar? : Char → Option Char
  | '0' => some '\x00'
  | 'a' => some '\x07'
  | 'b' => some '\x08'
  | 't' | '\t' => some '\t'
  | 'n' => some '\n'
  | 'v' => some '\x0b'
  | 'f' => some '\x0c'
  | 'r' => some '\r'
  | 'e' => some '\x1b'
  | ' ' => some ' '
  | '"' => some '"'
  | '/' => some '/'
  | '\\' => some '\\'
  | 'N' => some '\u0085'
  | '_' => some '\u00a0'
  | 'L' => some '\u2028'
  | 'P' => some '\u2029'
  | _ => none

/-- The character with the given code, unless it is half of a surrogate pair or too large. -/
def codeChar? (n : Nat) : Option Char :=
  if h : n.isValidChar then some (Char.ofNatAux n h) else none

/-- A double-quoted scalar from behind its opening quote: its text, and what follows. The text
read so far is in reverse. -/
def doubleQuoted (read : List Char) (gap : Gap) : List Char → Option (String × List Char)
  | [] => none
  | '"' :: rest => some (String.ofList (gap.reversedText ++ read).reverse, rest)
  | '\\' :: '\n' :: rest => doubleQuoted (gap.reversedText ++ read) (.glued 0) rest
  | '\\' :: 'x' :: a :: b :: rest => do
    let c ← (Json.hexNumber? [a, b]).bind codeChar?
    doubleQuoted (c :: (gap.reversedText ++ read)) (.blanks []) rest
  | '\\' :: 'u' :: a :: b :: c :: d :: rest => do
    let c ← (Json.hexNumber? [a, b, c, d]).bind codeChar?
    doubleQuoted (c :: (gap.reversedText ++ read)) (.blanks []) rest
  | '\\' :: 'U' :: a :: b :: c :: d :: e :: f :: g :: h :: rest => do
    let c ← (Json.hexNumber? [a, b, c, d, e, f, g, h]).bind codeChar?
    doubleQuoted (c :: (gap.reversedText ++ read)) (.blanks []) rest
  | '\\' :: e :: rest => do
    let c ← escapeChar? e
    doubleQuoted (c :: (gap.reversedText ++ read)) (.blanks []) rest
  | c :: rest =>
    if c = '\\' then none
    else if isGapOrBreak c then doubleQuoted read (gap.extend c) rest
    else doubleQuoted (c :: (gap.reversedText ++ read)) (.blanks []) rest

def isFlowMark (c : Char) : Bool :=
  c == ',' || c == '[' || c == ']' || c == '\x7b' || c == '\x7d'

/-- Whether a plain scalar may begin here. -/
def startsPlain (inFlow : Bool) : List Char → Bool
  | [] => false
  | c :: rest =>
    if isGapOrBreak c || isFlowMark c || "#&*!|>'\"%@\x60".toList.contains c then false
    else if c = '-' then !atGap rest
    else if c = '?' ∨ c = ':' then !inFlow && !atGap rest
    else true

/-- A plain scalar: its text, and what follows it with the column at which that stands. A line
of it has to begin at or behind the column `least`, unless it stands between brackets. -/
def plain (inFlow : Bool) (least : Nat) (read : List Char) (gap : Gap) (column : Nat) :
    List Char → Option (String × List Char × Nat)
  | [] => some (String.ofList read.reverse, [], column)
  | c :: rest =>
    let done := some (String.ofList read.reverse, c :: rest, column)
    if c = '\n' then plain inFlow least read (gap.extend c) 0 rest
    else if isGap c then
      if c == '\t' && gap.hasBreak && column < least && !inFlow then none
      else plain inFlow least read (gap.extend c) (column + 1) rest
    else if gap.hasBreak && !inFlow && column < least then done
    else if c = '#' ∧ !gap.isNone then done
    else if c = ':' ∧ atGap rest then done
    else if inFlow && c == ':' && (rest.head?.any fun d => isFlowMark d || d == '?') then none
    else if inFlow && isFlowMark c then done
    else plain inFlow least (c :: (gap.reversedText ++ read)) (.blanks []) (column + 1) rest

/-- What happens to the line breaks at the end of a block scalar. -/
inductive Chomping where
  | strip | clip | keep
  deriving DecidableEq

/-- The header of a block scalar behind its mark: the indentation that it asks for, what happens
at the end, and the lines. -/
def blockHeader (indent : Option Nat) (chomping : Chomping) :
    List Char → Option (Option Nat × Chomping × List Char)
  | [] => some (indent, chomping, [])
  | '+' :: rest => blockHeader indent .keep rest
  | '-' :: rest => blockHeader indent .strip rest
  | '\n' :: rest => some (indent, chomping, rest)
  | c :: rest =>
    if '1' ≤ c ∧ c ≤ '9' then blockHeader (some (c.toNat - '0'.toNat)) chomping rest
    else if isGap c then
      match rest.dropWhile isGap with
      | [] => some (indent, chomping, [])
      | '\n' :: lines => some (indent, chomping, lines)
      | '#' :: more => some (indent, chomping, (more.dropWhile (· != '\n')).drop 1)
      | _ => none
    else none

/-- The lines of a text; each but the last one was ended. -/
def linesOf : List Char → List (List Char)
  | [] => [[]]
  | c :: rest =>
    match linesOf rest with
    | [] => [[c]]
    | line :: more => if c = '\n' then [] :: line :: more else (c :: line) :: more

def leadingSpaces (line : List Char) : Nat := (line.takeWhile (· == ' ')).length

/-- The indentation of a block scalar that gives none: that of its first line with content, and
no less than `least`; empty lines before it count. -/
def blockIndent (least : Nat) : Nat → List (List Char) → Nat
  | widest, [] => max least widest
  | widest, line :: rest =>
    let widest := max widest (leadingSpaces line)
    if line.all (· == ' ') then blockIndent least widest rest else max least widest

/-- The lines of a block scalar without their indentation, and those behind it. An empty line
is part of it wherever it stands. -/
def blockLines (indent : Nat) : List (List Char) → List (List Char) × List (List Char)
  | [] => ([], [])
  | line :: rest =>
    if leadingSpaces line < indent ∧ !line.all (· == ' ') then ([], line :: rest)
    else
      let (lines, behind) := blockLines indent rest
      (line.drop indent :: lines, behind)

/-- Joins the lines of a folded scalar: `ends` lines have ended since the last one with content,
and `spaced` says whether that one began with white space. -/
def foldLines (spaced : Bool) (ends : Nat) : List (List Char) → List Char
  | [] => []
  | line :: rest =>
    match line with
    | [] => foldLines spaced (ends + 1) rest
    | c :: _ =>
      let here := isGap c
      let between :=
        if ends = 0 then []
        else if spaced || here then List.replicate ends '\n'
        else if ends = 1 then [' ']
        else List.replicate (ends - 1) '\n'
      between ++ line ++ foldLines here 1 rest

/-- The number of empty lines at the end. -/
def trailingEmpty (lines : List (List Char)) : Nat :=
  (lines.reverse.takeWhile List.isEmpty).length

/-- The text of a block scalar with the given lines, of which the last was ended if
`ended`. -/
def blockText (folded : Bool) (chomping : Chomping) (ended : Bool) (lines : List (List Char)) :
    String :=
  let emptyAtEnd := trailingEmpty lines
  let body := lines.take (lines.length - emptyAtEnd)
  let leading := (body.takeWhile List.isEmpty).length
  let content := body.drop leading
  let text :=
    if folded then List.replicate leading '\n' ++ foldLines false 0 content
    else ['\n'].intercalate body
  let breaksAtEnd :=
    match chomping with
    | .strip => 0
    | .clip => if body.isEmpty then 0 else if ended || emptyAtEnd > 0 then 1 else 0
    | .keep => (if body.isEmpty then 0 else 1) + emptyAtEnd - (if ended then 0 else 1)
  String.ofList (text ++ List.replicate breaksAtEnd '\n')

end DocTree.Yaml
