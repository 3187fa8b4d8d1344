import DocTree.Signature.Lexeme

/-! The layout of a signature: runs of white space become one space, and each member of a body
in braces stands on a line of its own, indented by the depth of the braces. String literals
stay as they are, and brackets have to match. -/
namespace DocTree.Signature

/-- Why a signature cannot be laid out. -/
inductive LayoutError where
  /-- A bracket without its partner. -/
  | unbalanced (bracket : Char) (offset : Nat)
  | unterminated (offset : Nat)
  deriving DecidableEq, Inhabited

def LayoutError.message : LayoutError → String
  | unbalanced bracket offset => s!"Unbalanced '{bracket}' at byte {offset}"
  | unterminated offset => s!"Unterminated string literal starting at byte {offset}"

/-- A signature that is partly laid out. -/
structure Draft where
  text : String := ""
  /-- The number of open braces. -/
  depth : Nat := 0
  atLineStart : Bool := true
  /-- White space that is written once more text follows on the line. -/
  pendingSpace : Bool := false
  /-- The brackets that are open, the innermost first. -/
  brackets : List (Char × Nat) := []
  /-- Braces without content have been written, and their end is still to come. -/
  inEmptyBraces : Bool := false
  deriving DecidableEq, Inhabited

namespace Draft

def indentation (depth : Nat) : String := String.ofList (List.replicate (4 * depth) ' ')

/-- Writes a text behind the indentation or the space that is due. -/
def put (d : Draft) (s : String) : Draft :=
  let text :=
    if d.atLineStart then d.text ++ indentation d.depth
    else if d.pendingSpace then d.text.push ' '
    else d.text
  { d with text := text ++ s, atLineStart := false, pendingSpace := false }

def space (d : Draft) : Draft := if d.atLineStart then d else { d with pendingSpace := true }

def newline (d : Draft) : Draft :=
  { d with text := d.text.push '\n', atLineStart := true, pendingSpace := false }

def ensureNewline (d : Draft) : Draft := if d.atLineStart then d else d.newline

end Draft

/-- The first lexeme that is no white space. -/
def nextSignificant? (lexemes : List Lexeme) : Option Lexeme := lexemes.find? (· != .space)

/-- Whether the next significant lexeme closes braces. -/
def closesBraces (lexemes : List Lexeme) : Bool :=
  match nextSignificant? lexemes with
  | some (.closing c _) => c == '\x7d'
  | _ => false

/-- The opening partner of a closing bracket. -/
def partner (closing : Char) : Char :=
  if closing = ')' then '(' else if closing = ']' then '[' else '\x7b'

namespace Draft

/-- Opens a bracket. A body in braces begins on a new line unless it is empty. -/
def openBracket (d : Draft) (c : Char) (offset : Nat) (rest : List Lexeme) : Draft :=
  if c = '\x7b' then
    if closesBraces rest then { d.put "\x7b\x7d" with inEmptyBraces := true }
    else
      let d := d.put (String.singleton c)
      newline { d with depth := d.depth + 1, brackets := (c, offset) :: d.brackets }
  else
    let d := d.put (String.singleton c)
    { d with brackets := (c, offset) :: d.brackets }

/-- Closes the innermost bracket, which has to be the partner. -/
def closeBracket (d : Draft) (c : Char) (offset : Nat) : Except LayoutError Draft :=
  match d.brackets with
  | (top, _) :: outer =>
    if top = partner c then
      let d := { d with brackets := outer }
      if c = '\x7d' then
        .ok ((ensureNewline { d with depth := d.depth - 1 }).put (String.singleton c))
      else .ok (d.put (String.singleton c))
    else .error (.unbalanced c offset)
  | [] => .error (.unbalanced c offset)

/-- Whether the innermost open bracket is a brace. -/
def inBraces (d : Draft) : Bool := d.brackets.head?.any fun b => b.1 == '\x7b'

/-- Ends a member of a body unless it is the last one; anywhere else a separator is text. -/
def separate (d : Draft) (mark : Char) (rest : List Lexeme) : Draft :=
  let written := d.put (String.singleton mark)
  if d.inBraces && !closesBraces rest && (nextSignificant? rest).isSome then written.newline
  else written

/-- Adds a lexeme; `rest` is what follows it. -/
def add (d : Draft) (rest : List Lexeme) : Lexeme → Except LayoutError Draft
  | .literal s => .ok (d.put (String.ofList s))
  | .unterminated offset => .error (.unterminated offset)
  | .opening c offset => .ok (d.openBracket c offset rest)
  | .closing c offset =>
    if d.inEmptyBraces then .ok { d with inEmptyBraces := false } else d.closeBracket c offset
  | .separator c => .ok (d.separate c rest)
  | .space => .ok (if d.inEmptyBraces then d else d.space)
  | .other c => .ok (d.put (String.singleton c))

def addAll (d : Draft) : List Lexeme → Except LayoutError Draft
  | [] => .ok d
  | lexeme :: rest =>
    match d.add rest lexeme with
    | .ok d => d.addAll rest
    | .error e => .error e

/-- The finished text, unless a bracket is still open. -/
def finish (d : Draft) : Except LayoutError String :=
  match d.brackets with
  | (c, offset) :: _ => .error (.unbalanced c offset)
  | [] => .ok (String.ofList (Unicode.dropBlankEnd d.text.toList))

end Draft

/-- Lays a signature out. -/
def layOut (source : String) : Except LayoutError String :=
  match Draft.addAll {} (Lexeme.ofSource source) with
  | .ok draft => draft.finish
  | .error e => .error e

end DocTree.Signature
