import DocTree.Unicode.Blank

/-! The parts of a signature that matter for its layout: string literals, brackets, separators
and white space. Brackets and literals know at which byte of the source they begin. -/
namespace DocTree.Signature

inductive Lexeme where
  /-- A string literal with its quotes. -/
  | literal (text : List Char)
  /-- A quote that opens a literal without an end. -/
  | unterminated (offset : Nat)
  | opening (bracket : Char) (offset : Nat)
  | closing (bracket : Char) (offset : Nat)
  | separator (mark : Char)
  | space
  | other (c : Char)
  deriving DecidableEq, Inhabited

/-- Whether a scan stands inside a literal: its quote, where it began, whether a backslash came
last, and what was read of it, in reverse. -/
inductive Lexeme.Place where
  | outside
  | inside (quote : Char) (start : Nat) (escaped : Bool) (read : List Char)
  deriving DecidableEq, Inhabited

namespace Lexeme

def isQuote (c : Char) : Bool := c == '"' || c == '\x27' || c == '\x60'

def isOpening (c : Char) : Bool := c == '(' || c == '[' || c == '\x7b'

def isClosing (c : Char) : Bool := c == ')' || c == ']' || c == '\x7d'

def isSeparator (c : Char) : Bool := c == ';' || c == ','

/-- What a character outside literals is. -/
def ofChar (c : Char) (offset : Nat) : Lexeme :=
  if isOpening c then .opening c offset
  else if isClosing c then .closing c offset
  else if isSeparator c then .separator c
  else if Unicode.isBlank c then .space
  else .other c

/-- The lexemes from a byte offset on. -/
def scan : Place → Nat → List Char → List Lexeme
  | .outside, _, [] => []
  | .inside _ start _ _, _, [] => [.unterminated start]
  | .outside, offset, c :: rest =>
    if isQuote c then scan (.inside c offset false [c]) (offset + c.utf8Size) rest
    else ofChar c offset :: scan .outside (offset + c.utf8Size) rest
  | .inside quote start escaped read, offset, c :: rest =>
    let next := offset + c.utf8Size
    if !escaped && c == quote then
      .literal (c :: read).reverse :: scan .outside next rest
    else scan (.inside quote start (!escaped && c == '\\') (c :: read)) next rest

def ofSource (source : String) : List Lexeme := scan .outside 0 source.toList

end Lexeme
end DocTree.Signature
