import DocTree.Preview.Entity
import DocTree.Preview.RawHtml
import DocTree.Unicode.Punctuation

/-! Destinations and titles of links and images. -/
namespace DocTree.Preview
open DocTree.Unicode

/-- The text with backslash escapes and character references resolved. In a table a backslash
also goes with a bar. -/
def unescape : Nat → List Char → List Char
  | 0, cs => cs
  | _ + 1, [] => []
  | fuel + 1, '\\' :: c :: rest =>
    if isAsciiPunctuation c then c :: unescape fuel rest else '\\' :: unescape fuel (c :: rest)
  | fuel + 1, '&' :: rest =>
    match readEntity rest with
    | some (c, rest) => c :: unescape fuel rest
    | none => '&' :: unescape fuel rest
  | fuel + 1, c :: rest => c :: unescape fuel rest

def unescaped (cs : List Char) : String := String.ofList (unescape (cs.length + 1) cs)

/-- A destination between angles, from behind the first one. -/
def angleDestination (read : List Char) : List Char → Option (List Char × List Char)
  | [] => none
  | '>' :: rest => some (read.reverse, rest)
  | '\\' :: c :: rest =>
    if c = '\n' ∨ c = '<' ∨ c = '>' ∧ !isAsciiPunctuation c then none
    else angleDestination (c :: '\\' :: read) rest
  | c :: rest => if c = '\n' ∨ c = '<' then none else angleDestination (c :: read) rest

/-- A destination without angles: up to white space or a parenthesis that it does not open. -/
def plainDestination (read : List Char) (nesting : Nat) : List Char → Option (List Char × List Char)
  | [] => if nesting = 0 then some (read.reverse, []) else none
  | '\\' :: c :: rest =>
    if isAsciiPunctuation c then plainDestination (c :: '\\' :: read) nesting rest
    else if c ≤ ' ' then if nesting = 0 then some (('\\' :: read).reverse, c :: rest) else none
    else plainDestination (c :: '\\' :: read) nesting rest
  | c :: rest =>
    if c ≤ ' ' then if nesting = 0 then some (read.reverse, c :: rest) else none
    else if c = '(' then
      if nesting > 32 then none else plainDestination (c :: read) (nesting + 1) rest
    else if c = ')' then
      if nesting = 0 then some (read.reverse, c :: rest)
      else plainDestination (c :: read) (nesting - 1) rest
    else plainDestination (c :: read) nesting rest

/-- The inside of a title, from behind its opening mark to its closing one. -/
def titleBody (close : Char) (read : List Char) : List Char → Option (List Char × List Char)
  | [] => none
  | '\\' :: c :: rest => titleBody close (c :: '\\' :: read) rest
  | c :: rest =>
    if c = close then some (read.reverse, rest)
    else if close = ')' ∧ c = '(' then none
    else titleBody close (c :: read) rest

/-- Reads a title, if there is one. -/
def readTitle (cs : List Char) : Option (String × List Char) :=
  let close? : Option Char :=
    match cs with
    | '"' :: _ => some '"'
    | '\x27' :: _ => some '\x27'
    | '(' :: _ => some ')'
    | _ => none
  match close? with
  | some close => (titleBody close [] (cs.drop 1)).map fun (body, rest) => (unescaped body, rest)
  | none => none

/-- Reads destination and title of a link from behind the bracket of its text. -/
def readTarget (cs : List Char) : Option (String × String × List Char) := do
  match cs with
  | '(' :: rest =>
    let rest := skipHtmlSpace rest
    let (destination, rest) ←
      match rest with
      | '<' :: rest => angleDestination [] rest
      | _ => plainDestination [] 0 rest
    let rest := skipHtmlSpace rest
    let (title, rest) := (readTitle rest).getD ("", rest)
    match skipHtmlSpace rest with
    | ')' :: rest => some (unescaped destination, title, rest)
    | _ => none
  | _ => none

end DocTree.Preview
