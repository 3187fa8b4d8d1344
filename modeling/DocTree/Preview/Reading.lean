import DocTree.Preview.Inline
import DocTree.Preview.Target
import DocTree.Unicode.Blank

/-! Reading the inside of a paragraph from the left. -/
namespace DocTree.Preview
open DocTree.Unicode

/-- Whether white space, the start or the end of the text stands there. -/
def isEdge : Option Char → Bool
  | none => true
  | some c => isBlank c

/-- Whether a character is punctuation, in ASCII or beyond. -/
def isMark : Option Char → Bool
  | none => false
  | some c => isPunctuation c

/-- A run of delimiters between two characters. A star and a pair of tildes may stand inside a
word; a low line and a single tilde may not. -/
def Run.between (mark : Char) (count : Nat) (before after : Option Char) : Run :=
  let insideWords := mark == '*' || (mark == '~' && count > 1)
  { mark := mark
    count := count
    length := count
    canOpen := !isEdge after && ((insideWords && (mark == '~' || !isMark after)) || isEdge before
      || isMark before)
    canClose := !isEdge before && ((insideWords && !isMark before) || isEdge after
      || isMark after) }

/-- The code of a span: line breaks are spaces, and one space is taken off both ends if there
is something else. In a table a backslash goes with a bar. -/
def spanCode (inTable : Bool) (cs : List Char) : String :=
  let cs := cs.map fun c => if c = '\n' then ' ' else c
  let cs := if inTable then bars cs else cs
  if cs.head? == some ' ' && cs.getLast? == some ' ' && cs.any (· != ' ') then
    String.ofList (cs.drop 1).dropLast
  else String.ofList cs
where
  /-- The text with escaped bars resolved. -/
  bars : List Char → List Char
    | '\\' :: '|' :: rest => '|' :: bars rest
    | c :: rest => c :: bars rest
    | [] => []

/-- The code up to a run of ticks of just the given length, and what follows. -/
def readSpan (ticks : Nat) : Nat → List Char → List Char → Option (List Char × List Char)
  | 0, _, _ => none
  | _ + 1, _, [] => none
  | fuel + 1, read, c :: rest =>
    if c = '\x60' then
      let run := (c :: rest).takeWhile (· == '\x60')
      let behind := (c :: rest).drop run.length
      if run.length = ticks then some (read.reverse, behind)
      else readSpan ticks fuel (run ++ read) behind
    else readSpan ticks fuel (c :: read) rest

/-- A text that has been read in part: its parts in reverse, and the letters behind them, also
in reverse. -/
structure Reading where
  parts : List Part
  letters : List Char

namespace Reading

/-- Makes the letters a part of their own. -/
def flush (r : Reading) : Reading :=
  if r.letters.isEmpty then r
  else ⟨.inline (.text (String.ofList r.letters.reverse)) :: r.parts, []⟩

def addLetter (r : Reading) (c : Char) : Reading := { r with letters := c :: r.letters }

def addPart (r : Reading) (part : Part) : Reading := ⟨part :: r.flush.parts, []⟩

def addInline (r : Reading) (node : Inline) : Reading := r.addPart (.inline node)

/-- Ends a line. Two spaces before the break make it a hard one. -/
def addBreak (r : Reading) : Reading :=
  let spaces := (r.letters.takeWhile (· == ' ')).length
  let r := { r with letters := r.letters.drop spaces }
  r.addInline (if spaces < 2 then .softBreak else .hardBreak)

/-- Takes the activity from brackets that would open a link around another one. -/
def disableLinks (parts : List Part) : List Part :=
  parts.map fun part =>
    match part with
    | .bracket false _ => .bracket false false
    | part => part

/-- The parts behind the last bracket, that bracket, and the parts before it. -/
def splitBracket : List Part → List Part → Option (List Part × Bool × Bool × List Part)
  | _, [] => none
  | inside, .bracket isImage active :: before => some (inside, isImage, active, before)
  | inside, part :: before => splitBracket (part :: inside) before

/-- Closes the last bracket: as a link or an image if a target follows, and else as text. -/
def closeBracket (r : Reading) (rest : List Char) : Reading × List Char :=
  match splitBracket [] r.flush.parts with
  | none => (r.addLetter ']', rest)
  | some (inside, isImage, active, before) =>
    let asText : Part := .inline (.text (if isImage then "![" else "["))
    let plain : Reading := ⟨inside.reverse ++ asText :: before, [']']⟩
    if !active then (plain, rest)
    else
      match readTarget rest with
      | none => (plain, rest)
      | some (destination, title, rest) =>
        let children := matchRuns inside
        if isImage then
          (⟨.inline (.image destination title children) :: before, []⟩, rest)
        else
          (⟨.inline (.link destination title children) :: disableLinks before, []⟩, rest)

end Reading

/-- Reads a text; `before` is the character in front of it. -/
def readInlines (inTable : Bool) : Nat → Option Char → Reading → List Char → Reading
  | 0, _, r, _ => r
  | _ + 1, _, r, [] => r.flush
  | fuel + 1, before, r, c :: rest =>
    let go (before : Option Char) (r : Reading) (rest : List Char) : Reading :=
      readInlines inTable fuel before r rest
    match c with
    | '\\' =>
      match rest with
      | '\n' :: rest => go (some '\n') (r.addInline .hardBreak) rest
      | d :: rest =>
        if isAsciiPunctuation d then go (some d) (r.addLetter d) rest
        else go (some c) (r.addLetter c) (d :: rest)
      | [] => go (some c) (r.addLetter c) []
    | '\x60' =>
      let run := (c :: rest).takeWhile (· == '\x60')
      let behind := (c :: rest).drop run.length
      match readSpan run.length (behind.length + 1) [] behind with
      | some (code, behind) => go (some c) (r.addInline (.code (spanCode inTable code))) behind
      | none => go (some c) { r with letters := run ++ r.letters } behind
    | '<' =>
      match readAddress rest, readMail rest, skipHtml rest with
      | some (address, behind), _, _ =>
        go (some '>') (r.addInline (.link address "" [.text address])) behind
      | none, some (address, behind), _ =>
        go (some '>') (r.addInline (.link ("mailto:" ++ address) "" [.text address])) behind
      | none, none, some behind =>
        let html := (c :: rest).take (rest.length + 1 - behind.length)
        go (some '>') (r.addInline (.html (String.ofList html))) behind
      | none, none, none => go (some c) (r.addLetter c) rest
    | '&' =>
      match readEntity rest with
      | some (d, behind) => go (some ';') (r.addLetter d) behind
      | none => go (some c) (r.addLetter c) rest
    | '!' =>
      match rest with
      | '[' :: rest => go (some '[') (r.addPart (.bracket true true)) rest
      | _ => go (some c) (r.addLetter c) rest
    | '[' => go (some c) (r.addPart (.bracket false true)) rest
    | ']' =>
      let (r, rest) := r.closeBracket rest
      go (some c) r rest
    | '\n' => go (some c) r.addBreak (rest.dropWhile (· == ' '))
    | _ =>
      if c = '*' ∨ c = '_' ∨ c = '~' then
        let run := (c :: rest).takeWhile (· == c)
        let behind := (c :: rest).drop run.length
        let made := Run.between c run.length before behind.head?
        if (made.canOpen || made.canClose) && (c != '~' || run.length ≤ 2) then
          go (some c) (r.addPart (.run made)) behind
        else go (some c) { r with letters := run ++ r.letters } behind
      else go (some c) (r.addLetter c) rest

/-- The nodes that a text makes. -/
def inlines (inTable : Bool) (cs : List Char) : List Inline :=
  matchRuns (readInlines inTable (cs.length + 1) none ⟨[], []⟩ cs).parts.reverse

end DocTree.Preview
