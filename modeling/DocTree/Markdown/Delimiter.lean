import DocTree.Text.Split

/-! Delimiters that their content cannot end: fences and ticks longer than any run inside,
link destinations and titles. -/
namespace DocTree.Markdown
open DocTree.Text

/-- The length of the longest run of a character in the text, given the length of the run that
is under way and that of the longest one so far. -/
def longestRunFrom (needle : Char) : Nat → Nat → List Char → Nat
  | _, longest, [] => longest
  | run, longest, c :: rest =>
    if c = needle then longestRunFrom needle (run + 1) (max longest (run + 1)) rest
    else longestRunFrom needle 0 longest rest

def longestRun (text : String) (needle : Char) : Nat := longestRunFrom needle 0 0 text.toList

/-- The length of a fence around a block of code: at least three, and more than any run in
the code. -/
def fenceLength (code : String) (mark : Char) : Nat := max (longestRun code mark) 2 + 1

/-- The number of ticks on each side of a code span. -/
def tickCount (code : String) : Nat := longestRun code '\x60' + 1

/-- `n` ticks. -/
def ticks (n : Nat) : String := String.ofList (List.replicate n '\x60')

/-- A destination in the parentheses of a link. With a space or with unequal numbers of opening
and closing parentheses it is put between angles; in a table a bar would end the cell. -/
def escapeDestination (destination : String) (inTable : Bool) : String :=
  let destination := if inTable then replaceChar '|' "%7C" destination else destination
  let cs := destination.toList
  if cs.contains ' ' || cs.count '(' != cs.count ')' then
    "<" ++ replaceChar '>' "%3E" (replaceChar '<' "%3C" destination) ++ ">"
  else destination

def titleChar (inTable : Bool) (c : Char) : List Char :=
  if c = '\n' then [' ']
  else if c = '\\' ∨ c = '"' ∨ (c = '|' ∧ inTable) then ['\\', c]
  else [c]

/-- A title between double quotes behind a destination. -/
def escapeTitle (title : String) (inTable : Bool) : String :=
  String.ofList (title.toList.flatMap (titleChar inTable))

/-- The text with a closing mark of a comment made harmless wherever one stands. -/
def closeSafe : List Char → List Char
  | '-' :: '-' :: '>' :: rest => "--&gt;".toList ++ closeSafe rest
  | c :: rest => c :: closeSafe rest
  | [] => []

/-- The inside of a comment; where a line may not end, spaces stand for line breaks. -/
def commentBody (text : String) (singleLine : Bool) : String :=
  let body := String.ofList (closeSafe text.toList)
  if singleLine then replaceChar '\n' " " body else body

end DocTree.Markdown
