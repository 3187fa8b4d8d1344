import DocTree.Diagnostic
import DocTree.Html.Tag
import DocTree.Node.Basic
import DocTree.Unicode.Blank

/-! What a writer of a tree should hear about: what cannot be rendered, and what is repaired
without a word. -/
namespace DocTree.Node
open DocTree.Unicode

def isBlankText (s : String) : Bool := s.toList.all isBlank

def checkHeading (level : UInt8) (anchor : Option String) : List Diagnostic :=
  (if 1 ≤ level ∧ level ≤ 6 then []
    else [⟨.error, "V001", s!"Heading level {level} is outside 1..=6"⟩])
  ++ match anchor with
    | some id =>
      if isValidAnchor id then []
      else [⟨.error, "V002", s!"Heading anchor '{id}' is not a valid fragment"⟩]
    | none => []

/-- One remark per row with fewer cells than the table has columns, counted from `number`. -/
def checkRowSizes {α : Type} (columns : Nat) : Nat → List (List α) → List Diagnostic
  | _, [] => []
  | number, row :: rest =>
    (if row.length < columns then
      [⟨.info, "V011",
        s!"Table row {number} has {row.length} of {columns} cells; it will be padded"⟩]
    else []) ++ checkRowSizes columns (number + 1) rest

def checkTable {α : Type} (header : List α) (rows : List (List α)) : List Diagnostic :=
  let columns := columnCount header rows
  (if columns = 0 then [⟨.error, "V010", "Table has no columns"⟩] else [])
    ++ checkRowSizes columns 1 rows

def checkElement (tag : String) (hasChildren : Bool) : List Diagnostic :=
  if !Html.isTagName tag then [⟨.error, "V021", s!"Invalid HTML tag name '{tag}'"⟩]
  else if Html.TagClass.ofTag tag = .void ∧ hasChildren then
    [⟨.warning, "V020", s!"Self-closing <{tag}> has children; they will be dropped"⟩]
  else []

def checkDestination (kind destination : String) : List Diagnostic :=
  if isBlankText destination then [⟨.warning, "V030", s!"{kind} has an empty destination"⟩]
  else []

mutual

/-- The remarks on a tree, each node before its parts. -/
def check : Node → List Diagnostic
  | heading level anchor children => checkHeading level anchor ++ checks children
  | table header rows => checkTable header rows ++ checks header ++ checkRows rows
  | element tag _ children => checkElement tag (!children.isEmpty) ++ checks children
  | link target destination title children =>
    checkDestination (link target destination title children).typeName destination
      ++ checks children
  | image src _ _ => if isBlankText src then [⟨.warning, "V031", "Image has an empty src"⟩] else []
  | page metadata children =>
    (if isBlankText metadata.title then [⟨.warning, "V040", "Page has an empty title"⟩] else [])
      ++ checks children
  | collapsible summary children => summary.check ++ checks children
  | group children | quote children | emphasis _ children | codeSpan children
  | richCode _ children | paragraph children | list _ children => checks children
  | text _ | rule | comment _ _ | code _ _ | notice => []

def checks : List Node → List Diagnostic
  | [] => []
  | node :: rest => node.check ++ checks rest

def checkRows : List (List Node) → List Diagnostic
  | [] => []
  | row :: rest => checks row ++ checkRows rest

end

end DocTree.Node
