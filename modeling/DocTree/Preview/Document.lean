import DocTree.Preview.Block
import DocTree.Text.Split

/-! A Markdown text read line by line. Each line first goes on with the containers that are open,
as far as it can; then it goes on with the block at their end, or starts new ones. -/
namespace DocTree.Preview

/-- A list whose items have all ended. -/
structure ListSoFar where
  mark : Char
  start : Option Nat
  loose : Bool
  /-- The items, the last one first. -/
  items : List (List Block)

def ListSoFar.block (l : ListSoFar) : Block := .list l.start l.loose l.items.reverse

/-- An open container with the blocks that have ended in it, the last one first. -/
inductive Container where
  | quote (blocks : List Block)
  /-- An item and the list to which it belongs. -/
  | item (width : Nat) (blocks : List Block) (list : ListSoFar)

/-- The block at the end of a text that may go on. Lines are in reverse. -/
inductive OpenBlock where
  /-- A paragraph; `heads` says whether its last line may be the header of a table. -/
  | paragraph (last : List Char) (before : List (List Char)) (heads : Bool)
  | fence (opening : Fence) (lines : List Line)
  | indented (lines : List Line)
  | html (stop : HtmlStop) (lines : List Line)
  | table (columns : List Alignment) (header : List Char) (rows : List (List Char))
  | list (items : ListSoFar)

/-- The lines that have been read. -/
structure Document where
  /-- The open containers, the innermost first. -/
  containers : List Container := []
  /-- The blocks outside all of them, the last one first. -/
  blocks : List Block := []
  openBlock : Option OpenBlock := none
  /-- Whether a blank line has just ended a block or an item. -/
  afterBlank : Bool := false

/-! ## Ending blocks -/

/-- Text lines, the last one first, as one text. -/
def joinLines (lines : List (List Char)) : List Char := ['\n'].intercalate lines.reverse

/-- Whole lines, the last one first, as one text. -/
def joinEnded (lines : List Line) : String :=
  String.ofList (lines.reverse.flatMap Line.endedText)

def paragraphBlock (last : List Char) (before : List (List Char)) : Block :=
  .paragraph (inlines false (trimEnd isLineSpace (joinLines (last :: before))))

/-- The block as it stands when nothing more belongs to it. -/
def OpenBlock.block : OpenBlock → Block
  | .paragraph last before _ => paragraphBlock last before
  | .fence opening lines => .code opening.language (joinEnded lines)
  | .indented lines => .code "" (joinEnded (lines.dropWhile Line.isBlank))
  | .html _ lines => .html (joinEnded lines)
  | .table columns header rows =>
    .table columns (rowOf columns.length header) (rows.reverse.map (rowOf columns.length))
  | .list items => items.block

namespace Document

/-- Adds a block to the innermost container. -/
def addBlock (d : Document) (block : Block) : Document :=
  match d.containers with
  | [] => { d with blocks := block :: d.blocks }
  | .quote blocks :: outer => { d with containers := .quote (block :: blocks) :: outer }
  | .item width blocks list :: outer =>
    { d with containers := .item width (block :: blocks) list :: outer }

/-- Ends the open block. -/
def closeBlock (d : Document) : Document :=
  match d.openBlock with
  | none => d
  | some openBlock => { d with openBlock := none }.addBlock openBlock.block

/-- Ends the innermost container. The list of an item stays open for a further one. -/
def closeContainer (d : Document) : Document :=
  let d := d.closeBlock
  match d.containers with
  | [] => d
  | .quote blocks :: outer => { d with containers := outer }.addBlock (.quote blocks.reverse)
  | .item _ blocks list :: outer =>
    let list := { list with items := blocks.reverse :: list.items }
    { d with containers := outer, openBlock := some (.list list) }

/-- Ends as many containers, from the innermost one. -/
def closeContainers : Nat → Document → Document
  | 0, d => d
  | n + 1, d => closeContainers n d.closeContainer

/-- All the blocks of a text. -/
def finish (d : Document) : List Block :=
  (closeContainers d.containers.length d).closeBlock.blocks.reverse

/-! ## Starting blocks -/

/-- Makes room for a block that goes on with no list. A blank line before it makes the list
loose in whose item it stands. -/
def prepare (d : Document) : Document :=
  let d := d.closeBlock
  match d.containers with
  | .item width blocks list :: outer =>
    { d with
      containers := .item width blocks { list with loose := list.loose || d.afterBlank } :: outer
      afterBlank := false }
  | _ => { d with afterBlank := false }

/-- Starts an item of the open list, if its marker is of the same kind, or of a new one. -/
def startItem (d : Document) (start : ItemStart) : Document :=
  let continued : Option ListSoFar :=
    match d.openBlock with
    | some (.list list) => if list.mark = start.mark then some list else none
    | _ => none
  match continued with
  | some list =>
    let list := { list with loose := list.loose || d.afterBlank }
    { d with
      containers := .item start.width [] list :: d.containers
      openBlock := none
      afterBlank := false }
  | none =>
    let d := d.prepare
    let list : ListSoFar := ⟨start.mark, start.number, false, []⟩
    { d with containers := .item start.width [] list :: d.containers }

/-- Takes note of a blank line. Inside a quote it does not count. -/
def addBlank (d : Document) : Document :=
  match d.openBlock, d.containers with
  | none, .quote _ :: _ => d
  | _, _ => { d with afterBlank := true }

/-- Starts the block that a line without containers begins. -/
def startBlock (d : Document) (l : Line) : Document :=
  let d := d.prepare
  let cs := l.trimStart.rest
  if 4 ≤ l.indent then { d with openBlock := some (.indented [l.skip 4]) }
  else
    match htmlStop? cs with
    | some stop =>
      let block : OpenBlock := .html stop [l]
      if stop.isReachedBy cs then d.addBlock block.block else { d with openBlock := some block }
    | none =>
      if isRule cs then d.addBlock .rule
      else
        match readHeading cs, openFence? l with
        | some (level, text), _ => d.addBlock (.heading level (inlines false text))
        | none, some fence => { d with openBlock := some (.fence fence []) }
        | none, none => { d with openBlock := some (.paragraph cs [] true) }

/-- Starts the containers and the block that the rest of a line begins. -/
def start : Nat → Document → Line → Document
  | 0, d, l => d.startBlock l
  | fuel + 1, d, l =>
    if l.isBlank then d.addBlank
    else if 4 ≤ l.indent then d.startBlock l
    else
      match itemStart? l, behindQuoteMark? l with
      | some item, _ =>
        let d := d.startItem item
        if item.rest.isBlank then d else d.start fuel item.rest
      | none, some rest =>
        let d := d.prepare
        { d with containers := .quote [] :: d.containers }.start fuel rest
      | none, none => d.startBlock l

end Document

/-! ## Going on -/

/-- Whether a line ends a paragraph or a table by starting another block. A list that would
start inside a paragraph has to begin with one and may not be empty. -/
def interrupts (inParagraph : Bool) (l : Line) : Bool :=
  let cs := l.trimStart.rest
  isRule cs || (readHeading cs).isSome || (openFence? l).isSome || (behindQuoteMark? l).isSome
    || (interruptingStop? cs).isSome
    || (itemStart? l).any fun item =>
        !inParagraph || (!item.rest.isBlank && item.number.all (· == 1))

/-- The open block with a line added to it, or the blocks that the line ends; none if the line
is not part of it. -/
def OpenBlock.extend (openBlock : OpenBlock) (l : Line) :
    Option (List Block × Option OpenBlock) :=
  match openBlock with
  | .fence opening lines =>
    if opening.isClosedBy l then some ([openBlock.block], none)
    else some ([], some (.fence opening (l.skip opening.indent :: lines)))
  | .indented lines =>
    if 4 ≤ l.indent || l.isBlank then some ([], some (.indented (l.skip 4 :: lines))) else none
  | .html stop lines =>
    match stop with
    | .blankLine => if l.isBlank then none else some ([], some (.html stop (l :: lines)))
    | .mark _ =>
      let block : OpenBlock := .html stop (l :: lines)
      if stop.isReachedBy l.rest then some ([block.block], none) else some ([], some block)
  | .table columns header rows =>
    let row := l.trimStart
    if row.isBlank || interrupts false row then none
    else some ([], some (.table columns header (row.rest :: rows)))
  | .list _ => none
  | .paragraph last before heads =>
    let text := l.trimStart.rest
    if l.isBlank then none
    else if 4 ≤ l.indent then some ([], some (.paragraph text (last :: before) false))
    else
      match (readColumns l).filter fun columns => heads && isHeader columns.length last with
      | some columns =>
        let paragraph := match before with
          | [] => []
          | line :: before => [paragraphBlock line before]
        some (paragraph, some (.table columns last []))
      | none =>
        match underlineLevel? text with
        | some level =>
          let content := inlines false (trimEnd isLineSpace (joinLines (last :: before)))
          some ([.heading level content], none)
        | none =>
          if interrupts true l then none
          else some ([], some (.paragraph text (last :: before) (text.head? == some '|')))

/-- The number of containers, the outermost first, with which a line goes on, and the rest of the
line. An item that holds nothing ends before a blank line; `isEmpty` says whether the innermost
one may be such. -/
def matchContainers (isEmpty : Bool) : List Container → Line → Nat × Line
  | [], l => (0, l)
  | .quote _ :: inner, l =>
    match behindQuoteMark? l with
    | some rest =>
      let (n, rest) := matchContainers isEmpty inner rest
      (n + 1, rest)
    | none => (0, l)
  | .item width blocks _ :: inner, l =>
    if l.isBlank && isEmpty && inner.isEmpty && blocks.isEmpty then (0, l)
    else if l.isBlank || width ≤ l.indent then
      let (n, rest) := matchContainers isEmpty inner (l.skip width)
      (n + 1, rest)
    else (0, l)

namespace Document

/-- The open paragraph with a line that goes on with it though not with its containers. -/
def extendLazily (d : Document) (l : Line) : Option OpenBlock :=
  match d.openBlock with
  | some (.paragraph last before _) =>
    if l.isBlank || (l.indent < 4 && interrupts false l) then none
    else some (.paragraph l.trimStart.rest (last :: before) false)
  | _ => none

/-- Adds a line that belongs to the open block: the blocks that have ended with it, and the one
that is open now. Blank lines at the end of indented code do not belong to it in the end. -/
def extend (d : Document) (l : Line) (ended : List Block) (openBlock : Option OpenBlock) :
    Document :=
  { ended.foldl addBlock d with
    openBlock := openBlock
    afterBlank :=
      match openBlock with
      | some (.indented _) => l.isBlank
      | _ => false }

/-- Reads a line. -/
def addLine (d : Document) (line : Line) : Document :=
  let depth := d.containers.length
  let (matched, rest) := matchContainers d.openBlock.isNone d.containers.reverse line
  if matched < depth then
    match d.extendLazily rest with
    | some openBlock => { d with openBlock := some openBlock }
    | none => (closeContainers (depth - matched) d).start (rest.rest.length + 1) rest
  else
    match d.openBlock with
    | none | some (.list _) => d.start (rest.rest.length + 1) rest
    | some openBlock =>
      match openBlock.extend rest with
      | some (ended, openBlock) => d.extend rest ended openBlock
      | none => d.closeBlock.start (rest.rest.length + 1) rest

end Document

/-- The blocks of a text. -/
def blocks (text : List Char) : List Block :=
  ((Line.ofText (Text.unifyBreaks text)).foldl Document.addLine {}).finish

end DocTree.Preview
