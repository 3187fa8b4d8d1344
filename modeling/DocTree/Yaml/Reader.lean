import DocTree.Text.Split
import DocTree.Yaml.Fold
import DocTree.Yaml.Scalar

/-! Reading a YAML document: mappings and sequences in block and flow style, all kinds of
scalars, comments, document marks, tags, anchors and aliases. Block structure follows from the
columns at which keys and dashes stand. A mapping becomes an object, with its keys in order. -/
namespace DocTree.Yaml

/-- Where the reader is: what is left of the document, the column at which it stands, and the
values that have been given a name. -/
structure Place where
  rest : List Char
  column : Nat
  named : List (String × Json)

abbrev Reader := StateT Place Option

/-- The column after a text, which may go over several lines. -/
def columnAfter (column : Nat) (cs : List Char) : Nat :=
  cs.foldl (fun n c => if c = '\n' then 0 else n + 1) column

/-- Goes on to a later place in the text. -/
def moveTo (rest : List Char) : Reader Unit := modify fun p =>
  { p with
    rest := rest
    column := columnAfter p.column (p.rest.take (p.rest.length - rest.length)) }

def getRest : Reader (List Char) := return (← get).rest

def getColumn : Reader Nat := return (← get).column

/-- What follows white space on the same line. -/
def skipGaps : Reader Unit := do moveTo ((← getRest).dropWhile isGap)

/-- What follows white space, line breaks and comments. A tab is passed over only where `tabs`
allows it. -/
def layoutEnd (tabs : Bool) (inComment : Bool) : List Char → List Char
  | [] => []
  | c :: rest =>
    if c = '\n' then layoutEnd tabs false rest
    else if inComment then layoutEnd tabs true rest
    else if c = ' ' ∨ (c = '\t' ∧ tabs) then layoutEnd tabs false rest
    else if c = '#' then layoutEnd tabs true rest
    else c :: rest

def skipLayout (tabs : Bool) : Reader Unit := do moveTo (layoutEnd tabs false (← getRest))

/-- Nothing but a comment stands on the rest of the line. -/
def atLineEnd : List Char → Bool
  | [] => true
  | c :: _ => c == '\n' || c == '#'

/-- Tag and anchor in front of a node. -/
structure Properties where
  tag : Option String := none
  anchor : Option String := none

def Properties.isNone (p : Properties) : Bool := p.tag.isNone && p.anchor.isNone

/-- Where a name or a tag ends. -/
def endsName (c : Char) : Bool := isGapOrBreak c || isFlowMark c

def readName : Reader String := do
  let rest ← getRest
  let name := rest.takeWhile fun c => !endsName c
  moveTo (rest.dropWhile fun c => !endsName c)
  return String.ofList name

/-- Reads one tag and one anchor at most, in any order. -/
def readProperties : Nat → Properties → Reader Properties
  | 0, found => return found
  | left + 1, found => do
    match ← getRest with
    | '!' :: _ =>
      if found.tag.isSome then failure
      let tag ← readName
      skipGaps
      readProperties left { found with tag := some tag }
    | '&' :: rest =>
      if found.anchor.isSome then failure
      moveTo rest
      let name ← readName
      if name.isEmpty then failure
      skipGaps
      readProperties left { found with anchor := some name }
    | _ => return found

/-- Gives a value the name of its anchor. -/
def register (properties : Properties) (value : Json) : Reader Json := do
  match properties.anchor with
  | some name => modify fun p => { p with named := (name, value) :: p.named }
  | none => pure ()
  return value

def readAlias : Reader Json := do
  let name ← readName
  match (← get).named.lookup name with
  | some value => return value
  | none => failure

/-- The value of a scalar; only a plain one is something else than text without a tag. -/
def scalarValue (properties : Properties) (isPlain : Bool) (text : String) : Reader Json := do
  match properties.tag with
  | some tag =>
    match taggedScalar tag text with
    | some value => return value
    | none => failure
  | none => return if isPlain then plainScalar text else .string text

/-- Reads a quoted or plain scalar. -/
def readLineScalar (properties : Properties) (inFlow : Bool) (least : Nat) : Reader Json := do
  match ← getRest with
  | '"' :: rest =>
    match doubleQuoted [] (.blanks []) rest with
    | some (text, rest) =>
      moveTo rest
      scalarValue properties false text
    | none => failure
  | '\x27' :: rest =>
    match singleQuoted [] (.blanks []) rest with
    | some (text, rest) =>
      moveTo rest
      scalarValue properties false text
    | none => failure
  | rest =>
    if startsPlain inFlow rest then
      match plain inFlow least [] (.blanks []) (← getColumn) rest with
      | some (text, rest, column) =>
        modify fun p => { p with rest := rest, column := column }
        scalarValue properties true text
      | none => failure
    else failure

/-- Reads a block scalar from behind its mark, below a node at the column `indent`. -/
def readBlockScalar (properties : Properties) (folded : Bool) (indent : Option Nat) :
    Reader Json := do
  match blockHeader none .clip (← getRest) with
  | none => failure
  | some (asked, chomping, rest) =>
    let pieces := linesOf rest
    let finalBlank := (pieces.getLast?.getD []).all (· == ' ')
    let lines := if finalBlank then pieces.dropLast else pieces
    let least := match indent with
      | some n => n + 1
      | none => 1
    let width := match asked with
      | some n => indent.getD 0 + n
      | none => blockIndent least 0 lines
    let (block, behind) := blockLines width lines
    let ended := finalBlank || !behind.isEmpty
    let text := blockText folded chomping ended block
    modify fun p =>
      { p with
        rest := if behind.isEmpty then [] else ['\n'].intercalate (pieces.drop block.length)
        column := 0 }
    scalarValue properties false text

/-- Reads the key of a mapping and the colon behind it, all on one line. -/
def readKey : Reader String := do
  let properties ← readProperties 2 {}
  let line := (← getRest).takeWhile (· != '\n')
  let behind := (← getRest).drop line.length
  modify fun p => { p with rest := line }
  let key ← match line with
    | '*' :: rest => do
      moveTo rest
      readAlias
    | _ => do
      let value ← readLineScalar properties false 0
      register properties value
  skipGaps
  match ← getRest, key with
  | ':' :: rest, .string key =>
    if atGap rest then
      modify fun p => { p with rest := rest ++ behind, column := p.column + 1 }
      return key
    else failure
  | _, _ => failure

/-- Whether the key of a mapping comes next. -/
def keyAhead : Reader Bool := fun p => some ((readKey p).isSome, p)

/-- Refuses a tag of the document's own in front of a collection. -/
def checkTag (properties : Properties) (value : Json) : Reader Json := do
  match properties.tag with
  | some tag => if tag = "!" ∨ tag.startsWith "!!" then return value else failure
  | none => return value

/-- Whether a dash that stands for an item comes next. -/
def atDash : List Char → Bool
  | '-' :: rest => atGap rest
  | _ => false

/-- Whether the rest stands behind the column of the node around it. -/
def isBehind (indent : Option Nat) (column : Nat) : Bool :=
  match indent with
  | some n => n < column
  | none => true

mutual

/-- Reads a node whose text comes next, inside a node at the column `indent`. A mapping or a
sequence may begin here only if `fresh`. -/
def readBlock : Nat → Option Nat → Bool → Bool → Reader Json
  | 0, _, _, _ => failure
  | fuel + 1, indent, fresh, dashes => do
    let column ← getColumn
    if fresh && atDash (← getRest) then readItems fuel column []
    else if ← (if fresh then keyAhead else pure false) then readEntries fuel column []
    else
      let properties ← readProperties 2 {}
      let value ←
        if !properties.isNone && atLineEnd (← getRest) then
          checkTag properties (← readBelow fuel indent dashes)
        else readInline fuel properties indent
      register properties value

/-- Reads a node that begins on a later line, or nothing if what follows is no part of it. -/
def readBelow : Nat → Option Nat → Bool → Reader Json
  | 0, _, _ => failure
  | fuel + 1, indent, dashes => do
    skipLayout false
    let column ← getColumn
    let rest ← getRest
    if rest.isEmpty then return .null
    else if isBehind indent column then readBlock fuel indent true dashes
    else if dashes && indent == some column && atDash rest then readItems fuel column []
    else return .null

/-- Reads a scalar, an alias or a collection between brackets. -/
def readInline : Nat → Properties → Option Nat → Reader Json
  | 0, _, _ => failure
  | fuel + 1, properties, indent => do
    let least := match indent with
      | some n => n + 1
      | none => 0
    match ← getRest with
    | '*' :: rest =>
      if !properties.isNone then failure
      moveTo rest
      readAlias
    | '|' :: rest =>
      moveTo rest
      readBlockScalar properties false indent
    | '>' :: rest =>
      moveTo rest
      readBlockScalar properties true indent
    | '[' :: rest =>
      moveTo rest
      checkTag properties (← readFlowItems fuel [])
    | '\x7b' :: rest =>
      moveTo rest
      checkTag properties (← readFlowEntries fuel [])
    | _ => readLineScalar properties false least

/-- Reads the items of a sequence whose dashes stand at a column. -/
def readItems : Nat → Nat → List Json → Reader Json
  | 0, _, _ => failure
  | fuel + 1, column, items => do
    moveTo ((← getRest).drop 1)
    moveTo ((← getRest).dropWhile (· == ' '))
    let item ←
      if atLineEnd (← getRest) then readBelow fuel (some column) false
      else readBlock fuel (some column) true false
    skipLayout false
    let next ← getColumn
    let rest ← getRest
    if !rest.isEmpty && next == column && atDash rest then
      readItems fuel column (item :: items)
    else if !rest.isEmpty && column < next then failure
    else return .array (item :: items).reverse

/-- Reads the entries of a mapping whose keys stand at a column. -/
def readEntries : Nat → Nat → List (String × Json) → Reader Json
  | 0, _, _ => failure
  | fuel + 1, column, entries => do
    let key ← readKey
    skipGaps
    let value ←
      if atLineEnd (← getRest) then readBelow fuel (some column) true
      else readBlock fuel (some column) false true
    skipLayout false
    let next ← getColumn
    let rest ← getRest
    if !rest.isEmpty && next == column then readEntries fuel column ((key, value) :: entries)
    else if !rest.isEmpty && column < next then failure
    else return .object ((key, value) :: entries).reverse

/-- Reads a node between brackets. -/
def readFlow : Nat → Reader Json
  | 0 => failure
  | fuel + 1 => do
    let properties ← readProperties 2 {}
    skipLayout true
    let value ←
      match ← getRest with
      | '*' :: rest =>
        moveTo rest
        readAlias
      | '[' :: rest =>
        moveTo rest
        checkTag properties (← readFlowItems fuel [])
      | '\x7b' :: rest =>
        moveTo rest
        checkTag properties (← readFlowEntries fuel [])
      | _ => readLineScalar properties true 0
    register properties value

/-- Reads the value behind a colon between brackets; it may be missing. -/
def readFlowValue : Nat → Reader Json
  | 0 => failure
  | fuel + 1 => do
    skipLayout true
    match ← getRest with
    | ',' :: _ | ']' :: _ | '\x7d' :: _ => return .null
    | _ => readFlow fuel

/-- Reads the items of a sequence up to the closing bracket. An item with a colon is a mapping
of one entry. -/
def readFlowItems : Nat → List Json → Reader Json
  | 0, _ => failure
  | fuel + 1, items => do
    skipLayout true
    match ← getRest with
    | ']' :: rest =>
      moveTo rest
      return .array items.reverse
    | _ =>
      let item ← readFlow fuel
      skipLayout true
      let item ←
        match ← getRest, item with
        | ':' :: rest, .string key =>
          moveTo rest
          let value ← readFlowValue fuel
          pure (Json.object [(key, value)])
        | _, item => pure item
      skipLayout true
      match ← getRest with
      | ',' :: rest =>
        moveTo rest
        readFlowItems fuel (item :: items)
      | ']' :: rest =>
        moveTo rest
        return .array (item :: items).reverse
      | _ => failure

/-- Reads the entries of a mapping up to the closing brace. -/
def readFlowEntries : Nat → List (String × Json) → Reader Json
  | 0, _ => failure
  | fuel + 1, entries => do
    skipLayout true
    match ← getRest with
    | '\x7d' :: rest =>
      moveTo rest
      return .object entries.reverse
    | _ =>
      match ← readFlow fuel with
      | .string key =>
        skipLayout true
        let value ←
          match ← getRest with
          | ':' :: rest =>
            moveTo rest
            readFlowValue fuel
          | _ => pure .null
        skipLayout true
        match ← getRest with
        | ',' :: rest =>
          moveTo rest
          readFlowEntries fuel ((key, value) :: entries)
        | '\x7d' :: rest =>
          moveTo rest
          return .object ((key, value) :: entries).reverse
        | _ => failure
      | _ => failure

end

/-- Whether a line begins with a mark of three characters that stands alone. -/
def startsWithMark (mark : Char) : List Char → Bool
  | a :: b :: c :: rest => a == mark && b == mark && c == mark && atGap rest
  | _ => false

/-- A document of a stream: its lines, and whether it began behind a mark on its first one. -/
structure Document where
  marked : Bool
  lines : List (List Char)

/-- A line that says nothing between documents. -/
def isIdle (line : List Char) : Bool := atLineEnd (line.dropWhile isGap)

/-- Cuts a stream into documents. The current one, if there is one, has its lines in reverse. -/
def documentsFrom (current : Option Document) : List (List Char) → List Document
  | [] => close current
  | line :: rest =>
    if startsWithMark '-' line then
      let first := ' ' :: ' ' :: ' ' :: line.drop 3
      close current ++ documentsFrom (some ⟨true, [first]⟩) rest
    else if startsWithMark '.' line then close current ++ documentsFrom none rest
    else
      match current with
      | some d => documentsFrom (some { d with lines := line :: d.lines }) rest
      | none =>
        if isIdle line || line.head? == some '%' then documentsFrom none rest
        else documentsFrom (some ⟨false, [line]⟩) rest
where
  /-- A document that has come to its end. -/
  close (current : Option Document) : List Document :=
    (current.map fun d => { d with lines := d.lines.reverse }).toList

/-- Whether a character may stand in a YAML text. -/
def isAllowed (c : Char) : Bool :=
  c == '\t' || c == '\n' || c == '\r' || (' ' ≤ c && c ≤ '~') || c == '\u0085'
    || ('\u00a0' ≤ c && c ≤ '\ud7ff') || ('\ue000' ≤ c && c ≤ '\ufffd' && c != '\ufeff')
    || '\uffff' < c

/-- Reads the only node of a document. -/
def readDocument (document : Document) : Option Json := do
  let text := ['\n'].intercalate document.lines
  let reader : Reader Json := do
    skipGaps
    let onFirstLine := document.marked && !atLineEnd (← getRest)
    let fuel := 4 * text.length + 4
    let value ← if onFirstLine then readBlock fuel none false true else readBelow fuel none true
    skipLayout false
    if (← getRest).isEmpty then return value else failure
  (reader.run ⟨text, 0, []⟩).map (·.1)

/-- The document that a text holds, if it holds just one. -/
def ofText? (text : String) : Option Json :=
  let cs := text.toList
  let cs := if cs.head? == some '\ufeff' then cs.drop 1 else cs
  if cs.all isAllowed then
    match documentsFrom none (linesOf (Text.unifyBreaks cs)) with
    | [document] => readDocument document
    | _ => none
  else none

end DocTree.Yaml
