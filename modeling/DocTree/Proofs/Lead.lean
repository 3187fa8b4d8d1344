import DocTree.Proofs.Indentation

/-! What a tree shows first. An abstract writer follows the rendering of a tree up to the first thing
that is neither white space nor the indentation, and tells on which line that stands. Behind the
marker of an unordered list it also tells whether the line of the marker ends up as a rule. -/
namespace DocTree.Text

/-- The line of the first character that is neither white space nor part of the indentation, counted
from `line`. The first `width` characters of a line are its indentation, and `margin` of them are
still to come on the line that the text goes on with. -/
def contentLine (width : Nat) : Nat → Nat → List Char → Option Nat
  | _, _, [] => none
  | margin, line, c :: rest =>
    if c = '\n' then contentLine width width (line + 1) rest
    else if 0 < margin then contentLine width (margin - 1) line rest
    else if Unicode.isBlank c then contentLine width 0 line rest
    else some line

/-- A line of three or more dashes with nothing but spaces between them. -/
def IsRule (line : List Char) : Prop := 3 ≤ line.count '-' ∧ ∀ c ∈ line, c = '-' ∨ c = ' '

-- Left to itself, the search may take the instance that goes through all characters there are.
instance (line : List Char) : Decidable (IsRule line) :=
  @instDecidableAnd _ _ (Nat.decLe _ _) (List.decidableBAll _ line)

section ContentLine
variable {width margin line : Nat} {cs rest : List Char} {c : Char}

theorem contentLine_break : contentLine width margin line ('\n' :: rest) =
    contentLine width width (line + 1) rest := by simp [contentLine]

theorem contentLine_blank (hc : c ≠ '\n') (hblank : Unicode.isBlank c) :
    contentLine width 0 line (c :: rest) = contentLine width 0 line rest := by
  simp [contentLine, hc, hblank]

theorem contentLine_seen (hblank : ¬ Unicode.isBlank c) :
    contentLine width 0 line (c :: rest) = some line := by
  have hc : c ≠ '\n' := by
    rintro rfl
    exact hblank (by decide)
  simp [contentLine, hc, hblank]

/-- The indentation is passed over. -/
theorem contentLine_margin (hcs : '\n' ∉ cs) (h : cs.length ≤ margin) :
    contentLine width margin line (cs ++ rest) =
      contentLine width (margin - cs.length) line rest := by
  induction cs generalizing margin with
  | nil => rfl
  | cons c cs ih =>
    rw [List.mem_cons, not_or] at hcs
    rw [List.length_cons] at h
    rw [List.cons_append, contentLine, if_neg (Ne.symm hcs.1), if_pos (by omega), ih hcs.2 (by omega),
      List.length_cons]
    congr 1
    omega

theorem contentLine_indent (hcs : '\n' ∉ cs) :
    contentLine cs.length cs.length line (cs ++ rest) = contentLine cs.length 0 line rest := by
  rw [contentLine_margin hcs le_rfl, Nat.sub_self]

end ContentLine

end DocTree.Text

namespace DocTree.Markdown
open Text Render Layout

/-- Where a writer stands that has shown nothing so far. -/
structure Place where
  /-- The lines that have ended. -/
  line : Nat := 0
  /-- The line has been begun. -/
  begun : Bool
  /-- At the start of a line, whether it stands behind one without content. -/
  afterBlank : Bool
  /-- At the start of a line, whether the mark of a quote comes before anything else. -/
  quoted : Bool := false
  /-- The block that is being written has just begun. -/
  fresh : Bool
  /-- The line is the marker of an unordered list with spaces behind it. -/
  plain : Bool := false
  deriving DecidableEq

/-- How far a writer has come. -/
inductive Lead where
  /-- Nothing has been shown. -/
  | quiet (place : Place)
  /-- The line of the marker goes on with dashes and spaces only. -/
  | dashed (dashes : Nat)
  /-- Something has been shown on a line, and the line of the marker is a rule or not. -/
  | shown (line : Nat) (isRule : Bool)
  deriving DecidableEq

namespace Lead

def put : Lead → Char → Lead
  | quiet place, c =>
    if place.quoted then shown place.line false
    else if c = '\n' then
      quiet { place with
        line := place.line + 1, begun := false, afterBlank := !place.begun, plain := false }
    else if Unicode.isBlank c then
      quiet { place with begun := true, plain := place.plain && c == ' ' }
    else if place.plain && c == '-' then dashed 1
    else shown place.line false
  | dashed dashes, c =>
    if c = '\n' then shown 0 (2 ≤ dashes)
    else if c = '-' then dashed (dashes + 1)
    else if c = ' ' then dashed dashes
    else shown 0 false
  | shown line isRule, _ => shown line isRule

/-- Writes something that begins with neither white space nor a dash. -/
def mark (lead : Lead) : Lead := lead.put '*'

def begun : Lead → Bool
  | quiet place => place.begun
  | dashed _ => true
  | shown _ _ => false

def afterBlank : Lead → Bool
  | quiet place => place.afterBlank
  | _ => false

def isQuoted : Lead → Bool
  | quiet place => place.quoted
  | _ => false

def fresh : Lead → Bool
  | quiet place => place.fresh
  | _ => false

def closed (lead : Lead) : Lead := if lead.begun then lead.put '\n' else lead

def skipped (lead : Lead) : Lead :=
  if lead.closed.afterBlank then lead.closed else lead.closed.put '\n'

def block (lead : Lead) : Lead :=
  if lead.fresh then lead
  else
    match lead.skipped with
    | quiet place => quiet { place with fresh := true }
    | other => other

/-- The modes in which a block of its own is written. -/
def blockModes (lead : Lead) (modes : Modes) : Modes :=
  if lead.fresh then modes else modes.set .htmlBlock false

/-- At the start of a quote. On a line that is begun the mark of the quote is written at once. -/
def inQuote : Lead → Lead
  | quiet place =>
    if place.begun then (quiet place).mark else quiet { place with quoted := true, fresh := true }
  | other => other.mark

/-- Behind a quote, inside another one or not. -/
def unquoted (quoted : Bool) : Lead → Lead
  | quiet place => quiet { place with quoted := quoted }
  | other => other

/-- A character of a text, in the form that the place asks for. -/
def putEscaped (ctx : EscapeContext) (lead : Lead) (c : Char) : Lead :=
  if c = '\n' then ctx.lineBreak.foldl put lead else lead.put c

/-- The line of the first thing shown. -/
def line? : Lead → Option Nat
  | quiet _ => none
  | dashed _ => some 0
  | shown line _ => some line

/-- The line of the marker is a rule. -/
def isRule : Lead → Bool
  | shown _ isRule => isRule
  | _ => false

/-- The start of a list. -/
def atList (modes : Modes) (style : ListStyle) (lead : Lead) : Lead :=
  if modes.listItem && (interruptsParagraph style || lead.fresh) then lead.closed else lead.skipped

end Lead

variable (o : Options)

mutual

/-- How far a writer has come behind a tree. -/
def leadOf : Modes → Node → Lead → Lead
  | modes, .text s, lead =>
    s.toList.foldl (.putEscaped ({ modes := modes } : Output).escapeContext) lead
  | _, .rule, lead => (((lead.block.put '-').put '-').put '-').closed
  | _, .comment _ persist, lead => if !persist && o.stripComments then lead else lead.mark
  | _, .image _ _ _, lead | _, .notice, lead | _, .page _ _, lead => lead.mark
  | _, .code _ _, lead | _, .richCode _ _, lead | _, .heading _ _ _, lead
  | _, .collapsible _ _, lead => lead.block.mark
  | modes, .group children, lead => leadOver modes false children lead
  | modes, .quote children, lead =>
    ((leadOver (lead.blockModes modes) false children lead.block.inQuote).unquoted
      lead.isQuoted).closed
  | modes, .element tag attributes children, lead =>
    match Html.TagClass.ofTag tag with
    | .void | .inline => lead.mark
    | .block =>
      if attributes.isEmpty && Html.lowerAscii tag == "p" then
        leadOver (lead.blockModes modes) false children lead.block
      else if modes.htmlBlock then lead.mark
      else lead.block.mark
  | modes, .paragraph children, lead => leadOver (lead.blockModes modes) false children lead.block
  | modes, .emphasis _ children, lead =>
    if children.isEmpty || modes.markdownCode then leadOver modes false children lead
    else lead.mark
  | _, .codeSpan children, lead => if (Node.textsContent children).isEmpty then lead else lead.mark
  | modes, .link _ _ _ children, lead =>
    if modes.markdownCode then leadOver modes false children lead else lead.mark
  | modes, .list style items, lead =>
    if items.isEmpty then lead.atList modes style else (lead.atList modes style).mark
  | _, .table _ _, lead => lead.skipped.mark

/-- How far a writer has come behind nodes, with a separator between two lists. -/
def leadOver : Modes → Bool → List Node → Lead → Lead
  | _, _, [], lead => lead
  | modes, afterList, node :: rest, lead =>
    leadOver modes node.isList rest
      (leadOf modes node (if afterList && node.isList then lead.skipped.mark else lead))

end

end DocTree.Markdown
