import DocTree.Api.Model
import DocTree.Api.Reference
import DocTree.RenderError
import DocTree.Unicode.Blank
import DocTree.Unicode.Lowercase

/-! Anchors of names and sections. Where a name has several kinds, each kind has an anchor of
its own beside that of the name. -/
namespace DocTree

/-- The text in lower case without what an anchor cannot hold; a low line if nothing is
left. -/
def slug (text : String) : String :=
  let kept := (text.toList.filter isAnchorChar).flatMap Unicode.lowercase
  if kept.isEmpty then "_" else String.ofList kept

/-- The words of a text, without the white space between them. -/
def words (text : String) : List (List Char) :=
  (Text.pieces Unicode.isBlank text.toList).filter fun word => !word.isEmpty

/-- The anchor of a section with the given title. -/
def sectionAnchor (title : String) : String :=
  slug ("-".intercalate ((words title).map String.ofList))

namespace Api

/-- The anchor of a name. -/
def nameAnchor (name : String) : String := slug name

/-- The anchor of one kind of a name. -/
def kindAnchor (name : String) (kind : Kind) : String := slug name ++ "-" ++ slug kind.label

/-- The kinds that each name is declared with. -/
structure Anchors where
  kinds : Dict (List Kind)

namespace Anchors

/-- The kinds among some items, each once and in the fixed order. -/
def kindsAmong (items : List Item) : List Kind :=
  Kind.all.filter fun kind => items.any (·.kind == kind)

/-- The first kind that occurs twice although it may occur only once. -/
def repeatedKind? (items : List Item) : Option Kind :=
  Kind.all.find? fun kind => kind.isUnique && items.countP (·.kind == kind) > 1

/-- Fails for the first name that has a kind twice that it may have only once. -/
def checkNames : List (String × List Item) → Except RenderError Unit
  | [] => .ok ()
  | (name, items) :: rest =>
    match repeatedKind? items with
    | some kind => .error (.duplicateDeclaration name kind)
    | none => checkNames rest

def ofIndex (index : Index) : Except RenderError Anchors := do
  checkNames index.byName.entries
  return ⟨index.byName.map kindsAmong⟩

def kindsOf (anchors : Anchors) (name : String) : List Kind :=
  (anchors.kinds.get? name).getD []

def hasSeveralKinds (anchors : Anchors) (name : String) : Bool :=
  (anchors.kindsOf name).length > 1

/-- The anchor at which an item is found: that of its kind if its name has several. -/
def anchor (anchors : Anchors) (name : String) (kind : Kind) : String :=
  if anchors.hasSeveralKinds name then kindAnchor name kind else nameAnchor name

/-- The links to the kinds of a name that has several. -/
def kindRefs (anchors : Anchors) (name : String) : List KindRef :=
  if anchors.hasSeveralKinds name then
    (anchors.kindsOf name).map fun kind => ⟨kind.label, kindAnchor name kind⟩
  else []

end Anchors
end Api
end DocTree
