import DocTree.Api.Model
import DocTree.Text.Split

/-! What the references in a signature stand for. A reference names a package and, behind a
mark, a path within it: a path that begins with a tilde leads to something the package does not
export. A reference without a package names a global. -/
namespace DocTree.Api

/-- Whether a reference is one to a function without the number of an overload. -/
def isFunction (reference : String) : Bool := ":function".toList.isSuffixOf reference.toList

/-- Completes the reference to a function by the number of its overload, the first one if none
is given. -/
def normalReference (reference : String) (overload : Option UInt32) : String :=
  if isFunction reference then s!"{reference}({overload.getD 1})" else reference

/-- The reference of an item with the number of its overload. -/
def Item.normalReference (item : Item) : String := Api.normalReference item.reference item.overload

/-- The items of a model by reference and by name. -/
structure Index where
  byReference : Dict Item
  byName : Dict (List Item)

namespace Index

/-- Of items with the same reference the last one counts; items with the same name stay in
order. -/
def ofModel (model : Model) : Index where
  byReference := Dict.ofList (model.items.map fun item => (item.normalReference, item))
  byName := model.items.foldl
    (fun d item => d.alter item.name fun items => items.getD [] ++ [item]) ∅

def find? (index : Index) (reference : String) : Option Item := index.byReference.get? reference

/-- The items of a name, in the order of the model. -/
def named (index : Index) (name : String) : List Item := (index.byName.get? name).getD []

/-- The names in ascending order. -/
def names (index : Index) : List String := index.byName.keys

end Index

/-- What a token of a signature stands for. -/
inductive Resolution where
  /-- Plain text, or a reference to something that has no page. -/
  | plain
  /-- An item with a page of its own. -/
  | exported (item : Item)
  /-- Something that is not exported, whose own signature takes its place. -/
  | expansion (tokens : List Token)
  deriving Inhabited

/-- Why a reference comes to nothing. -/
inductive ResolveError where
  | unresolved (reference : String)
  /-- Not exported, and without a known signature. -/
  | unknownLocal (reference : String)
  | unrouted (name : String)
  | expansionLimit (depth : Nat)
  deriving DecidableEq, Inhabited

namespace ResolveError

def message : ResolveError → String
  | unresolved reference => s!"Unable to resolve reference '{reference}'"
  | unknownLocal reference => s!"Local reference '{reference}' has no known declaration"
  | unrouted name => s!"Export '{name}' is not routed to any page"
  | expansionLimit depth => s!"Local reference expansion exceeded depth {depth}"

def code : ResolveError → String
  | unresolved _ => "R001"
  | unknownLocal _ => "R002"
  | unrouted _ => "R003"
  | expansionLimit _ => "R004"

end ResolveError

/-- The name at the start of a path, up to the first mark of what is inside it, and the rest. -/
def splitName (path : String) : String × String :=
  Text.breakAt (fun c => c == ':' || c == '.' || c == '#') path

/-- What references are looked up in. The dictionary of globals gives the name under which a
declaration that hides a global is exported. -/
structure Scope where
  model : Model
  index : Index
  renamedGlobals : Dict String

namespace Scope

def ofModel (model : Model) (renamedGlobals : Dict String) : Scope :=
  ⟨model, Index.ofModel model, renamedGlobals⟩

/-- The reference under which something that hides a global is exported. -/
def renamed? (scope : Scope) (package path : String) : Option String :=
  let (name, rest) := splitName path
  (scope.renamedGlobals.get? name).map fun renamed => package ++ "!" ++ renamed ++ rest

def findExported (scope : Scope) (reference : String) : Except ResolveError Resolution :=
  let reference := normalReference reference none
  match scope.index.find? reference with
  | some item => .ok (.exported item)
  | none => .error (.unresolved reference)

def findLocal (scope : Scope) (reference : String) : Except ResolveError Resolution :=
  match scope.model.localDeclarations.get? reference with
  | some excerpt => .ok (.expansion excerpt.tokens)
  | none => .error (.unknownLocal reference)

/-- What a reference stands for. -/
def resolveReference (scope : Scope) (reference : String) : Except ResolveError Resolution :=
  match Text.cutAt? '!' reference with
  | none => .error (.unresolved reference)
  | some (package, path) =>
    if package = "" then .ok .plain
    else
      match path.toList with
      | '~' :: localPath =>
        match scope.renamed? package (String.ofList localPath) with
        | some renamed => scope.findExported renamed
        | none => scope.findLocal reference
      | _ => scope.findExported reference

/-- What a token stands for. -/
def resolve (scope : Scope) (token : Token) : Except ResolveError Resolution :=
  match token.reference? with
  | none => .ok .plain
  | some reference => scope.resolveReference reference

end Scope
end DocTree.Api
