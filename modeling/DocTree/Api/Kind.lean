/-! The kinds of declaration. -/
namespace DocTree.Api

inductive Kind where
  | classDecl | enumDecl | functionDecl | interfaceDecl | namespaceDecl | typeAlias | variableDecl
  deriving DecidableEq, Inhabited

namespace Kind

/-- All kinds, in the order in which they appear on a page. -/
def all : List Kind :=
  [classDecl, enumDecl, functionDecl, interfaceDecl, namespaceDecl, typeAlias, variableDecl]

theorem mem_all (kind : Kind) : kind ∈ all := by cases kind <;> decide

/-- The name of a kind in a model. -/
def name : Kind → String
  | classDecl => "Class"
  | enumDecl => "Enum"
  | functionDecl => "Function"
  | interfaceDecl => "Interface"
  | namespaceDecl => "Namespace"
  | typeAlias => "TypeAlias"
  | variableDecl => "Variable"

/-- The heading of a kind. -/
def label : Kind → String
  | typeAlias => "Type Alias"
  | kind => kind.name

def ofName? (name : String) : Option Kind := all.find? fun kind => kind.name == name

theorem ofName?_name (kind : Kind) : ofName? kind.name = some kind := by
  cases kind <;> decide

/-- Whether a name may have only one declaration of the kind. -/
def isUnique : Kind → Bool
  | interfaceDecl | typeAlias | variableDecl => true
  | _ => false

end Kind
end DocTree.Api
