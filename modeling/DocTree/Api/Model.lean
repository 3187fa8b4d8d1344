import DocTree.Api.Kind
import DocTree.Dict
import DocTree.Node.Basic

/-! The declarations of a package: what they are called, where they stand, how they are
written, and the documentation that goes with them. -/
namespace DocTree.Api

/-- Where a declaration stands in the source repository. -/
structure Location where
  path : String
  line : UInt32
  deriving DecidableEq, Inhabited

namespace Location

/-- The file and the line as the destination of a link. -/
def target (location : Location) : String := s!"{location.path}#L{location.line}"

def display (location : Location) : String := s!"{location.path}:{location.line}"

end Location

inductive TokenKind where
  | content | reference
  deriving DecidableEq, Inhabited

/-- A piece of the text of a signature. -/
structure Token where
  kind : TokenKind
  text : String
  reference : Option String
  deriving DecidableEq, Inhabited

/-- What the token refers to, if it is a reference. -/
def Token.reference? (token : Token) : Option String :=
  match token.kind with
  | .reference => token.reference
  | .content => none

/-- A signature as it is written. -/
structure Excerpt where
  tokens : List Token
  deriving DecidableEq, Inhabited

namespace Excerpt

def text (excerpt : Excerpt) : String := String.join (excerpt.tokens.map Token.text)

def hasReferences (excerpt : Excerpt) : Bool :=
  excerpt.tokens.any fun token => token.reference?.isSome

end Excerpt

/-- An exported declaration. Several may share one name. -/
structure Item where
  name : String
  kind : Kind
  reference : String
  overload : Option UInt32
  declarations : List Location
  excerpt : Excerpt
  doc : Option Node
  deriving Inhabited

/-- The declarations of a package, and the signatures of what it does not export under the
references to them. -/
structure Model where
  package : String
  items : List Item
  localDeclarations : Dict Excerpt
  deriving Inhabited

end DocTree.Api
