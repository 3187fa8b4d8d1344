import DocTree.Api.Kind
import DocTree.Text.Quoted

/-! Why a page or a site cannot be rendered. -/
namespace DocTree

inductive RenderError where
  /-- A line break inside a text where a line may not end. -/
  | newlineInSingleLine (text : String)
  /-- A new paragraph where a line may not end. -/
  | paragraphBreakInSingleLine
  | emptyTable
  | invalidHeadingLevel (level : UInt8)
  | invalidAnchor (id : String)
  /-- Two declarations of one name and of a kind that a name may have only once. -/
  | duplicateDeclaration (name : String) (kind : Api.Kind)
  /-- An export without items on the given page. -/
  | missingExport (name page : String)
  /-- An item without a declaration. -/
  | missingLocation (kind : Api.Kind) (name : String)
  deriving DecidableEq, Inhabited

namespace RenderError

def message : RenderError → String
  | newlineInSingleLine text =>
    s!"Attempted to write a newline while constrained to a single line: {Text.quoted text}"
  | paragraphBreakInSingleLine =>
    "Attempted to start a paragraph while constrained to a single line"
  | emptyTable => "Table has no columns"
  | invalidHeadingLevel level => s!"Heading level {level} is outside 1..=6"
  | invalidAnchor id => s!"Invalid anchor fragment '{id}'"
  | duplicateDeclaration name kind =>
    s!"Duplicate {kind.label} declarations for export '{name}'"
  | missingExport name page =>
    s!"Missing metadata: export '{name}' on page '{page}' is not in the API model"
  | missingLocation kind name =>
    s!"Missing metadata: {kind.label} '{name}' has no source location"

end RenderError
end DocTree
