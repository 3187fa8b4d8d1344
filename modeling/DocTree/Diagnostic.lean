/-! Remarks on a tree or a site that do not stop the work. -/
namespace DocTree

inductive Severity where
  | error | warning | info
  deriving DecidableEq, Inhabited

namespace Severity

/-- The word that stands for a severity. -/
def word : Severity → String
  | error => "error"
  | warning => "warning"
  | info => "info"

end Severity

/-- A remark, with a code that stays the same from version to version. -/
structure Diagnostic where
  severity : Severity
  code : String
  message : String
  deriving DecidableEq, Inhabited

end DocTree
