import DocTree.Text.Split

/-! Paths as they are written, with slashes between their pieces. -/
namespace DocTree.Disk

/-- The pieces of a path, empty ones and dots included. -/
def pathPieces (path : String) : List String := Text.splitAt '/' path

/-- A path below another one; an absolute path stands by itself. -/
def joinPath (base path : String) : String :=
  if path.toList.head? == some '/' then path
  else if base.toList.getLast? == some '/' then base ++ path
  else base ++ "/" ++ path

/-- Pieces of a path that lead nowhere. -/
def isIdlePiece (piece : String) : Bool := piece == "" || piece == "."

/-- The pieces in reverse without idle ones at the end of the path. The first piece stays. -/
def dropIdleEnd : List String → List String
  | [] => []
  | [first] => [first]
  | piece :: rest => if isIdlePiece piece then dropIdleEnd rest else piece :: rest

/-- The path without its last piece. -/
def parentPath (path : String) : String :=
  match dropIdleEnd (dropIdleEnd (pathPieces path).reverse).tail with
  | [""] => "/"
  | pieces => "/".intercalate pieces.reverse

/-- The paths whose pieces in reverse are the given ones and what is left when some are taken
off. -/
def ancestorsFrom : List String → List String
  | [] => []
  | piece :: outer => "/".intercalate (piece :: outer).reverse :: ancestorsFrom outer

/-- A directory and those around it, the innermost first. -/
def ancestors (directory : String) : List String := ancestorsFrom (pathPieces directory).reverse

/-- The name of the file that a path leads to, unless it leads up. -/
def pathFile? (path : String) : Option String :=
  match ((pathPieces path).reverse.dropWhile isIdlePiece).head? with
  | some name => if name = ".." then none else some name
  | none => none

/-- What stands behind the last dot of a file's name. A dot in front of the name does not
count. -/
def extension? (name : String) : Option String :=
  match (Text.splitAt '.' name).reverse with
  | last :: before :: more => if more.isEmpty && before == "" then none else some last
  | _ => none

end DocTree.Disk
