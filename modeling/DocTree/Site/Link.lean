import DocTree.Text.Split

/-! Where a link on one page of a site leads: page paths start at the root of the site and are
made relative to the page that holds the link. -/
namespace DocTree.Site
open DocTree.Text

/-- Adds a segment to a path whose segments are in reverse: nothing for an empty segment or a
dot, and two dots take a segment back where there is one. -/
def pushSegment (reversed : List String) (segment : String) : List String :=
  if segment = "" ∨ segment = "." then reversed
  else
    match reversed with
    | last :: rest => if segment = ".." ∧ last ≠ ".." then rest else segment :: last :: rest
    | [] => [segment]

/-- The segments of a path, with dots resolved as far as they can be. -/
def segments (path : String) : List String :=
  ((splitAt '/' path).foldl pushSegment []).reverse

/-- The last segment of a path as it stands. -/
def fileName (path : String) : String := (splitAt '/' path).getLastD path

/-- What is left of two paths behind the segments in which they agree. -/
def withoutShared : List String → List String → List String × List String
  | a :: as, b :: bs => if a = b then withoutShared as bs else (a :: as, b :: bs)
  | as, bs => (as, bs)

/-- The page path and the fragment of a destination. -/
def splitFragment (destination : String) : String × Option String :=
  match cutAt? '#' destination with
  | some (path, fragment) => (path, some fragment)
  | none => (destination, none)

/-- A fragment with its mark, or nothing. -/
def fragmentText : Option String → String
  | some fragment => "#" ++ fragment
  | none => ""

/-- The address of a page relative to the directory of another page. A link to the same page is
its fragment alone, or the name of the page. -/
def relativePath (fromPage toPage : String) : String :=
  let (target, fragment) := splitFragment toPage
  if target = "" ∨ segments target = segments fromPage then
    match fragment with
    | some fragment => "#" ++ fragment
    | none => fileName fromPage
  else
    let (up, down) := withoutShared (segments fromPage).dropLast (segments target)
    "/".intercalate (up.map (fun _ => "..") ++ down) ++ fragmentText fragment

/-- The text after any number of leading repetitions of `./`. -/
def dropDotSlashes : List Char → List Char
  | '.' :: '/' :: rest => dropDotSlashes rest
  | cs => cs

/-- A file of the source repository under the address of the repository, with one slash
between them. -/
def joinUrl (base path : String) : String :=
  let base := (base.toList.reverse.dropWhile (· == '/')).reverse
  let path := (dropDotSlashes path.toList).dropWhile (· == '/')
  String.ofList (base ++ '/' :: path)

end DocTree.Site
