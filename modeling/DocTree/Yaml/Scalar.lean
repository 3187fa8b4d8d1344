import DocTree.Json.Reader

/-! What the scalars of a YAML document stand for, by the core schema. -/
namespace DocTree.Yaml

def nullWords : List String := ["", "~", "null", "Null", "NULL"]

def trueWords : List String := ["true", "True", "TRUE"]

def falseWords : List String := ["false", "False", "FALSE"]

def specialFloats : List String :=
  [".inf", ".Inf", ".INF", "+.inf", "+.Inf", "+.INF", "-.inf", "-.Inf", "-.INF", ".nan", ".NaN",
    ".NAN", "+.nan", "+.NaN", "+.NAN"]

/-- The text without a sign, and whether it had a minus. -/
def splitSign : List Char → Bool × List Char
  | '-' :: rest => (true, rest)
  | '+' :: rest => (false, rest)
  | rest => (false, rest)

/-- The number that digits in the given base write, if all of them are digits. -/
def digits? (base : Nat) (cs : List Char) : Option Nat :=
  if cs.isEmpty then none
  else cs.foldlM (fun n c => ((Json.hexValue? c).filter (· < base)).map (base * n + ·)) 0

/-- Several digits of which the first is a zero are no number. -/
def hasLeadingZero (cs : List Char) : Bool :=
  match cs with
  | '0' :: d :: rest => (d :: rest).all Char.isDigit
  | _ => false

/-- The integer that a plain scalar writes, in base ten, sixteen, eight or two. -/
def integer? (cs : List Char) : Option Int :=
  let (negative, unsigned) := splitSign cs
  let value : Option Nat :=
    match unsigned with
    | '0' :: 'x' :: rest => digits? 16 rest
    | '0' :: 'o' :: rest => digits? 8 rest
    | '0' :: 'b' :: rest => digits? 2 rest
    | rest => if hasLeadingZero rest then none else digits? 10 rest
  value.map fun n => if negative then -(n : Int) else n

/-- Whether a plain scalar writes a finite number with a point or an exponent. -/
def isFloat (cs : List Char) : Bool :=
  let (_, unsigned) := splitSign cs
  let whole := unsigned.takeWhile Char.isDigit
  let (places, rest) :=
    match unsigned.dropWhile Char.isDigit with
    | '.' :: rest => (rest.takeWhile Char.isDigit, rest.dropWhile Char.isDigit)
    | rest => ([], rest)
  if (whole ++ places).isEmpty || hasLeadingZero unsigned then false
  else
    match Json.readExponent rest with
    | some (exponent, []) => !Json.exceedsDouble (whole ++ places) (exponent.getD 0 - places.length)
    | _ => false

/-- What a plain scalar without a tag stands for. -/
def plainScalar (text : String) : Json :=
  if nullWords.contains text then .null
  else if trueWords.contains text then .bool true
  else if falseWords.contains text then .bool false
  else
    match integer? text.toList with
    | some n => .integer n
    | none =>
      if specialFloats.contains text || isFloat text.toList then .decimal text else .string text

/-- What a scalar stands for under its tag. The tag of a type asks for a scalar of that type,
and a tag of the document's own is refused. -/
def taggedScalar (tag text : String) : Option Json :=
  match tag, plainScalar text with
  | "!!null", .null => some .null
  | "!!bool", .bool b => some (.bool b)
  | "!!int", .integer n => some (.integer n)
  | "!!float", .integer n => some (.integer n)
  | "!!float", .decimal literal => some (.decimal literal)
  | "!!null", _ | "!!bool", _ | "!!int", _ | "!!float", _ => none
  | _, _ => if tag = "!" ∨ tag.startsWith "!!" then some (.string text) else none

end DocTree.Yaml
