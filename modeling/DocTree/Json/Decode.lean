import DocTree.Json.Basic
import DocTree.Dict

/-! Reading records, variants and dictionaries from JSON documents. -/
namespace DocTree.Json

def text? : Json → Option String
  | .string s => some s
  | _ => none

def flag? : Json → Option Bool
  | .bool b => some b
  | _ => none

/-- An integer that is not negative and below `bound`. -/
def nat? (bound : Nat) : Json → Option Nat
  | .integer n => if 0 ≤ n ∧ n < bound then some n.toNat else none
  | _ => none

def list? {α : Type} (item : Json → Option α) : Json → Option (List α)
  | .array items => items.mapM item
  | _ => none

/-- A dictionary, in which the last value of a repeated key counts. -/
def dict? {α : Type} (value : Json → Option α) : Json → Option (Dict α)
  | .object members => (members.mapM fun m => (value m.2).map (m.1, ·)).map Dict.ofList
  | _ => none

/-- The members of a record with the given field names. None of its fields may stand twice;
other members may. A record may also be given as an array of its fields in order. -/
def fields? (names : List String) : Json → Option (List (String × Json))
  | .object members =>
    if names.all fun name => members.countP (·.1 == name) ≤ 1 then some members else none
  | .array items => if items.length ≤ names.length then some (names.zip items) else none
  | _ => none

/-- A field that has to be there. -/
def required {α : Type} (members : List (String × Json)) (name : String)
    (value : Json → Option α) : Option α :=
  (members.lookup name).bind value

/-- A field that has a default. -/
def defaulted {α : Type} (members : List (String × Json)) (name : String) (default : α)
    (value : Json → Option α) : Option α :=
  match members.lookup name with
  | none => some default
  | some v => value v

/-- A field that may be missing or null. -/
def optional {α : Type} (members : List (String × Json)) (name : String)
    (value : Json → Option α) : Option (Option α) :=
  match members.lookup name with
  | none | some .null => some none
  | some v => (value v).map some

/-- The value of the member that selects a variant, and the rest of the record. In an array
it comes first. -/
def tagged? (tag : String) : Json → Option (Json × Json)
  | .object members => do
    let value ← members.lookup tag
    if members.countP (·.1 == tag) = 1 then
      some (value, .object (members.filter (·.1 != tag)))
    else none
  | .array (value :: rest) => some (value, .array rest)
  | _ => none

/-- The variant that a tag selects by its name or, where `byPosition` allows it, by its
position. -/
def variant? (names : List String) (byPosition : Bool) : Json → Option String
  | .string s => if names.contains s then some s else none
  | .integer (.ofNat i) => if byPosition then names[i]? else none
  | _ => none

/-- A variant without fields: its name, or an object that has null under the name. -/
def bareVariant? (names : List String) : Json → Option String
  | .string s => if names.contains s then some s else none
  | .object [(s, .null)] => if names.contains s then some s else none
  | _ => none

end DocTree.Json
