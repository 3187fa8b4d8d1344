import DocTree.Json.Basic

/-! Writing JSON text without white space. -/
namespace DocTree.Json

def hexDigit (n : Nat) : Char := Nat.digitChar (n % 16)

/-- How a character stands in a string. -/
def escapedChar (c : Char) : List Char :=
  match c with
  | '"' => ['\\', '"']
  | '\\' => ['\\', '\\']
  | '\n' => ['\\', 'n']
  | '\r' => ['\\', 'r']
  | '\t' => ['\\', 't']
  | '\x08' => ['\\', 'b']
  | '\x0c' => ['\\', 'f']
  | _ =>
    if c.toNat < 0x20 then ['\\', 'u', '0', '0', hexDigit (c.toNat / 16), hexDigit c.toNat]
    else [c]

def quotedText (s : String) : String :=
  String.ofList ('"' :: s.toList.flatMap escapedChar ++ ['"'])

mutual

/-- The text of a document. -/
def toText : Json → String
  | .null => "null"
  | .bool true => "true"
  | .bool false => "false"
  | .integer n => toString n
  | .decimal literal => literal
  | .string s => quotedText s
  | .array [] => "[]"
  | .array (item :: rest) => "[" ++ item.toText ++ itemsText rest ++ "]"
  | .object [] => "\x7b\x7d"
  | .object ((key, value) :: rest) =>
    "\x7b" ++ quotedText key ++ ":" ++ value.toText ++ membersText rest ++ "\x7d"

def itemsText : List Json → String
  | [] => ""
  | item :: rest => "," ++ item.toText ++ itemsText rest

def membersText : List (String × Json) → String
  | [] => ""
  | (key, value) :: rest => "," ++ quotedText key ++ ":" ++ value.toText ++ membersText rest

end

end DocTree.Json
