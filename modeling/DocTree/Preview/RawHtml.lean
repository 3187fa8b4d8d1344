/-! Raw HTML and addresses between angles, as they stand inside a line. -/
namespace DocTree.Preview

def isHtmlSpace (c : Char) : Bool := c == ' ' || c == '\t' || c == '\n'

def skipHtmlSpace (cs : List Char) : List Char := cs.dropWhile isHtmlSpace

/-- The text behind the first occurrence of a mark. -/
def behind? (mark : List Char) : List Char → Option (List Char)
  | [] => if mark.isEmpty then some [] else none
  | c :: rest =>
    if mark.isPrefixOf (c :: rest) then some ((c :: rest).drop mark.length) else behind? mark rest

def isTagChar (c : Char) : Bool := c.isAlphanum || c == '-'

def isAttributeStart (c : Char) : Bool := c.isAlpha || c == '_' || c == ':'

def isAttributeChar (c : Char) : Bool :=
  c.isAlphanum || c == '_' || c == ':' || c == '.' || c == '-'

def isUnquoted (c : Char) : Bool :=
  !isHtmlSpace c && ['"', '\x27', '=', '<', '>', '\x60'].all (· != c)

/-- The text behind an attribute's value. -/
def skipValue : List Char → Option (List Char)
  | '"' :: rest => behind? ['"'] rest
  | '\x27' :: rest => behind? ['\x27'] rest
  | cs => if (cs.takeWhile isUnquoted).isEmpty then none else some (cs.dropWhile isUnquoted)

/-- The text behind the attributes of a tag and its end. -/
def skipAttributes : Nat → List Char → Option (List Char)
  | 0, _ => none
  | fuel + 1, cs =>
    match skipHtmlSpace cs with
    | '>' :: rest => some rest
    | '/' :: '>' :: rest => some rest
    | c :: rest =>
      if isAttributeStart c && (cs.head?.any isHtmlSpace) then
        let behindName := rest.dropWhile isAttributeChar
        match skipHtmlSpace behindName with
        | '=' :: value => (skipValue (skipHtmlSpace value)).bind (skipAttributes fuel)
        | _ => skipAttributes fuel behindName
      else none
    | [] => none

/-- The text behind a comment, from behind its opening mark. -/
def skipComment : List Char → Option (List Char)
  | '>' :: rest => some rest
  | '-' :: '>' :: rest => some rest
  | cs => behind? ['-', '-', '>'] cs

/-- The text behind an opening tag, from behind its angle. -/
def skipOpenTag (cs : List Char) : Option (List Char) :=
  match cs with
  | c :: rest =>
    if c.isAlpha then skipAttributes (cs.length + 1) (rest.dropWhile isTagChar) else none
  | [] => none

/-- The text behind a closing tag, from behind its angle and slash. -/
def skipCloseTag (cs : List Char) : Option (List Char) :=
  match cs with
  | c :: rest =>
    if c.isAlpha then
      match skipHtmlSpace (rest.dropWhile isTagChar) with
      | '>' :: rest => some rest
      | _ => none
    else none
  | [] => none

/-- The text behind a piece of raw HTML, from behind its angle. -/
def skipHtml (cs : List Char) : Option (List Char) :=
  match cs with
  | '/' :: rest => skipCloseTag rest
  | '!' :: '-' :: '-' :: rest => skipComment rest
  | '!' :: rest =>
    match behind? "[CDATA[".toList (rest.take 7) with
    | some _ => behind? [']', ']', '>'] (rest.drop 7)
    | none => if rest.head?.any Char.isAlpha then behind? ['>'] rest else none
  | '?' :: rest => behind? ['?', '>'] rest
  | _ => skipOpenTag cs

def isSchemeChar (c : Char) : Bool := c.isAlphanum || c == '+' || c == '.' || c == '-'

/-- Reads an address between angles, from behind the first one. -/
def readAddress (cs : List Char) : Option (String × List Char) :=
  let scheme := cs.takeWhile isSchemeChar
  match cs.drop scheme.length with
  | ':' :: rest =>
    let body := rest.takeWhile fun c => ' ' < c && c != '<' && c != '>' && c != '\x7f'
    match rest.drop body.length with
    | '>' :: rest =>
      if (scheme.head?.any Char.isAlpha) && 2 ≤ scheme.length && scheme.length ≤ 32 then
        some (String.ofList (scheme ++ ':' :: body), rest)
      else none
    | _ => none
  | _ => none

def isMailChar (c : Char) : Bool :=
  c.isAlphanum || ".!#$%&'*+/=?^_\x60\x7b|\x7d~-".toList.contains c

/-- Reads a mail address between angles, from behind the first one. -/
def readMail (cs : List Char) : Option (String × List Char) :=
  let user := cs.takeWhile isMailChar
  match cs.drop user.length with
  | '@' :: rest =>
    let host := rest.takeWhile fun c => c.isAlphanum || c == '.' || c == '-'
    match rest.drop host.length with
    | '>' :: rest =>
      if user.isEmpty || host.isEmpty then none
      else some (String.ofList (user ++ '@' :: host), rest)
    | _ => none
  | _ => none

end DocTree.Preview
