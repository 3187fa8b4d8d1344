/-! The inside of a paragraph: text, code spans, emphasis, links, images and HTML. Runs of
delimiters are kept until the whole text has been read and are matched then. -/
namespace DocTree.Preview

inductive Strength where
  | emphasis | strong | strikethrough
  deriving DecidableEq, Inhabited

inductive Inline where
  | text (s : String)
  | code (s : String)
  | html (s : String)
  | softBreak
  | hardBreak
  | styled (strength : Strength) (children : List Inline)
  | link (destination title : String) (children : List Inline)
  | image (destination title : String) (children : List Inline)
  deriving Inhabited

/-- A run of one delimiter. -/
structure Run where
  mark : Char
  /-- The delimiters that are left. -/
  count : Nat
  /-- The delimiters that stood there. -/
  length : Nat
  canOpen : Bool
  canClose : Bool

/-- A part of a text before delimiters are matched. -/
inductive Part where
  | inline (node : Inline)
  | run (run : Run)
  /-- A bracket that may open a link or an image. -/
  | bracket (isImage active : Bool)

/-! ## Matching delimiters -/

/-- A run that waits for its partner, and what has followed it, in reverse. -/
structure Opener where
  run : Run
  inside : List Inline

/-- What has been matched so far: the open runs, the innermost first, and what stands before
them, in reverse. -/
structure Matching where
  openers : List Opener
  outside : List Inline

def runText (run : Run) : Inline := .text (String.ofList (List.replicate run.count run.mark))

namespace Matching

def push (m : Matching) (node : Inline) : Matching :=
  match m.openers with
  | [] => { m with outside := node :: m.outside }
  | opener :: outer =>
    { m with openers := { opener with inside := node :: opener.inside } :: outer }

/-- Puts nodes behind the others; they are in reverse. -/
def pushAll (m : Matching) (nodes : List Inline) : Matching :=
  match m.openers with
  | [] => { m with outside := nodes ++ m.outside }
  | opener :: outer =>
    { m with openers := { opener with inside := nodes ++ opener.inside } :: outer }

/-- Whether two runs can be partners. -/
def isPartner (opening closing : Run) : Bool :=
  opening.mark == closing.mark
    && (closing.mark != '~' || opening.length == closing.length)
    && (!(opening.canClose || closing.canOpen)
      || (opening.length + closing.length) % 3 != 0 || closing.length % 3 == 0)

/-- Gives up the runs inside the innermost partner of a run. What they enclose goes into the
partner. -/
def findPartner (closing : Run) : List Opener → List Inline → Option (Opener × List Opener)
  | [], _ => none
  | opener :: outer, inner =>
    if isPartner opener.run closing then
      some ({ opener with inside := inner ++ opener.inside }, outer)
    else findPartner closing outer (inner ++ opener.inside ++ [runText opener.run])

/-- Encloses nodes in as many delimiters. -/
def enclose (mark : Char) : Nat → List Inline → List Inline
  | 0, nodes => nodes
  | 1, nodes => [.styled (if mark = '~' then .strikethrough else .emphasis) nodes]
  | n + 2, nodes =>
    enclose mark n [.styled (if mark = '~' then .strikethrough else .strong) nodes]

/-- Adds a run: it closes what it can, and the rest of it opens or is text. -/
def addRun (m : Matching) (run : Run) : Nat → Matching
  | 0 => m
  | fuel + 1 =>
    if run.count = 0 then m
    else
      match if run.canClose then findPartner run m.openers [] else none with
      | some (opener, outer) =>
        let used := min run.count opener.run.count
        let node := enclose run.mark used opener.inside.reverse
        let left := opener.run.count - used
        let before : Matching :=
          if left = 0 then { m with openers := outer }
          else { m with openers := ⟨{ opener.run with count := left }, []⟩ :: outer }
        addRun (before.pushAll node) { run with count := run.count - used } fuel
      | none =>
        if run.canOpen then { m with openers := ⟨run, []⟩ :: m.openers } else m.push (runText run)

def add (m : Matching) : Part → Matching
  | .inline node => m.push node
  | .run run => m.addRun run (run.count + 1)
  | .bracket isImage _ => m.push (.text (if isImage then "![" else "["))

/-- All that has been matched; the runs that are still open are text. -/
def finish (m : Matching) : List Inline :=
  ((m.openers.flatMap fun opener => opener.inside ++ [runText opener.run]) ++ m.outside).reverse

end Matching

/-- The nodes that parts of a text make. -/
def matchRuns (parts : List Part) : List Inline := (parts.foldl Matching.add ⟨[], []⟩).finish

end DocTree.Preview
