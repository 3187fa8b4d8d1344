import DocTree.Command.Build
import DocTree.Node.Check
import DocTree.Node.Yaml
import DocTree.Preview.Page

/-! Running a command: what it prints, what it changes and the code with which it ends. -/
namespace DocTree.Command
open DocTree.Disk

variable {m : Type → Type} [Monad m] [Session m]

/-- Why no tree can be had from a file. -/
inductive TreeFault where
  | unreadable (fault : Fault)
  | invalidJson
  | invalidYaml
  deriving DecidableEq, Inhabited

namespace TreeFault

def reason : TreeFault → String
  | unreadable .notFound => "No such file or directory (os error 2)"
  | unreadable .notDirectory => "Not a directory (os error 20)"
  | unreadable .isDirectory => "Is a directory (os error 21)"
  | unreadable .notText => "stream did not contain valid UTF-8"
  | unreadable .denied => "Permission denied (os error 13)"
  | invalidJson => "Invalid JSON node tree:"
  | invalidYaml => "Invalid YAML node tree:"

def failure (file : String) : TreeFault → Failure
  | unreadable _ => .unreadableTree file
  | invalidJson | invalidYaml => .unparsableTree file

/-- The remark that stands for a file without a tree. -/
def remark (file : String) (fault : TreeFault) : Diagnostic :=
  ⟨.error, "P001", s!"{(fault.failure file).message}: {fault.reason}"⟩

end TreeFault

/-- Whether a file holds YAML by its name. -/
def isYaml (file : String) : Bool :=
  match (pathFile? file).bind extension? with
  | some extension => extension == "yaml" || extension == "yml"
  | none => false

/-- Reads the tree in a file. -/
def loadTree (file : String) : m (Except TreeFault Node) := do
  match ← Session.readFile file with
  | .error fault => return .error (.unreadable fault)
  | .ok text =>
    if isYaml file then
      match Node.ofYamlText? text with
      | some node => return .ok node
      | none => return .error .invalidYaml
    else
      match Node.ofJsonText? text with
      | some node => return .ok node
      | none => return .error .invalidJson

/-- The title of a tree's page: that of a page, and else the name of the file. -/
def titleOf (file : String) : Node → String
  | .page metadata _ => metadata.title
  | _ => file

/-- Prints the Markdown or the HTML of the tree in a file. -/
def render (options : RenderOptions) : Action m Unit := do
  match ← (loadTree options.file : m _) with
  | .error fault => throw (fault.failure options.file)
  | .ok node =>
    let settings : Markdown.Options := { page := options.page.getD "index.md" }
    match if options.raw then Markdown.renderRaw settings node
        else Markdown.toMarkdown settings node with
    | .error e => throw (.rendering e)
    | .ok markdown =>
      match options.format with
      | .markdown => Session.printLine markdown
      | .html => Session.printLine (Preview.page (titleOf options.file node) markdown)

/-- The remarks on the tree in a file. -/
def remarksOn (file : String) : m (List Diagnostic) := do
  match ← loadTree file with
  | .ok node => return node.check
  | .error fault => return [fault.remark file]

/-- Prints the remarks on the trees in files and says whether an error is among them. -/
def validate : List String → m Bool
  | [] => return false
  | file :: rest => do
    let remarks ← remarksOn file
    if remarks.isEmpty then Session.printLine s!"{file}: OK"
    else remarks.forM fun remark => Session.printLine (remarkLine file remark)
    let more ← validate rest
    return remarks.any (·.severity == .error) || more

def usage : String := "Usage: apidoc [--quiet] [--verbose] <build|render|validate> ..."

/-- Ends with the code of a success, or prints a failure and ends with that of a failure. -/
def finish (action : Action m Unit) : m UInt32 := do
  match ← action.run with
  | .ok () => return 0
  | .error e => do
    Session.printTrouble s!"Error: {e.message}"
    return 1

/-- Does what is asked for. -/
def perform (invocation : Invocation) : m UInt32 :=
  match invocation.request with
  | .build options => finish (build ⟨options.dryRun, options.prune, invocation.quiet⟩)
  | .render options => finish (render options)
  | .validate files => do
    let failed ← validate files
    return if failed then 1 else 0
  | .help => do
    Session.printLine usage
    return 0
  | .version => do
    Session.printLine "apidoc 0.1.0"
    return 0

/-- Runs the program with its arguments. -/
def run (arguments : List String) : m UInt32 := do
  match Invocation.ofArguments? arguments with
  | some invocation => perform invocation
  | none => do
    Session.printTrouble usage
    return 2

end DocTree.Command
