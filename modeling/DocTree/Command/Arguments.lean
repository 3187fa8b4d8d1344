import DocTree.Text.Split

/-! The command line: which command is asked for, and with which options. -/
namespace DocTree.Command

inductive Format where
  | markdown | html
  deriving DecidableEq, Inhabited

structure BuildOptions where
  dryRun : Bool := false
  prune : Bool := false
  watch : Bool := false
  deriving DecidableEq, Inhabited

structure RenderOptions where
  file : String
  format : Format := .markdown
  page : Option String := none
  raw : Bool := false
  deriving DecidableEq, Inhabited

inductive Request where
  | build (options : BuildOptions)
  | render (options : RenderOptions)
  | validate (files : List String)
  | help
  | version
  deriving DecidableEq, Inhabited

/-- A request, and whether only what matters should be printed. -/
structure Invocation where
  quiet : Bool
  request : Request
  deriving DecidableEq, Inhabited

/-- The options that a command knows: flags, and options that take a value. -/
structure OptionTable where
  flags : List String
  valued : List String

/-- Arguments taken apart. -/
structure Parsed where
  /-- The flags that have been given. -/
  flags : List String := []
  values : List (String × String) := []
  /-- What is no option, in reverse. -/
  operands : List String := []
  /-- Help or the version is asked for. -/
  asked : Option Request := none

namespace Parsed

def addFlag (p : Parsed) (name : String) : Option Parsed :=
  if p.flags.contains name then none else some { p with flags := name :: p.flags }

def addValue (p : Parsed) (name value : String) : Option Parsed :=
  if (p.values.lookup name).isSome then none
  else some { p with values := (name, value) :: p.values }

def addOperand (p : Parsed) (operand : String) : Parsed :=
  { p with operands := operand :: p.operands }

end Parsed

/-- An argument that is an option: a dash alone is none. -/
def isOption (argument : String) : Bool :=
  match argument.toList with
  | '-' :: _ :: _ => true
  | _ => false

/-- The name of a long option and the value behind an equals sign. -/
def splitOption (argument : String) : String × Option String :=
  match Text.cutAt? '=' argument with
  | some (name, value) => (name, some value)
  | none => (argument, none)

/-- Takes arguments apart. An option may be given once, and none that is not known. What follows
two dashes is no option. With `first` it stops at the first operand and gives what follows. -/
def parseArguments (table : OptionTable) (first : Bool) (p : Parsed) :
    List String → Option (Parsed × List String)
  | [] => some (p, [])
  | "--" :: rest =>
    if first && !rest.isEmpty then none
    else some ({ p with operands := rest.reverse ++ p.operands }, [])
  | argument :: rest =>
    if argument = "--help" ∨ argument = "-h" then some ({ p with asked := some .help }, [])
    else if first ∧ (argument = "--version" ∨ argument = "-V") then
      some ({ p with asked := some .version }, [])
    else if isOption argument then
      let (name, attached) := splitOption argument
      if table.flags.contains name then
        if attached.isSome then none
        else (p.addFlag name).bind fun p => parseArguments table first p rest
      else if table.valued.contains name then
        match attached, rest with
        | some value, rest =>
          (p.addValue name value).bind fun p => parseArguments table first p rest
        | none, value :: rest =>
          if isOption value then none
          else (p.addValue name value).bind fun p => parseArguments table first p rest
        | none, [] => none
      else none
    else if first then some (p.addOperand argument, rest)
    else parseArguments table first (p.addOperand argument) rest

/-- The flags that every command knows. -/
def globalFlags : List String := ["--quiet", "--verbose"]

def parseFormat : Option String → Option Format
  | none | some "markdown" => some .markdown
  | some "html" => some .html
  | some _ => none

/-- The request of the named command with the given arguments, and whether it is quiet. -/
def parseCommand (name : String) (arguments : List String) : Option (Bool × Request) :=
  match name with
  | "build" => do
    let table : OptionTable := ⟨globalFlags ++ ["--dry-run", "--prune", "--watch"], []⟩
    let (p, _) ← parseArguments table false {} arguments
    finish p do
      guard p.operands.isEmpty
      let on (flag : String) : Bool := p.flags.contains flag
      some (.build ⟨on "--dry-run", on "--prune", on "--watch"⟩)
  | "render" => do
    let table : OptionTable := ⟨globalFlags ++ ["--raw"], ["--format", "--page"]⟩
    let (p, _) ← parseArguments table false {} arguments
    finish p do
      let format ← parseFormat (p.values.lookup "--format")
      match p.operands with
      | [file] =>
        some (.render ⟨file, format, p.values.lookup "--page", p.flags.contains "--raw"⟩)
      | _ => none
  | "validate" => do
    let (p, _) ← parseArguments ⟨globalFlags, []⟩ false {} arguments
    finish p (some (.validate p.operands.reverse))
  | "help" => some (false, .help)
  | _ => none
where
  /-- Help comes before anything else that is asked. -/
  finish (p : Parsed) (request : Option Request) : Option (Bool × Request) :=
    let quiet := p.flags.contains "--quiet"
    match p.asked with
    | some asked => some (quiet, asked)
    | none => request.map (quiet, ·)

/-- What the arguments of the program ask for. -/
def Invocation.ofArguments? (arguments : List String) : Option Invocation := do
  let (p, rest) ← parseArguments ⟨globalFlags, []⟩ true {} arguments
  match p.asked, p.operands with
  | some asked, _ => some ⟨false, asked⟩
  | none, [name] =>
    let (quiet, request) ← parseCommand name rest
    some ⟨quiet || p.flags.contains "--quiet", request⟩
  | none, _ => none

end DocTree.Command
