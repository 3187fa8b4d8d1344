import DocTree.Command.Config
import DocTree.RenderError

/-! Why a command comes to nothing. -/
namespace DocTree.Command

inductive Failure where
  /-- The working directory cannot be told. -/
  | nowhere
  /-- No configuration in a directory or any around it. -/
  | noConfig (directory : String)
  /-- A file of the build that cannot be read. -/
  | unreadable (path : String)
  | unparsable (path : String)
  /-- A tree that cannot be read, named as it was given. -/
  | unreadableTree (file : String)
  | unparsableTree (file : String)
  | rendering (error : RenderError)
  | escapingPage (page : String)
  | namelessPage (page : String)
  | notCreated (path : String)
  | notWritten (path : String)
  | notRemoved (path : String)
  | unlisted (directory : String)
  deriving DecidableEq, Inhabited

def Failure.message : Failure → String
  | nowhere => "Failed to get current directory"
  | noConfig directory => s!"No {configFile} found in {directory} or any parent directory"
  | unreadable path => s!"Failed to read {path}"
  | unparsable path => s!"Failed to parse {path}"
  | unreadableTree file => s!"Failed to read '{file}'"
  | unparsableTree file => s!"Failed to parse '{file}'"
  | rendering error => error.message
  | escapingPage page => s!"Page path '{page}' escapes outDir"
  | namelessPage page => s!"Page path '{page}' names no file"
  | notCreated path => s!"Failed to create {path}"
  | notWritten path => s!"Failed to write {path}"
  | notRemoved path => s!"Failed to remove {path}"
  | unlisted directory => s!"IO error for operation on {directory}"

end DocTree.Command
