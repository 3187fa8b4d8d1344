import DocTree.Command.Run

/-! The program on the files of the machine. -/
namespace DocTree.Main
open DocTree.Disk

/-- What an action gives, or nothing if it fails. -/
def attempt {α : Type} (action : IO α) : IO (Option α) :=
  try
    return some (← action)
  catch _ => return none

def pathExists (path : String) : IO Bool := (System.mkFilePath [path]).pathExists

def isDirectory (path : String) : IO Bool := (System.mkFilePath [path]).isDir

def readFile (path : String) : IO (Except Fault String) := do
  if ← isDirectory path then return .error .isDirectory
  if !(← pathExists path) then return .error .notFound
  match ← attempt (IO.FS.readBinFile path) with
  | none => return .error .denied
  | some bytes =>
    match String.fromUTF8? bytes with
    | some text => return .ok text
    | none => return .error .notText

/-- The names in a directory, in ascending order. -/
def namesIn (directory : String) : IO (List String) := do
  let found ← (System.mkFilePath [directory]).readDir
  return (found.toList.map (·.fileName)).mergeSort fun a b => a ≤ b

/-- The files below a directory, in order. -/
partial def filesBelow (directory : String) (names : Location) : IO (List Location) := do
  let found ← (← namesIn directory).mapM fun name => do
    let path := joinPath directory name
    let location := names ++ [name]
    if ← isDirectory path then filesBelow path location else return [location]
  return found.flatten

instance : Session IO where
  workingDirectory := return (← attempt IO.currentDir).map (·.toString)
  pathExists := pathExists
  readFile := readFile
  makeDirectory path := return (← attempt (IO.FS.createDirAll path)).isSome
  writeFile path content := return (← attempt (IO.FS.writeFile path content)).isSome
  removeFile path := return (← attempt (IO.FS.removeFile path)).isSome
  filesBelow path := do
    if ← isDirectory path then attempt (filesBelow path []) else return some []
  printLine := IO.println
  printTrouble := IO.eprintln

end DocTree.Main

def main (arguments : List String) : IO UInt32 := DocTree.Command.run arguments
