import DocTree.Disk.Tree

/-! What a command needs of the world around it: a tree of files that it reads and changes, and
two channels that it prints to. Commands are written for any such world; one of them is a
value. -/
namespace DocTree.Disk

/-- A world with files and with channels for output and for trouble. -/
class Session (m : Type → Type) where
  /-- The path of the directory in which the command runs. -/
  workingDirectory : m (Option String)
  pathExists : String → m Bool
  readFile : String → m (Except Fault String)
  /-- Makes a directory and those around it, and says whether that worked. -/
  makeDirectory : String → m Bool
  writeFile : String → String → m Bool
  removeFile : String → m Bool
  /-- The files below a directory, in order, by the names that lead there. -/
  filesBelow : String → m (Option (List Location))
  printLine : String → m Unit
  printTrouble : String → m Unit

/-- Steps that may fail act on the same world. -/
instance {ε : Type} {m : Type → Type} [Monad m] [Session m] : Session (ExceptT ε m) where
  workingDirectory := ExceptT.lift Session.workingDirectory
  pathExists path := ExceptT.lift (Session.pathExists path)
  readFile path := ExceptT.lift (Session.readFile path)
  makeDirectory path := ExceptT.lift (Session.makeDirectory path)
  writeFile path content := ExceptT.lift (Session.writeFile path content)
  removeFile path := ExceptT.lift (Session.removeFile path)
  filesBelow path := ExceptT.lift (Session.filesBelow path)
  printLine line := ExceptT.lift (Session.printLine line)
  printTrouble line := ExceptT.lift (Session.printTrouble line)

/-- A world that is a value: a tree, how its root is written, where a command runs in it, and
what has been printed. -/
structure World where
  tree : Tree
  root : String
  directory : Location
  output : String
  trouble : String
  deriving Inhabited

namespace World

/-- The path of the directory in which a command runs. -/
def here (w : World) : String :=
  if w.root = "" ∧ w.directory = [] then "/" else "/".intercalate (w.root :: w.directory)

/-- Where a path begins, and its pieces. A path that begins outside the tree leads nowhere. -/
def startOf (w : World) (path : String) : Option (Location × List String) :=
  match pathPieces path with
  | first :: rest =>
    if rest.isEmpty && first == "" then none
    else if first == w.root then some ([], rest)
    else if first == "" then none
    else some (w.directory, first :: rest)
  | [] => none

/-- The location that a path leads to. -/
def locate (w : World) (path : String) : Except Fault Location :=
  match w.startOf path with
  | some (start, pieces) => w.tree.walk start pieces
  | none => .error .notFound

def exists? (w : World) (path : String) : Bool :=
  match w.locate path with
  | .ok location => (w.tree.get? location).isSome
  | .error _ => false

def read (w : World) (path : String) : Except Fault String :=
  match w.locate path with
  | .ok location =>
    match w.tree.get? location with
    | some (.file content) => .ok content
    | some (.blob _) => .error .notText
    | some .directory => .error .isDirectory
    | none => .error .notFound
  | .error fault => .error fault

def make (w : World) (path : String) : Bool × World :=
  match w.startOf path with
  | some (start, pieces) =>
    let (done, tree) := w.tree.makeDirectories start pieces
    (done, { w with tree := tree })
  | none => (false, w)

def write (w : World) (path content : String) : Bool × World :=
  match w.locate path with
  | .ok location =>
    if w.tree.isDirectory location then (false, w)
    else (true, { w with tree := w.tree.set location (.file content) })
  | .error _ => (false, w)

def remove (w : World) (path : String) : Bool × World :=
  match w.locate path with
  | .ok location =>
    match w.tree.get? location with
    | some .directory | none => (false, w)
    | some _ => (true, { w with tree := w.tree.erase location })
  | .error _ => (false, w)

def list (w : World) (path : String) : List Location :=
  match w.locate path with
  | .ok location => if w.tree.isDirectory location then w.tree.filesBelow location else []
  | .error _ => []

/-- The world with one more line printed. -/
def withOutput (w : World) (line : String) : World := { w with output := w.output ++ line ++ "\n" }

/-- The world with one more line of trouble printed. -/
def withTrouble (w : World) (line : String) : World :=
  { w with trouble := w.trouble ++ line ++ "\n" }

instance : Session (StateM World) where
  workingDirectory := fun w => (some w.here, w)
  pathExists path := fun w => (w.exists? path, w)
  readFile path := fun w => (w.read path, w)
  makeDirectory path := fun w => w.make path
  writeFile path content := fun w => w.write path content
  removeFile path := fun w => w.remove path
  filesBelow path := fun w => (some (w.list path), w)
  printLine line := fun w => ((), w.withOutput line)
  printTrouble line := fun w => ((), w.withTrouble line)

end World
end DocTree.Disk
