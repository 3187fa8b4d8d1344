import DocTree.Disk.Session

/-! A world in which steps may go wrong: a directory cannot be entered, a disk is full. It keeps a
journal of the files that a command takes in hand. -/
namespace DocTree.Disk

/-- How a step goes wrong. -/
inductive Mishap where
  /-- It does nothing. -/
  | refused
  /-- It ends early, after so many pieces of a path or characters of a text. -/
  | cut (progress : Nat)
  deriving DecidableEq, Inhabited

namespace World

/-- Makes the directories on a path up to one of its pieces. -/
def makeSome (w : World) (progress : Nat) (path : String) : World :=
  match w.startOf path with
  | some (start, pieces) =>
    { w with tree := (w.tree.makeDirectories start (pieces.take progress)).2 }
  | none => w

end World

/-- A world, what goes wrong in each step to come, and the paths of the files that have been
written or removed, the last one first. -/
structure Trial where
  world : World
  mishaps : List (Option Mishap)
  journal : List String
  deriving Inhabited

namespace Trial

/-- A world in which nothing goes wrong. -/
def calm (w : World) (journal : List String) : Trial := ⟨w, [], journal⟩

def mishap (s : Trial) : Option Mishap := s.mishaps.head?.join

/-- The trial after a step that left these files. -/
def next (s : Trial) (w : World) : Trial := { s with world := w, mishaps := s.mishaps.tail }

def note (s : Trial) (path : String) : Trial := { s with journal := path :: s.journal }

def make (s : Trial) (path : String) : Bool × Trial :=
  match s.mishap with
  | none => ((s.world.make path).1, s.next (s.world.make path).2)
  | some .refused => (false, s.next s.world)
  | some (.cut progress) => (false, s.next (s.world.makeSome progress path))

def write (s : Trial) (path content : String) : Bool × Trial :=
  match s.mishap with
  | none => ((s.world.write path content).1, (s.next (s.world.write path content).2).note path)
  | some .refused => (false, (s.next s.world).note path)
  | some (.cut progress) =>
    let part := String.ofList (content.toList.take progress)
    (false, (s.next (s.world.write path part).2).note path)

def remove (s : Trial) (path : String) : Bool × Trial :=
  match s.mishap with
  | none => ((s.world.remove path).1, (s.next (s.world.remove path).2).note path)
  | some _ => (false, (s.next s.world).note path)

/-- What a step tells that looks at the world. -/
def look {α : Type} (s : Trial) (view : World → α) (otherwise : α) : α × Trial :=
  (if s.mishap = none then view s.world else otherwise, s.next s.world)

instance : Session (StateM Trial) where
  workingDirectory := fun s => s.look (fun w => some w.here) none
  pathExists path := fun s => s.look (·.exists? path) false
  readFile path := fun s => s.look (·.read path) (.error .denied)
  makeDirectory path := fun s => s.make path
  writeFile path content := fun s => s.write path content
  removeFile path := fun s => s.remove path
  filesBelow path := fun s => s.look (fun w => some (w.list path)) none
  printLine line := fun s => ((), { s with world := s.world.withOutput line })
  printTrouble line := fun s => ((), { s with world := s.world.withTrouble line })

end Trial
end DocTree.Disk
