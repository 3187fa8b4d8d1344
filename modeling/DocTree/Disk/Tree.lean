import DocTree.Disk.Path

/-! A tree of files and directories as a value. -/
namespace DocTree.Disk

/-- The names that lead from the root to a file or directory. -/
abbrev Location := List String

inductive Entry where
  | directory
  | file (content : String)
  /-- A file whose bytes are no text. -/
  | blob (bytes : List UInt8)
  deriving DecidableEq, Inhabited

/-- Why a path leads to nothing that can be read. -/
inductive Fault where
  | notFound
  | notDirectory
  | isDirectory
  | notText
  | denied
  deriving DecidableEq, Inhabited

/-- The files and directories below a root, each at one location. -/
structure Tree where
  entries : List (Location × Entry)
  distinct : (entries.map (·.1)).Nodup

namespace Tree

def empty : Tree := ⟨[], .nil⟩

instance : Inhabited Tree := ⟨empty⟩

/-- What is at a location. The root is a directory. -/
def get? (t : Tree) (location : Location) : Option Entry :=
  if location = [] then some .directory else t.entries.lookup location

def isDirectory (t : Tree) (location : Location) : Bool := t.get? location == some .directory

theorem nodup_filter {entries : List (Location × Entry)} (p : Location × Entry → Bool)
    (h : (entries.map (·.1)).Nodup) : ((entries.filter p).map (·.1)).Nodup :=
  h.sublist (List.filter_sublist.map _)

/-- Takes away what is at a location. -/
def erase (t : Tree) (location : Location) : Tree :=
  ⟨t.entries.filter fun e => e.1 != location, nodup_filter _ t.distinct⟩

/-- Puts an entry at a location in the place of any other. -/
def set (t : Tree) (location : Location) (entry : Entry) : Tree where
  entries := (location, entry) :: t.entries.filter fun e => e.1 != location
  distinct := by
    rw [List.map_cons, List.nodup_cons]
    refine ⟨fun h => ?_, nodup_filter _ t.distinct⟩
    obtain ⟨e, he, hl⟩ := List.mem_map.1 h
    simp_all

/-- One step along a path. -/
def step (t : Tree) (here : Location) (piece : String) : Except Fault Location :=
  match t.get? here with
  | some .directory =>
    if isIdlePiece piece then .ok here
    else if piece = ".." then .ok here.dropLast
    else .ok (here ++ [piece])
  | some _ => .error .notDirectory
  | none => .error .notFound

/-- The location that pieces of a path lead to. The last one need not exist. -/
def walk (t : Tree) : Location → List String → Except Fault Location
  | here, [] => .ok here
  | here, piece :: rest => (t.step here piece).bind fun next => t.walk next rest

/-- Follows pieces of a path and makes a directory wherever one is missing, up to a place where
a file is in the way. -/
def makeDirectories (t : Tree) : Location → List String → Bool × Tree
  | _, [] => (true, t)
  | here, piece :: rest =>
    if isIdlePiece piece then makeDirectories t here rest
    else if piece = ".." then makeDirectories t here.dropLast rest
    else
      let next := here ++ [piece]
      match t.get? next with
      | some .directory => makeDirectories t next rest
      | some _ => (false, t)
      | none => makeDirectories (t.set next .directory) next rest

/-- Whether a location comes before another one, or is the same: a directory before what it
holds, and its entries by their names. -/
def comesFirst : Location → Location → Bool
  | [], _ => true
  | _ :: _, [] => false
  | a :: as, b :: bs => a < b || (a == b && comesFirst as bs)

/-- The files below a directory, each by the names that lead there from it, in order. -/
def filesBelow (t : Tree) (directory : Location) : List Location :=
  (t.entries.filterMap fun (location, entry) =>
    match entry with
    | .directory => none
    | _ => if directory.isPrefixOf location then some (location.drop directory.length) else none
    ).mergeSort comesFirst

end Tree
end DocTree.Disk
