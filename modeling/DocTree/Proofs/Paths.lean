import DocTree.Command.Build
import DocTree.Proofs.OneLine

/-! Where paths lead. A path's place is decided by its text and by where the world is entered; what
the tree holds only decides whether the way there can be gone. -/
namespace DocTree.Disk
open Text

/-- A name that a file or a directory can have. -/
structure IsName (name : String) : Prop where
  notIdle : ¬ isIdlePiece name
  notUp : name ≠ ".."
  noSlash : '/' ∉ name.toList

instance (name : String) : Decidable (IsName name) :=
  decidable_of_iff (¬ isIdlePiece name ∧ name ≠ ".." ∧ '/' ∉ name.toList)
    ⟨fun h => ⟨h.1, h.2.1, h.2.2⟩, fun h => ⟨h.notIdle, h.notUp, h.noSlash⟩⟩

theorem pathPieces_ne_nil (path : String) : pathPieces path ≠ [] := by
  simp [pathPieces, splitAt, pieces_ne_nil]

theorem pathPieces_append (base rest : String) :
    pathPieces (base ++ "/" ++ rest) = pathPieces base ++ pathPieces rest :=
  splitAt_append rfl base rest

theorem pathPieces_eq_singleton {name : String} (h : '/' ∉ name.toList) :
    pathPieces name = [name] :=
  splitAt_eq_singleton h

theorem noSlash_of_mem_pathPieces {path piece : String} (h : piece ∈ pathPieces path) :
    '/' ∉ piece.toList :=
  sep_notMem_of_mem_splitAt h

theorem pathPieces_intercalate {names : List String} (hne : names ≠ [])
    (h : ∀ name ∈ names, '/' ∉ name.toList) : pathPieces ("/".intercalate names) = names :=
  splitAt_intercalate rfl hne h

/-- An absolute path begins with an empty piece. -/
theorem head?_pathPieces_of_absolute {path : String} (h : path.toList.head? = some '/') :
    (pathPieces path).head? = some "" := by
  obtain ⟨rest, hlist⟩ := List.head?_eq_some_iff.1 h
  rw [pathPieces, splitAt, hlist, pieces, if_pos (beq_self_eq_true '/')]
  rfl

theorem splitAt_eq_empty_iff {sep : Char} {s : String} : splitAt sep s = [""] ↔ s = "" := by
  refine ⟨fun h => ?_, by rintro rfl; rfl⟩
  by_contra hne
  obtain ⟨c, rest, hlist⟩ := List.exists_cons_of_ne_nil (mt String.toList_eq_nil_iff.1 hne)
  rw [splitAt, hlist, pieces] at h
  split at h
  · simp [pieces_ne_nil] at h
  · split at h <;> simp at h

theorem pathPieces_eq_empty_iff {path : String} : pathPieces path = [""] ↔ path = "" :=
  splitAt_eq_empty_iff

/-- The place after one more piece, whether or not anything is there. -/
def advance (here : Location) (piece : String) : Location :=
  if isIdlePiece piece then here else if piece = ".." then here.dropLast else here ++ [piece]

/-- The place to which pieces of a path lead. -/
def descend (here : Location) (pieces : List String) : Location := pieces.foldl advance here

theorem descend_append (here : Location) (first rest : List String) :
    descend here (first ++ rest) = descend (descend here first) rest :=
  List.foldl_append ..

theorem descend_names {names : List String} (h : ∀ name ∈ names, IsName name) (here : Location) :
    descend here names = here ++ names := by
  induction names generalizing here with
  | nil => exact (List.append_nil here).symm
  | cons name rest ih =>
    obtain ⟨hname, hrest⟩ := List.forall_mem_cons.1 h
    have hstep : advance here name = here ++ [name] := by
      rw [advance, if_neg hname.notIdle, if_neg hname.notUp]
    calc descend here (name :: rest)
        = descend (advance here name) rest := rfl
      _ = here ++ name :: rest := by rw [hstep, ih hrest, List.append_assoc, List.singleton_append]

theorem Tree.step_ok {t : Tree} {here next : Location} {piece : String} :
    t.step here piece = .ok next ↔ t.get? here = some .directory ∧ next = advance here piece := by
  rw [Tree.step, advance]
  split
  · next h => split_ifs <;> simp [h, eq_comm]
  · next entry hfile h =>
    refine iff_of_false nofun fun hdirectory => hfile ?_
    exact Option.some.inj (h.symm.trans hdirectory.1)
  · next h => simp [h]

/-- A walk along a path ends where the path leads. -/
theorem Tree.eq_descend_of_walk {t : Tree} {here there : Location} {pieces : List String}
    (h : t.walk here pieces = .ok there) : there = descend here pieces := by
  induction pieces generalizing here with
  | nil => exact (Except.ok.inj h).symm
  | cons piece rest ih =>
    rw [Tree.walk] at h
    cases hstep : t.step here piece with
    | error fault => rw [hstep] at h; cases h
    | ok next =>
      rw [hstep] at h
      exact (ih h).trans ((Tree.step_ok.1 hstep).2 ▸ rfl)

namespace World
variable {w w' : World} {base rest path outDir : String} {location out : Location}

/-- The place to which a path leads. -/
def place (w : World) (path : String) : Option Location :=
  (w.startOf path).map fun start => descend start.1 start.2

theorem place_of_locate (h : w.locate path = .ok location) : w.place path = some location := by
  rw [locate] at h
  rw [place]
  split at h
  · next start pieces hstart => rw [hstart, Tree.eq_descend_of_walk h]; rfl
  · cases h

theorem startOf_congr (hroot : w'.root = w.root) (hdirectory : w'.directory = w.directory) :
    w'.startOf path = w.startOf path := by
  rw [startOf, startOf, hroot, hdirectory]

theorem place_congr (hroot : w'.root = w.root) (hdirectory : w'.directory = w.directory) :
    w'.place path = w.place path := by
  rw [place, place, startOf_congr hroot hdirectory]

theorem startOf_of_pieces {first : String} {more : List String}
    (hpieces : pathPieces path = first :: more) (hne : more ≠ [] ∨ first ≠ "") :
    w.startOf path =
      if first == w.root then some ([], more)
      else if first == "" then none
      else some (w.directory, first :: more) := by
  have hsome : (more.isEmpty && first == "") = false := by
    rcases hne with hne | hne <;> simp [hne]
  simp only [startOf, hpieces, hsome, Bool.false_eq_true, if_false]

/-- A relative path leads on from where the path in front of it leads. -/
theorem place_append (hbase : base ≠ "") :
    w.place (base ++ "/" ++ rest) = (w.place base).map (descend · (pathPieces rest)) := by
  obtain ⟨first, more, hpieces⟩ := List.exists_cons_of_ne_nil (pathPieces_ne_nil base)
  have hlong : more ++ pathPieces rest ≠ [] := by simp [pathPieces_ne_nil]
  have hne : more ≠ [] ∨ first ≠ "" := by
    by_contra h
    obtain ⟨rfl, rfl⟩ : more = [] ∧ first = "" := by simpa [not_or] using h
    exact hbase (pathPieces_eq_empty_iff.1 hpieces)
  have hjoined : pathPieces (base ++ "/" ++ rest) = first :: (more ++ pathPieces rest) := by
    rw [pathPieces_append, hpieces, List.cons_append]
  rw [place, place, startOf_of_pieces hjoined (.inl hlong), startOf_of_pieces hpieces hne]
  split_ifs
  · exact congrArg some (descend_append [] more _)
  · rfl
  · exact congrArg some (descend_append w.directory (first :: more) _)

/-- A slash at the end of a path leads nowhere else. -/
theorem place_joinPath (hbase : base ≠ "") (hrest : rest.toList.head? ≠ some '/') :
    w.place (joinPath base rest) = (w.place base).map (descend · (pathPieces rest)) := by
  rw [joinPath, if_neg (by simpa using hrest)]
  split
  · next hslash =>
    obtain ⟨front, hlist⟩ : ∃ front, base.toList = front ++ ['/'] :=
      List.getLast?_eq_some_iff.1 (by simpa using hslash)
    obtain ⟨short, rfl⟩ : ∃ short, base = short ++ "/" :=
      ⟨String.ofList front, by rw [← String.toList_inj, hlist]; simp⟩
    obtain ⟨first, more, hpieces⟩ := List.exists_cons_of_ne_nil (pathPieces_ne_nil short)
    have hshort : pathPieces (short ++ "/") = first :: (more ++ [""]) := by
      have happend := pathPieces_append short ""
      rw [String.append_empty, hpieces] at happend
      exact happend
    have hjoined : pathPieces (short ++ "/" ++ rest) = first :: (more ++ pathPieces rest) := by
      rw [pathPieces_append, hpieces, List.cons_append]
    have hlong : more ++ pathPieces rest ≠ [] := by simp [pathPieces_ne_nil]
    rw [place, place, startOf_of_pieces hjoined (.inl hlong),
      startOf_of_pieces hshort (.inl (by simp))]
    have hshorter (here : Location) (pieces : List String) :
        descend here (pieces ++ [""]) = descend here pieces := descend_append here pieces [""]
    split_ifs
    · simp only [Option.map_some, hshorter, descend_append]
    · rfl
    · refine congrArg some ((descend_append w.directory (first :: more) _).trans ?_)
      exact congrArg (descend · _) (hshorter w.directory (first :: more)).symm
  · exact place_append hbase

end World
end DocTree.Disk

namespace DocTree.Command
open Disk

/-- The names on the way to a page. -/
theorem isName_of_pageSteps {names pieces result : List String}
    (hnames : ∀ name ∈ names, IsName name) (hpieces : ∀ piece ∈ pieces, '/' ∉ piece.toList)
    (h : pageSteps names pieces = some result) : ∀ name ∈ result, IsName name := by
  induction pieces generalizing names with
  | nil =>
    obtain rfl := Option.some.inj h
    simpa using hnames
  | cons piece rest ih =>
    obtain ⟨hpiece, hrest⟩ := List.forall_mem_cons.1 hpieces
    rw [pageSteps] at h
    split_ifs at h with hidle hup
    · exact ih hnames hrest h
    · exact ih (List.forall_mem_cons.2 ⟨⟨hidle, hup, hpiece⟩, hnames⟩) hrest h

/-- A page has a name below the output directory. -/
theorem isName_of_pageLocation {page : String} {location : Location}
    (h : pageLocation page = .ok location) :
    location ≠ [] ∧ ∀ name ∈ location, IsName name := by
  rw [pageLocation] at h
  split at h
  · cases h
  · split at h
    · cases h
    · cases h
    · next names hne hsteps =>
      obtain rfl := Except.ok.inj h
      exact ⟨hne, isName_of_pageSteps (List.forall_mem_nil _)
        (fun _ => noSlash_of_mem_pathPieces) hsteps⟩

theorem joinPath_ne_empty {base : String} (rest : String) : joinPath base rest ≠ "" := by
  rw [joinPath]
  split
  · next h => rintro rfl; simp at h
  · split
    · next h => intro hempty; simp_all
    · simp

/-- Names that are joined do not begin with a slash. -/
theorem relative_intercalate {location : Location} (hne : location ≠ [])
    (hnames : ∀ name ∈ location, IsName name) :
    ("/".intercalate location).toList.head? ≠ some '/' := by
  intro h
  have hempty := head?_pathPieces_of_absolute h
  rw [pathPieces_intercalate hne fun name h => (hnames name h).noSlash] at hempty
  exact (hnames "" (List.mem_of_head? hempty)).notIdle rfl

/-- The file of a page stands below the output directory, by the page's names. -/
theorem place_outputPath {w : World} {outDir : String} {location : Location}
    (hout : outDir ≠ "") (hne : location ≠ []) (hnames : ∀ name ∈ location, IsName name) :
    w.place (outputPath outDir location) = (w.place outDir).map (· ++ location) := by
  have hpieces : pathPieces ("/".intercalate location) = location :=
    pathPieces_intercalate hne fun name h => (hnames name h).noSlash
  rw [outputPath, World.place_joinPath hout (relative_intercalate hne hnames), hpieces]
  simp only [descend_names hnames]

end DocTree.Command
