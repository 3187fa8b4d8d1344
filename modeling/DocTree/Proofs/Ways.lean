import DocTree.Proofs.Growth

/-! Which ways can be gone. The place of a path is decided by its text alone; whether there is a way
to it depends on the directories on the way, and on nothing else. -/
namespace DocTree.Disk

namespace Tree
variable {t t' : Tree} {here there : Location} {pieces rest names : List String}

theorem walk_append (t : Tree) (here : Location) (pieces rest : List String) :
    t.walk here (pieces ++ rest) = (t.walk here pieces).bind (t.walk · rest) := by
  induction pieces generalizing here with
  | nil => rfl
  | cons piece pieces ih =>
    rw [List.cons_append, walk, walk]
    cases t.step here piece with
    | error fault => rfl
    | ok next => exact ih next

/-- A slash in front of more pieces makes no difference. -/
theorem walk_idle (t : Tree) (here : Location) (piece : String) (rest : List String) :
    t.walk here ("" :: piece :: rest) = t.walk here (piece :: rest) := by
  rw [walk, walk, step, step]
  have hidle : isIdlePiece "" = true := rfl
  cases hhere : t.get? here with
  | none => rfl
  | some entry =>
    cases entry with
    | directory =>
      dsimp only
      rw [if_pos hidle]
      show t.walk here (piece :: rest) = _
      rw [walk, step, hhere]
    | _ => rfl

/-- Everything that is in the tree is in a directory of the tree. -/
def Closed (t : Tree) : Prop := ∀ e ∈ t.entries, t.get? e.1.dropLast = some .directory

instance (t : Tree) : Decidable t.Closed :=
  inferInstanceAs (Decidable (∀ e ∈ t.entries, t.get? e.1.dropLast = some .directory))

theorem Closed.parent (h : t.Closed) {name : String} (hsome : t.get? (here ++ [name]) ≠ none) :
    t.get? here = some .directory := by
  obtain ⟨entry, hentry⟩ := Option.ne_none_iff_exists'.1 hsome
  rw [get?_of_ne _ (by simp)] at hentry
  obtain ⟨before, after, hentries, -⟩ := List.lookup_eq_some_iff.1 hentry
  have hparent := h (here ++ [name], entry) (by simp [hentries])
  rwa [List.dropLast_concat] at hparent

/-- All directories around what is in the tree are there. -/
theorem Closed.around (h : t.Closed) (hne : names ≠ []) (hsome : t.get? (here ++ names) ≠ none) :
    t.get? here = some .directory := by
  induction names generalizing here with
  | nil => exact absurd rfl hne
  | cons name rest ih =>
    rw [List.append_cons] at hsome
    refine h.parent (?_ : t.get? (here ++ [name]) ≠ none)
    cases rest with
    | nil => rwa [List.append_nil] at hsome
    | cons next rest =>
      rw [ih (List.cons_ne_nil next rest) hsome]
      exact Option.some_ne_none _

/-- The way by its names to what is in the tree can be gone. -/
theorem Closed.walk_names (h : t.Closed) (hnames : ∀ name ∈ names, IsName name)
    (hsome : t.get? (here ++ names) ≠ none) : t.walk here names = .ok (here ++ names) := by
  induction names generalizing here with
  | nil => rw [List.append_nil]; rfl
  | cons name rest ih =>
    obtain ⟨hname, hrest⟩ := List.forall_mem_cons.1 hnames
    have hhere := h.around (List.cons_ne_nil name rest) hsome
    have hnext : here ++ [name] = advance here name := by
      rw [advance, if_neg hname.notIdle, if_neg hname.notUp]
    have hstep : t.step here name = .ok (here ++ [name]) := step_ok.2 ⟨hhere, hnext⟩
    rw [List.append_cons] at hsome ⊢
    rw [walk, hstep]
    exact ih hrest hsome

/-- Where pieces of a path never lead up, they lead on. -/
theorem isPrefix_descend (h : ".." ∉ pieces) : here <+: descend here pieces := by
  induction pieces generalizing here with
  | nil => exact List.prefix_rfl
  | cons piece rest ih =>
    obtain ⟨hpiece, hrest⟩ := not_or.1 (mt List.mem_cons.2 h)
    refine List.IsPrefix.trans ?_ (ih hrest)
    rw [advance]
    split
    · exact List.prefix_rfl
    · rw [if_neg (Ne.symm hpiece)]
      exact List.prefix_append _ _

/-- The way to a directory in the tree can be gone if it never leads up. -/
theorem Closed.walk_ahead (h : t.Closed) (hahead : ".." ∉ pieces)
    (hthere : t.get? (descend here pieces) = some .directory) :
    t.walk here pieces = .ok (descend here pieces) := by
  induction pieces generalizing here with
  | nil => rfl
  | cons piece rest ih =>
    obtain ⟨more, hmore⟩ : here <+: descend here (piece :: rest) := isPrefix_descend hahead
    have hhere : t.get? here = some .directory := by
      cases more with
      | nil => rwa [← hmore, List.append_nil] at hthere
      | cons name more =>
        refine h.around (List.cons_ne_nil name more) ?_
        rw [hmore, hthere]
        exact Option.some_ne_none _
    rw [walk, step_ok.2 ⟨hhere, rfl⟩]
    exact ih (mt (List.mem_cons_of_mem piece) hahead) hthere

end Tree

namespace World
variable {w w' : World} {base rest path outDir : String} {location out : Location}

/-- A path is walked from where it begins. -/
theorem locate_eq (w : World) (path : String) :
    w.locate path = (w.startOf path).elim (.error .notFound) fun start =>
      w.tree.walk start.1 start.2 := by
  rw [locate]
  cases w.startOf path <;> rfl

/-- A relative path is walked from where the path in front of it leads. -/
theorem locate_joinPath (w : World) (hbase : base ≠ "") (hrest : rest.toList.head? ≠ some '/') :
    w.locate (joinPath base rest) = (w.locate base).bind (w.tree.walk · (pathPieces rest)) := by
  obtain ⟨piece, others, hpieces⟩ := List.exists_cons_of_ne_nil (pathPieces_ne_nil rest)
  rw [joinPath, if_neg (by simpa using hrest)]
  split
  · next hslash =>
    obtain ⟨front, hlist⟩ : ∃ front, base.toList = front ++ ['/'] :=
      List.getLast?_eq_some_iff.1 (by simpa using hslash)
    obtain ⟨short, rfl⟩ : ∃ short, base = short ++ "/" :=
      ⟨String.ofList front, by rw [← String.toList_inj, hlist]; simp⟩
    obtain ⟨first, more, hshort⟩ := List.exists_cons_of_ne_nil (pathPieces_ne_nil short)
    have hslashed : pathPieces (short ++ "/") = first :: (more ++ [""]) := by
      have happend := pathPieces_append short ""
      rw [String.append_empty, hshort] at happend
      exact happend
    have hjoined : pathPieces (short ++ "/" ++ rest) = first :: (more ++ pathPieces rest) := by
      rw [pathPieces_append, hshort, List.cons_append]
    have hlong : more ++ pathPieces rest ≠ [] := by simp [hpieces]
    rw [locate_eq, locate_eq, startOf_of_pieces hjoined (.inl hlong),
      startOf_of_pieces hslashed (.inl (by simp))]
    -- the empty piece behind the slash is walked over by the next one
    have hskip (here : Location) (pieces : List String) :
        w.tree.walk here (pieces ++ pathPieces rest) =
          (w.tree.walk here (pieces ++ [""])).bind (w.tree.walk · (pathPieces rest)) := by
      rw [← Tree.walk_append, List.append_assoc, Tree.walk_append, Tree.walk_append, hpieces]
      exact congrArg _ (funext fun next => (w.tree.walk_idle next piece others).symm)
    split_ifs
    · exact hskip [] more
    · rfl
    · exact hskip w.directory (first :: more)
  · obtain ⟨first, more, hfirst⟩ := List.exists_cons_of_ne_nil (pathPieces_ne_nil base)
    have hne : more ≠ [] ∨ first ≠ "" := by
      by_contra h
      obtain ⟨rfl, rfl⟩ : more = [] ∧ first = "" := by simpa [not_or] using h
      exact hbase (pathPieces_eq_empty_iff.1 hfirst)
    have hjoined : pathPieces (base ++ "/" ++ rest) = first :: (more ++ pathPieces rest) := by
      rw [pathPieces_append, hfirst, List.cons_append]
    have hlong : more ++ pathPieces rest ≠ [] := by simp [hpieces]
    rw [locate_eq, locate_eq, startOf_of_pieces hjoined (.inl hlong), startOf_of_pieces hfirst hne]
    split_ifs
    · exact Tree.walk_append _ _ _ _
    · rfl
    · exact Tree.walk_append _ _ (first :: more) _

/-- The path leads up nowhere behind the first directory that is missing. -/
def Straight (w : World) (path : String) : Prop :=
  ∀ start pieces, w.startOf path = some (start, pieces) →
    ∃ gone ahead here, pieces = gone ++ ahead ∧ w.tree.walk start gone = .ok here ∧ ".." ∉ ahead

/-- A straight path to a directory in the tree can be gone. -/
theorem Straight.locate (h : w.Straight path) (hclosed : w.tree.Closed)
    (hplace : w.place path = some location)
    (hthere : w.tree.get? location = some .directory) : w.locate path = .ok location := by
  obtain ⟨⟨start, pieces⟩, hstart, rfl⟩ := Option.map_eq_some_iff.1 hplace
  obtain ⟨gone, ahead, here, hpieces, hgone, hahead⟩ := h start pieces hstart
  rw [locate_eq, hstart]
  dsimp only [Option.elim] at hthere ⊢
  rw [hpieces, descend_append, ← Tree.eq_descend_of_walk hgone] at hthere ⊢
  rw [Tree.walk_append, hgone]
  exact hclosed.walk_ahead hahead hthere

end World
end DocTree.Disk

namespace DocTree.Command
open Disk
variable {w : World} {outDir : String} {out location : Location}

/-- The way to a file below the output directory goes through this directory. -/
theorem locate_outputPath (w : World) (hout : outDir ≠ "") (hne : location ≠ [])
    (hnames : ∀ name ∈ location, IsName name) :
    w.locate (outputPath outDir location) = (w.locate outDir).bind (w.tree.walk · location) := by
  rw [outputPath, w.locate_joinPath hout (relative_intercalate hne hnames),
    pathPieces_intercalate hne fun name h => (hnames name h).noSlash]

/-- The way to what stands below the output directory can be gone. -/
theorem locate_of_closed (hclosed : w.tree.Closed) (hstraight : w.Straight outDir)
    (hout : outDir ≠ "") (hne : location ≠ []) (hnames : ∀ name ∈ location, IsName name)
    (hplace : w.place outDir = some out) (hthere : w.tree.get? (out ++ location) ≠ none) :
    w.locate (outputPath outDir location) = .ok (out ++ location) := by
  have hdirectory := hstraight.locate hclosed hplace (hclosed.around hne hthere)
  rw [locate_outputPath w hout hne hnames, hdirectory]
  exact hclosed.walk_names hnames hthere

end DocTree.Command
