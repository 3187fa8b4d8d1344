import DocTree.Proofs.Coupling
import DocTree.Proofs.Files
import DocTree.Proofs.Steps

/-! A build that prunes nothing only adds: what a path leads to stays there, a file stays a file,
and the only new texts are those of pages. -/
namespace DocTree.Disk

theorem Tree.walk_mono {t t' : Tree}
    (h : ∀ l, t.get? l = some .directory → t'.get? l = some .directory) {here there : Location}
    {pieces : List String} (hwalk : t.walk here pieces = .ok there) :
    t'.walk here pieces = .ok there := by
  induction pieces generalizing here with
  | nil => exact hwalk
  | cons piece rest ih =>
    rw [walk] at hwalk ⊢
    cases hstep : t.step here piece with
    | error fault => rw [hstep] at hwalk; cases hwalk
    | ok next =>
      obtain ⟨hhere, hnext⟩ := step_ok.1 hstep
      rw [hstep] at hwalk
      rw [step_ok.2 ⟨h here hhere, hnext⟩]
      exact ih hwalk

namespace World
variable {news : String → Prop} {w w' w'' : World} {path text : String}

theorem exists?_iff : w.exists? path ↔ ∃ l, w.locate path = .ok l ∧ (w.tree.get? l).isSome := by
  rw [exists?]
  split
  · next l hl => simp [hl]
  · next fault hfault => simp [hfault]

theorem read_iff :
    w.read path = .ok text ↔ ∃ l, w.locate path = .ok l ∧ w.tree.get? l = some (.file text) := by
  rw [read]
  split
  · next l hl => split <;> simp_all
  · next fault hfault => simp [hfault]

theorem exists?_of_read (h : w.read path = .ok text) : w.exists? path := by
  obtain ⟨l, hl, hfile⟩ := read_iff.1 h
  exact exists?_iff.2 ⟨l, hl, by rw [hfile]; rfl⟩

/-- Nothing has gone from the tree, and texts that are new are among `news`. -/
structure Grows (news : String → Prop) (w w' : World) : Prop where
  root : w'.root = w.root
  directory : w'.directory = w.directory
  isDirectory : ∀ l, w.tree.get? l = some .directory → w'.tree.get? l = some .directory
  isSome : ∀ l, (w.tree.get? l).isSome → (w'.tree.get? l).isSome
  text : ∀ l text, w'.tree.get? l = some (.file text) →
    w.tree.get? l = some (.file text) ∨ news text

theorem Grows.refl (w : World) : w.Grows news w :=
  ⟨rfl, rfl, fun _ h => h, fun _ h => h, fun _ _ h => .inl h⟩

theorem Grows.trans (h : w.Grows news w') (h' : w'.Grows news w'') : w.Grows news w'' where
  root := h'.root.trans h.root
  directory := h'.directory.trans h.directory
  isDirectory l hl := h'.isDirectory l (h.isDirectory l hl)
  isSome l hl := h'.isSome l (h.isSome l hl)
  text l text hl := (h'.text l text hl).elim (h.text l text) .inr

theorem Grows.locate (h : w.Grows news w') {l : Location} (hl : w.locate path = .ok l) :
    w'.locate path = .ok l := by
  rw [World.locate] at hl ⊢
  rw [startOf_congr h.root h.directory]
  split at hl
  · exact Tree.walk_mono h.isDirectory hl
  · cases hl

theorem Grows.exists? (h : w.Grows news w') (hpath : w.exists? path) : w'.exists? path := by
  obtain ⟨l, hl, hsome⟩ := exists?_iff.1 hpath
  exact exists?_iff.2 ⟨l, h.locate hl, h.isSome l hsome⟩

/-- What is read at a place that could be reached before has been there, or is new. -/
theorem Grows.read (h : w.Grows news w') {l : Location} (hl : w.locate path = .ok l)
    (hread : w'.read path = .ok text) : w.read path = .ok text ∨ news text := by
  obtain ⟨l', hl', hfile⟩ := read_iff.1 hread
  obtain rfl := Except.ok.inj ((h.locate hl).symm.trans hl')
  exact (h.text l text hfile).imp_left fun hold => read_iff.2 ⟨l, hl, hold⟩

theorem grows_make (w : World) (path : String) : w.Grows news (w.make path).2 := by
  rw [make]
  split
  · next start pieces _ =>
    have hget := w.tree.get?_makeDirectories start pieces
    refine ⟨rfl, rfl, fun l h => ?_, fun l h => ?_, fun l text h => .inl ?_⟩
    · obtain hsame | ⟨-, hmade⟩ := hget l
      · exact hsame.trans h
      · exact hmade
    · obtain hsame | ⟨-, hmade⟩ := hget l
      · exact hsame ▸ h
      · exact hmade ▸ rfl
    · obtain hsame | ⟨-, hmade⟩ := hget l
      · exact hsame.symm.trans h
      · cases hmade.symm.trans h
  · exact .refl w

theorem grows_set {place : Location} {content : String}
    (hfile : w.tree.get? place ≠ some .directory) (hnew : news content) :
    w.Grows news { w with tree := w.tree.set place (.file content) } := by
  have hne : place ≠ [] := by rintro rfl; exact hfile rfl
  have hget (l : Location) := w.tree.get?_set (.file content) hne l
  refine ⟨rfl, rfl, fun l h => ?_, fun l h => ?_, fun l text h => ?_⟩
  · have hother : l ≠ place := by rintro rfl; exact hfile h
    exact (hget l).trans ((if_neg hother).trans h)
  · dsimp only
    rw [hget]
    split_ifs
    · rfl
    · exact h
  · dsimp only at h
    rw [hget] at h
    split_ifs at h
    · cases h
      exact .inr hnew
    · exact .inl h

theorem grows_write (w : World) (path : String) {content : String} (hnew : news content) :
    w.Grows news (w.write path content).2 := by
  obtain h | ⟨place, -, hfile, h⟩ := w.write_cases path content
  · rw [h]
    exact .refl w
  · rw [h]
    exact grows_set hfile hnew

/-- A file keeps its text while others are made, and written with another one. -/
theorem read_make (h : w.read path = .ok text) (other : String) :
    (w.make other).2.read path = .ok text := by
  have hgrows : w.Grows (fun _ => False) (w.make other).2 := w.grows_make other
  obtain ⟨l, hl, hfile⟩ := read_iff.1 h
  refine read_iff.2 ⟨l, hgrows.locate hl, ?_⟩
  rw [make]
  split
  · next start pieces _ =>
    obtain hsame | ⟨hnone, -⟩ := w.tree.get?_makeDirectories start pieces l
    · exact hsame.trans hfile
    · cases hnone.symm.trans hfile
  · exact hfile

theorem read_write (h : w.read path = .ok text) {other content : String}
    (hsame : ∀ l, w.place other = some l → w.place path = some l → content = text) :
    (w.write other content).2.read path = .ok text := by
  obtain ⟨l, hl, hfile⟩ := read_iff.1 h
  obtain hidle | ⟨place, hplace, hput, hwrite⟩ := w.write_cases other content
  · rw [hidle]
    exact h
  · rw [hwrite]
    have hne : place ≠ [] := by rintro rfl; exact hput rfl
    have hgrows : w.Grows (fun _ => True)
        { w with tree := w.tree.set place (.file content) } := grows_set hput trivial
    refine read_iff.2 ⟨l, hgrows.locate hl, ?_⟩
    dsimp only
    rw [Tree.get?_set _ _ hne]
    split_ifs with heq
    · rw [hsame place (place_of_locate hplace) (heq ▸ place_of_locate hl)]
    · exact hfile

/-- A file that has been written is read with its text. -/
theorem read_of_write {content : String} (h : w.write path content = (true, w')) :
    w'.read path = .ok content := by
  obtain hidle | ⟨place, hplace, hput, hwrite⟩ := w.write_cases path content
  · cases hidle.symm.trans h
  · have hne : place ≠ [] := by rintro rfl; exact hput rfl
    have hgrows : w.Grows (fun _ => True)
        { w with tree := w.tree.set place (.file content) } := grows_set hput trivial
    obtain rfl : _ = w' := congrArg Prod.snd (hwrite.symm.trans h)
    refine read_iff.2 ⟨place, hgrows.locate hplace, ?_⟩
    exact (w.tree.get?_set _ hne place).trans (if_pos rfl)

end World
end DocTree.Disk

namespace DocTree.Command
open Disk

/-- Steps that only add to the world. -/
def Adding (news : String → Prop) (α : Type) (steps _ : StateM World α) : Prop :=
  ∀ w : World, w.Grows news (steps w).2

theorem couplesChanges_adding (news : String → Prop) :
    CouplesChanges (Adding news) (fun _ content => news content) fun _ => False where
  pure _ _ := .refl _
  bind {_ _ x _ _ _} hx hg w := (hx w).trans (hg (x w).1 (x w).2)
  workingDirectory w := .refl w
  pathExists _ w := .refl w
  readFile _ w := .refl w
  filesBelow _ w := .refl w
  printLine _ _ := ⟨rfl, rfl, fun _ h => h, fun _ h => h, fun _ _ h => .inl h⟩
  printTrouble _ _ := ⟨rfl, rfl, fun _ h => h, fun _ h => h, fun _ _ h => .inl h⟩
  makeDirectory _ w := w.grows_make _
  writeFile hnew w := w.grows_write _ hnew
  removeFile h := h.elim

/-- Steps that leave a file with its text in the worlds that grow out of one. -/
def KeepsText (start : World) (path text : String) (α : Type) (steps _ : StateM World α) : Prop :=
  ∀ w, start.Grows (fun _ => True) w → w.read path = .ok text →
    start.Grows (fun _ => True) (steps w).2 ∧ (steps w).2.read path = .ok text

theorem couplesChanges_keepsText (start : World) (path text : String) :
    CouplesChanges (KeepsText start path text)
      (fun other content => ∀ l, start.place other = some l → start.place path = some l →
        content = text) fun _ => False where
  pure _ _ hw h := ⟨hw, h⟩
  bind {_ _ x _ _ _} hx hg w hw h :=
    (hx w hw h).elim fun hw' h' => hg (x w).1 (x w).2 hw' h'
  workingDirectory _ hw h := ⟨hw, h⟩
  pathExists _ _ hw h := ⟨hw, h⟩
  readFile _ _ hw h := ⟨hw, h⟩
  filesBelow _ _ hw h := ⟨hw, h⟩
  printLine line w hw h := ⟨hw.trans ((couplesChanges_adding _).printLine line w), h⟩
  printTrouble line w hw h := ⟨hw.trans ((couplesChanges_adding _).printTrouble line w), h⟩
  makeDirectory _ w hw h := ⟨hw.trans (w.grows_make _), World.read_make h _⟩
  writeFile hsame w hw h := by
    refine ⟨hw.trans (w.grows_write _ trivial), World.read_write h fun l hother hpath => ?_⟩
    rw [World.place_congr hw.root hw.directory] at hother hpath
    exact hsame l hother hpath
  removeFile h := h.elim

theorem KeepsText.of_runOn {start w w' : World} {path text : String} {α : Type}
    {steps : Action (StateM World) α} {result : Except Failure α}
    (h : KeepsText start path text _ steps.run steps.run) (hrun : runOn steps w = (result, w'))
    (hw : start.Grows (fun _ => True) w) (hread : w.read path = .ok text) :
    start.Grows (fun _ => True) w' ∧ w'.read path = .ok text := by
  have hkept : start.Grows (fun _ => True) (runOn steps w).2 ∧
      (runOn steps w).2.read path = .ok text := h w hw hread
  rwa [hrun] at hkept

end DocTree.Command
