import DocTree.Disk.Trial
import DocTree.Proofs.Coupling
import DocTree.Proofs.Steps

/-! What the journal of a run tells. Where nothing goes wrong the run is the one on the world alone,
and a build that succeeds takes as many files in hand as its report counts as changed. -/
namespace DocTree.Command
open Disk

/-- In a calm world the steps are those on the world. -/
def Follows (α : Type) (steps : StateM Trial α) (plain : StateM World α) : Prop :=
  ∀ w journal, ∃ journal', steps (.calm w journal) = ((plain w).1, .calm (plain w).2 journal')

/-- In a calm world the steps are those on the world, and they leave no note. -/
def FollowsIdly (α : Type) (steps : StateM Trial α) (plain : StateM World α) : Prop :=
  ∀ w journal, steps (.calm w journal) = ((plain w).1, .calm (plain w).2 journal)

theorem couples_followsIdly : Couples FollowsIdly where
  pure _ _ _ := rfl
  bind {_ _ x y f g} hx hf w journal := by
    have hrun : (x >>= f) (.calm w journal) =
        f (x (.calm w journal)).1 (x (.calm w journal)).2 := rfl
    rw [hrun, hx w journal]
    exact hf (y w).1 (y w).2 journal
  workingDirectory _ _ := rfl
  pathExists _ _ _ := rfl
  readFile _ _ _ := rfl
  filesBelow _ _ _ := rfl
  printLine _ _ _ := rfl
  printTrouble _ _ _ := rfl

theorem couplesChanges_follows : CouplesChanges Follows (fun _ _ => True) fun _ => True where
  pure _ _ journal := ⟨journal, rfl⟩
  bind {_ _ x y f g} hx hf w journal := by
    obtain ⟨between, hbetween⟩ := hx w journal
    have hrun : (x >>= f) (.calm w journal) =
        f (x (.calm w journal)).1 (x (.calm w journal)).2 := rfl
    rw [hrun, hbetween]
    exact hf (y w).1 (y w).2 between
  workingDirectory _ journal := ⟨journal, rfl⟩
  pathExists _ _ journal := ⟨journal, rfl⟩
  readFile _ _ journal := ⟨journal, rfl⟩
  filesBelow _ _ journal := ⟨journal, rfl⟩
  printLine _ _ journal := ⟨journal, rfl⟩
  printTrouble _ _ journal := ⟨journal, rfl⟩
  makeDirectory _ _ journal := ⟨journal, rfl⟩
  writeFile _ _ journal := ⟨_ :: journal, rfl⟩
  removeFile _ _ journal := ⟨_ :: journal, rfl⟩

/-- A run in which nothing goes wrong is the one on the world alone. -/
theorem run_calm (arguments : List String) (w : World) (journal : List String) :
    ∃ journal', (run arguments : StateM Trial UInt32) (.calm w journal) =
      (((run arguments : StateM World UInt32) w).1,
        .calm ((run arguments : StateM World UInt32) w).2 journal') :=
  couplesChanges_follows.run arguments w journal

theorem run_of_calm {arguments : List String} {w : World} {journal : List String} {code : UInt32}
    {s : Trial} (h : (run arguments : StateM Trial UInt32) (.calm w journal) = (code, s)) :
    ∃ w' journal', (run arguments : StateM World UInt32) w = (code, w') ∧ s = .calm w' journal' := by
  obtain ⟨journal', hcalm⟩ := run_calm arguments w journal
  rcases hrun : (run arguments : StateM World UInt32) w with ⟨code', w'⟩
  rw [hrun] at hcalm
  cases hcalm.symm.trans h
  exact ⟨w', journal', rfl, rfl⟩

/-- The number of pages that have been written. -/
def Report.changed (report : Report) : Nat := report.created + report.updated

theorem Report.changed_count (report : Report) (change : Change) :
    (report.count change).changed = report.changed + if change = .unchanged then 0 else 1 := by
  cases change <;> simp [count, changed] <;> omega

variable {w w' : World} {α : Type}

theorem runOn_calm {steps : Action (StateM Trial) α} {plain : Action (StateM World) α}
    (h : FollowsIdly _ steps.run plain.run) (w : World) (journal : List String) :
    runOn steps (Trial.calm w journal) = ((runOn plain w).1, Trial.calm (runOn plain w).2 journal) :=
  h w journal

theorem writePage_calm {path content : String} {change : Change}
    (h : runOn (writePage false path content) w = (.ok change, w')) (journal : List String) :
    runOn (writePage false path content) (Trial.calm w journal) =
      (.ok change, Trial.calm w' (if change = .unchanged then journal else path :: journal)) := by
  obtain ⟨looked, hlook, hput⟩ := writePage_ok.1 h
  refine writePage_ok.2 ⟨Trial.calm looked journal, ?_, ?_⟩
  · rw [runOn_calm (couples_followsIdly.changeOf path content), hlook]
  · split at hput
    · next hsame => rw [if_pos hsame, if_pos hsame, hput]
    · next hsame =>
      obtain ⟨made, hmade, hwritten⟩ := hput
      rw [if_neg hsame, if_neg hsame]
      refine ⟨Trial.calm made journal, ?_, ?_⟩
      · exact congrArg (fun r : Bool × World => (r.1, Trial.calm r.2 journal)) hmade
      · exact congrArg (fun r : Bool × World => (r.1, Trial.calm r.2 (path :: journal))) hwritten

/-- The journal grows by the pages that are counted as created or updated. -/
theorem writePages_calm {settings : Settings} (hreal : settings.dryRun = false) {outDir : String}
    {pages : List (String × String)} {report : Report} {written : List Location}
    {r : Report × List Location}
    (h : runOn (writePages settings outDir report written pages) w = (.ok r, w'))
    (journal : List String) :
    ∃ journal', runOn (writePages settings outDir report written pages) (Trial.calm w journal) =
        (.ok r, Trial.calm w' journal') ∧
      journal'.length + report.changed = journal.length + r.1.changed := by
  induction pages generalizing w report written journal with
  | nil =>
    obtain ⟨rfl, rfl⟩ := runOn_pure_ok.1 h
    exact ⟨journal, rfl, rfl⟩
  | cons page rest ih =>
    obtain ⟨path, text⟩ := page
    obtain ⟨location, change, put, said, hlocation, hput, hsaid, hrest⟩ :=
      writePages_cons_ok.1 h
    rw [hreal] at hput
    have hnoted := writePage_calm hput journal
    generalize hnotes : (if change = .unchanged then journal
      else outputPath outDir location :: journal) = noted at hnoted
    obtain ⟨journal', hrun, hlength⟩ := ih hrest noted
    refine ⟨journal', writePages_cons_ok.2 ⟨location, change, Trial.calm put noted, Trial.calm said noted,
      hlocation, by rw [hreal, hnoted], ?_, hrun⟩, ?_⟩
    · rw [runOn_calm (couples_followsIdly.sayChange settings path change), hsaid]
    · rw [Report.changed_count] at hlength
      rw [← hnotes] at hlength
      split at hlength
      · exact hlength
      · rw [List.length_cons] at hlength
        omega

/-- A build that succeeds in a calm world notes as many files as its report counts as changed. -/
theorem build_calm {settings : Settings} (hreal : settings.dryRun = false)
    (hprune : settings.prune = false) {root : String} {config : Config} {report : Report}
    {found loaded built : World} (hfound : runOn findRoot w = (.ok root, found))
    (hloaded : runOn (loadConfig root) found = (.ok config, loaded))
    (hbuilt : runOn (buildSite settings root config) loaded = (.ok report, built))
    (hclosed : runOn (close settings report) built = (.ok (), w')) (journal : List String) :
    ∃ journal', runOn (build settings) (Trial.calm w journal) = (.ok (), Trial.calm w' journal') ∧
      journal'.length = journal.length + report.changed := by
  obtain ⟨model, site, opened, said, warned, written, hopened, hsaid, hsite, hwarned, hput⟩ :=
    (buildSite_ok hprune).1 hbuilt
  obtain ⟨journal', hrun, hlength⟩ := writePages_calm hreal hput journal
  refine ⟨journal', build_ok.2 ⟨root, config, report, Trial.calm found journal, Trial.calm loaded journal,
    Trial.calm built journal', ?_, ?_, ?_, ?_⟩, hlength⟩
  · rw [runOn_calm couples_followsIdly.findRoot, hfound]
  · rw [runOn_calm (couples_followsIdly.loadConfig root), hloaded]
  · refine (buildSite_ok hprune).2 ⟨model, site, Trial.calm opened journal, Trial.calm said journal,
      Trial.calm warned journal, written, ?_, ?_, hsite, ?_, hrun⟩
    · rw [runOn_calm (couples_followsIdly.load _ _), hopened]
    · rw [runOn_calm (couples_followsIdly.say _ _), hsaid]
    · rw [runOn_calm (couples_followsIdly.printRemarks _ _), hwarned]
  · rw [runOn_calm (couples_followsIdly.close settings report), hclosed]

end DocTree.Command
