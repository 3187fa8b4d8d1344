import DocTree.Command.Run

/-! What the steps of a command do one after the other, in any session whose steps act on a state.
A step either ends a command with its failure or hands its result and the state it leaves on. -/
namespace DocTree.Command
open Disk

variable {σ α β : Type} {s s' : σ}

/-- What steps give and leave when they start from a state. -/
abbrev runOn (steps : Action (StateM σ) α) (s : σ) : Except Failure α × σ := steps s

theorem runOn_bind (x : Action (StateM σ) α) (f : α → Action (StateM σ) β) (s : σ) :
    runOn (x >>= f) s =
      match runOn x s with
      | (.ok a, s') => runOn (f a) s'
      | (.error e, s') => (.error e, s') := by
  obtain ⟨result, s', h⟩ : ∃ result s', x s = (result, s') := ⟨_, _, rfl⟩
  simp only [runOn, bind, ExceptT.bind, ExceptT.mk, StateT.bind]
  rw [h]
  cases result <;> rfl

theorem runOn_lift (x : StateM σ α) (s : σ) :
    runOn (ExceptT.lift x) s = (.ok (x s).1, (x s).2) := rfl

theorem runOn_bind_ok {x : Action (StateM σ) α} {f : α → Action (StateM σ) β} {b : β} :
    runOn (x >>= f) s = (.ok b, s') ↔
      ∃ a between, runOn x s = (.ok a, between) ∧ runOn (f a) between = (.ok b, s') := by
  rw [runOn_bind]
  rcases runOn x s with ⟨e | a, between⟩
  · simp
  · constructor
    · exact fun h => ⟨a, between, rfl, h⟩
    · rintro ⟨a', between', hfirst, h⟩
      cases hfirst
      exact h

/-- Whether steps do not fail and what they give and leave passes a test. -/
def comesTo (steps : Action (StateM σ) α) (s : σ) (test : α → σ → Bool) : Bool :=
  match runOn steps s with
  | (.ok a, s') => test a s'
  | (.error _, _) => false

theorem comesTo_iff {steps : Action (StateM σ) α} {test : α → σ → Bool} :
    comesTo steps s test ↔ ∃ a s', runOn steps s = (.ok a, s') ∧ test a s' := by
  rw [comesTo]
  rcases runOn steps s with ⟨e | a, left⟩
  · exact iff_of_false nofun nofun
  · constructor
    · exact fun h => ⟨a, left, rfl, h⟩
    · rintro ⟨a', s', ⟨⟩, h⟩
      exact h

theorem runOn_pure_ok {a b : α} : runOn (pure a) s = (.ok b, s') ↔ a = b ∧ s = s' := by
  show ((.ok a : Except Failure α), s) = (.ok b, s') ↔ _
  simp

/-- Steps that go on only if one of them has worked. -/
theorem runOn_unless_ok {step : StateM σ Bool} {next : Action (StateM σ) α} {e : Failure} {a : α} :
    runOn (do if ← ExceptT.lift step then next else throw e) s = (.ok a, s') ↔
      ∃ between, step s = (true, between) ∧ runOn next between = (.ok a, s') := by
  rw [runOn_bind, runOn_lift]
  rcases step s with ⟨done, between⟩
  cases done with
  | false => exact iff_of_false nofun nofun
  | true =>
    constructor
    · exact fun h => ⟨between, rfl, h⟩
    · rintro ⟨between', hstep, h⟩
      cases hstep
      exact h

variable [Session (StateM σ)]

theorem writePage_ok {path content : String} {change : Change} :
    runOn (writePage false path content) s = (.ok change, s') ↔
      ∃ looked, runOn (changeOf path content) s = (.ok change, looked) ∧
        if change = .unchanged then s' = looked
        else ∃ made,
          (Session.makeDirectory (parentPath path) : StateM σ Bool) looked = (true, made) ∧
          (Session.writeFile path content : StateM σ Bool) made = (true, s') := by
  rw [writePage, runOn_bind_ok]
  constructor
  · rintro ⟨found, looked, hlook, h⟩
    by_cases hsame : found = .unchanged
    · rw [if_pos (by simp [hsame])] at h
      obtain ⟨rfl, rfl⟩ := runOn_pure_ok.1 h
      exact ⟨looked, hlook, by rw [if_pos hsame]⟩
    · rw [if_neg (by simpa using hsame)] at h
      obtain ⟨made, hmade, h⟩ := runOn_unless_ok.1 h
      obtain ⟨put, hput, h⟩ := runOn_unless_ok.1 h
      obtain ⟨rfl, rfl⟩ := runOn_pure_ok.1 h
      exact ⟨looked, hlook, by rw [if_neg hsame]; exact ⟨made, hmade, hput⟩⟩
  · rintro ⟨looked, hlook, h⟩
    refine ⟨change, looked, hlook, ?_⟩
    split at h
    · next hsame =>
      rw [if_pos (by simp [hsame])]
      exact runOn_pure_ok.2 ⟨rfl, h.symm⟩
    · next hsame =>
      obtain ⟨made, hmade, hput⟩ := h
      rw [if_neg (by simpa using hsame)]
      exact runOn_unless_ok.2 ⟨made, hmade, runOn_unless_ok.2 ⟨s', hput, rfl⟩⟩

theorem writePages_cons_ok {settings : Settings} {outDir page text : String} {report : Report}
    {written : List Location} {rest : List (String × String)} {r : Report × List Location} :
    runOn (writePages settings outDir report written ((page, text) :: rest)) s = (.ok r, s') ↔
      ∃ location change put said, pageLocation page = .ok location ∧
        runOn (writePage settings.dryRun (outputPath outDir location) text) s =
          (.ok change, put) ∧
        runOn (sayChange settings page change) put = (.ok (), said) ∧
        runOn (writePages settings outDir (report.count change) (location :: written) rest) said =
          (.ok r, s') := by
  rw [writePages]
  cases hlocation : pageLocation page with
  | error e => exact iff_of_false nofun (by rintro ⟨_, _, _, _, ⟨⟩, -⟩)
  | ok location =>
    dsimp only
    rw [runOn_bind_ok]
    constructor
    · rintro ⟨change, put, hput, h⟩
      obtain ⟨⟨⟩, said, hsaid, h⟩ := runOn_bind_ok.1 h
      exact ⟨location, change, put, said, rfl, hput, hsaid, h⟩
    · rintro ⟨location', change, put, said, ⟨⟩, hput, hsaid, h⟩
      exact ⟨change, put, hput, runOn_bind_ok.2 ⟨(), said, hsaid, h⟩⟩

/-- What is said of a file that is pruned. -/
def pruneLine (name : String) : String := s!"  prune {name}"

theorem pruneFiles_cons_ok {settings : Settings} {outDir : String} {report report' : Report}
    {location : Location} {rest : List Location} :
    runOn (pruneFiles settings outDir report (location :: rest)) s = (.ok report', s') ↔
      ∃ removed said,
        runOn (removeStale settings (outputPath outDir location)) s = (.ok (), removed) ∧
        runOn (say settings (pruneLine ("/".intercalate location))) removed = (.ok (), said) ∧
        runOn (pruneFiles settings outDir { report with pruned := report.pruned + 1 } rest) said =
          (.ok report', s') := by
  rw [pruneFiles, runOn_bind_ok]
  constructor
  · rintro ⟨⟨⟩, removed, hremoved, h⟩
    obtain ⟨⟨⟩, said, hsaid, h⟩ := runOn_bind_ok.1 h
    exact ⟨removed, said, hremoved, hsaid, h⟩
  · rintro ⟨removed, said, hremoved, hsaid, h⟩
    exact ⟨(), removed, hremoved, runOn_bind_ok.2 ⟨(), said, hsaid, h⟩⟩

/-- The number of remarks that are more than a hint. -/
def warningsIn (remarks : List Diagnostic) : Nat :=
  remarks.countP fun remark => remark.severity != .info

theorem buildSite_ok {settings : Settings} (hprune : settings.prune = false) {root : String}
    {config : Config} {report : Report} :
    runOn (buildSite settings root config) s = (.ok report, s') ↔
      ∃ model built loaded said warned written,
        runOn (load Api.Model.ofJsonText? (joinPath root config.model)) s = (.ok model, loaded) ∧
        runOn (say settings s!"apidoc {model.package} ({config.site.pages.length} pages)") loaded =
          (.ok (), said) ∧
        Site.renderPages model config.site = .ok built ∧
        runOn (printRemarks config.model built.remarks) said = (.ok (), warned) ∧
        runOn (writePages settings (joinPath root config.outDir)
          { warnings := warningsIn built.remarks } [] built.pages) warned =
            (.ok (report, written), s') := by
  rw [buildSite, runOn_bind_ok]
  constructor
  · rintro ⟨model, loaded, hload, h⟩
    obtain ⟨⟨⟩, said, hsaid, h⟩ := runOn_bind_ok.1 h
    cases hbuilt : Site.renderPages model config.site with
    | error e => rw [hbuilt] at h; cases h
    | ok built =>
      rw [hbuilt] at h
      obtain ⟨⟨⟩, warned, hwarned, h⟩ := runOn_bind_ok.1 h
      obtain ⟨⟨report', written⟩, put, hput, h⟩ := runOn_bind_ok.1 h
      rw [hprune] at h
      obtain ⟨rfl, rfl⟩ := runOn_pure_ok.1 h
      exact ⟨model, built, loaded, said, warned, written, hload, hsaid, hbuilt, hwarned, hput⟩
  · rintro ⟨model, built, loaded, said, warned, written, hload, hsaid, hbuilt, hwarned, hput⟩
    refine ⟨model, loaded, hload, runOn_bind_ok.2 ⟨(), said, hsaid, ?_⟩⟩
    rw [hbuilt]
    refine runOn_bind_ok.2 ⟨(), warned, hwarned, runOn_bind_ok.2 ⟨_, s', hput, ?_⟩⟩
    rw [hprune]
    exact runOn_pure_ok.2 ⟨rfl, rfl⟩

theorem build_ok {settings : Settings} :
    runOn (build settings) s = (.ok (), s') ↔
      ∃ root config report found loaded built,
        runOn findRoot s = (.ok root, found) ∧
        runOn (loadConfig root) found = (.ok config, loaded) ∧
        runOn (buildSite settings root config) loaded = (.ok report, built) ∧
        runOn (close settings report) built = (.ok (), s') := by
  rw [build, runOn_bind_ok]
  constructor
  · rintro ⟨root, found, hfound, h⟩
    obtain ⟨report, built, hat, hclosed⟩ := runOn_bind_ok.1 h
    obtain ⟨config, loaded, hloaded, hbuilt⟩ := runOn_bind_ok.1 hat
    exact ⟨root, config, report, found, loaded, built, hfound, hloaded, hbuilt, hclosed⟩
  · rintro ⟨root, config, report, found, loaded, built, hfound, hloaded, hbuilt, hclosed⟩
    exact ⟨root, found, hfound, runOn_bind_ok.2
      ⟨report, built, runOn_bind_ok.2 ⟨config, loaded, hloaded, hbuilt⟩, hclosed⟩⟩

/-- A build in its three parts: finding the configuration, reading it, building its site. -/
theorem runOn_build (settings : Settings) (s : σ) :
    runOn (build settings) s =
      match runOn findRoot s with
      | (.error e, s') => (.error e, s')
      | (.ok root, s') =>
        match runOn (loadConfig root) s' with
        | (.error e, s') => (.error e, s')
        | (.ok config, s') => runOn (buildSite settings root config >>= close settings) s' := by
  rw [build, runOn_bind]
  rcases runOn findRoot s with ⟨e | root, s'⟩
  · rfl
  · dsimp only
    rw [runOn_bind, buildAt, runOn_bind]
    rcases runOn (loadConfig root) s' with ⟨e | config, s'⟩
    · rfl
    · exact (runOn_bind _ _ _).symm

theorem run_build {arguments : List String} {quiet : Bool}
    {options : BuildOptions}
    (h : Invocation.ofArguments? arguments = some ⟨quiet, .build options⟩) :
    (run arguments : StateM σ UInt32) =
      finish (build ⟨options.dryRun, options.prune, quiet⟩) := by
  rw [run, h]
  rfl

theorem finish_apply (steps : Action (StateM σ) Unit) (s : σ) :
    finish steps s =
      match runOn steps s with
      | (.ok (), s') => (0, s')
      | (.error e, s') =>
        (1, ((Session.printTrouble s!"Error: {e.message}" : StateM σ Unit) s').2) := by
  obtain ⟨result, s', h⟩ : ∃ result s', steps s = (result, s') := ⟨_, _, rfl⟩
  simp only [finish, runOn, ExceptT.run, bind, StateT.bind]
  rw [h]
  cases result <;> rfl

/-- A build that ends with the code of a success has been done. -/
theorem run_build_zero {arguments : List String} {quiet : Bool} {options : BuildOptions}
    (h : Invocation.ofArguments? arguments = some ⟨quiet, .build options⟩) :
    (run arguments : StateM σ UInt32) s = (0, s') ↔
      runOn (build ⟨options.dryRun, options.prune, quiet⟩) s = (.ok (), s') := by
  rw [run_build h, finish_apply]
  rcases runOn (build ⟨options.dryRun, options.prune, quiet⟩) s with ⟨e | ⟨⟩, left⟩
  · exact iff_of_false nofun nofun
  · constructor <;> rintro ⟨⟩ <;> rfl

/-- The settings of a build without flags. -/
abbrev noFlags : Settings := ⟨false, false, false⟩

theorem run_build_ok :
    (run ["build"] : StateM σ UInt32) s = (0, s') ↔ runOn (build noFlags) s = (.ok (), s') := by
  have hparsed : Invocation.ofArguments? ["build"] = some ⟨false, .build {}⟩ := by decide
  rw [run_build_zero hparsed]

end DocTree.Command
