import DocTree.Proofs.Coupling
import DocTree.Proofs.Files
import DocTree.Proofs.Steps

/-! A build changes no file outside its output directory, and no other command changes any, even
where steps go wrong. -/
namespace DocTree.Disk

/-- What may change, and what has to hold for nothing else to change. Both stay as they are while
nothing else has changed. -/
structure Fence where
  places : World → Location → Prop
  holds : World → Prop
  places_of_differs {w w' : World} (h : w.Differs (places w) w') : places w' = places w
  holds_of_differs {w w' : World} (hw : holds w) (h : w.Differs (places w) w') : holds w'

namespace Fence

/-- Nothing may change. -/
def shut : Fence where
  places _ _ := False
  holds _ := True
  places_of_differs _ := rfl
  holds_of_differs _ _ := trivial

/-- The steps change files only where the fence allows it. -/
def Confines (f : Fence) (α : Type) (steps _ : StateM Trial α) : Prop :=
  ∀ s : Trial, f.holds s.world → s.world.Differs (f.places s.world) (steps s).2.world

theorem couplesChanges (f : Fence) : Command.CouplesChanges f.Confines
    (fun path _ => ∀ w location, w.place path = some location → f.places w location)
    (fun path => ∀ w location, w.place path = some location → f.places w location) where
  pure _ s _ := .refl s.world
  bind {_ _ x _ g _} hx hg s hs := by
    have hfirst := hx s hs
    have hrest := hg (x s).1 (x s).2 (f.holds_of_differs hs hfirst)
    rw [f.places_of_differs hfirst] at hrest
    exact hfirst.trans hrest
  workingDirectory s _ := s.differs_look _ _
  pathExists _ s _ := s.differs_look _ _
  readFile _ s _ := s.differs_look _ _
  filesBelow _ s _ := s.differs_look _ _
  printLine _ s _ := ⟨rfl, rfl, fun _ h => absurd rfl h⟩
  printTrouble _ s _ := ⟨rfl, rfl, fun _ h => absurd rfl h⟩
  makeDirectory _ s _ := s.differs_make _
  writeFile hallowed s _ := (s.differs_write _ _).mono (hallowed s.world)
  removeFile hallowed s _ := (s.differs_remove _).mono (hallowed s.world)

/-- Only files below a directory may change, and in a dry run none. Files that are there already
have to have names, since what is listed there is taken away by its names. -/
def below (dryRun : Bool) (outDir : String) : Fence where
  places w location := dryRun = false ∧ ∃ out names, w.place outDir = some out ∧ names ≠ [] ∧
    (∀ name ∈ names, IsName name) ∧ location = out ++ names
  holds w := ∀ out, w.place outDir = some out → ∀ names, w.tree.file? (out ++ names) ≠ none →
    ∀ name ∈ names, IsName name
  places_of_differs h := by simp only [h.place]
  holds_of_differs {w w'} hw h out hout names hfile := by
    rw [h.place] at hout
    by_cases hsame : w'.tree.file? (out ++ names) = w.tree.file? (out ++ names)
    · exact hw out hout names (hsame ▸ hfile)
    · obtain ⟨-, out', names', hout', -, hnames, hlocation⟩ := h.file? _ hsame
      obtain rfl := Option.some.inj (hout.symm.trans hout')
      exact List.append_cancel_left hlocation ▸ hnames

end Fence
end DocTree.Disk

namespace DocTree.Command
open Disk

variable {s : Trial} {location : Location}

/-- A file that is named below the output directory is one that a build may change. -/
theorem below_outputPath {dryRun : Bool} {outDir : String} {names : Location}
    (hout : outDir ≠ "") (hne : names ≠ []) (hnames : ∀ name ∈ names, IsName name)
    (hreal : dryRun = false) (w : World)
    (hplace : w.place (outputPath outDir names) = some location) :
    (Fence.below dryRun outDir).places w location := by
  rw [place_outputPath hout hne hnames, Option.map_eq_some_iff] at hplace
  obtain ⟨out, hout, rfl⟩ := hplace
  exact ⟨hreal, out, names, hout, hne, hnames, rfl⟩

theorem mem_staleFiles {written present : List Location} {names : Location}
    (h : names ∈ staleFiles written present) : names ∈ present ∧ names ≠ [] := by
  obtain ⟨hmem, hmarkdown⟩ := List.mem_filter.1 h
  refine ⟨hmem, ?_⟩
  rintro rfl
  simp [isMarkdown] at hmarkdown

theorem mem_look_list {outDir : String} {present : List Location} {names : Location}
    (h : (s.look (fun w => some (w.list outDir)) none).1 = some present) (hmem : names ∈ present)
    (hne : names ≠ []) :
    ∃ out, s.world.place outDir = some out ∧ s.world.tree.file? (out ++ names) ≠ none := by
  have hpresent : present = s.world.list outDir := by
    rw [Trial.look] at h
    split at h
    · exact (Option.some.inj h).symm
    · cases h
  rw [hpresent, World.list] at hmem
  split at hmem
  · next out hlocate =>
    split at hmem
    · exact ⟨out, World.place_of_locate hlocate, Tree.file?_of_mem_filesBelow hmem hne⟩
    · cases hmem
  · cases hmem

/-- The files that pruning takes away are those listed below the output directory. -/
theorem confines_prune {settings : Settings} {outDir : String} (hout : outDir ≠ "")
    (report : Report) (written : List Location) :
    (Fence.below settings.dryRun outDir).Confines _
      (prune settings outDir report written : Action (StateM Trial) Report).run
      (prune settings outDir report written : Action (StateM Trial) Report).run := by
  intro s hs
  have hlist : runOn (Session.filesBelow outDir) s =
      (.ok (s.look (fun w => some (w.list outDir)) none).1, s.next s.world) := rfl
  show s.world.Differs _ (runOn (prune settings outDir report written) s).2.world
  rw [prune, runOn_bind, hlist]
  cases hpresent : (s.look (fun w => some (w.list outDir)) none).1 with
  | none => exact .refl _
  | some present =>
    refine (Fence.below settings.dryRun outDir).couplesChanges.pruneFiles ?_ report
      (s.next s.world) hs
    intro hreal names hstale w l hplace
    obtain ⟨hmem, hne⟩ := mem_staleFiles hstale
    obtain ⟨out, hout', hfile⟩ := mem_look_list hpresent hmem hne
    exact below_outputPath hout hne (hs out hout' names hfile) hreal w hplace

theorem confines_buildSite (settings : Settings) (root : String) (config : Config) :
    (Fence.below settings.dryRun (joinPath root config.outDir)).Confines _
      (buildSite settings root config : Action (StateM Trial) Report).run
      (buildSite settings root config : Action (StateM Trial) Report).run := by
  have hout : joinPath root config.outDir ≠ "" := joinPath_ne_empty config.outDir
  refine (Fence.couplesChanges _).buildSite (fun hreal _ _ _ _ _ names hpage w l => ?_)
    fun _ => confines_prune hout
  obtain ⟨hne, hnames⟩ := isName_of_pageLocation hpage
  exact below_outputPath hout hne hnames hreal w

/-- What a build has changed is below the output directory of the configuration that it has
found. -/
theorem below_of_build {settings : Settings} (hnamed : s.world.tree.Named)
    (hchanged : (runOn (build settings) s).2.world.tree.file? location ≠
      s.world.tree.file? location) :
    ∃ root config, (runOn findRoot s).1 = .ok root ∧
      (runOn (loadConfig root) (runOn findRoot s).2).1 = .ok config ∧
      (Fence.below settings.dryRun (joinPath root config.outDir)).places s.world location := by
  have hshut := Fence.shut.couplesChanges
  have hfind : s.world.Differs _ (runOn findRoot s).2.world := hshut.findRoot s trivial
  rw [runOn_build] at hchanged
  rcases hroot : runOn findRoot s with ⟨e | root, s₁⟩
  · rw [hroot] at hchanged hfind
    exact (hfind.file? location hchanged).elim
  rw [hroot] at hchanged hfind
  have hload : s.world.Differs _ (runOn (loadConfig root) s₁).2.world :=
    hfind.trans (hshut.loadConfig root s₁ trivial)
  rcases hconfig : runOn (loadConfig root) s₁ with ⟨e | config, s₂⟩
  · simp only [hconfig] at hchanged hload
    exact (hload.file? location hchanged).elim
  simp only [hconfig] at hchanged hload
  refine ⟨root, config, rfl, congrArg Prod.fst hconfig, ?_⟩
  let fence := Fence.below settings.dryRun (joinPath root config.outDir)
  have hsame : s.world.Differs (fence.places s.world) s₂.world := hload.mono fun _ h => h.elim
  have hholds : fence.holds s.world := fun _ _ _ hfile name hname =>
    hnamed.of_file? hfile name (List.mem_append_right _ hname)
  have hrest : fence.Confines _ (buildSite settings root config >>= close settings).run
      (buildSite settings root config >>= close settings).run :=
    fence.couplesChanges.next (confines_buildSite settings root config)
      (fence.couplesChanges.close settings)
  have hbuilt := hrest s₂ (fence.holds_of_differs hholds hsame)
  rw [fence.places_of_differs hsame] at hbuilt
  exact (hsame.trans hbuilt).file? location hchanged

/-- However a run of the program ends, and whatever goes wrong in it: a file that it has created,
changed or deleted stands below the output directory of the configuration that it has found, and
the command was to build, and not to try what a build would do. -/
theorem run_confined (arguments : List String) {s : Trial} (hnamed : s.world.tree.Named)
    {location : Location} (hchanged : ((run arguments : StateM Trial UInt32) s).2.world.tree.file?
      location ≠ s.world.tree.file? location) :
    ∃ quiet options root config out names,
      Invocation.ofArguments? arguments = some ⟨quiet, .build options⟩ ∧
      options.dryRun = false ∧
      (runOn findRoot s).1 = .ok root ∧
      (runOn (loadConfig root) (runOn findRoot s).2).1 = .ok config ∧
      s.world.place (joinPath root config.outDir) = some out ∧
      names ≠ [] ∧ (∀ name ∈ names, IsName name) ∧ location = out ++ names := by
  by_cases hparsed :
      ∃ quiet options, Invocation.ofArguments? arguments = some ⟨quiet, .build options⟩
  · obtain ⟨quiet, options, hparsed⟩ := hparsed
    rw [run_build hparsed, finish_apply] at hchanged
    have hbuild : (runOn (build ⟨options.dryRun, options.prune, quiet⟩) s).2.world.tree.file?
        location ≠ s.world.tree.file? location := by
      rcases hrun : runOn (build ⟨options.dryRun, options.prune, quiet⟩) s with ⟨e | _, s'⟩
      · rw [hrun] at hchanged
        exact hchanged
      · rw [hrun] at hchanged
        exact hchanged
    obtain ⟨root, config, hroot, hconfig, hreal, out, names, hplace, hne, hnames, hlocation⟩ :=
      below_of_build hnamed hbuild
    exact ⟨quiet, options, root, config, out, names, hparsed, hreal, hroot, hconfig, hplace, hne,
      hnames, hlocation⟩
  · have hread : s.world.Differs _ ((run arguments : StateM Trial UInt32) s).2.world :=
      Fence.shut.couplesChanges.toCouples.run
        (fun quiet options h => absurd ⟨quiet, options, h⟩ hparsed) s trivial
    exact (hread.file? location hchanged).elim

/-- A directory with a site of one page. -/
def onePageSite : Tree where
  entries := [(["api.json"], .file "\x7b\"packageName\": \"p\", \"items\": []\x7d"),
    (["apidoc.json"], .file "\x7b\"outDir\": \"out\", \"pages\": [\x7b\"path\": \"./core.md\",
      \"title\": \"Core\"\x7d]\x7d")]
  distinct := by decide

/-- The disk is full when the page is written, and only its first characters are. -/
theorem run_confined_diskFull :
    let s : Trial := ⟨⟨onePageSite, "", [], "", ""⟩, List.replicate 7 none ++ [some (.cut 4)], []⟩
    ((run ["build"] : StateM Trial UInt32) s).2.world.tree.file? ["out", "core.md"] =
        some (.file "<!--") ∧
      ∃ quiet options root config out names,
        Invocation.ofArguments? ["build"] = some ⟨quiet, .build options⟩ ∧
        options.dryRun = false ∧
        (runOn findRoot s).1 = .ok root ∧
        (runOn (loadConfig root) (runOn findRoot s).2).1 = .ok config ∧
        s.world.place (joinPath root config.outDir) = some out ∧
        names ≠ [] ∧ (∀ name ∈ names, IsName name) ∧ ["out", "core.md"] = out ++ names := by
  intro s
  have hwritten : ((run ["build"] : StateM Trial UInt32) s).2.world.tree.file?
      ["out", "core.md"] = some (.file "<!--") := by decide +kernel
  refine ⟨hwritten, run_confined ["build"] (by decide +kernel) ?_⟩
  rw [hwritten]
  decide +kernel

end DocTree.Command
