import DocTree.Command.Run

/-! Commands are made of the steps of a session alone. A relation between the steps of two sessions
that sequencing keeps therefore holds between the runs of each command. -/
namespace DocTree.Command
open Disk

variable {m n : Type → Type} [Monad m] [Session m] [Monad n] [Session n]

/-- A relation between steps of two sessions that sequencing keeps and that holds of the steps
that only look at files or print. -/
structure Couples (R : ∀ α : Type, m α → n α → Prop) : Prop where
  pure {α : Type} (a : α) : R α (pure a) (pure a)
  bind {α β : Type} {x : m α} {y : n α} {f : α → m β} {g : α → n β} (hx : R α x y)
    (hf : ∀ a, R β (f a) (g a)) : R β (x >>= f) (y >>= g)
  workingDirectory : R _ Session.workingDirectory Session.workingDirectory
  pathExists (path : String) : R _ (Session.pathExists path) (Session.pathExists path)
  readFile (path : String) : R _ (Session.readFile path) (Session.readFile path)
  filesBelow (path : String) : R _ (Session.filesBelow path) (Session.filesBelow path)
  printLine (line : String) : R _ (Session.printLine line) (Session.printLine line)
  printTrouble (line : String) : R _ (Session.printTrouble line) (Session.printTrouble line)

/-- A relation that also holds of the steps that change files as far as these are allowed: to
make the directory of a file, to write it with a text, to remove it. -/
structure CouplesChanges (R : ∀ α : Type, m α → n α → Prop) (writes : String → String → Prop)
    (removes : String → Prop) : Prop extends Couples R where
  makeDirectory {path content : String} (h : writes path content) :
    R _ (Session.makeDirectory (parentPath path)) (Session.makeDirectory (parentPath path))
  writeFile {path content : String} (h : writes path content) :
    R _ (Session.writeFile path content) (Session.writeFile path content)
  removeFile {path : String} (h : removes path) :
    R _ (Session.removeFile path) (Session.removeFile path)

variable {R : ∀ α : Type, m α → n α → Prop} {writes : String → String → Prop}
  {removes : String → Prop} {α β : Type}

namespace Couples

theorem next (h : Couples R) {x : Action m α} {y : Action n α} {f : α → Action m β}
    {g : α → Action n β} (hx : R _ x.run y.run) (hf : ∀ a, R _ (f a).run (g a).run) :
    R _ (x >>= f).run (y >>= g).run := by
  rw [ExceptT.run_bind, ExceptT.run_bind]
  refine h.bind hx fun result => ?_
  cases result with
  | ok a => exact hf a
  | error e => exact h.pure _

theorem loadTree (h : Couples R) (file : String) :
    R _ (loadTree file : m _) (loadTree file : n _) := by
  refine h.bind (h.readFile file) fun found => ?_
  cases found with
  | error fault => exact h.pure _
  | ok text =>
    dsimp only
    split
    · split <;> exact h.pure _
    · split <;> exact h.pure _

theorem remarksOn (h : Couples R) (file : String) :
    R _ (remarksOn file : m _) (remarksOn file : n _) := by
  refine h.bind (h.loadTree file) fun tree => ?_
  cases tree <;> exact h.pure _

theorem forM_printLine (h : Couples R) (remarks : List Diagnostic) (line : Diagnostic → String) :
    R _ (remarks.forM fun remark => Session.printLine (line remark))
      (remarks.forM fun remark => Session.printLine (line remark)) := by
  induction remarks with
  | nil => exact h.pure _
  | cons remark rest ih => exact h.bind (h.printLine _) fun _ => ih

theorem validate (h : Couples R) (files : List String) :
    R _ (validate files : m _) (validate files : n _) := by
  induction files with
  | nil => exact h.pure _
  | cons file rest ih =>
    refine h.bind (h.remarksOn file) fun remarks => ?_
    dsimp only
    split
    · exact h.bind (h.printLine _) fun _ => h.bind ih fun more => h.pure _
    · exact h.bind (h.forM_printLine remarks _) fun _ => h.bind ih fun more => h.pure _

theorem finish (h : Couples R) {x : Action m Unit} {y : Action n Unit} (hx : R _ x.run y.run) :
    R _ (finish x) (finish y) := by
  refine h.bind hx fun result => ?_
  cases result with
  | ok => exact h.pure _
  | error e => exact h.bind (h.printTrouble _) fun _ => h.pure _

variable [LawfulMonad m] [LawfulMonad n]

theorem lift (h : Couples R) {x : m α} {y : n α} (hx : R α x y) :
    R _ (ExceptT.lift x : Action m α).run (ExceptT.lift y : Action n α).run := by
  rw [ExceptT.run_lift, ExceptT.run_lift, map_eq_pure_bind, map_eq_pure_bind]
  exact h.bind hx fun a => h.pure _

theorem findConfig (h : Couples R) (directories : List String) :
    R _ (findConfig directories : Action m _).run (findConfig directories : Action n _).run := by
  induction directories with
  | nil => exact h.pure _
  | cons directory outer ih =>
    rw [Command.findConfig, Command.findConfig]
    refine h.next (h.lift (h.pathExists _)) fun found => ?_
    cases found with
    | true => exact h.pure _
    | false => exact ih

theorem findRoot (h : Couples R) :
    R _ (findRoot : Action m _).run (findRoot : Action n _).run := by
  refine h.next (h.lift h.workingDirectory) fun start => ?_
  cases start with
  | none => exact h.pure _
  | some start =>
    refine h.next (h.findConfig _) fun root => ?_
    cases root with
    | none => exact h.pure _
    | some root => exact h.pure _

theorem load (h : Couples R) (parse : String → Option α) (path : String) :
    R _ (load parse path : Action m α).run (load parse path : Action n α).run := by
  refine h.next (h.lift (h.readFile path)) fun found => ?_
  cases found with
  | error fault => exact h.pure _
  | ok text =>
    dsimp only
    split
    · exact h.pure _
    · exact h.pure _

theorem loadConfig (h : Couples R) (root : String) :
    R _ (loadConfig root : Action m _).run (loadConfig root : Action n _).run := by
  refine h.next (h.lift (h.pathExists _)) fun found => ?_
  cases found with
  | true => exact h.load _ _
  | false => exact h.pure _

theorem changeOf (h : Couples R) (path content : String) :
    R _ (changeOf path content : Action m _).run (changeOf path content : Action n _).run := by
  refine h.next (h.lift (h.pathExists path)) fun found => ?_
  cases found with
  | false => exact h.pure _
  | true =>
    refine h.next (h.lift (h.readFile path)) fun present => ?_
    rcases present with fault | present
    · cases fault <;> exact h.pure _
    · exact h.pure _

theorem say (h : Couples R) (settings : Settings) (line : String) :
    R _ (say settings line : Action m _).run (say settings line : Action n _).run := by
  rw [Command.say, Command.say]
  split
  · exact h.pure _
  · exact h.lift (h.printLine line)

theorem sayChange (h : Couples R) (settings : Settings) (page : String) (change : Change) :
    R _ (sayChange settings page change : Action m _).run
      (sayChange settings page change : Action n _).run := by
  cases change with
  | created => exact h.say _ _
  | updated => exact h.say _ _
  | unchanged => exact h.pure _

theorem printRemarks (h : Couples R) (file : String) (remarks : List Diagnostic) :
    R _ (printRemarks file remarks : Action m _).run
      (printRemarks file remarks : Action n _).run := by
  induction remarks with
  | nil => exact h.pure _
  | cons remark rest ih => exact h.next (h.lift (h.printTrouble _)) fun _ => ih

theorem printLines (h : Couples R) (lines : List String) :
    R _ (printLines lines : Action m _).run (printLines lines : Action n _).run := by
  induction lines with
  | nil => exact h.pure _
  | cons line rest ih => exact h.next (h.lift (h.printLine line)) fun _ => ih

theorem close (h : Couples R) (settings : Settings) (report : Report) :
    R _ (close settings report : Action m _).run (close settings report : Action n _).run := by
  rw [Command.close, Command.close]
  split
  · exact h.pure _
  · exact h.printLines _

theorem render (h : Couples R) (options : RenderOptions) :
    R _ (render options : Action m _).run (render options : Action n _).run := by
  refine h.next (h.lift (h.loadTree options.file)) fun tree => ?_
  cases tree with
  | error fault => exact h.pure _
  | ok node =>
    dsimp only
    split
    · exact h.pure _
    · split
      · exact h.lift (h.printLine _)
      · exact h.lift (h.printLine _)

/-- Runs couple if those that build do. -/
theorem run (h : Couples R) {arguments : List String}
    (hbuild : ∀ quiet options,
      Invocation.ofArguments? arguments = some ⟨quiet, .build options⟩ →
        R _ (build ⟨options.dryRun, options.prune, quiet⟩ : Action m Unit).run
          (build ⟨options.dryRun, options.prune, quiet⟩ : Action n Unit).run) :
    R _ (run arguments : m _) (run arguments : n _) := by
  rw [Command.run, Command.run]
  split
  · next invocation hparsed =>
    obtain ⟨quiet, request⟩ := invocation
    cases request with
    | build options => exact h.finish (hbuild quiet options hparsed)
    | render options => exact h.finish (h.render options)
    | validate files => exact h.bind (h.validate files) fun failed => h.pure _
    | help => exact h.bind (h.printLine _) fun _ => h.pure _
    | version => exact h.bind (h.printLine _) fun _ => h.pure _
  · exact h.bind (h.printTrouble _) fun _ => h.pure _

end Couples

namespace CouplesChanges
variable [LawfulMonad m] [LawfulMonad n]

theorem writePage (h : CouplesChanges R writes removes) {dryRun : Bool} {path content : String}
    (hwrites : dryRun = false → writes path content) :
    R _ (writePage dryRun path content : Action m _).run
      (writePage dryRun path content : Action n _).run := by
  refine h.next (h.changeOf path content) fun change => ?_
  split
  · exact h.pure _
  · next hchanges =>
    have hallowed : writes path content := hwrites (by simp_all)
    refine h.next (h.lift (h.makeDirectory hallowed)) fun made => ?_
    cases made with
    | false => exact h.pure _
    | true =>
      refine h.next (h.lift (h.writeFile hallowed)) fun written => ?_
      cases written with
      | false => exact h.pure _
      | true => exact h.pure _

theorem writePages (h : CouplesChanges R writes removes) {settings : Settings} {outDir : String}
    {pages : List (String × String)}
    (hwrites : settings.dryRun = false → ∀ page ∈ pages, ∀ location,
      pageLocation page.1 = .ok location → writes (outputPath outDir location) page.2)
    (report : Report) (written : List Location) :
    R _ (writePages settings outDir report written pages : Action m _).run
      (writePages settings outDir report written pages : Action n _).run := by
  induction pages generalizing report written with
  | nil => exact h.pure _
  | cons page rest ih =>
    obtain ⟨path, text⟩ := page
    rw [Command.writePages, Command.writePages]
    cases hlocation : pageLocation path with
    | error e => exact h.pure _
    | ok location =>
      have hpage (hreal : settings.dryRun = false) : writes (outputPath outDir location) text :=
        hwrites hreal _ (List.mem_cons_self ..) location hlocation
      have hrest (hreal : settings.dryRun = false) :=
        (List.forall_mem_cons.1 (hwrites hreal)).2
      refine h.next (h.writePage hpage) fun change => ?_
      have hmore := ih hrest (report.count change) (location :: written)
      exact h.next (h.sayChange settings path change) fun _ => hmore

theorem removeStale (h : CouplesChanges R writes removes) {settings : Settings} {path : String}
    (hremoves : settings.dryRun = false → removes path) :
    R _ (removeStale settings path : Action m _).run
      (removeStale settings path : Action n _).run := by
  rw [Command.removeStale, Command.removeStale]
  split
  · exact h.pure _
  · next hreal =>
    refine h.next (h.lift (h.removeFile (hremoves (by simpa using hreal)))) fun removed => ?_
    cases removed <;> exact h.pure _

theorem pruneFiles (h : CouplesChanges R writes removes) {settings : Settings} {outDir : String}
    {stale : List Location}
    (hremoves : settings.dryRun = false →
      ∀ location ∈ stale, removes (outputPath outDir location)) (report : Report) :
    R _ (pruneFiles settings outDir report stale : Action m _).run
      (pruneFiles settings outDir report stale : Action n _).run := by
  induction stale generalizing report with
  | nil => exact h.pure _
  | cons location rest ih =>
    have hrest (hreal : settings.dryRun = false) :=
      (List.forall_mem_cons.1 (hremoves hreal)).2
    have hfile (hreal : settings.dryRun = false) : removes (outputPath outDir location) :=
      (List.forall_mem_cons.1 (hremoves hreal)).1
    exact h.next (h.removeStale hfile) fun _ => h.next (h.say _ _) fun _ => ih hrest _

/-- Building a site couples if writing its pages and pruning do. -/
theorem buildSite (h : CouplesChanges R writes removes) {settings : Settings} {root : String}
    {config : Config}
    (hwrites : settings.dryRun = false → ∀ model built,
      Site.renderPages model config.site = .ok built → ∀ page ∈ built.pages, ∀ location,
        pageLocation page.1 = .ok location →
          writes (outputPath (joinPath root config.outDir) location) page.2)
    (hprune : settings.prune = true → ∀ report written,
      R _ (prune settings (joinPath root config.outDir) report written : Action m _).run
        (prune settings (joinPath root config.outDir) report written : Action n _).run) :
    R _ (buildSite settings root config : Action m _).run
      (buildSite settings root config : Action n _).run := by
  refine h.next (h.load _ _) fun model => h.next (h.say _ _) fun _ => ?_
  cases hbuilt : Site.renderPages model config.site with
  | error e => exact h.pure _
  | ok built =>
    refine h.next (h.printRemarks _ _) fun _ => ?_
    refine h.next (h.writePages (fun hreal => hwrites hreal model built hbuilt) _ _) fun done => ?_
    dsimp only
    split
    · next hset => exact hprune hset _ _
    · exact h.pure _

/-- Where everything is allowed, all runs couple. -/
theorem run (h : CouplesChanges R (fun _ _ => True) fun _ => True) (arguments : List String) :
    R _ (run arguments : m _) (run arguments : n _) := by
  have hprune (settings : Settings) (outDir : String) (report : Report)
      (written : List Location) : R _ (prune settings outDir report written : Action m _).run
        (prune settings outDir report written : Action n _).run := by
    refine h.next (h.lift (h.filesBelow outDir)) fun present => ?_
    cases present with
    | none => exact h.pure _
    | some present => exact h.pruneFiles (fun _ _ _ => trivial) _
  have hbuild (settings : Settings) :
      R _ (build settings : Action m _).run (build settings : Action n _).run := by
    refine h.next h.findRoot fun root => ?_
    have hat : R _ (buildAt settings root : Action m _).run
        (buildAt settings root : Action n _).run :=
      h.next (h.loadConfig root) fun config =>
        h.buildSite (fun _ _ _ _ _ _ _ _ => trivial) fun _ => hprune _ _
    exact h.next hat fun report => h.close settings report
  exact h.toCouples.run fun _ _ _ => hbuild _

end CouplesChanges
end DocTree.Command
