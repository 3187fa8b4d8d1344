import DocTree.Proofs.Growth
import DocTree.Proofs.Journal

/-! The plan of a build: what it takes from the files before it writes any. A build without flags
makes its plan and writes the pages of it, and where nothing has come but pages, the plan is as
before. -/
namespace DocTree.Command
open Disk

/-- What a build takes from the files: where its configuration is, what it says, the model, and
the site that the two give. -/
structure Plan where
  root : String
  config : Config
  model : Api.Model
  built : Site.Built String

namespace Plan

def outDir (plan : Plan) : String := joinPath plan.root plan.config.outDir

/-- Pages at one place have one text. -/
def Agrees (plan : Plan) : Prop :=
  ∀ p ∈ plan.built.pages, ∀ q ∈ plan.built.pages, pageLocation p.1 = pageLocation q.1 → p.2 = q.2

def opening (plan : Plan) : String :=
  s!"apidoc {plan.model.package} ({plan.config.site.pages.length} pages)"

/-- The report on a build that has found every page as it is. -/
def idleReport (plan : Plan) : Report :=
  { unchanged := plan.built.pages.length, warnings := warningsIn plan.built.remarks }

/-- The world when the pages are about to be written. -/
def opened (plan : Plan) (w : World) : World :=
  (plan.built.remarks.map (remarkLine plan.config.model)).foldl World.withTrouble
    (w.withOutput plan.opening)

end Plan

/-- The plan of a build in a world, if it has one. -/
def planIn (w : World) : Option Plan := do
  let root ← (ancestors w.here).find? fun directory => w.exists? (joinPath directory configFile)
  let config ← (w.read (joinPath root configFile)).toOption.bind Config.ofJsonText?
  let model ← (w.read (joinPath root config.model)).toOption.bind Api.Model.ofJsonText?
  let built ← (Site.renderPages model config.site).toOption
  return ⟨root, config, model, built⟩

variable {w w' : World} {plan : Plan}

theorem planIn_eq_some : planIn w = some plan ↔
    (ancestors w.here).find? (fun directory => w.exists? (joinPath directory configFile)) =
        some plan.root ∧
      (∃ text, w.read (joinPath plan.root configFile) = .ok text ∧
        Config.ofJsonText? text = some plan.config) ∧
      (∃ text, w.read (joinPath plan.root plan.config.model) = .ok text ∧
        Api.Model.ofJsonText? text = some plan.model) ∧
      Site.renderPages plan.model plan.config.site = .ok plan.built := by
  have hread {α : Type} (parse : String → Option α) (path : String) (a : α) :
      (w.read path).toOption.bind parse = some a ↔
        ∃ text, w.read path = .ok text ∧ parse text = some a := by
    cases w.read path <;> simp [Except.toOption]
  have hbuilt (model : Api.Model) (config : Config) (built : Site.Built String) :
      (Site.renderPages model config.site).toOption = some built ↔
        Site.renderPages model config.site = .ok built := by
    cases Site.renderPages model config.site <;> simp [Except.toOption]
  simp only [planIn, Option.bind_eq_bind, Option.bind_eq_some_iff, hread, hbuilt]
  constructor
  · rintro ⟨root, hroot, config, hconfig, model, hmodel, built, hbuilt, ⟨⟩⟩
    exact ⟨hroot, hconfig, hmodel, hbuilt⟩
  · rintro ⟨hroot, hconfig, hmodel, hbuilt⟩
    exact ⟨plan.root, hroot, plan.config, hconfig, plan.model, hmodel, plan.built, hbuilt, rfl⟩

variable {root path : String} {config : Config} {report : Report} {α : Type}

theorem findConfig_world (directories : List String) (w : World) :
    runOn (findConfig directories) w =
      (.ok (directories.find? fun d => w.exists? (joinPath d configFile)), w) := by
  induction directories with
  | nil => rfl
  | cons directory outer ih =>
    have hlook : runOn (Session.pathExists (joinPath directory configFile)) w =
        (.ok (w.exists? (joinPath directory configFile)), w) := rfl
    rw [findConfig, runOn_bind, hlook, List.find?_cons]
    cases w.exists? (joinPath directory configFile) with
    | true => rfl
    | false => exact ih

theorem findRoot_ok : runOn findRoot w = (.ok root, w') ↔
    (ancestors w.here).find? (fun d => w.exists? (joinPath d configFile)) = some root ∧
      w' = w := by
  have hhere : runOn Session.workingDirectory w = (.ok (some w.here), w) := rfl
  rw [findRoot, runOn_bind, hhere]
  dsimp only
  rw [runOn_bind, findConfig_world]
  cases (ancestors w.here).find? fun d => w.exists? (joinPath d configFile) with
  | none => exact iff_of_false nofun nofun
  | some found =>
    refine runOn_pure_ok.trans ?_
    simp [eq_comm]

theorem load_ok {parse : String → Option α} {a : α} :
    runOn (load parse path) w = (.ok a, w') ↔
      (∃ text, w.read path = .ok text ∧ parse text = some a) ∧ w' = w := by
  have hread : runOn (Session.readFile path) w = (.ok (w.read path), w) := rfl
  rw [load, runOn_bind, hread]
  cases w.read path with
  | error fault => exact iff_of_false nofun nofun
  | ok text =>
    dsimp only
    cases hparse : parse text with
    | none => exact iff_of_false nofun (by rintro ⟨⟨_, ⟨⟩, hsome⟩, -⟩; simp [hparse] at hsome)
    | some value =>
      refine runOn_pure_ok.trans ?_
      constructor
      · rintro ⟨rfl, rfl⟩
        exact ⟨⟨text, rfl, hparse⟩, rfl⟩
      · rintro ⟨⟨_, ⟨⟩, hsome⟩, rfl⟩
        exact ⟨Option.some.inj (hparse.symm.trans hsome), rfl⟩

theorem loadConfig_ok (h : w.exists? (joinPath root configFile)) :
    runOn (loadConfig root) w = (.ok config, w') ↔
      (∃ text, w.read (joinPath root configFile) = .ok text ∧
        Config.ofJsonText? text = some config) ∧ w' = w := by
  have hlook : runOn (Session.pathExists (joinPath root configFile)) w =
      (.ok (w.exists? (joinPath root configFile)), w) := rfl
  rw [loadConfig, runOn_bind, hlook, h]
  exact load_ok

/-- What a world tells of a page's file. -/
def changeIn (w : World) (path content : String) : Except Failure Change :=
  if w.exists? path then
    match w.read path with
    | .ok present => .ok (if present = content then .unchanged else .updated)
    | .error .notText => .ok .updated
    | .error _ => .error (.unreadable path)
  else .ok .created

theorem changeOf_world (w : World) (path content : String) :
    runOn (changeOf path content) w = (changeIn w path content, w) := by
  have hlook : runOn (Session.pathExists path) w = (.ok (w.exists? path), w) := rfl
  have hread : runOn (Session.readFile path) w = (.ok (w.read path), w) := rfl
  rw [changeOf, runOn_bind, hlook, changeIn]
  cases w.exists? path with
  | false => rfl
  | true =>
    simp only [if_true, runOn_bind, hread]
    cases w.read path with
    | error fault => cases fault <;> rfl
    | ok present => rfl

theorem printRemarks_world (file : String) (remarks : List Diagnostic) (w : World) :
    runOn (printRemarks file remarks) w =
      (.ok (), (remarks.map (remarkLine file)).foldl World.withTrouble w) := by
  induction remarks generalizing w with
  | nil => rfl
  | cons remark rest ih =>
    have hprint : runOn (Session.printTrouble (remarkLine file remark)) w =
        (.ok (), w.withTrouble (remarkLine file remark)) := rfl
    rw [printRemarks, runOn_bind, hprint]
    exact ih _

theorem printLines_world (lines : List String) (w : World) :
    runOn (printLines lines) w = (.ok (), lines.foldl World.withOutput w) := by
  induction lines generalizing w with
  | nil => rfl
  | cons line rest ih =>
    have hprint : runOn (Session.printLine line) w = (.ok (), w.withOutput line) := rfl
    rw [printLines, runOn_bind, hprint]
    exact ih _

theorem exists?_of_findRoot
    (h : (ancestors w.here).find? (fun d => w.exists? (joinPath d configFile)) = some root) :
    w.exists? (joinPath root configFile) := by
  simpa using List.find?_some h

/-- How a build without flags goes on from a plan. -/
def Plan.Writes (plan : Plan) (w : World) (report : Report) (built : World) : Prop :=
  ∃ written, runOn (writePages noFlags plan.outDir { warnings := warningsIn plan.built.remarks } []
    plan.built.pages) (plan.opened w) = (.ok (report, written), built)

theorem buildSite_of_planIn (h : planIn w = some plan) {built : World} :
    runOn (buildSite noFlags plan.root plan.config) w = (.ok report, built) ↔
      plan.Writes w report built := by
  obtain ⟨-, -, ⟨text, hread, hparse⟩, hbuilt⟩ := planIn_eq_some.1 h
  rw [buildSite_ok rfl]
  constructor
  · rintro ⟨model, site, loaded, said, warned, written, hloaded, hsaid, hsite, hwarned, hput⟩
    obtain ⟨⟨text', hread', hparse'⟩, rfl⟩ := load_ok.1 hloaded
    obtain rfl := Except.ok.inj (hread.symm.trans hread')
    obtain rfl := Option.some.inj (hparse.symm.trans hparse')
    obtain rfl := Except.ok.inj (hbuilt.symm.trans hsite)
    cases hsaid
    rw [printRemarks_world] at hwarned
    cases hwarned
    exact ⟨written, hput⟩
  · rintro ⟨written, hput⟩
    exact ⟨plan.model, plan.built, w, _, _, written, load_ok.2 ⟨⟨text, hread, hparse⟩, rfl⟩, rfl,
      hbuilt, printRemarks_world _ _ _, hput⟩

/-- A build without flags: its plan is made, and the pages of the plan are written. -/
theorem build_world : runOn (build noFlags) w = (.ok (), w') ↔
    ∃ plan report built, planIn w = some plan ∧ plan.Writes w report built ∧
      w' = (report.summary false).foldl World.withOutput built := by
  rw [build_ok]
  constructor
  · rintro ⟨root, config, report, found, loaded, built, hroot, hconfig, hbuilt, hclosed⟩
    obtain ⟨hfind, rfl⟩ := findRoot_ok.1 hroot
    obtain ⟨hread, rfl⟩ := (loadConfig_ok (exists?_of_findRoot hfind)).1 hconfig
    obtain ⟨model, site, opened, -, -, -, hmodel, -, hsite, -⟩ := (buildSite_ok rfl).1 hbuilt
    obtain ⟨hmodel, rfl⟩ := load_ok.1 hmodel
    have hplan : planIn opened = some ⟨root, config, model, site⟩ :=
      planIn_eq_some.2 ⟨hfind, hread, hmodel, hsite⟩
    refine ⟨_, report, built, hplan, (buildSite_of_planIn hplan).1 hbuilt, ?_⟩
    rw [close, if_neg (by decide), printLines_world] at hclosed
    cases hclosed
    rfl
  · rintro ⟨plan, report, built, hplan, hwrites, rfl⟩
    obtain ⟨hfind, hread, -, -⟩ := planIn_eq_some.1 hplan
    refine ⟨plan.root, plan.config, report, w, w, built, findRoot_ok.2 ⟨hfind, rfl⟩,
      (loadConfig_ok (exists?_of_findRoot hfind)).2 ⟨hread, rfl⟩,
      (buildSite_of_planIn hplan).2 hwrites, ?_⟩
    rw [close, if_neg (by decide), printLines_world]

theorem foldl_withOutput (lines : List String) (w : World) :
    lines.foldl World.withOutput w =
      { w with output := w.output ++ String.join (lines.map (· ++ "\n")) } := by
  induction lines generalizing w with
  | nil => simp
  | cons line rest ih =>
    rw [List.foldl_cons, ih, World.withOutput, List.map_cons]
    simp [String.join_cons, String.append_assoc]

theorem foldl_withTrouble (lines : List String) (w : World) :
    lines.foldl World.withTrouble w =
      { w with trouble := w.trouble ++ String.join (lines.map (· ++ "\n")) } := by
  induction lines generalizing w with
  | nil => simp
  | cons line rest ih =>
    rw [List.foldl_cons, ih, World.withTrouble, List.map_cons]
    simp [String.join_cons, String.append_assoc]

theorem read_opened (plan : Plan) (w : World) (path : String) :
    (plan.opened w).read path = w.read path := by
  rw [Plan.opened, foldl_withTrouble]
  rfl

theorem read_foldl_withOutput (lines : List String) (w : World) (path : String) :
    (lines.foldl World.withOutput w).read path = w.read path := by
  rw [foldl_withOutput]
  rfl

theorem planIn_foldl_withOutput (lines : List String) (w : World) :
    planIn (lines.foldl World.withOutput w) = planIn w := by
  rw [foldl_withOutput]
  rfl

theorem grows_opened (plan : Plan) (w : World) : w.Grows (fun _ => True) (plan.opened w) := by
  rw [Plan.opened, foldl_withTrouble]
  exact ⟨rfl, rfl, fun _ h => h, fun _ h => h, fun _ _ h => .inl h⟩

/-- A plan that is carried out in a calm world. -/
theorem build_calm_of_plan {built : World} (hplan : planIn w = some plan)
    (hwrites : plan.Writes w report built) :
    ∃ journal, runOn (build noFlags) (Trial.calm w []) =
        (.ok (), Trial.calm ((report.summary false).foldl World.withOutput built) journal) ∧
      journal.length = report.changed := by
  obtain ⟨hfind, hread, -, -⟩ := planIn_eq_some.1 hplan
  have hclosed : runOn (close noFlags report) built =
      (.ok (), (report.summary false).foldl World.withOutput built) := by
    rw [close, if_neg (by decide), printLines_world]
  obtain ⟨journal, hrun, hlength⟩ := build_calm rfl rfl (findRoot_ok.2 ⟨hfind, rfl⟩)
    ((loadConfig_ok (exists?_of_findRoot hfind)).2 ⟨hread, rfl⟩)
    ((buildSite_of_planIn hplan).2 hwrites) hclosed []
  exact ⟨journal, hrun, by simpa using hlength⟩

/-- The places where a configuration is looked for can be reached. -/
def Entered (w : World) : Prop :=
  ∀ directory ∈ ancestors w.here, ∃ l, w.locate (joinPath directory configFile) = .ok l

/-- A text that is read and makes sense is no new one, where new ones make none. -/
theorem read_of_grows {news : String → Prop} {parse : String → Option α} {text : String} {a : α}
    (hnews : ∀ text, news text → parse text = none) (h : w.Grows news w') {l : Location}
    (hl : w.locate path = .ok l) (hread : w'.read path = .ok text) (hparse : parse text = some a) :
    w.read path = .ok text :=
  (h.read hl hread).resolve_right fun hnew => nomatch (hnews text hnew).symm.trans hparse

/-- A configuration that is found later and was there before was found then, too: what is there
stays there. -/
theorem find?_of_grows {news : String → Prop} {directories : List String} (h : w.Grows news w')
    (hfind : directories.find? (fun d => w'.exists? (joinPath d configFile)) = some root)
    (hold : w.exists? (joinPath root configFile)) :
    directories.find? (fun d => w.exists? (joinPath d configFile)) = some root := by
  obtain ⟨-, before, after, hlist, hbefore⟩ := List.find?_eq_some_iff_append.1 hfind
  refine List.find?_eq_some_iff_append.2 ⟨hold, before, after, hlist, fun d hd => ?_⟩
  have hmissing := hbefore d hd
  have hgrown : w.exists? (joinPath d configFile) → w'.exists? (joinPath d configFile) := h.exists?
  simp only [Bool.not_eq_true'] at hmissing ⊢
  by_contra hfound
  exact absurd (hgrown (by simpa using hfound)) (by simp [hmissing])

/-- Where nothing is new but pages, there is no new plan. -/
theorem plan_of_grows {plan' : Plan} {news : String → Prop} (hentered : Entered w)
    (hconfig : ∀ text, news text → Config.ofJsonText? text = none)
    (hmodel : ∀ text, news text → Api.Model.ofJsonText? text = none) (h : w.Grows news w')
    (hplan : planIn w = some plan) (hplan' : planIn w' = some plan') : plan' = plan := by
  obtain ⟨root, config, model, built⟩ := plan
  obtain ⟨root', config', model', built'⟩ := plan'
  obtain ⟨hfind, ⟨text, hread, hparse⟩, ⟨source, hsource, hsourceParse⟩, hbuilt⟩ :=
    planIn_eq_some.1 hplan
  obtain ⟨hfind', ⟨text', hread', hparse'⟩, ⟨source', hsource', hsourceParse'⟩, hbuilt'⟩ :=
    planIn_eq_some.1 hplan'
  dsimp only at *
  have hhere : w'.here = w.here := by rw [World.here, World.here, h.root, h.directory]
  rw [hhere] at hfind'
  obtain ⟨l, hl⟩ := hentered root' (List.mem_of_find?_eq_some hfind')
  have hold := read_of_grows hconfig h hl hread' hparse'
  have hfirst := find?_of_grows h hfind' (World.exists?_of_read hold)
  obtain rfl := Option.some.inj (hfirst.symm.trans hfind)
  obtain rfl := Except.ok.inj (hold.symm.trans hread)
  obtain rfl := Option.some.inj (hparse'.symm.trans hparse)
  obtain ⟨l', hl', -⟩ := World.read_iff.1 hsource
  have hsame := read_of_grows hmodel h hl' hsource' hsourceParse'
  obtain rfl := Except.ok.inj (hsame.symm.trans hsource)
  obtain rfl := Option.some.inj (hsourceParse'.symm.trans hsourceParse)
  obtain rfl := Except.ok.inj (hbuilt'.symm.trans hbuilt)
  rfl

end DocTree.Command
