import DocTree.Proofs.Plan

/-! A build has two stages. It prepares a plan, in which nothing changes, and carries the plan out.
The stages are told apart by how they fail: only the second one refuses the path of a page. -/
namespace DocTree.Command
open Disk

section
variable {m : Type → Type} [Monad m] [Session m]

/-- Makes the plan for a configuration that has been found. -/
def Plan.make (settings : Settings) (root : String) (config : Config) : Action m Plan := do
  let model ← load Api.Model.ofJsonText? (joinPath root config.model)
  say settings s!"apidoc {model.package} ({config.site.pages.length} pages)"
  match Site.renderPages model config.site with
  | .error e => throw (.rendering e)
  | .ok built => do
    printRemarks config.model built.remarks
    return ⟨root, config, model, built⟩

/-- The first stage: finds a configuration and makes the plan for it. -/
def prepare (settings : Settings) : Action m Plan := do
  let root ← findRoot
  Plan.make settings root (← loadConfig root)

/-- What the writing of the pages begins to count with. -/
def Plan.fresh (plan : Plan) : Report := { warnings := warningsIn plan.built.remarks }

/-- The second stage: writes the pages of a plan and takes away what is stale. -/
def Plan.carryOut (plan : Plan) (settings : Settings) : Action m Report := do
  let (report, written) ← writePages settings plan.outDir plan.fresh [] plan.built.pages
  if settings.prune then prune settings plan.outDir report written else return report

variable [LawfulMonad m]

theorem buildSite_eq (settings : Settings) (root : String) (config : Config) :
    (buildSite settings root config : Action m Report) =
      Plan.make settings root config >>= fun plan => plan.carryOut settings := by
  rw [buildSite, Plan.make, bind_assoc]
  congr 1
  funext model
  rw [bind_assoc]
  congr 1
  funext _
  cases Site.renderPages model config.site with
  | error e =>
    refine ExceptT.ext ?_
    simp only [ExceptT.run_bind, ExceptT.run_throw, pure_bind]
  | ok built =>
    dsimp only
    rw [bind_assoc]
    congr 1
    funext _
    rw [pure_bind]
    rfl

/-- What a build comes to before it closes. -/
theorem findRoot_buildAt_eq (settings : Settings) :
    (findRoot >>= fun root => buildAt settings root : Action m Report) =
      prepare settings >>= fun plan => plan.carryOut settings := by
  simp only [buildAt, prepare, bind_assoc, buildSite_eq]

theorem build_eq (settings : Settings) :
    (build settings : Action m Unit) =
      prepare settings >>= fun plan => plan.carryOut settings >>= close settings := by
  simp only [build, buildAt, prepare, bind_assoc, buildSite_eq]

end

section
variable {m n : Type → Type} [Monad m] [Session m] [Monad n] [Session n] [LawfulMonad m]
  [LawfulMonad n] {R : ∀ α : Type, m α → n α → Prop}

theorem Couples.make (h : Couples R) (settings : Settings) (root : String) (config : Config) :
    R _ (Plan.make settings root config : Action m Plan).run
      (Plan.make settings root config : Action n Plan).run := by
  refine h.next (h.load _ _) fun model => h.next (h.say _ _) fun _ => ?_
  cases Site.renderPages model config.site with
  | error e => exact h.pure _
  | ok built => exact h.next (h.printRemarks _ _) fun _ => h.pure _

theorem Couples.prepare (h : Couples R) (settings : Settings) :
    R _ (prepare settings : Action m Plan).run (prepare settings : Action n Plan).run :=
  h.next h.findRoot fun root => h.next (h.loadConfig root) fun config => h.make settings root config

end

/-- The steps change nothing in the world but what has been printed. -/
def OnlyPrints (α : Type) (steps _ : StateM Trial α) : Prop :=
  ∀ s : Trial, ∃ output trouble,
    (steps s).2.world = { s.world with output := output, trouble := trouble }

theorem couples_onlyPrints : Couples OnlyPrints where
  pure _ s := ⟨s.world.output, s.world.trouble, rfl⟩
  bind {_ _ x _ f _} hx hf s := by
    obtain ⟨output, trouble, hfirst⟩ := hx s
    obtain ⟨output', trouble', hrest⟩ := hf (x s).1 (x s).2
    rw [hfirst] at hrest
    exact ⟨output', trouble', hrest⟩
  workingDirectory s := ⟨s.world.output, s.world.trouble, rfl⟩
  pathExists _ s := ⟨s.world.output, s.world.trouble, rfl⟩
  readFile _ s := ⟨s.world.output, s.world.trouble, rfl⟩
  filesBelow _ s := ⟨s.world.output, s.world.trouble, rfl⟩
  printLine _ s := ⟨_, s.world.trouble, rfl⟩
  printTrouble _ s := ⟨s.world.output, _, rfl⟩

section
variable {σ α β : Type} {s s' : σ} {e : Failure}

/-- Steps that fail do so at one of them. -/
theorem runOn_bind_error {x : Action (StateM σ) α} {f : α → Action (StateM σ) β} :
    runOn (x >>= f) s = (.error e, s') ↔
      runOn x s = (.error e, s') ∨
        ∃ a between, runOn x s = (.ok a, between) ∧ runOn (f a) between = (.error e, s') := by
  rw [runOn_bind]
  rcases runOn x s with ⟨e' | a, between⟩
  · simp
  · constructor
    · exact fun h => .inr ⟨a, between, rfl, h⟩
    · rintro (⟨⟨⟩⟩ | ⟨a', between', hfirst, h⟩)
      cases hfirst
      exact h

/-- A build that succeeds makes a plan and carries it out. -/
theorem build_ok_stages [Session (StateM σ)] {settings : Settings} :
    runOn (build settings) s = (.ok (), s') ↔
      ∃ plan opened report done, runOn (prepare settings) s = (.ok plan, opened) ∧
        runOn (plan.carryOut settings) opened = (.ok report, done) ∧
        runOn (close settings report) done = (.ok (), s') := by
  rw [build_eq, runOn_bind_ok]
  constructor
  · rintro ⟨plan, opened, hplan, h⟩
    obtain ⟨report, done, hdone, hclosed⟩ := runOn_bind_ok.1 h
    exact ⟨plan, opened, report, done, hplan, hdone, hclosed⟩
  · rintro ⟨plan, opened, report, done, hplan, hdone, hclosed⟩
    exact ⟨plan, opened, hplan, runOn_bind_ok.2 ⟨report, done, hdone, hclosed⟩⟩

theorem carryOut_ok [Session (StateM σ)] {settings : Settings} {plan : Plan} {report : Report} :
    runOn (plan.carryOut settings) s = (.ok report, s') ↔
      ∃ counted written put,
        runOn (writePages settings plan.outDir plan.fresh [] plan.built.pages) s =
          (.ok (counted, written), put) ∧
        if settings.prune then runOn (prune settings plan.outDir counted written) put =
          (.ok report, s')
        else counted = report ∧ put = s' := by
  rw [Plan.carryOut, runOn_bind_ok]
  cases settings.prune with
  | true =>
    simp only [if_true]
    constructor
    · rintro ⟨⟨counted, written⟩, put, hput, h⟩
      exact ⟨counted, written, put, hput, h⟩
    · rintro ⟨counted, written, put, hput, h⟩
      exact ⟨(counted, written), put, hput, h⟩
  | false =>
    simp only [Bool.false_eq_true, if_false]
    constructor
    · rintro ⟨⟨counted, written⟩, put, hput, h⟩
      exact ⟨counted, written, put, hput, runOn_pure_ok.1 h⟩
    · rintro ⟨counted, written, put, hput, h⟩
      exact ⟨(counted, written), put, hput, runOn_pure_ok.2 h⟩

/-- If the steps fail then for one of these reasons. -/
def FailsOnly (reasons : Failure → Prop) (steps : Action (StateM σ) α) : Prop :=
  ∀ s e s', runOn steps s = (.error e, s') → reasons e

variable {reasons : Failure → Prop}

/-- Steps that have no reason to fail succeed. -/
theorem FailsOnly.exists_ok {steps : Action (StateM σ) α} (h : FailsOnly (fun _ => False) steps)
    (s : σ) : ∃ a s', runOn steps s = (.ok a, s') := by
  rcases hrun : runOn steps s with ⟨e | a, s'⟩
  · exact (h s e s' hrun).elim
  · exact ⟨a, s', rfl⟩

theorem failsOnly_pure (a : α) : FailsOnly reasons (pure a : Action (StateM σ) α) := by
  intro s e s' h
  cases h

theorem failsOnly_lift (x : StateM σ α) :
    FailsOnly reasons (ExceptT.lift x : Action (StateM σ) α) := by
  intro s e s' h
  rw [runOn_lift] at h
  cases h

theorem failsOnly_throw (h : reasons e) : FailsOnly reasons (throw e : Action (StateM σ) α) := by
  intro s e' s' hrun
  cases hrun
  exact h

theorem FailsOnly.bind {x : Action (StateM σ) α} {f : α → Action (StateM σ) β}
    (hx : FailsOnly reasons x) (hf : ∀ a, FailsOnly reasons (f a)) :
    FailsOnly reasons (x >>= f) := by
  intro s e s' h
  obtain h | ⟨a, between, -, h⟩ := runOn_bind_error.1 h
  · exact hx s e s' h
  · exact hf a between e s' h

end

namespace Failure

/-- What a build is made from is at fault: the configuration, the model or a tree. -/
def ofInput : Failure → Bool
  | nowhere | noConfig _ | unreadable _ | unparsable _ | rendering _ => true
  | _ => false

/-- The path of a page is at fault. -/
def refusesPage : Failure → Bool
  | escapingPage _ | namelessPage _ => true
  | _ => false

theorem not_refusesPage_of_ofInput {e : Failure} (h : e.ofInput) : ¬ e.refusesPage := by
  cases e <;> simp_all [ofInput, refusesPage]

end Failure

section
variable {σ : Type} [Session (StateM σ)]

theorem failsOnly_findConfig (reasons : Failure → Prop) (directories : List String) :
    FailsOnly reasons (findConfig directories : Action (StateM σ) (Option String)) := by
  induction directories with
  | nil => exact failsOnly_pure none
  | cons directory outer ih =>
    rw [findConfig]
    refine (failsOnly_lift _).bind fun found => ?_
    cases found with
    | true => exact failsOnly_pure _
    | false => exact ih

theorem failsOnly_findRoot : FailsOnly (·.ofInput) (findRoot : Action (StateM σ) String) := by
  refine (failsOnly_lift _).bind fun start => ?_
  cases start with
  | none => exact failsOnly_throw rfl
  | some start =>
    refine (failsOnly_findConfig _ _).bind fun root => ?_
    cases root with
    | none => exact failsOnly_throw rfl
    | some root => exact failsOnly_pure root

theorem failsOnly_load {α : Type} (parse : String → Option α) (path : String) :
    FailsOnly (·.ofInput) (load parse path : Action (StateM σ) α) := by
  refine (failsOnly_lift _).bind fun found => ?_
  cases found with
  | error fault => exact failsOnly_throw rfl
  | ok text =>
    dsimp only
    cases parse text with
    | none => exact failsOnly_throw rfl
    | some value => exact failsOnly_pure value

theorem failsOnly_loadConfig (root : String) :
    FailsOnly (·.ofInput) (loadConfig root : Action (StateM σ) Config) := by
  refine (failsOnly_lift _).bind fun found => ?_
  cases found with
  | true => exact failsOnly_load _ _
  | false => exact failsOnly_pure _

theorem failsOnly_say (reasons : Failure → Prop) (settings : Settings) (line : String) :
    FailsOnly reasons (say settings line : Action (StateM σ) Unit) := by
  rw [say]
  split
  · exact failsOnly_pure ()
  · exact failsOnly_lift _

theorem failsOnly_sayChange (reasons : Failure → Prop) (settings : Settings) (page : String)
    (change : Change) :
    FailsOnly reasons (sayChange settings page change : Action (StateM σ) Unit) := by
  cases change with
  | created => exact failsOnly_say _ _ _
  | updated => exact failsOnly_say _ _ _
  | unchanged => exact failsOnly_pure ()

theorem failsOnly_printRemarks (reasons : Failure → Prop) (file : String)
    (remarks : List Diagnostic) :
    FailsOnly reasons (printRemarks file remarks : Action (StateM σ) Unit) := by
  induction remarks with
  | nil => exact failsOnly_pure ()
  | cons remark rest ih => exact (failsOnly_lift _).bind fun _ => ih

theorem failsOnly_make (settings : Settings) (root : String) (config : Config) :
    FailsOnly (·.ofInput) (Plan.make settings root config : Action (StateM σ) Plan) := by
  refine (failsOnly_load _ _).bind fun model => (failsOnly_say _ _ _).bind fun _ => ?_
  cases Site.renderPages model config.site with
  | error e => exact failsOnly_throw rfl
  | ok built => exact (failsOnly_printRemarks _ _ _).bind fun _ => failsOnly_pure _

theorem failsOnly_prepare (settings : Settings) :
    FailsOnly (·.ofInput) (prepare settings : Action (StateM σ) Plan) :=
  failsOnly_findRoot.bind fun root =>
    (failsOnly_loadConfig root).bind fun config => failsOnly_make settings root config

theorem failsOnly_writePage (dryRun : Bool) (path content : String) :
    FailsOnly (¬ ·.refusesPage) (writePage dryRun path content : Action (StateM σ) Change) := by
  have hchange : FailsOnly (¬ ·.refusesPage) (changeOf path content : Action (StateM σ) Change) := by
    refine (failsOnly_lift _).bind fun found => ?_
    cases found with
    | false => exact failsOnly_pure _
    | true =>
      refine (failsOnly_lift _).bind fun present => ?_
      rcases present with fault | present
      · cases fault with
        | notText => exact failsOnly_pure _
        | _ => exact failsOnly_throw Bool.false_ne_true
      · exact failsOnly_pure _
  refine hchange.bind fun change => ?_
  split
  · exact failsOnly_pure change
  · refine (failsOnly_lift _).bind fun made => ?_
    cases made with
    | false => exact failsOnly_throw Bool.false_ne_true
    | true =>
      refine (failsOnly_lift _).bind fun written => ?_
      cases written with
      | false => exact failsOnly_throw Bool.false_ne_true
      | true => exact failsOnly_pure change

theorem failsOnly_prune (settings : Settings) (outDir : String) (report : Report)
    (written : List Location) :
    FailsOnly (¬ ·.refusesPage)
      (prune settings outDir report written : Action (StateM σ) Report) := by
  have hremove (path : String) :
      FailsOnly (¬ ·.refusesPage) (removeStale settings path : Action (StateM σ) Unit) := by
    rw [removeStale]
    split
    · exact failsOnly_pure ()
    · refine (failsOnly_lift _).bind fun removed => ?_
      cases removed with
      | false => exact failsOnly_throw Bool.false_ne_true
      | true => exact failsOnly_pure ()
  have hfiles (stale : List Location) : ∀ report,
      FailsOnly (¬ ·.refusesPage)
        (pruneFiles settings outDir report stale : Action (StateM σ) Report) := by
    induction stale with
    | nil => exact fun report => failsOnly_pure report
    | cons location rest ih =>
      exact fun report => (hremove _).bind fun _ => (failsOnly_say _ _ _).bind fun _ => ih _
  refine (failsOnly_lift _).bind fun present => ?_
  cases present with
  | none => exact failsOnly_throw Bool.false_ne_true
  | some present => exact hfiles _ _

theorem failsOnly_close (reasons : Failure → Prop) (settings : Settings) (report : Report) :
    FailsOnly reasons (close settings report : Action (StateM σ) Unit) := by
  have hlines (lines : List String) :
      FailsOnly reasons (printLines lines : Action (StateM σ) Unit) := by
    induction lines with
    | nil => exact failsOnly_pure ()
    | cons line rest ih => exact (failsOnly_lift _).bind fun _ => ih
  rw [close]
  split
  · exact failsOnly_pure ()
  · exact hlines _

end
end DocTree.Command
