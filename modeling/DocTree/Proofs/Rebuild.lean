import DocTree.Proofs.Confinement
import DocTree.Proofs.PageText
import DocTree.Proofs.Plan

/-! Building twice. The second build finds the pages that the first one has written, and changes
nothing, exactly if the first one has left what it reads and no two of its pages with different
texts share a place. -/
namespace DocTree.Command
open Disk

variable {w w' : World} {plan : Plan} {path : String} {report : Report}

section
variable {content outDir : String} {change : Change} {pages : List (String × String)}
  {report' : Report} {written written' : List Location}

theorem changeOf_ok (h : runOn (changeOf path content) w = (.ok change, w')) :
    w' = w ∧ (change = .unchanged → w.read path = .ok content) := by
  rw [changeOf_world] at h
  obtain ⟨hfound, rfl⟩ := Prod.mk.inj h
  refine ⟨rfl, fun hsame => ?_⟩
  subst hsame
  rw [changeIn] at hfound
  split at hfound
  · split at hfound
    · next present hread =>
      split_ifs at hfound with heq
      · rw [hread, heq]
      · cases hfound
    · cases hfound
    · cases hfound
  · cases hfound

theorem changeOf_of_read (h : w.read path = .ok content) :
    runOn (changeOf path content) w = (.ok .unchanged, w) := by
  rw [changeOf_world, changeIn, if_pos (World.exists?_of_read h), h]
  dsimp only
  rw [if_pos rfl]

/-- A page that has been written is there. -/
theorem read_of_writePage (h : runOn (writePage false path content) w = (.ok change, w')) :
    w'.read path = .ok content := by
  obtain ⟨looked, hlook, hput⟩ := writePage_ok.1 h
  obtain ⟨rfl, hsame⟩ := changeOf_ok hlook
  split_ifs at hput with hchange
  · exact hput ▸ hsame hchange
  · obtain ⟨made, -, hwritten⟩ := hput
    exact World.read_of_write hwritten

theorem eq_of_place_outputPath (hout : outDir ≠ "") {location other : Location} {page q : String}
    (hlocation : pageLocation page = .ok location) (hother : pageLocation q = .ok other)
    {l : Location} (h : w.place (outputPath outDir other) = some l)
    (h' : w.place (outputPath outDir location) = some l) : other = location := by
  obtain ⟨hne, hnames⟩ := isName_of_pageLocation hlocation
  obtain ⟨hne', hnames'⟩ := isName_of_pageLocation hother
  rw [place_outputPath hout hne' hnames'] at h
  rw [place_outputPath hout hne hnames] at h'
  obtain ⟨out, hplace, rfl⟩ := Option.map_eq_some_iff.1 h
  rw [hplace] at h'
  exact (List.append_cancel_left (Option.some.inj h')).symm

/-- After a run over pages of which those at one place have one text, each of them is there. -/
theorem reads_of_writePages (hout : outDir ≠ "")
    (hagree : ∀ p ∈ pages, ∀ q ∈ pages, pageLocation p.1 = pageLocation q.1 → p.2 = q.2)
    (h : runOn (writePages noFlags outDir report written pages) w =
      (.ok (report', written'), w')) :
    ∀ page ∈ pages, ∃ location, pageLocation page.1 = .ok location ∧
      w'.read (outputPath outDir location) = .ok page.2 := by
  induction pages generalizing w report written with
  | nil => exact List.forall_mem_nil _
  | cons page rest ih =>
    obtain ⟨path, text⟩ := page
    obtain ⟨location, change, put, said, hlocation, hput, hsaid, hrest⟩ :=
      writePages_cons_ok.1 h
    refine List.forall_mem_cons.2 ⟨⟨location, hlocation, ?_⟩, ih (fun p hp q hq =>
      hagree p (List.mem_cons_of_mem _ hp) q (List.mem_cons_of_mem _ hq)) hrest⟩
    have hkeeps := couplesChanges_keepsText put (outputPath outDir location) text
    obtain ⟨hgrown, hread⟩ := (hkeeps.sayChange noFlags path change).of_runOn hsaid (.refl put)
      (read_of_writePage hput)
    refine (KeepsText.of_runOn (hkeeps.writePages ?_ _ _) hrest hgrown hread).2
    intro _ q hq other hother l h h'
    obtain rfl := eq_of_place_outputPath hout hlocation hother h h'
    exact (hagree (path, text) (List.mem_cons_self ..) q (List.mem_cons_of_mem _ hq)
      (hlocation.trans hother.symm)).symm

/-- A run over pages that are all there already. -/
theorem writePages_idle
    (h : ∀ page ∈ pages, ∃ location, pageLocation page.1 = .ok location ∧
      w.read (outputPath outDir location) = .ok page.2) (report : Report)
    (written : List Location) :
    ∃ written', runOn (writePages noFlags outDir report written pages) w =
      (.ok ({ report with unchanged := report.unchanged + pages.length }, written'), w) := by
  induction pages generalizing report written with
  | nil => exact ⟨written, rfl⟩
  | cons page rest ih =>
    obtain ⟨path, text⟩ := page
    obtain ⟨⟨location, hlocation, hread⟩, hrest⟩ := List.forall_mem_cons.1 h
    obtain ⟨written', hrun⟩ := ih hrest (report.count .unchanged) (location :: written)
    refine ⟨written', writePages_cons_ok.2 ⟨location, .unchanged, w, w, hlocation, ?_, rfl, ?_⟩⟩
    · exact writePage_ok.2 ⟨w, changeOf_of_read hread, by rw [if_pos rfl]⟩
    · rw [hrun, Report.count, List.length_cons]
      simp only [Nat.add_assoc, Nat.add_comm 1]

theorem changed_le_of_writePages
    (h : runOn (writePages noFlags outDir report written pages) w =
      (.ok (report', written'), w')) : report.changed ≤ report'.changed := by
  induction pages generalizing w report written with
  | nil =>
    obtain ⟨hreport, -⟩ := runOn_pure_ok.1 h
    cases hreport
    exact Nat.le_refl _
  | cons page rest ih =>
    obtain ⟨location, change, put, said, -, -, -, hrest⟩ := writePages_cons_ok.1 h
    have hmore := ih hrest
    rw [Report.changed_count] at hmore
    omega

/-- A run that has counted no page as created or updated has found them all. -/
theorem reads_of_unchanged
    (h : runOn (writePages noFlags outDir report written pages) w =
      (.ok (report', written'), w')) (hsame : report'.changed = report.changed) :
    ∀ page ∈ pages, ∃ location, pageLocation page.1 = .ok location ∧
      w.read (outputPath outDir location) = .ok page.2 := by
  induction pages generalizing w report written with
  | nil => exact List.forall_mem_nil _
  | cons page rest ih =>
    obtain ⟨path, text⟩ := page
    obtain ⟨location, change, put, said, hlocation, hput, hsaid, hrest⟩ :=
      writePages_cons_ok.1 h
    have hmore := changed_le_of_writePages hrest
    have hcount := report.changed_count change
    obtain rfl : change = .unchanged := by
      by_contra hne
      rw [if_neg hne] at hcount
      omega
    obtain ⟨looked, hlook, hleft⟩ := writePage_ok.1 hput
    obtain ⟨rfl, hread⟩ := changeOf_ok hlook
    rw [if_pos rfl] at hleft
    obtain rfl := hleft
    cases hsaid
    exact List.forall_mem_cons.2 ⟨⟨location, hlocation, hread rfl⟩, ih hrest hsame⟩

end

/-- The only new texts of a build are those of pages. -/
theorem grows_build (w : World) :
    w.Grows (fun text => text.toList.head? = some '<') (runOn (build noFlags) w).2 := by
  have hadds := couplesChanges_adding fun text => text.toList.head? = some '<'
  have hat (root : String) : Adding _ _ (buildAt noFlags root : Action (StateM World) Report).run
      (buildAt noFlags root : Action (StateM World) Report).run :=
    hadds.next (hadds.loadConfig root) fun config =>
      hadds.buildSite (fun _ _ _ hbuilt page hpage _ _ =>
        Site.head?_of_renderPages hbuilt page hpage) nofun
  have hbuild : Adding _ _ (build noFlags : Action (StateM World) Unit).run
      (build noFlags : Action (StateM World) Unit).run :=
    hadds.next hadds.findRoot fun root => hadds.next (hat root) (hadds.close noFlags)
  exact hbuild w

/-- A plan whose pages are all there is carried out without a change. -/
theorem writes_idly
    (h : ∀ page ∈ plan.built.pages, ∃ location, pageLocation page.1 = .ok location ∧
      w.read (outputPath plan.outDir location) = .ok page.2) :
    plan.Writes w plan.idleReport (plan.opened w) := by
  have hread : ∀ page ∈ plan.built.pages, ∃ location, pageLocation page.1 = .ok location ∧
      (plan.opened w).read (outputPath plan.outDir location) = .ok page.2 := by
    simpa only [read_opened] using h
  obtain ⟨written, hrun⟩ := writePages_idle hread { warnings := warningsIn plan.built.remarks } []
  refine ⟨written, hrun.trans ?_⟩
  simp [Plan.idleReport]

/-- The configuration is in the working directory, and no page stands in its place or in that of
the model. -/
def Plan.Apart (plan : Plan) (w : World) : Prop :=
  (ancestors w.here).head? = some plan.root ∧
    ∀ page ∈ plan.built.pages, ∀ location, pageLocation page.1 = .ok location →
      ∀ l, w.place (outputPath plan.outDir location) = some l →
        w.place (joinPath plan.root configFile) ≠ some l ∧
          w.place (joinPath plan.root plan.config.model) ≠ some l

/-- A file in whose place no page stands is read as before. -/
theorem read_of_writes {built : World} {text : String} (hwrites : plan.Writes w report built)
    (hapart : ∀ page ∈ plan.built.pages, ∀ location, pageLocation page.1 = .ok location →
      ∀ l, w.place (outputPath plan.outDir location) = some l → w.place path ≠ some l)
    (hread : w.read path = .ok text) : built.read path = .ok text := by
  obtain ⟨written, hput⟩ := hwrites
  have hkeeps := couplesChanges_keepsText w path text
  rw [← read_opened plan] at hread
  refine (KeepsText.of_runOn (hkeeps.writePages ?_ _ _) hput (grows_opened plan w) hread).2
  exact fun _ page hpage location hlocation l h h' =>
    absurd h' (hapart page hpage location hlocation l h)

/-- A build whose pages stand apart from what it reads leaves its plan as it is. -/
theorem planIn_of_apart {built : World} (hplan : planIn w = some plan) (hapart : plan.Apart w)
    (hwrites : plan.Writes w report built) (hhere : built.here = w.here) :
    planIn built = some plan := by
  obtain ⟨hfind, ⟨text, hread, hparse⟩, ⟨source, hsource, hsourceParse⟩, hbuilt⟩ :=
    planIn_eq_some.1 hplan
  have hread' := read_of_writes hwrites
    (fun page hpage location hlocation l h => (hapart.2 page hpage location hlocation l h).1) hread
  have hsource' := read_of_writes hwrites
    (fun page hpage location hlocation l h => (hapart.2 page hpage location hlocation l h).2)
    hsource
  refine planIn_eq_some.2 ⟨?_, ⟨text, hread', hparse⟩, ⟨source, hsource', hsourceParse⟩, hbuilt⟩
  obtain ⟨outer, hlist⟩ := List.head?_eq_some_iff.1 hapart.1
  rw [hhere, hlist, List.find?_cons_of_pos]
  exact World.exists?_of_read hread'

/-- The lines of a build that has found every page as it is. -/
def Plan.idleLines (plan : Plan) : List String :=
  plan.opening :: plan.idleReport.summary false

/-- A build that succeeds and takes no file in hand has found every page of its plan. -/
theorem exists_plan_of_idle {w' : World}
    (h : runOn (build noFlags) (Trial.calm w []) = (.ok (), Trial.calm w' [])) :
    ∃ plan, planIn w = some plan ∧
      ∀ page ∈ plan.built.pages, ∃ location, pageLocation page.1 = .ok location ∧
        w.read (outputPath plan.outDir location) = .ok page.2 := by
  obtain ⟨left, journal, hplain, hleft⟩ := run_of_calm (run_build_ok.2 h)
  cases hleft
  obtain ⟨plan, report, built, hplan, hwrites, rfl⟩ := build_world.1 (run_build_ok.1 hplain)
  obtain ⟨notes, hrun, hlength⟩ := build_calm_of_plan hplan hwrites
  rw [h] at hrun
  obtain rfl : notes = [] :=
    (congrArg (fun r : Except Failure Unit × Trial => r.2.journal) hrun).symm
  obtain ⟨written, hput⟩ := hwrites
  refine ⟨plan, hplan, ?_⟩
  simpa only [read_opened] using reads_of_unchanged hput hlength.symm

/-- If the second build succeeds and takes no file in hand, then it has the plan of the first one,
and pages at one place have one text. -/
theorem agrees_of_idle {w₁ w₂ : World} (hentered : Entered w)
    (hgrows : w.Grows (fun text => text.toList.head? = some '<') w₁)
    (hplan : planIn w = some plan)
    (h : runOn (build noFlags) (Trial.calm w₁ []) = (.ok (), Trial.calm w₂ [])) :
    planIn w₁ = some plan ∧ plan.Agrees := by
  obtain ⟨plan', hplan', hread⟩ := exists_plan_of_idle h
  obtain rfl := plan_of_grows hentered (fun _ => Config.ofJsonText?_of_angle)
    (fun _ => Api.Model.ofJsonText?_of_angle) hgrows hplan hplan'
  refine ⟨hplan', fun p hp q hq hplace => ?_⟩
  obtain ⟨location, hlocation, hp⟩ := hread p hp
  obtain ⟨location', hlocation', hq⟩ := hread q hq
  rw [hlocation, hlocation'] at hplace
  cases hplace
  exact Except.ok.inj (hp.symm.trans hq)

/-- A build that finds all pages of its plan takes no file in hand and says so. -/
theorem build_idle (hplan : planIn w = some plan)
    (h : ∀ page ∈ plan.built.pages, ∃ location, pageLocation page.1 = .ok location ∧
      w.read (outputPath plan.outDir location) = .ok page.2) :
    ∃ w', runOn (build noFlags) (Trial.calm w []) = (.ok (), Trial.calm w' []) ∧
      w'.tree = w.tree ∧
      w'.output = w.output ++ String.join (plan.idleLines.map (· ++ "\n")) := by
  obtain ⟨journal, hrun, hlength⟩ := build_calm_of_plan hplan (writes_idly h)
  obtain rfl : journal = [] := List.eq_nil_of_length_eq_zero hlength
  refine ⟨_, hrun, ?_, ?_⟩
  · rw [foldl_withOutput, Plan.opened, foldl_withTrouble]
    rfl
  · rw [foldl_withOutput, Plan.opened, foldl_withTrouble]
    simp [Plan.idleLines, World.withOutput, String.append_assoc, String.join_cons]

/-- Building again right after a build without flags that has succeeded: it succeeds and takes no
file in hand exactly if it has the same plan and pages at one place have one text. It then says
that all pages are unchanged. The plan is the same where the pages stand apart from what it is
made of. -/
theorem rebuild_idle_iff {w w₁ : World} (hentered : Entered w)
    (h : (run ["build"] : StateM World UInt32) w = (0, w₁)) :
    let again := (run ["build"] : StateM Trial UInt32) (.calm w₁ [])
    ∃ plan, planIn w = some plan ∧
      (again.1 = 0 ∧ again.2.journal = [] → planIn w₁ = some plan ∧ plan.Agrees) ∧
      (planIn w₁ = some plan ∧ plan.Agrees → ∃ w₂, again = (0, .calm w₂ []) ∧
        w₂.tree = w₁.tree ∧
        w₂.output = w₁.output ++ String.join (plan.idleLines.map (· ++ "\n"))) ∧
      (plan.Apart w → planIn w₁ = some plan) := by
  intro again
  have hagain : (run ["build"] : StateM Trial UInt32) (.calm w₁ []) = again := rfl
  clear_value again
  have hbuild := run_build_ok.1 h
  have hgrows : w.Grows _ (runOn (build noFlags) w).2 := grows_build w
  rw [hbuild] at hgrows
  obtain ⟨plan, report, built, hplan, hwrites, hend⟩ := build_world.1 hbuild
  refine ⟨plan, hplan, ?_, ?_, fun hapart => ?_⟩
  · rintro ⟨hzero, hnothing⟩
    obtain ⟨code, left⟩ := again
    obtain ⟨w₂, journal, -, rfl⟩ := run_of_calm hagain
    obtain rfl : code = 0 := hzero
    obtain rfl : journal = [] := hnothing
    exact agrees_of_idle hentered hgrows hplan (run_build_ok.1 hagain)
  · rintro ⟨hsame, hagree⟩
    obtain ⟨written, hput⟩ := hwrites
    have hout : plan.outDir ≠ "" := joinPath_ne_empty plan.config.outDir
    have hthere := reads_of_writePages hout hagree hput
    have hread : ∀ page ∈ plan.built.pages, ∃ location, pageLocation page.1 = .ok location ∧
        w₁.read (outputPath plan.outDir location) = .ok page.2 := by
      simpa only [hend, read_foldl_withOutput] using hthere
    obtain ⟨w₂, hrun, htree, houtput⟩ := build_idle hsame hread
    exact ⟨w₂, hagain.symm.trans (run_build_ok.2 hrun), htree, houtput⟩
  · have hhere : built.here = w.here := by
      have hsame : w₁.here = w.here := by rw [World.here, World.here, hgrows.root, hgrows.directory]
      rw [← hsame, hend, foldl_withOutput]
      rfl
    rw [hend, planIn_foldl_withOutput]
    exact planIn_of_apart hplan hapart hwrites hhere

/-- The first build writes the page, and the second one finds it. -/
theorem rebuild_onePage :
    let w : World := ⟨onePageSite, "", [], "", ""⟩
    let w₁ := ((run ["build"] : StateM World UInt32) w).2
    Entered w ∧ (run ["build"] : StateM World UInt32) w = (0, w₁) ∧
      w₁.tree.file? ["out", "core.md"] ≠ none ∧
      ∃ w₂, (run ["build"] : StateM Trial UInt32) (.calm w₁ []) = (0, .calm w₂ []) ∧
        w₂.tree = w₁.tree := by
  intro w w₁
  have hentered : Entered w := by
    have hdirectories : ancestors w.here = ["/", ""] := by decide +kernel
    rw [Entered, hdirectories]
    refine List.forall_mem_cons.2 ⟨⟨["apidoc.json"], by decide +kernel⟩, ?_⟩
    exact List.forall_mem_singleton.2 ⟨["apidoc.json"], by decide +kernel⟩
  have hfirst : (run ["build"] : StateM World UInt32) w = (0, w₁) :=
    Prod.ext (by decide +kernel) rfl
  obtain ⟨plan, -, honly, hidle, -⟩ := rebuild_idle_iff hentered hfirst
  obtain ⟨w₂, hagain, htree, -⟩ := hidle (honly (by decide +kernel))
  exact ⟨hentered, hfirst, by decide +kernel, w₂, hagain, htree⟩

/-- A site of two pages whose paths lead to one place. -/
def sharedPlaceSite : Tree where
  entries := [(["api.json"], .file "\x7b\"packageName\": \"p\", \"items\": []\x7d"),
    (["apidoc.json"], .file "\x7b\"pages\": [\x7b\"path\": \"core.md\", \"title\": \"A\"\x7d,
      \x7b\"path\": \"./core.md\", \"title\": \"B\"\x7d]\x7d")]
  distinct := by decide

/-- Each build writes one page over the other, and then the other way round. -/
theorem rebuild_sharedPlace :
    let first := (run ["build"] : StateM World UInt32) ⟨sharedPlaceSite, "", [], "", ""⟩
    let again := (run ["build"] : StateM Trial UInt32) (.calm first.2 [])
    first.1 = 0 ∧ again.1 = 0 ∧
      again.2.journal = ["/docs/api/core.md", "/docs/api/core.md"] := by
  decide +kernel

end DocTree.Command
