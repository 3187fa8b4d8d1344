import DocTree.Proofs.PageFiles

/-! Builds that are turned away. Where the configuration, the model or a page's content is at fault,
nothing has been touched yet. The path of a page is looked at only when its turn comes: the pages in
front of it have been written by then, unless they were all there already. -/
namespace DocTree.Command
open Disk

section
variable {m n : Type → Type} [Monad m] [Session m] [Monad n] [Session n]
  {R : ∀ α : Type, m α → n α → Prop}

/-- What holds of steps that look and print holds of commands that are not allowed any change. -/
theorem Couples.changeless (h : Couples R) :
    CouplesChanges R (fun _ _ => False) fun _ => False where
  toCouples := h
  makeDirectory := False.elim
  writeFile := False.elim
  removeFile := False.elim

end

variable {s s' : Trial} {w w' : World} {e : Failure} {settings : Settings} {outDir : String}
  {pages : List (String × String)} {report : Report} {written : List Location}

/-- The path of a page is refused by its name. -/
theorem eq_of_pageLocation_error {page : String} (h : pageLocation page = .error e) :
    e = .escapingPage page ∨ e = .namelessPage page := by
  rw [pageLocation] at h
  split at h
  · exact .inl (Except.error.inj h).symm
  · split at h
    · exact .inl (Except.error.inj h).symm
    · exact .inr (Except.error.inj h).symm
    · cases h

/-- A run over pages that is turned away has done what it does for the pages in front of the one
at fault. -/
theorem writePages_refused (hrefused : e.refusesPage)
    (h : runOn (writePages settings outDir report written pages) s = (.error e, s')) :
    ∃ before page text after r, pages = before ++ (page, text) :: after ∧
      pageLocation page = .error e ∧
      runOn (writePages settings outDir report written before) s = (.ok r, s') := by
  induction pages generalizing s report written with
  | nil => cases h
  | cons page rest ih =>
    obtain ⟨path, text⟩ := page
    rw [writePages] at h
    cases hlocation : pageLocation path with
    | error e' =>
      rw [hlocation] at h
      cases h
      exact ⟨[], path, text, rest, _, rfl, hlocation, rfl⟩
    | ok location =>
      rw [hlocation] at h
      obtain h | ⟨change, put, hput, h⟩ := runOn_bind_error.1 h
      · exact absurd hrefused (failsOnly_writePage _ _ _ _ _ _ h)
      obtain h | ⟨_, said, hsaid, h⟩ := runOn_bind_error.1 h
      · exact (failsOnly_sayChange (fun _ => False) _ _ _ _ _ _ h).elim
      obtain ⟨before, page, text', after, r, rfl, hpage, hbefore⟩ := ih h
      exact ⟨(path, text) :: before, page, text', after, r, rfl, hpage,
        writePages_cons_ok.2 ⟨location, change, put, said, hlocation, hput, hsaid, hbefore⟩⟩

theorem located_of_writePages {r : Report × List Location}
    (h : runOn (writePages settings outDir report written pages) s = (.ok r, s')) :
    ∀ page ∈ pages, ∃ location, pageLocation page.1 = .ok location := by
  induction pages generalizing s report written with
  | nil => exact List.forall_mem_nil _
  | cons page rest ih =>
    obtain ⟨location, _, _, _, hlocation, -, -, hrest⟩ := writePages_cons_ok.1 h
    exact List.forall_mem_cons.2 ⟨⟨location, hlocation⟩, ih hrest⟩

/-- A plan whose carrying out is turned away. -/
theorem carryOut_refused {plan : Plan} (hrefused : e.refusesPage)
    (h : runOn (plan.carryOut settings) s = (.error e, s')) :
    ∃ before page text after r, plan.built.pages = before ++ (page, text) :: after ∧
      pageLocation page = .error e ∧
      runOn (writePages settings plan.outDir plan.fresh [] before) s = (.ok r, s') := by
  obtain h | ⟨⟨counted, written⟩, put, -, h⟩ := runOn_bind_error.1 h
  · exact writePages_refused hrefused h
  · dsimp only at h
    split at h
    · exact absurd hrefused (failsOnly_prune _ _ _ _ _ _ _ h)
    · cases h

/-- The last text at each place of pages is there. -/
def InPlace (outDir : String) (pages : List (String × String)) (w : World) : Prop :=
  ∀ names text, lastText pages names = some text →
    ∃ l, w.below outDir names = some l ∧ w.tree.file? l = some (.file text)

/-- Pages leave all files as they were exactly if they were in place. -/
theorem Filled.untouched_iff (hout : outDir ≠ "") (h : Filled outDir pages w w') :
    (∀ l, w'.tree.file? l = w.tree.file? l) ↔ InPlace outDir pages w := by
  have hthere : InPlace outDir pages w' := by
    intro names text htext
    obtain ⟨hne, hnames⟩ := isName_of_lastText (by rw [htext]; exact Option.some_ne_none text)
    obtain ⟨l, hlocate, hfile⟩ := h.there names text htext
    exact ⟨l, (below_eq_place hout hne hnames).trans (World.place_of_locate hlocate), hfile⟩
  constructor
  · intro hsame names text htext
    obtain ⟨l, hl, hfile⟩ := hthere names text htext
    rw [World.below_congr h.onward.root h.onward.directory] at hl
    exact ⟨l, hl, (hsame l).symm.trans hfile⟩
  · intro hplace l
    by_contra hchanged
    obtain ⟨names, hpage, hl⟩ := h.differs.file? l hchanged
    obtain ⟨text, htext⟩ := Option.ne_none_iff_exists'.1 hpage
    obtain ⟨l', hl', hold⟩ := hplace names text htext
    obtain rfl := Option.some.inj (hl.symm.trans hl')
    obtain ⟨l', hl', hnew⟩ := hthere names text htext
    rw [World.below_congr h.onward.root h.onward.directory] at hl'
    obtain rfl := Option.some.inj (hl.symm.trans hl')
    exact hchanged (hnew.trans hold.symm)

/-- Pages that have been gone through leave all files as they were exactly if this was a dry run or
they were in place. -/
theorem untouched_of_writePages {r : Report × List Location} (hout : outDir ≠ "")
    (h : runOn (writePages settings outDir report written pages) s = (.ok r, s')) :
    (∀ l, s'.world.tree.file? l = s.world.tree.file? l) ↔
      settings.dryRun = true ∨ InPlace outDir pages s.world := by
  cases hdry : settings.dryRun with
  | true =>
    have hprints : OnlyPrints _
        (writePages settings outDir report written pages : Action (StateM Trial) _).run
        (writePages settings outDir report written pages : Action (StateM Trial) _).run :=
      couples_onlyPrints.changeless.writePages (by simp [hdry]) report written
    obtain ⟨output, trouble, hprinted⟩ := onlyPrints_runOn hprints h
    rw [hprinted]
    exact iff_of_true (fun _ => rfl) (.inl rfl)
  | false =>
    rw [(filled_writePages hdry hout h).1.untouched_iff hout]
    simp

/-- A build that ends with the code of a failure leaves the failure in the channel for trouble. -/
theorem run_build_one {arguments : List String} {quiet : Bool} {options : BuildOptions}
    (hparsed : Invocation.ofArguments? arguments = some ⟨quiet, .build options⟩) :
    (run arguments : StateM Trial UInt32) s = (1, s') ↔
      ∃ e left, runOn (build ⟨options.dryRun, options.prune, quiet⟩) s = (.error e, left) ∧
        s' = { left with world := left.world.withTrouble s!"Error: {e.message}" } := by
  rw [run_build hparsed, finish_apply]
  rcases runOn (build ⟨options.dryRun, options.prune, quiet⟩) s with ⟨e | ⟨⟩, left⟩
  · constructor
    · rintro ⟨⟩
      exact ⟨e, left, rfl, rfl⟩
    · rintro ⟨_, _, ⟨⟩, rfl⟩
      rfl
  · exact iff_of_false nofun nofun

/-- A build that fails, whatever goes wrong on the way. If no plan comes about, because of the
configuration, the model or what a page holds, then no file or directory is touched. If the path of
a page is refused, it is the first such page, and no file is touched exactly if this is a dry run or
the pages in front of it were in place. -/
theorem rejected_untouched_iff {arguments : List String} {quiet : Bool} {options : BuildOptions}
    (hparsed : Invocation.ofArguments? arguments = some ⟨quiet, .build options⟩)
    (h : (run arguments : StateM Trial UInt32) s = (1, s')) :
    let settings : Settings := ⟨options.dryRun, options.prune, quiet⟩
    ∃ e, (runOn (build settings) s).1 = .error e ∧
      ((runOn (prepare settings) s).1 = .error e →
        e.ofInput ∧ s'.world.tree = s.world.tree) ∧
      (e.refusesPage →
        ∃ plan before page text after, (runOn (prepare settings) s).1 = .ok plan ∧
          plan.built.pages = before ++ (page, text) :: after ∧ pageLocation page = .error e ∧
          (∀ p ∈ before, ∃ location, pageLocation p.1 = .ok location) ∧
          ((∀ l, s'.world.tree.file? l = s.world.tree.file? l) ↔
            options.dryRun = true ∨ InPlace plan.outDir before s.world)) := by
  intro settings
  obtain ⟨e, left, hfailed, rfl⟩ := (run_build_one hparsed).1 h
  refine ⟨e, by rw [hfailed], fun hinput => ?_, fun hrefused => ?_⟩
  · rcases hplan : runOn (prepare settings) s with ⟨result, opened⟩
    rw [hplan] at hinput
    obtain rfl : result = .error e := hinput
    rw [build_eq, runOn_bind, hplan] at hfailed
    obtain ⟨-, rfl⟩ := Prod.mk.inj hfailed
    obtain ⟨output, trouble, hopened⟩ := onlyPrints_runOn (couples_onlyPrints.prepare _) hplan
    exact ⟨failsOnly_prepare _ _ _ _ hplan, by rw [hopened]; rfl⟩
  · rw [build_eq] at hfailed
    obtain hfailed | ⟨plan, opened, hplan, hfailed⟩ := runOn_bind_error.1 hfailed
    · exact absurd hrefused (Failure.not_refusesPage_of_ofInput (failsOnly_prepare _ _ _ _ hfailed))
    obtain hfailed | ⟨report, done, -, hfailed⟩ := runOn_bind_error.1 hfailed
    · obtain ⟨before, page, text, after, r, hpages, hpage, hbefore⟩ :=
        carryOut_refused hrefused hfailed
      obtain ⟨output, trouble, hopened⟩ := onlyPrints_runOn (couples_onlyPrints.prepare _) hplan
      have huntouched := untouched_of_writePages (joinPath_ne_empty plan.config.outDir) hbefore
      rw [hopened] at huntouched
      exact ⟨plan, before, page, text, after, by rw [hplan], hpages, hpage,
        located_of_writePages hbefore, huntouched⟩
    · exact (failsOnly_close (fun _ => False) _ _ _ _ _ hfailed).elim

/-- A site of a page and another one whose path leads out of the output directory. -/
def escapingSite : Tree where
  entries := [(["api.json"], .file "\x7b\"packageName\": \"p\", \"items\": []\x7d"),
    (["apidoc.json"], .file "\x7b\"pages\": [\x7b\"path\": \"core.md\", \"title\": \"Core\"\x7d,
      \x7b\"path\": \"../x.md\", \"title\": \"X\"\x7d]\x7d")]
  distinct := by decide

theorem rejected_escapingSite :
    let s : Trial := .calm ⟨escapingSite, "", [], "", ""⟩ []
    let s' := ((run ["build"] : StateM Trial UInt32) s).2
    Invocation.ofArguments? ["build"] = some ⟨false, .build {}⟩ ∧
    (run ["build"] : StateM Trial UInt32) s = (1, s') ∧
    ∃ plan before text after, (runOn (prepare noFlags) s).1 = .ok plan ∧
      plan.built.pages = before ++ ("../x.md", text) :: after ∧
      ¬ InPlace plan.outDir before s.world := by
  intro s s'
  have hparsed : Invocation.ofArguments? ["build"] = some ⟨false, .build {}⟩ := by decide
  have hrun : (run ["build"] : StateM Trial UInt32) s = (1, s') := Prod.ext (by decide +kernel) rfl
  obtain ⟨e, hfailed, -, hpath⟩ := rejected_untouched_iff hparsed hrun
  have hescapes : (runOn (build noFlags) s).1 = .error (.escapingPage "../x.md") := by
    decide +kernel
  obtain rfl := Except.error.inj (hescapes.symm.trans hfailed)
  obtain ⟨plan, before, page, text, after, hplan, hpages, hpage, -, huntouched⟩ := hpath rfl
  obtain hnamed | hnamed := eq_of_pageLocation_error hpage
  · cases hnamed
    refine ⟨hparsed, hrun, plan, before, text, after, hplan, hpages, fun hplace => ?_⟩
    have hwritten : s'.world.tree.file? ["docs", "api", "core.md"] ≠
        s.world.tree.file? ["docs", "api", "core.md"] := by
      decide +kernel
    exact hwritten (huntouched.2 (.inr hplace) _)
  · cases hnamed

/-- The first page is written before the path of the second one is refused. -/
theorem rejected_behindPage :
    let s : Trial := .calm ⟨escapingSite, "", [], "", ""⟩ []
    let after := (run ["build"] : StateM Trial UInt32) s
    (runOn (build noFlags) s).1 = .error (.escapingPage "../x.md") ∧ after.1 = 1 ∧
      s.world.tree.file? ["docs", "api", "core.md"] = none ∧
      after.2.world.tree.file? ["docs", "api", "core.md"] ≠ none := by
  decide +kernel

end DocTree.Command
