import DocTree.Proofs.Plan
import DocTree.Proofs.Pruning

/-! A dry run beside the real one. The real run changes the tree that it looks at, the dry one does
not; yet a place that no page has been written to yet looks the same to both of them, if the way to
it is decided by what is there and not by directories that the real run makes on its way. -/
namespace DocTree.Disk.World
variable {w r r' : World} {path content : String}

/-- The files of a world, with what has been printed in another one. -/
def echoing (w r : World) : World := { w with output := r.output, trouble := r.trouble }

/-- A path without a way up is straight. -/
theorem straight_of_notMem (h : ".." ∉ pathPieces path) : w.Straight path := by
  intro start pieces hstart
  refine ⟨[], pieces, start, rfl, rfl, fun hmem => h ?_⟩
  rw [startOf] at hstart
  split at hstart
  · next first rest hpieces =>
    rw [hpieces]
    split_ifs at hstart
    · cases hstart
      exact List.mem_cons_of_mem first hmem
    · cases hstart
      exact hmem
  · cases hstart

theorem echoing_make (w r : World) (path : String) :
    w.echoing (r.make path).2 = w.echoing r := by
  rw [make]
  split <;> rfl

theorem echoing_write (w r : World) (path content : String) :
    w.echoing (r.write path content).2 = w.echoing r := by
  obtain h | ⟨_, -, -, h⟩ := r.write_cases path content
  · rw [h]
  · rw [h]
    rfl

theorem echoing_remove (w r : World) (path : String) :
    w.echoing (r.remove path).2 = w.echoing r := by
  rw [remove]
  split
  · split <;> rfl
  · rfl

theorem sorted_list (w : World) (path : String) :
    (w.list path).Pairwise (Tree.comesFirst · ·) := by
  rw [list]
  split
  · split
    · rw [Tree.filesBelow_eq_mergeSort]
      exact Tree.pairwise_mergeSort _
    · exact .nil
  · exact .nil

theorem nodup_list (w : World) (path : String) : (w.list path).Nodup := by
  rw [list]
  split
  · split
    · exact Tree.nodup_filesBelow _ _
    · exact .nil
  · exact .nil

end DocTree.Disk.World

namespace DocTree.Command
open Disk

section
variable {σ : Type} [Session (StateM σ)] {s : σ}

theorem writePage_dry (path content : String) (s : σ) :
    runOn (writePage true path content) s = runOn (changeOf path content) s := by
  rw [writePage, runOn_bind]
  rcases runOn (changeOf path content) s with ⟨e | change, s'⟩
  · rfl
  · simp only [Bool.or_true, if_true]
    rfl

end

variable {w r r' d' : World} {outDir path content : String} {change change' : Change}
  {names : Location} {l : Location} {written : List Location} {prune quiet : Bool}
  {pages : List (String × String)} {report : Report}

/-- The real run has come from a world so far: nothing has gone, and files differ only at the
places that it has written to. -/
structure Ahead (outDir : String) (written : List Location) (w r : World) : Prop where
  grows : w.Grows (fun _ => True) r
  differs : w.Differs (fun l => ∃ names ∈ written, w.below outDir names = some l) r

theorem Ahead.refl (outDir : String) (written : List Location) (w : World) :
    Ahead outDir written w w := ⟨.refl w, .refl w⟩

/-- A place that has not been written to holds what it held, or a new directory. -/
theorem Ahead.get? (h : Ahead outDir written w r) (hl : w.below outDir names = some l)
    (hnew : names ∉ written) : r.tree.get? l = w.tree.get? l ∨
      w.tree.get? l = none ∧ r.tree.get? l = some .directory := by
  have hfile : r.tree.file? l = w.tree.file? l := by
    by_contra hchanged
    obtain ⟨others, hothers, hl'⟩ := h.differs.file? l hchanged
    exact hnew (World.eq_of_below hl hl' ▸ hothers)
  rw [Tree.file?, Tree.file?] at hfile
  cases hw : w.tree.get? l with
  | none =>
    rw [hw] at hfile
    cases hr : r.tree.get? l with
    | none => exact .inl rfl
    | some entry =>
      rw [hr] at hfile
      cases entry with
      | directory => exact .inr ⟨rfl, rfl⟩
      | _ => cases hfile
  | some entry =>
    cases entry with
    | directory => exact .inl (h.grows.isDirectory l hw)
    | _ =>
      rw [hw] at hfile
      exact .inl (Option.filter_eq_some_iff.1 hfile).1

/-- The two runs find out the same about a page, unless one of them fails. -/
theorem Ahead.changeIn_eq (hclosed : w.tree.Closed) (hstraight : w.Straight outDir)
    (hout : outDir ≠ "") (hne : names ≠ []) (hnames : ∀ name ∈ names, IsName name)
    (h : Ahead outDir written w r) (hnew : names ∉ written)
    (hw : changeIn w (outputPath outDir names) content = .ok change)
    (hr : changeIn r (outputPath outDir names) content = .ok change') : change' = change := by
  have hbelow {v : World} {l : Location} (hl : v.locate (outputPath outDir names) = .ok l) :
      v.below outDir names = some l :=
    (below_eq_place hout hne hnames).trans (World.place_of_locate hl)
  by_cases hthere : w.exists? (outputPath outDir names)
  · obtain ⟨l, hl, hsome⟩ := World.exists?_iff.1 hthere
    obtain hsame | ⟨hnone, -⟩ := h.get? (hbelow hl) hnew
    · have hlocate := h.grows.locate hl
      have hexists : r.exists? (outputPath outDir names) = w.exists? (outputPath outDir names) := by
        simp only [World.exists?, hl, hlocate, hsame]
      have hread : r.read (outputPath outDir names) = w.read (outputPath outDir names) := by
        simp only [World.read, hl, hlocate, hsame]
      rw [changeIn, hexists, hread] at hr
      exact Except.ok.inj (hr.symm.trans hw)
    · rw [hnone] at hsome
      cases hsome
  · rw [changeIn, if_neg hthere] at hw
    by_cases hmade : r.exists? (outputPath outDir names)
    · obtain ⟨l, hl, hsome⟩ := World.exists?_iff.1 hmade
      have hl' : w.below outDir names = some l := by
        rw [← World.below_congr h.grows.root h.grows.directory]
        exact hbelow hl
      obtain hsame | ⟨-, hdirectory⟩ := h.get? hl' hnew
      · obtain ⟨out, hplace, rfl⟩ := Option.map_eq_some_iff.1 hl'
        have hold : w.tree.get? (out ++ names) ≠ none := by
          rw [← hsame]
          exact Option.isSome_iff_ne_none.1 hsome
        have hlocate := locate_of_closed hclosed hstraight hout hne hnames hplace hold
        exact absurd (World.exists?_iff.2 ⟨_, hlocate, Option.isSome_iff_ne_none.2 hold⟩) hthere
      · rw [changeIn, if_pos hmade, World.read, hl] at hr
        dsimp only at hr
        rw [hdirectory] at hr
        cases hr
    · rw [changeIn, if_neg hmade] at hr
      exact Except.ok.inj (hr.symm.trans hw)

theorem echoing_writePage (w : World)
    (h : runOn (writePage false path content) r = (.ok change, r')) :
    w.echoing r' = w.echoing r := by
  obtain ⟨looked, hlook, hput⟩ := writePage_ok.1 h
  rw [changeOf_world] at hlook
  obtain ⟨-, rfl⟩ := Prod.mk.inj hlook
  split at hput
  · rw [hput]
  · obtain ⟨made, hmade, hwritten⟩ := hput
    have hfirst : w.echoing made = w.echoing r := by
      rw [← w.echoing_make r (parentPath path)]
      exact congrArg (w.echoing ·.2) hmade.symm
    rw [← hfirst, ← w.echoing_write made path content]
    exact congrArg (w.echoing ·.2) hwritten.symm

/-- Writing a page in the real run, beside what the dry run does with it. -/
theorem Ahead.writePage (hclosed : w.tree.Closed) (hstraight : w.Straight outDir)
    (hout : outDir ≠ "") (hlocation : pageLocation path = .ok names)
    (h : Ahead outDir written w r) (hnew : names ∉ written)
    (hd : runOn (writePage true (outputPath outDir names) content) (w.echoing r) =
      (.ok change, d'))
    (hr : runOn (writePage false (outputPath outDir names) content) r = (.ok change', r')) :
    change' = change ∧ d' = w.echoing r' ∧ Ahead outDir (names :: written) w r' := by
  obtain ⟨hne, hnames⟩ := isName_of_pageLocation hlocation
  rw [writePage_dry, changeOf_world] at hd
  obtain ⟨hw, rfl⟩ := Prod.mk.inj hd
  obtain ⟨looked, hlook, -⟩ := writePage_ok.1 hr
  rw [changeOf_world] at hlook
  refine ⟨h.changeIn_eq hclosed hstraight hout hne hnames hnew hw (congrArg Prod.fst hlook),
    (echoing_writePage w hr).symm, ?_, ?_⟩
  · have hgrows : r.Grows (fun _ => True)
        (runOn (Command.writePage false (outputPath outDir names) content) r).2 :=
      (couplesChanges_adding fun _ => True).writePage (fun _ => trivial) r
    rw [hr] at hgrows
    exact h.grows.trans hgrows
  · have hput := (puts_writePage (writePage_calm hr [])).differs
    refine (h.differs.mono fun l hl => ?_).trans (hput.mono fun l hl => ?_)
    · obtain ⟨others, hothers, hl⟩ := hl
      exact ⟨others, List.mem_cons_of_mem names hothers, hl⟩
    · refine ⟨names, List.mem_cons_self, ?_⟩
      rw [← World.below_congr h.grows.root h.grows.directory]
      exact (below_eq_place hout hne hnames).trans hl

theorem say_echoing (w r : World) (line : String) :
    runOn (say ⟨true, prune, quiet⟩ line) (w.echoing r) =
      (.ok (), w.echoing (runOn (say ⟨false, prune, quiet⟩ line) r).2) := by
  cases quiet <;> rfl

theorem sayChange_echoing (w r : World) (path : String) (change : Change) :
    runOn (sayChange ⟨true, prune, quiet⟩ path change) (w.echoing r) =
      (.ok (), w.echoing (runOn (sayChange ⟨false, prune, quiet⟩ path change) r).2) := by
  cases change with
  | unchanged => rfl
  | _ => exact say_echoing w r _

theorem sayChange_world (settings : Settings) (path : String) (change : Change) (r : World) :
    ∃ output, runOn (sayChange settings path change) r =
      (.ok (), { r with output := output }) := by
  obtain ⟨_, _, quiet⟩ := settings
  cases change <;> cases quiet <;> exact ⟨_, rfl⟩

theorem Ahead.print (h : Ahead outDir written w r) (output : String) :
    Ahead outDir written w { r with output := output } :=
  ⟨⟨h.grows.root, h.grows.directory, h.grows.isDirectory, h.grows.isSome, h.grows.text⟩,
    ⟨h.differs.root, h.differs.directory, h.differs.file?⟩⟩

/-- Two runs over pages that stand at different places, none of them written to before. -/
theorem Ahead.writePages (hclosed : w.tree.Closed) (hstraight : w.Straight outDir)
    (hout : outDir ≠ "") (hdistinct : (pages.map (pageLocation ·.1)).Nodup)
    (hnew : ∀ page ∈ pages, ∀ names ∈ written, pageLocation page.1 ≠ .ok names)
    (h : Ahead outDir written w r) {x y : Report × List Location}
    (hd : runOn (writePages ⟨true, prune, quiet⟩ outDir report written pages) (w.echoing r) =
      (.ok x, d'))
    (hr : runOn (writePages ⟨false, prune, quiet⟩ outDir report written pages) r = (.ok y, r')) :
    y = x ∧ d' = w.echoing r' ∧ Ahead outDir x.2 w r' := by
  induction pages generalizing r report written with
  | nil =>
    obtain ⟨rfl, rfl⟩ := runOn_pure_ok.1 hd
    obtain ⟨rfl, rfl⟩ := runOn_pure_ok.1 hr
    exact ⟨rfl, rfl, h⟩
  | cons page rest ih =>
    obtain ⟨path, text⟩ := page
    obtain ⟨hfirst, hrest⟩ := List.nodup_cons.1 hdistinct
    obtain ⟨hfresh, hfreshRest⟩ := List.forall_mem_cons.1 hnew
    obtain ⟨names, change, put, said, hlocation, hput, hsaid, hd⟩ := writePages_cons_ok.1 hd
    obtain ⟨names', change', put', said', hlocation', hput', hsaid', hr⟩ := writePages_cons_ok.1 hr
    obtain rfl := Except.ok.inj (hlocation.symm.trans hlocation')
    obtain ⟨rfl, rfl, hahead⟩ := h.writePage hclosed hstraight hout hlocation
      (fun hold => hfresh names hold hlocation) hput hput'
    rw [sayChange_echoing, hsaid'] at hsaid
    cases hsaid
    obtain ⟨output, hprinted⟩ := sayChange_world ⟨false, prune, quiet⟩ path change' put'
    obtain rfl : said' = { put' with output := output } :=
      congrArg Prod.snd (hsaid'.symm.trans hprinted)
    refine ih hrest (fun page hpage others hothers hsame => ?_) (hahead.print output) hd hr
    obtain rfl | hold := List.mem_cons.1 hothers
    · exact hfirst (List.mem_map.2 ⟨page, hpage, hsame.trans hlocation.symm⟩)
    · exact hfreshRest page hpage others hold hsame

/-- Below the output directory nothing else is found that has not been written. -/
theorem Ahead.under (hclosed : w.tree.Closed) (hstraight : w.Straight outDir)
    (h : Ahead outDir written w r) (hne : names ≠ []) (hnew : names ∉ written) :
    r.under outDir names = w.under outDir names := by
  refine Option.ext fun entry => ?_
  have hsame {out : Location} (hplace : w.place outDir = some out) :
      r.tree.file? (out ++ names) = w.tree.file? (out ++ names) := by
    have hbelow : w.below outDir names = some (out ++ names) := by rw [World.below, hplace]; rfl
    rw [Tree.file?, Tree.file?]
    obtain hsame | ⟨hnone, hdirectory⟩ := h.get? hbelow hnew
    · rw [hsame]
    · rw [hnone, hdirectory]
      rfl
  rw [World.under_eq_some, World.under_eq_some]
  constructor
  · rintro ⟨out, hlocate, -, hfile⟩
    have hplace : w.place outDir = some out :=
      (h.differs.place outDir).symm.trans (World.place_of_locate hlocate)
    rw [hsame hplace] at hfile
    have hthere : w.tree.get? (out ++ names) ≠ none := by
      rw [(Option.filter_eq_some_iff.1 hfile).1]
      exact Option.some_ne_none entry
    have hdirectory := hclosed.around hne hthere
    exact ⟨out, hstraight.locate hclosed hplace hdirectory, hdirectory, hfile⟩
  · rintro ⟨out, hlocate, hdirectory, hfile⟩
    exact ⟨out, h.grows.locate hlocate, h.grows.isDirectory out hdirectory,
      (hsame (World.place_of_locate hlocate)).trans hfile⟩

/-- The two runs find the same stale files, in the same order. -/
theorem Ahead.staleFiles_eq (hclosed : w.tree.Closed) (hstraight : w.Straight outDir)
    (h : Ahead outDir written w r) :
    staleFiles written (r.list outDir) = staleFiles written (w.list outDir) := by
  have hsub (v : World) : (staleFiles written (v.list outDir)).Sublist (v.list outDir) :=
    List.filter_sublist
  refine Tree.eq_of_comesFirst ?_ ((r.sorted_list outDir).sublist (hsub r))
    ((w.sorted_list outDir).sublist (hsub w))
  refine (List.perm_ext_iff_of_nodup ((r.nodup_list outDir).sublist (hsub r))
    ((w.nodup_list outDir).sublist (hsub w))).2 fun names => ?_
  rw [mem_staleFiles_list, mem_staleFiles_list]
  refine and_congr_right fun hmarkdown => and_congr_right fun hnew => ?_
  have hne : names ≠ [] := by
    obtain ⟨folder, stem, -, rfl⟩ := hmarkdown
    simp
  rw [h.under hclosed hstraight hne hnew]

theorem removeStale_dry (path : String) (w : World) :
    runOn (removeStale ⟨true, prune, quiet⟩ path) w = (.ok (), w) := rfl

theorem echoing_removeStale (w : World)
    (h : runOn (removeStale ⟨false, prune, quiet⟩ path) r = (.ok (), r')) :
    w.echoing r' = w.echoing r := by
  obtain ⟨removed, hremoved, h⟩ := runOn_unless_ok.1 h
  obtain ⟨-, rfl⟩ := runOn_pure_ok.1 h
  rw [← w.echoing_remove r path]
  exact congrArg (w.echoing ·.2) hremoved.symm

/-- The dry run tells of every file that the real run takes away. -/
theorem pruneFiles_echoing {stale : List Location} {x y : Report}
    (hd : runOn (pruneFiles ⟨true, prune, quiet⟩ outDir report stale) (w.echoing r) = (.ok x, d'))
    (hr : runOn (pruneFiles ⟨false, prune, quiet⟩ outDir report stale) r = (.ok y, r')) :
    y = x ∧ d' = w.echoing r' := by
  induction stale generalizing r report with
  | nil =>
    obtain ⟨rfl, rfl⟩ := runOn_pure_ok.1 hd
    obtain ⟨rfl, rfl⟩ := runOn_pure_ok.1 hr
    exact ⟨rfl, rfl⟩
  | cons names rest ih =>
    obtain ⟨removed, said, hremoved, hsaid, hd⟩ := pruneFiles_cons_ok.1 hd
    obtain ⟨removed', said', hremoved', hsaid', hr⟩ := pruneFiles_cons_ok.1 hr
    rw [removeStale_dry] at hremoved
    obtain ⟨-, rfl⟩ := Prod.mk.inj hremoved
    rw [← echoing_removeStale w hremoved', say_echoing, hsaid'] at hsaid
    cases hsaid
    exact ih hd hr

/-- A plan that is carried out in both ways. -/
theorem carryOut_echoing {plan : Plan} {x y : Report} (hclosed : w.tree.Closed)
    (hstraight : w.Straight plan.outDir)
    (hdistinct : (plan.built.pages.map (pageLocation ·.1)).Nodup)
    (hd : runOn (plan.carryOut ⟨true, prune, quiet⟩) w = (.ok x, d'))
    (hr : runOn (plan.carryOut ⟨false, prune, quiet⟩) w = (.ok y, r')) :
    y = x ∧ d' = w.echoing r' := by
  obtain ⟨counted, written, put, hput, hd⟩ := carryOut_ok.1 hd
  obtain ⟨counted', written', put', hput', hr⟩ := carryOut_ok.1 hr
  obtain ⟨hsame, rfl, hahead⟩ := (Ahead.refl plan.outDir [] w).writePages hclosed hstraight
    (joinPath_ne_empty plan.config.outDir) hdistinct (fun _ _ _ hold => by cases hold) hput hput'
  cases hsame
  cases prune with
  | false =>
    obtain ⟨rfl, rfl⟩ := hd
    obtain ⟨rfl, rfl⟩ := hr
    exact ⟨rfl, rfl⟩
  | true =>
    have hlist (settings : Settings) (v : World) :
        runOn (Command.prune settings plan.outDir counted written) v =
          runOn (pruneFiles settings plan.outDir counted
            (staleFiles written (v.list plan.outDir))) v := rfl
    rw [if_pos rfl, hlist] at hd hr
    rw [hahead.staleFiles_eq hclosed hstraight] at hr
    exact pruneFiles_echoing hd hr

/-- The lines that close a build, as they are printed. -/
def closing (settings : Settings) (report : Report) : String :=
  if settings.quiet then ""
  else String.join ((report.summary settings.dryRun).map (· ++ "\n"))

theorem close_world (settings : Settings) (report : Report) (w : World) :
    runOn (close settings report) w =
      (.ok (), { w with output := w.output ++ closing settings report }) := by
  rw [close, closing]
  cases settings.quiet with
  | true =>
    rw [if_pos rfl, if_pos rfl, String.append_empty]
    rfl
  | false =>
    rw [if_neg (by decide), if_neg (by decide), printLines_world, foldl_withOutput]

theorem prepare_prints {settings : Settings} {result : Except Failure Plan}
    (h : runOn (prepare settings) w = (result, r)) :
    ∃ output trouble, r = { w with output := output, trouble := trouble } := by
  have hcalm := runOn_calm (couples_followsIdly.prepare settings) w []
  rw [h] at hcalm
  exact onlyPrints_runOn (couples_onlyPrints.prepare settings) hcalm

/-- The dry run of a build tells what the real run does, for pages that all stand at different
places: if both succeed, then the dry run changes no file, both come to one report and have printed
the same until they close with it. The tree is one of files in directories, and the path of the
output directory leads up nowhere behind a directory that is missing. -/
theorem dryRun_foretells {dry real : List String} {options options' : BuildOptions} {plan : Plan}
    {d : World}
    (hdry : Invocation.ofArguments? dry = some ⟨quiet, .build options⟩)
    (hreal : Invocation.ofArguments? real = some ⟨quiet, .build options'⟩)
    (hflags : options.dryRun = true ∧ options'.dryRun = false ∧ options'.prune = options.prune)
    (hplan : (runOn (prepare ⟨false, options.prune, quiet⟩) w).1 = .ok plan)
    (hdistinct : (plan.built.pages.map (pageLocation ·.1)).Nodup) (hclosed : w.tree.Closed)
    (hstraight : w.Straight plan.outDir)
    (hd : (run dry : StateM World UInt32) w = (0, d))
    (hr : (run real : StateM World UInt32) w = (0, r)) :
    ∃ report said,
      (runOn (findRoot >>= fun root => buildAt ⟨true, options.prune, quiet⟩ root) w).1 = .ok report ∧
      (runOn (findRoot >>= fun root => buildAt ⟨false, options.prune, quiet⟩ root) w).1 = .ok report ∧
      d.tree = w.tree ∧ d.trouble = r.trouble ∧
      d.output = said ++ closing ⟨true, options.prune, quiet⟩ report ∧
      r.output = said ++ closing ⟨false, options.prune, quiet⟩ report := by
  obtain ⟨hdryRun, hrealRun, hprune⟩ := hflags
  have hdried := (run_build_zero hdry).1 hd
  have hdone := (run_build_zero hreal).1 hr
  rw [hdryRun] at hdried
  rw [hrealRun, hprune] at hdone
  obtain ⟨plan', opened, report, left, hplan', hcarried, hclose⟩ := build_ok_stages.1 hdried
  obtain ⟨_, _, report', left', hprepared, hcarried', hclose'⟩ := build_ok_stages.1 hdone
  have hsame : runOn (prepare ⟨false, options.prune, quiet⟩) w = (.ok plan', opened) := hplan'
  cases hsame.symm.trans hprepared
  rw [hsame] at hplan
  obtain rfl := Except.ok.inj hplan
  obtain ⟨output, trouble, hopened⟩ := prepare_prints hsame
  have hclosed' : opened.tree.Closed := by rw [hopened]; exact hclosed
  have hstraight' : opened.Straight plan'.outDir := by rw [hopened]; exact hstraight
  obtain ⟨rfl, rfl⟩ := carryOut_echoing hclosed' hstraight' hdistinct hcarried hcarried'
  rw [close_world] at hclose hclose'
  cases hclose
  cases hclose'
  refine ⟨report', left'.output, ?_, ?_, by rw [hopened]; rfl, rfl, rfl, rfl⟩
  · rw [findRoot_buildAt_eq, runOn_bind_ok.2 ⟨plan', opened, hplan', hcarried⟩]
  · rw [findRoot_buildAt_eq, runOn_bind_ok.2 ⟨plan', opened, hsame, hcarried'⟩]

theorem dryRun_foretells_onePage :
    let w : World := ⟨onePageSite, "", [], "", ""⟩
    let d := ((run ["build", "--dry-run"] : StateM World UInt32) w).2
    let r := ((run ["build"] : StateM World UInt32) w).2
    Invocation.ofArguments? ["build", "--dry-run"] = some ⟨false, .build ⟨true, false, false⟩⟩ ∧
    Invocation.ofArguments? ["build"] = some ⟨false, .build {}⟩ ∧ w.tree.Closed ∧
    (run ["build", "--dry-run"] : StateM World UInt32) w = (0, d) ∧
    (run ["build"] : StateM World UInt32) w = (0, r) ∧
    ∃ plan report, (runOn (prepare noFlags) w).1 = .ok plan ∧
      (plan.built.pages.map (pageLocation ·.1)).Nodup ∧ w.Straight plan.outDir ∧
      (runOn (findRoot >>= fun root => buildAt ⟨true, false, false⟩ root) w).1 = .ok report ∧
      (runOn (findRoot >>= fun root => buildAt noFlags root) w).1 = .ok report ∧
      d.tree = w.tree ∧ r.tree.file? ["out", "core.md"] ≠ none := by
  intro w d r
  have hdry : Invocation.ofArguments? ["build", "--dry-run"] =
      some ⟨false, .build ⟨true, false, false⟩⟩ := by decide
  have hreal : Invocation.ofArguments? ["build"] = some ⟨false, .build {}⟩ := by decide
  have hclosed : w.tree.Closed := by decide +kernel
  have hd : (run ["build", "--dry-run"] : StateM World UInt32) w = (0, d) :=
    Prod.ext (by decide +kernel) rfl
  have hr : (run ["build"] : StateM World UInt32) w = (0, r) := Prod.ext (by decide +kernel) rfl
  have hprepared : comesTo (prepare noFlags) w fun plan _ =>
      decide (plan.built.pages.map (pageLocation ·.1)).Nodup &&
        decide (".." ∉ pathPieces plan.outDir) := by
    decide +kernel
  obtain ⟨plan, _, hplan, htest⟩ := comesTo_iff.1 hprepared
  simp only [Bool.and_eq_true, decide_eq_true_eq] at htest
  have hmade : (runOn (prepare noFlags) w).1 = .ok plan := by rw [hplan]
  have hstraight : w.Straight plan.outDir := World.straight_of_notMem htest.2
  obtain ⟨report, _, hdried, hdone, htree, -⟩ := dryRun_foretells hdry hreal ⟨rfl, rfl, rfl⟩ hmade
    htest.1 hclosed hstraight hd hr
  exact ⟨hdry, hreal, hclosed, hd, hr, plan, report, hmade, htest.1, hstraight, hdried, hdone, htree,
    by decide +kernel⟩

/-- A site whose output directory is named on the way round a directory that is missing. -/
def roundaboutSite : Tree where
  entries := [(["api.json"], .file "\x7b\"packageName\": \"p\", \"items\": []\x7d"),
    (["apidoc.json"], .file "\x7b\"outDir\": \"new/../docs\", \"pages\": [
      \x7b\"path\": \"a.md\", \"title\": \"A\"\x7d, \x7b\"path\": \"b.md\", \"title\": \"B\"\x7d]\x7d"),
    (["docs"], .directory), (["docs", "b.md"], .file "old")]
  distinct := by decide

/-- The real run makes the missing directory on its way, and then finds the second page. -/
theorem dryRun_roundabout :
    let w : World := ⟨roundaboutSite, "", [], "", ""⟩
    let d := (run ["build", "--dry-run"] : StateM World UInt32) w
    let r := (run ["build"] : StateM World UInt32) w
    w.tree.Closed ∧ d.1 = 0 ∧ r.1 = 0 ∧
      comesTo (prepare noFlags) w
        (fun plan _ => decide (plan.built.pages.map (pageLocation ·.1)).Nodup) ∧
      (runOn (findRoot >>= fun root => buildAt ⟨true, false, false⟩ root) w).1 =
        .ok { created := 2 } ∧
      (runOn (findRoot >>= fun root => buildAt noFlags root) w).1 =
        .ok { created := 1, updated := 1 } := by
  decide +kernel

end DocTree.Command
