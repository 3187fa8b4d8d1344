import DocTree.Proofs.Confinement
import DocTree.Proofs.Stages
import DocTree.Proofs.Ways

/-! What a run over pages leaves behind if it succeeds, whatever goes wrong on the way: each location
holds the text of the last page that stands there, and no other file is different. -/
namespace DocTree.Disk

namespace World
variable {path content : String} {w w' w'' : World}

/-- What is a directory stays one. -/
structure Onward (w w' : World) : Prop where
  root : w'.root = w.root
  directory : w'.directory = w.directory
  isDirectory : ∀ l, w.tree.get? l = some .directory → w'.tree.get? l = some .directory

theorem Onward.refl (w : World) : w.Onward w := ⟨rfl, rfl, fun _ h => h⟩

theorem Onward.trans (h : w.Onward w') (h' : w'.Onward w'') : w.Onward w'' :=
  ⟨h'.root.trans h.root, h'.directory.trans h.directory,
    fun l hl => h'.isDirectory l (h.isDirectory l hl)⟩

theorem Grows.onward {news : String → Prop} (h : w.Grows news w') : w.Onward w' :=
  ⟨h.root, h.directory, h.isDirectory⟩

theorem Onward.locate (h : w.Onward w') {l : Location} (hl : w.locate path = .ok l) :
    w'.locate path = .ok l := by
  rw [World.locate] at hl ⊢
  rw [startOf_congr h.root h.directory]
  split at hl
  · exact Tree.walk_mono h.isDirectory hl
  · cases hl

/-- A path leads to a file with the text now, and no other file is different. -/
structure Puts (path content : String) (w w' : World) : Prop where
  onward : w.Onward w'
  there : ∃ place, w'.locate path = .ok place ∧ w'.tree.file? place = some (.file content)
  differs : w.Differs (w.place path = some ·) w'

theorem puts_of_read (h : w.read path = .ok content) : Puts path content w w := by
  obtain ⟨place, hplace, hfile⟩ := read_iff.1 h
  exact ⟨.refl w, ⟨place, hplace, by rw [Tree.file?, hfile]; rfl⟩, .refl w⟩

theorem puts_of_write {made : World} {directory : String}
    (hmade : w.make directory = (true, made)) (h : made.write path content = (true, w')) :
    Puts path content w w' := by
  have hgrows : w.Grows (fun _ => True) (w.make directory).2 := w.grows_make directory
  have hsame : w.Differs (w.place path = some ·) (w.make directory).2 := w.differs_make directory
  have hput : made.Grows (fun _ => True) (made.write path content).2 := made.grows_write path trivial
  have hdiffers := made.differs_write path content
  rw [hmade] at hgrows hsame
  rw [h] at hput hdiffers
  rw [hsame.place] at hdiffers
  obtain ⟨place, hplace, hfile⟩ := read_iff.1 (read_of_write h)
  exact ⟨(hgrows.trans hput).onward, ⟨place, hplace, by rw [Tree.file?, hfile]; rfl⟩,
    hsame.trans hdiffers⟩

/-- The place below a directory to which names lead. -/
def below (w : World) (path : String) (names : Location) : Option Location :=
  (w.place path).map (· ++ names)

theorem below_congr (hroot : w'.root = w.root) (hdirectory : w'.directory = w.directory)
    (names : Location) : w'.below path names = w.below path names := by
  rw [below, below, place_congr hroot hdirectory]

theorem eq_of_below {names others : Location} {l : Location} (h : w.below path names = some l)
    (h' : w.below path others = some l) : others = names := by
  obtain ⟨out, hout, rfl⟩ := Option.map_eq_some_iff.1 h
  obtain ⟨out', hout', heq⟩ := Option.map_eq_some_iff.1 h'
  obtain rfl := Option.some.inj (hout.symm.trans hout')
  exact List.append_cancel_left heq

end World

namespace Trial
variable {s s' : Trial} {path content : String}

theorem make_ok (h : s.make path = (true, s')) : s.world.make path = (true, s'.world) := by
  rw [make] at h
  split at h
  · obtain ⟨hdone, rfl⟩ := Prod.mk.inj h
    exact Prod.ext hdone rfl
  · cases h
  · cases h

theorem write_ok (h : s.write path content = (true, s')) :
    s.world.write path content = (true, s'.world) := by
  rw [write] at h
  split at h
  · obtain ⟨hdone, rfl⟩ := Prod.mk.inj h
    exact Prod.ext hdone rfl
  · cases h
  · cases h

end Trial
end DocTree.Disk

namespace DocTree.Command
open Disk

variable {s s' : Trial} {path content outDir : String} {change : Change} {settings : Settings}
  {pages : List (String × String)} {report report' : Report} {written written' : List Location}
  {names : Location}

/-- Whether a page is to be written is found out without a change, and a page that is said to be
unchanged is there. -/
theorem changeOf_looks (h : runOn (changeOf path content) s = (.ok change, s')) :
    s'.world = s.world ∧ (change = .unchanged → s.world.read path = .ok content) := by
  have hlook : runOn (Session.pathExists path) s =
      (.ok (s.look (·.exists? path) false).1, s.next s.world) := rfl
  rw [changeOf, runOn_bind, hlook] at h
  cases hexists : (s.look (·.exists? path) false).1 with
  | false =>
    rw [hexists] at h
    obtain ⟨rfl, rfl⟩ := runOn_pure_ok.1 h
    exact ⟨rfl, fun hsame => by cases hsame⟩
  | true =>
    have hread : runOn (Session.readFile path) (s.next s.world) =
        (.ok ((s.next s.world).look (·.read path) (.error .denied)).1,
          (s.next s.world).next s.world) := rfl
    simp only [hexists, if_true, runOn_bind, hread] at h
    cases hfound : ((s.next s.world).look (·.read path) (.error .denied)).1 with
    | error fault =>
      rw [hfound] at h
      cases fault with
      | notText =>
        obtain ⟨rfl, rfl⟩ := runOn_pure_ok.1 h
        exact ⟨rfl, fun hsame => by cases hsame⟩
      | _ => cases h
    | ok present =>
      rw [hfound] at h
      obtain ⟨rfl, rfl⟩ := runOn_pure_ok.1 h
      refine ⟨rfl, fun hsame => ?_⟩
      obtain rfl : present = content := by
        by_contra hne
        simp [hne] at hsame
      rw [Trial.look] at hfound
      dsimp only at hfound
      split_ifs at hfound
      exact hfound

theorem puts_writePage (h : runOn (writePage false path content) s = (.ok change, s')) :
    World.Puts path content s.world s'.world := by
  obtain ⟨looked, hlook, hput⟩ := writePage_ok.1 h
  obtain ⟨hsame, hread⟩ := changeOf_looks hlook
  split_ifs at hput with hchange
  · rw [hput, hsame]
    exact World.puts_of_read (hread hchange)
  · obtain ⟨made, hmade, hwritten⟩ := hput
    rw [← hsame]
    exact World.puts_of_write (Trial.make_ok hmade) (Trial.write_ok hwritten)

/-- The text of the last of the pages that stand at a location. -/
def lastText : List (String × String) → Location → Option String
  | [], _ => none
  | page :: rest, names =>
    (lastText rest names).or (if pageLocation page.1 = .ok names then some page.2 else none)

theorem lastText_ne_none : lastText pages names ≠ none ↔
    ∃ page ∈ pages, pageLocation page.1 = .ok names := by
  induction pages with
  | nil => simp [lastText]
  | cons page rest ih =>
    simp only [lastText, ne_eq, Option.or_eq_none_iff, not_and_or, List.exists_mem_cons_iff]
    rw [ne_eq] at ih
    rw [ih, or_comm]
    split <;> simp_all

/-- The location of a page is named. -/
theorem isName_of_lastText (h : lastText pages names ≠ none) :
    names ≠ [] ∧ ∀ name ∈ names, IsName name := by
  obtain ⟨page, -, hlocation⟩ := lastText_ne_none.1 h
  exact isName_of_pageLocation hlocation

/-- The places of the pages. -/
def pagePlaces (outDir : String) (pages : List (String × String)) (w : World)
    (l : Location) : Prop :=
  ∃ names, lastText pages names ≠ none ∧ w.below outDir names = some l

theorem below_eq_place {w : World} (hout : outDir ≠ "") (hne : names ≠ [])
    (hnames : ∀ name ∈ names, IsName name) :
    w.below outDir names = w.place (outputPath outDir names) :=
  (place_outputPath hout hne hnames).symm

/-- The world after a run over pages. -/
structure Filled (outDir : String) (pages : List (String × String)) (w w' : World) : Prop where
  onward : w.Onward w'
  differs : w.Differs (pagePlaces outDir pages w) w'
  there : ∀ names text, lastText pages names = some text →
    ∃ l, w'.locate (outputPath outDir names) = .ok l ∧ w'.tree.file? l = some (.file text)

/-- Where no page stands nothing is different. -/
theorem Filled.file?_eq {w w' : World} {l : Location} (h : Filled outDir pages w w')
    (hl : w.below outDir names = some l) (hnone : lastText pages names = none) :
    w'.tree.file? l = w.tree.file? l := by
  by_contra hchanged
  obtain ⟨others, hothers, hl'⟩ := h.differs.file? l hchanged
  exact hothers (World.eq_of_below hl hl' ▸ hnone)

theorem lastText_cons_of_some {page : String × String} {text : String}
    (h : lastText pages names = some text) : lastText (page :: pages) names = some text := by
  rw [lastText, h]
  rfl

/-- One more page in front of a run: it keeps its place if no later one stands there. -/
theorem Filled.cons {w put said w' : World} {page : String} {output trouble : String}
    (hout : outDir ≠ "") (hlocation : pageLocation page = .ok names)
    (hputs : World.Puts (outputPath outDir names) content w put)
    (hsaid : said = { put with output := output, trouble := trouble })
    (h : Filled outDir pages said w') : Filled outDir ((page, content) :: pages) w w' := by
  obtain ⟨hne, hnames⟩ := isName_of_pageLocation hlocation
  have hprinted : put.Onward said := hsaid ▸ ⟨rfl, rfl, fun _ h => h⟩
  have hkept : put.Differs (pagePlaces outDir ((page, content) :: pages) w) said :=
    hsaid ▸ ⟨rfl, rfl, fun _ h => absurd rfl h⟩
  have hbefore := hputs.onward.trans hprinted
  refine ⟨hbefore.trans h.onward, ?_, fun others text htext => ?_⟩
  · refine (hputs.differs.mono fun l hl => ?_).trans (hkept.trans (h.differs.mono fun l hl => ?_))
    · refine ⟨names, lastText_ne_none.2 ⟨_, List.mem_cons_self, hlocation⟩, ?_⟩
      rwa [below_eq_place hout hne hnames]
    · obtain ⟨others, hothers, hl⟩ := hl
      obtain ⟨text, htext⟩ := Option.ne_none_iff_exists'.1 hothers
      refine ⟨others, by rw [lastText_cons_of_some htext]; exact Option.some_ne_none _, ?_⟩
      rwa [World.below_congr hbefore.root hbefore.directory] at hl
  · cases hlast : lastText pages others with
    | some last =>
      obtain rfl : last = text := Option.some.inj ((lastText_cons_of_some hlast).symm.trans htext)
      exact h.there others last hlast
    | none =>
      rw [lastText, hlast, Option.none_or] at htext
      split_ifs at htext with hsame
      obtain rfl := Option.some.inj htext
      obtain rfl := Except.ok.inj (hlocation.symm.trans hsame)
      obtain ⟨place, hplace, hfile⟩ := hputs.there
      refine ⟨place, h.onward.locate (hprinted.locate hplace), ?_⟩
      have hthere : said.tree.file? place = some (.file content) := hsaid ▸ hfile
      have hhere : said.below outDir names = some place := by
        rw [below_eq_place hout hne hnames]
        exact World.place_of_locate (hprinted.locate hplace)
      exact (h.file?_eq hhere hlast).trans hthere

theorem onlyPrints_runOn {α : Type} {steps : Action (StateM Trial) α}
    {result : Except Failure α} (h : OnlyPrints _ steps.run steps.run)
    (hrun : runOn steps s = (result, s')) :
    ∃ output trouble, s'.world = { s.world with output := output, trouble := trouble } := by
  have hworld : ∃ output trouble,
      (runOn steps s).2.world = { s.world with output := output, trouble := trouble } := h s
  rwa [hrun] at hworld

/-- A run over pages writes each of them, and what it writes is the last text at each location. -/
theorem filled_writePages (hreal : settings.dryRun = false) (hout : outDir ≠ "")
    (h : runOn (writePages settings outDir report written pages) s =
      (.ok (report', written'), s')) :
    Filled outDir pages s.world s'.world ∧
      ∀ names, names ∈ written' ↔ names ∈ written ∨ lastText pages names ≠ none := by
  induction pages generalizing s report written with
  | nil =>
    obtain ⟨⟨⟩, rfl⟩ := runOn_pure_ok.1 h
    exact ⟨⟨.refl _, .refl _, nofun⟩, fun names => by simp [lastText]⟩
  | cons page rest ih =>
    obtain ⟨path, text⟩ := page
    obtain ⟨location, change, put, said, hlocation, hput, hsaid, hrest⟩ := writePages_cons_ok.1 h
    rw [hreal] at hput
    obtain ⟨output, trouble, hprinted⟩ :=
      onlyPrints_runOn (couples_onlyPrints.sayChange settings path change) hsaid
    obtain ⟨hfilled, hwritten⟩ := ih hrest
    refine ⟨hfilled.cons hout hlocation (puts_writePage hput) hprinted, fun names => ?_⟩
    rw [hwritten, List.mem_cons, lastText_ne_none, lastText_ne_none, List.exists_mem_cons_iff,
      hlocation, Except.ok.injEq, @eq_comm _ location]
    tauto

end DocTree.Command
