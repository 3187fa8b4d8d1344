import DocTree.Api.Json
import DocTree.Command.Arguments
import DocTree.Command.Failure
import DocTree.Disk.Session
import DocTree.Site.Build

/-! Building a site: every configured page is rendered and written below the output directory.
A file that already holds its page stays as it is. -/
namespace DocTree.Command
open DocTree.Disk

variable {m : Type → Type} [Monad m] [Session m]

/-- Steps of a command, which may fail. -/
abbrev Action (m : Type → Type) := ExceptT Failure m

/-- A remark in one line. -/
def remarkLine (file : String) (remark : Diagnostic) : String :=
  s!"{file}: {remark.severity.word}: [{remark.code}] {remark.message}"

/-- The first of the directories that holds a configuration. -/
def findConfig : List String → Action m (Option String)
  | [] => pure none
  | directory :: outer => do
    if ← Session.pathExists (joinPath directory configFile) then pure (some directory)
    else findConfig outer

/-- The innermost directory around the working directory that holds a configuration. -/
def findRoot : Action m String := do
  match ← Session.workingDirectory with
  | none => throw .nowhere
  | some start =>
    match ← findConfig (ancestors start) with
    | some root => return root
    | none => throw (.noConfig start)

/-- What a file holds, taken apart by `parse`. -/
def load {α : Type} (parse : String → Option α) (path : String) : Action m α := do
  match ← Session.readFile path with
  | .error _ => throw (.unreadable path)
  | .ok text =>
    match parse text with
    | some value => return value
    | none => throw (.unparsable path)

/-- The configuration in a directory. -/
def loadConfig (root : String) : Action m Config := do
  if ← Session.pathExists (joinPath root configFile) then
    load Config.ofJsonText? (joinPath root configFile)
  else return .default

/-- Goes on along a page's path; the names so far are in reverse. -/
def pageSteps : List String → List String → Option (List String)
  | names, [] => some names.reverse
  | names, piece :: rest =>
    if isIdlePiece piece then pageSteps names rest
    else if piece = ".." then none
    else pageSteps (piece :: names) rest

/-- The names that lead from the output directory to a page. The path has to stay inside it and
to name a file. -/
def pageLocation (page : String) : Except Failure Location :=
  if page.toList.head? == some '/' then .error (.escapingPage page)
  else
    match pageSteps [] (pathPieces page) with
    | none => .error (.escapingPage page)
    | some [] => .error (.namelessPage page)
    | some names => .ok names

/-- What happens to a page's file. -/
inductive Change where
  | created | updated | unchanged
  deriving DecidableEq, Inhabited

/-- What writing a text to a file would change. -/
def changeOf (path content : String) : Action m Change := do
  if ← Session.pathExists path then
    match ← Session.readFile path with
    | .ok present => return if present = content then .unchanged else .updated
    -- Files are compared by their bytes, so one without text differs from every page.
    | .error .notText => return .updated
    | .error _ => throw (.unreadable path)
  else return .created

/-- Writes a text to a file unless the file holds it already. A dry run changes nothing. -/
def writePage (dryRun : Bool) (path content : String) : Action m Change := do
  let change ← changeOf path content
  if change = .unchanged || dryRun then return change
  if ← Session.makeDirectory (parentPath path) then
    if ← Session.writeFile path content then return change else throw (.notWritten path)
  else throw (.notCreated (parentPath path))

/-- What a build did. -/
structure Report where
  created : Nat := 0
  updated : Nat := 0
  unchanged : Nat := 0
  pruned : Nat := 0
  warnings : Nat := 0
  deriving DecidableEq, Inhabited

namespace Report

def count (r : Report) : Change → Report
  | .created => { r with created := r.created + 1 }
  | .updated => { r with updated := r.updated + 1 }
  | .unchanged => { r with unchanged := r.unchanged + 1 }

/-- The counts that are not zero, in words. -/
def counts (r : Report) : List String :=
  [(r.created, "created"), (r.updated, "updated"), (r.unchanged, "unchanged"),
    (r.pruned, "pruned")].filterMap fun (n, word) =>
      if n = 0 then none else some s!"{n} {word}"

def ruler : String := String.ofList (List.replicate 40 '=')

/-- The lines that close a build. -/
def summary (r : Report) (dryRun : Bool) : List String :=
  ["", ruler, if dryRun then "Dry run complete (nothing written)" else "Build complete!", ""]
    ++ (if r.counts.isEmpty then [] else ["Pages: " ++ ", ".intercalate r.counts])
    ++ (if r.warnings = 0 then [] else [s!"{r.warnings} warning(s), see above"])
    ++ [ruler]

end Report

/-- What a build is run with. -/
structure Settings where
  dryRun : Bool
  prune : Bool
  quiet : Bool
  deriving DecidableEq, Inhabited

def say (settings : Settings) (line : String) : Action m Unit :=
  if settings.quiet then pure () else Session.printLine line

/-- Says what has happened to a page's file, unless nothing has. -/
def sayChange (settings : Settings) (page : String) : Change → Action m Unit
  | .created => say settings s!"  create {page}"
  | .updated => say settings s!"  update {page}"
  | .unchanged => pure ()

/-- The path of a file below the output directory. -/
def outputPath (outDir : String) (location : Location) : String :=
  joinPath outDir ("/".intercalate location)

/-- Writes pages in order. Gives the counts and the places of all pages. -/
def writePages (settings : Settings) (outDir : String) (report : Report)
    (written : List Location) : List (String × String) → Action m (Report × List Location)
  | [] => return (report, written)
  | (page, markdown) :: rest =>
    match pageLocation page with
    | .error e => throw e
    | .ok location => do
      let change ← writePage settings.dryRun (outputPath outDir location) markdown
      sayChange settings page change
      writePages settings outDir (report.count change) (location :: written) rest

/-- Whether a file is one of Markdown by its name. -/
def isMarkdown (location : Location) : Bool :=
  (location.getLast?.bind extension?) == some "md"

/-- The files of Markdown that are no written page. -/
def staleFiles (written present : List Location) : List Location :=
  present.filter fun location => isMarkdown location && !written.contains location

/-- Takes a file away, except in a dry run. -/
def removeStale (settings : Settings) (path : String) : Action m Unit :=
  if settings.dryRun then pure ()
  else do if ← Session.removeFile path then return else throw (.notRemoved path)

/-- Takes away files one by one. -/
def pruneFiles (settings : Settings) (outDir : String) (report : Report) :
    List Location → Action m Report
  | [] => return report
  | location :: rest => do
    let name := "/".intercalate location
    removeStale settings (joinPath outDir name)
    say settings s!"  prune {name}"
    pruneFiles settings outDir { report with pruned := report.pruned + 1 } rest

/-- Prints remarks on the model. -/
def printRemarks (file : String) : List Diagnostic → Action m Unit
  | [] => return
  | remark :: rest => do
    Session.printTrouble (remarkLine file remark)
    printRemarks file rest

/-- Takes away the files of Markdown that no page has been written to. -/
def prune (settings : Settings) (outDir : String) (report : Report) (written : List Location) :
    Action m Report := do
  match ← Session.filesBelow outDir with
  | none => throw (.unlisted outDir)
  | some present => pruneFiles settings outDir report (staleFiles written present)

/-- Builds a configured site in a directory. -/
def buildSite (settings : Settings) (root : String) (config : Config) : Action m Report := do
  let model ← load Api.Model.ofJsonText? (joinPath root config.model)
  say settings s!"apidoc {model.package} ({config.site.pages.length} pages)"
  match Site.renderPages model config.site with
  | .error e => throw (.rendering e)
  | .ok built => do
    printRemarks config.model built.remarks
    let warnings := built.remarks.countP fun remark => remark.severity != .info
    let outDir := joinPath root config.outDir
    let (report, written) ← writePages settings outDir { warnings := warnings } [] built.pages
    if settings.prune then prune settings outDir report written else return report

/-- Builds the site that is configured in a directory. -/
def buildAt (settings : Settings) (root : String) : Action m Report := do
  buildSite settings root (← loadConfig root)

def printLines : List String → Action m Unit
  | [] => return
  | line :: rest => do
    Session.printLine line
    printLines rest

/-- Closes a build with its summary. -/
def close (settings : Settings) (report : Report) : Action m Unit :=
  if settings.quiet then pure () else printLines (report.summary settings.dryRun)

/-- Finds the configuration, builds the site and closes with a summary. -/
def build (settings : Settings) : Action m Unit := do
  let root ← findRoot
  close settings (← buildAt settings root)

end DocTree.Command
