import DocTree.Proofs.Lookup
import DocTree.Site.Build

/-! What building a site comes to. A step has parts that it builds, remarks that it makes and
defects that stand in its way. A row of steps has those of its members in order, and of its
defects it fails with the first. -/
namespace DocTree.Site
open Api Signature

/-- The result where the given defects turn up: the first of them, or what is built. -/
def resultOf {α : Type} (defects : List RenderError) (value : α) : Except RenderError α :=
  match defects with
  | [] => .ok value
  | defect :: _ => .error defect

section Result
variable {α β : Type} {defects more : List RenderError} {a : α} {b : β}

theorem resultOf_eq_ok {a' : α} : resultOf defects a = .ok a' ↔ defects = [] ∧ a = a' := by
  cases defects <;> simp [resultOf]

theorem resultOf_eq_error {error : RenderError} :
    resultOf defects a = .error error ↔ defects.head? = some error := by
  cases defects <;> simp [resultOf]

theorem resultOf_bind {f : α → Except RenderError β} (h : f a = resultOf more b) :
    resultOf defects a >>= f = resultOf (defects ++ more) b := by
  cases defects with
  | nil => exact h
  | cons defect rest => rfl

theorem resultOf_map {f : α → Except RenderError β} (h : f a = .ok b) :
    resultOf defects a >>= f = resultOf defects b := by
  cases defects with
  | nil => exact h
  | cons defect rest => rfl

theorem concat_eq {step : α → Except RenderError (List Node × List Diagnostic)}
    {defects : α → List RenderError} {parts : α → List Node} {remarks : α → List Diagnostic}
    (h : ∀ a, step a = resultOf (defects a) (parts a, remarks a)) (as : List α) :
    concat step as = resultOf (as.flatMap defects) (as.flatMap parts, as.flatMap remarks) := by
  induction as with
  | nil => rfl
  | cons a rest ih =>
    rw [concat, h, ih]
    exact resultOf_bind (resultOf_map rfl)

end Result

/-- What the signatures on the pages of a site are read against. -/
def context (model : Model) (config : Config) : Context :=
  let scope := Scope.ofModel model config.renamedGlobals
  ⟨scope, ⟨scope.index.byName.map Anchors.kindsAmong⟩, config.routes⟩

section Context
variable (model : Model) (config : Config)

theorem context_named (name : String) :
    (context model config).scope.index.named name = model.items.filter (·.name == name) :=
  Index.named_ofModel model name

theorem context_kindsOf (name : String) : (context model config).anchors.kindsOf name =
    Anchors.kindsAmong (model.items.filter (·.name == name)) := by
  rw [← Index.named_ofModel]
  exact Anchors.kindsOf_map _ name

theorem mem_context_kindsOf {item : Item} (h : item ∈ model.items) :
    item.kind ∈ (context model config).anchors.kindsOf item.name := by
  rw [context_kindsOf]
  exact Anchors.mem_kindsAmong.2 ⟨item, by simp [h], rfl⟩

end Context

/-- What a page shows of an item: its signature if that has tokens, its documentation if there is
any, and the paragraph with its sources. -/
def itemParts (ctx : Context) (item : Item) : List Node :=
  (if item.excerpt.tokens.isEmpty then [] else [(build ctx item.excerpt).1])
    ++ item.doc.toList ++ [definedIn item]

/-- The heading of a kind, where the name has several. -/
def kindHeading (anchors : Anchors) (name : String) (kind : Kind) : List Node :=
  if anchors.hasSeveralKinds name then
    [.heading 4 (some (anchors.anchor name kind)) [.text kind.label]]
  else []

def kindParts (ctx : Context) (name : String) (kind : Kind) : List Node :=
  kindHeading ctx.anchors name kind
    ++ ((ctx.scope.index.named name).filter (·.kind == kind)).flatMap (itemParts ctx)

def exportParts (ctx : Context) (name : String) : List Node :=
  .heading 3 (some (nameAnchor name)) [.text name]
    :: (ctx.anchors.kindsOf name).flatMap (kindParts ctx name)

/-- The heading of a section, where it has a title. -/
def sectionHeading (part : Section) : List Node :=
  part.title.toList.map fun title => .heading 2 (some (sectionAnchor title)) [.text title]

def sectionParts (ctx : Context) (part : Section) : List Node :=
  sectionHeading part ++ part.exports.flatMap (exportParts ctx)

def pageParts (ctx : Context) (entry : PageEntry) : List Node :=
  entry.sections.flatMap (sectionParts ctx)

/-- The page for an entry of the configuration, with its path. -/
def pageOf (ctx : Context) (entry : PageEntry) : String × Node :=
  (entry.path,
    .page ⟨entry.title, tableOfContents ctx.anchors entry.sections⟩ (pageParts ctx entry))

/-- The remarks on the signature of an item. -/
def itemRemarks (ctx : Context) (item : Item) : List Diagnostic :=
  if item.excerpt.tokens.isEmpty then [] else (build ctx item.excerpt).2

def exportRemarks (ctx : Context) (name : String) : List Diagnostic :=
  (ctx.anchors.kindsOf name).flatMap fun kind =>
    ((ctx.scope.index.named name).filter (·.kind == kind)).flatMap (itemRemarks ctx)

def pageRemarks (ctx : Context) (entry : PageEntry) : List Diagnostic :=
  entry.sections.flatMap fun part => part.exports.flatMap (exportRemarks ctx)

def itemDefects (item : Item) : List RenderError :=
  if item.declarations.isEmpty then [.missingLocation item.kind item.name] else []

def exportDefects (ctx : Context) (page name : String) : List RenderError :=
  if (ctx.scope.index.named name).isEmpty then [.missingExport name page]
  else (ctx.anchors.kindsOf name).flatMap fun kind =>
    ((ctx.scope.index.named name).filter (·.kind == kind)).flatMap itemDefects

def pageDefects (ctx : Context) (entry : PageEntry) : List RenderError :=
  entry.sections.flatMap fun part => part.exports.flatMap (exportDefects ctx entry.path)

/-- The kinds that are repeated although they may not be, for each name the first. -/
def duplicates (model : Model) : List RenderError :=
  (Index.ofModel model).names.flatMap fun name =>
    (Anchors.repeatedKind? (model.items.filter (·.name == name))).toList.map
      (.duplicateDeclaration name ·)

section Steps
variable (ctx : Context)

theorem itemNodes_eq (item : Item) : itemNodes ctx item =
    resultOf (itemDefects item) (itemParts ctx item, itemRemarks ctx item) := by
  unfold itemNodes
  by_cases hsource : item.declarations.isEmpty
  · simp [hsource, itemDefects, resultOf]
  · by_cases hexcerpt : item.excerpt.tokens.isEmpty <;>
      simp [hsource, hexcerpt, itemDefects, itemParts, itemRemarks, resultOf]

theorem kindNodes_eq (name : String) (items : List Item) (kind : Kind) :
    kindNodes ctx name items kind =
      resultOf ((items.filter (·.kind == kind)).flatMap itemDefects)
        (kindHeading ctx.anchors name kind
          ++ (items.filter (·.kind == kind)).flatMap (itemParts ctx),
        (items.filter (·.kind == kind)).flatMap (itemRemarks ctx)) := by
  rw [kindNodes, concat_eq (itemNodes_eq ctx)]
  refine resultOf_map ?_
  by_cases hseveral : ctx.anchors.hasSeveralKinds name <;> simp [kindHeading, hseveral] <;> rfl

theorem exportNodes_eq (page name : String) : exportNodes ctx page name =
    resultOf (exportDefects ctx page name) (exportParts ctx name, exportRemarks ctx name) := by
  unfold exportNodes exportDefects
  by_cases hitems : (ctx.scope.index.named name).isEmpty
  · simp only [hitems, if_true]
    rfl
  · simp only [hitems, if_false, Bool.false_eq_true]
    rw [concat_eq (kindNodes_eq ctx name _)]
    exact resultOf_map rfl

theorem sectionNodes_eq (page : String) (part : Section) : sectionNodes ctx page part =
    resultOf (part.exports.flatMap (exportDefects ctx page))
      (sectionParts ctx part, part.exports.flatMap (exportRemarks ctx)) := by
  rw [sectionNodes, concat_eq (exportNodes_eq ctx page)]
  refine resultOf_map ?_
  cases htitle : part.title <;> simp [sectionParts, sectionHeading, htitle] <;> rfl

theorem pageNodes_eq (entries : List PageEntry) : pageNodes ctx entries =
    resultOf (entries.flatMap (pageDefects ctx))
      ⟨entries.map (pageOf ctx), entries.flatMap (pageRemarks ctx)⟩ := by
  induction entries with
  | nil => rfl
  | cons entry rest ih =>
    have hpage : pageNode ctx entry =
        resultOf (pageDefects ctx entry) ((pageOf ctx entry).2, pageRemarks ctx entry) := by
      rw [pageNode, concat_eq (sectionNodes_eq ctx entry.path)]
      exact resultOf_map rfl
    rw [pageNodes, hpage, ih]
    exact resultOf_bind (resultOf_map rfl)

end Steps

theorem checkNames_eq (entries : List (String × List Item)) : Anchors.checkNames entries =
    resultOf (entries.flatMap fun e =>
      (Anchors.repeatedKind? e.2).toList.map (.duplicateDeclaration e.1 ·)) () := by
  induction entries with
  | nil => rfl
  | cons e rest ih =>
    rw [Anchors.checkNames]
    split
    · next kind hkind => simp [hkind, resultOf]
    · next hnone => simpa [hnone] using ih

theorem ofIndex_eq (model : Model) : Anchors.ofIndex (Index.ofModel model) =
    resultOf (duplicates model) ⟨(Index.ofModel model).byName.map Anchors.kindsAmong⟩ := by
  have hdefects : ((Index.ofModel model).byName.entries.flatMap fun e =>
      (Anchors.repeatedKind? e.2).toList.map (RenderError.duplicateDeclaration e.1 ·)) =
        duplicates model := by
    rw [Index.entries_byName, List.flatMap_map, duplicates]
  rw [Anchors.ofIndex, checkNames_eq, hdefects]
  exact resultOf_map rfl

/-- A site is built unless there are defects: a kind repeated under a name comes before anything
that is missing on a page. -/
theorem buildPages_eq (model : Model) (config : Config) : buildPages model config =
    resultOf (duplicates model ++ config.pages.flatMap (pageDefects (context model config)))
      ⟨config.pages.map (pageOf (context model config)),
        unlistedRemarks (Index.ofModel model) config.routes
          ++ config.pages.flatMap (pageRemarks (context model config))⟩ := by
  simp only [buildPages, Scope.ofModel, ofIndex_eq]
  refine resultOf_bind ?_
  rw [pageNodes_eq]
  exact resultOf_map rfl

/-- A site that can be built has the pages of its configuration. -/
theorem buildPages_ok {model : Model} {config : Config} {built : Built Node}
    (h : buildPages model config = .ok built) :
    built.pages = config.pages.map (pageOf (context model config)) := by
  rw [buildPages_eq] at h
  obtain ⟨-, rfl⟩ := resultOf_eq_ok.1 h
  rfl

theorem exists_ok {α : Type} {x : Except RenderError α} (h : x.toOption.isSome) :
    ∃ a, x = .ok a := by
  cases x with
  | error error => cases h
  | ok a => exact ⟨a, rfl⟩

end DocTree.Site
