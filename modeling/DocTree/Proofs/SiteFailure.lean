import DocTree.Proofs.Building
import DocTree.Proofs.ByteOrder
import DocTree.Proofs.Inlining
import Mathlib.Data.List.Basic
import Mathlib.Data.List.Forall2

/-! When building a site fails, and with what. -/
namespace DocTree.Site
open Api Signature

/-- A kind of which a name may have one item only has two or more under the name. -/
def Repeated (model : Model) (name : String) (kind : Kind) : Prop :=
  (kind = .interfaceDecl ∨ kind = .typeAlias ∨ kind = .variableDecl) ∧
    2 ≤ model.items.countP fun item => item.name == name && item.kind == kind

/-- The name comes first among those with a repeated kind, and the kind first under the name. -/
structure FirstRepeated (model : Model) (name : String) (kind : Kind) : Prop where
  isRepeated : Repeated model name kind
  firstName : ∀ other otherKind, Repeated model other otherKind → utf8Bytes name ≤ utf8Bytes other
  firstKind : ∀ other, Repeated model name other → Kind.all.idxOf kind ≤ Kind.all.idxOf other

/-- A name without items, or with an item that is declared nowhere. -/
def Lacking (model : Model) (name : String) : Prop :=
  (∀ item ∈ model.items, item.name ≠ name) ∨
    ∃ item ∈ model.items, item.name = name ∧ item.declarations = []

/-- What is missing of a name that is listed on a page: the name itself, or the declarations of
some of its items, kind by kind and in the order of the model. -/
def missing (model : Model) (page name : String) : List RenderError :=
  if model.items.any (·.name == name) then
    Kind.all.flatMap fun kind =>
      (model.items.filter fun item =>
        item.name == name && item.kind == kind && item.declarations.isEmpty).map fun item =>
          .missingLocation item.kind item.name
  else [.missingExport name page]

/-- What is missing on the pages, page by page, section by section and export by export. -/
def missingOn (model : Model) (pages : List PageEntry) : List RenderError :=
  pages.flatMap fun page => page.sections.flatMap fun part =>
    part.exports.flatMap (missing model page.path)

/-- An error that says that an export or a declaration is missing. -/
def IsMissing : RenderError → Prop
  | .missingExport _ _ | .missingLocation _ _ => True
  | _ => False

section Repeated
variable {model : Model} {name : String}

theorem isUnique_iff {kind : Kind} :
    kind.isUnique ↔ kind = .interfaceDecl ∨ kind = .typeAlias ∨ kind = .variableDecl := by
  cases kind <;> simp [Kind.isUnique]

/-- The member that is found stands before all others that might be. -/
theorem find?_eq_some_iff_idxOf {α : Type} [DecidableEq α] {p : α → Bool} {as : List α} {a : α} :
    as.find? p = some a ↔ p a ∧ a ∈ as ∧ ∀ b ∈ as, p b → as.idxOf a ≤ as.idxOf b := by
  induction as with
  | nil => simp
  | cons first rest ih =>
    rw [List.find?_cons]
    cases hfirst : p first with
    | true =>
      constructor
      · rintro ⟨⟩
        exact ⟨hfirst, List.mem_cons_self, fun b _ _ => by simp⟩
      · rintro ⟨-, -, hbefore⟩
        have hzero := hbefore first List.mem_cons_self hfirst
        by_cases heq : first = a
        · rw [heq]
        · rw [List.idxOf_cons_self, List.idxOf_cons_ne _ heq] at hzero
          omega
    | false =>
      have hne {b : α} (hb : p b) : first ≠ b := by
        rintro rfl
        simp [hfirst] at hb
      rw [ih]
      refine and_congr_right fun ha => ?_
      have hmem : a ∈ first :: rest ↔ a ∈ rest := by simp [(hne ha).symm]
      rw [hmem]
      refine and_congr_right fun _ => ⟨fun h b hb hpb => ?_, fun h b hb hpb => ?_⟩
      · have hrest := h b ((List.mem_cons.1 hb).resolve_left (hne hpb).symm) hpb
        rw [List.idxOf_cons_ne _ (hne ha), List.idxOf_cons_ne _ (hne hpb)]
        omega
      · have hrest := h b (List.mem_cons_of_mem _ hb) hpb
        rw [List.idxOf_cons_ne _ (hne ha), List.idxOf_cons_ne _ (hne hpb)] at hrest
        omega

theorem repeated_iff {kind : Kind} : (kind.isUnique &&
    decide ((model.items.filter (·.name == name)).countP (·.kind == kind) > 1)) = true ↔
      Repeated model name kind := by
  rw [Repeated, Bool.and_eq_true, isUnique_iff, decide_eq_true_iff, List.countP_filter]
  simp only [Bool.and_comm]
  rfl

theorem repeatedKind?_eq_some {kind : Kind} :
    Anchors.repeatedKind? (model.items.filter (·.name == name)) = some kind ↔
      Repeated model name kind ∧
        ∀ other, Repeated model name other → Kind.all.idxOf kind ≤ Kind.all.idxOf other := by
  rw [Anchors.repeatedKind?, find?_eq_some_iff_idxOf]
  simp only [repeated_iff, Kind.mem_all, true_and, true_implies]

theorem exists_repeatedKind? {kind : Kind} (h : Repeated model name kind) :
    ∃ first, Anchors.repeatedKind? (model.items.filter (·.name == name)) = some first :=
  Option.isSome_iff_exists.1 <| List.find?_isSome.2 ⟨kind, kind.mem_all, repeated_iff.2 h⟩

theorem mem_names_of_repeated {kind : Kind} (h : Repeated model name kind) :
    name ∈ (Index.ofModel model).names := by
  obtain ⟨item, hitem, hname⟩ := List.countP_pos_iff.1 (Nat.lt_of_lt_of_le Nat.two_pos h.2)
  simp only [Bool.and_eq_true, beq_iff_eq] at hname
  exact Index.mem_names.2 ⟨item, hitem, hname.1⟩

end Repeated

/-- The first duplicate is that of the first name that has one. -/
theorem duplicates_head?_eq_some {model : Model} {error : RenderError} :
    (duplicates model).head? = some error ↔
      ∃ name kind, error = .duplicateDeclaration name kind ∧ FirstRepeated model name kind := by
  have hascending : (Index.ofModel model).names.Pairwise (· < ·) := Dict.pairwise_keys _
  rw [duplicates, List.head?_flatMap, List.findSome?_eq_some_iff]
  constructor
  · rintro ⟨before, name, behind, hnames, herror, hbefore⟩
    obtain ⟨kind, hkind, rfl⟩ : ∃ kind,
        Anchors.repeatedKind? (model.items.filter (·.name == name)) = some kind ∧
          RenderError.duplicateDeclaration name kind = error := by
      simpa using herror
    obtain ⟨hrepeated, hfirst⟩ := repeatedKind?_eq_some.1 hkind
    refine ⟨name, kind, rfl, hrepeated, fun other otherKind hother => ?_, hfirst⟩
    obtain ⟨first, hsome⟩ := exists_repeatedKind? hother
    have hmem := mem_names_of_repeated hother
    rw [hnames] at hascending hmem
    obtain ⟨-, hbehind, -⟩ := List.pairwise_append.1 hascending
    rcases List.mem_append.1 hmem with hmem | hmem
    · simpa [hsome] using hbefore other hmem
    · obtain rfl | hmem := List.mem_cons.1 hmem
      · exact List.le_refl _
      · have hlt := (List.pairwise_cons.1 hbehind).1 other hmem
        exact utf8Bytes_le_iff.2 (String.not_lt.1 (String.lt_asymm hlt))
  · rintro ⟨name, kind, rfl, hrepeated, hname, hfirst⟩
    obtain ⟨before, behind, hnames⟩ := List.append_of_mem (mem_names_of_repeated hrepeated)
    have hkind := repeatedKind?_eq_some.2 ⟨hrepeated, hfirst⟩
    refine ⟨before, name, behind, hnames, by simp [hkind], fun other hother => ?_⟩
    rw [hnames] at hascending
    have hlt := (List.pairwise_append.1 hascending).2.2 other hother name List.mem_cons_self
    cases hsome : Anchors.repeatedKind? (model.items.filter (·.name == other)) with
    | none => rfl
    | some otherKind =>
      have hle := hname other otherKind (repeatedKind?_eq_some.1 hsome).1
      exact absurd hlt (String.not_lt.2 (utf8Bytes_le_iff.1 hle))

theorem duplicates_eq_nil {model : Model} :
    duplicates model = [] ↔ ¬ ∃ name kind, Repeated model name kind := by
  rw [duplicates, List.flatMap_eq_nil_iff]
  constructor
  · rintro hnone ⟨name, kind, hrepeated⟩
    obtain ⟨first, hfirst⟩ := exists_repeatedKind? hrepeated
    simpa [hfirst] using hnone name (mem_names_of_repeated hrepeated)
  · intro hnone name _
    cases hsome : Anchors.repeatedKind? (model.items.filter (·.name == name)) with
    | none => rfl
    | some kind => exact absurd ⟨name, kind, (repeatedKind?_eq_some.1 hsome).1⟩ hnone

/-- If any kind is repeated, one comes first. -/
theorem exists_firstRepeated {model : Model} (h : ∃ name kind, Repeated model name kind) :
    ∃ name kind, FirstRepeated model name kind := by
  obtain ⟨first, rest, hduplicates⟩ :=
    List.exists_cons_of_ne_nil (mt duplicates_eq_nil.1 (not_not_intro h))
  have hfirst : (duplicates model).head? = some first := by rw [hduplicates, List.head?_cons]
  obtain ⟨name, kind, -, hkind⟩ := duplicates_head?_eq_some.1 hfirst
  exact ⟨name, kind, hkind⟩

section Missing
variable (model : Model) (config : Config)

theorem flatMap_filter_of_nil {α β : Type} {p : α → Bool} {f : α → List β} {as : List α}
    (h : ∀ a ∈ as, ¬ p a → f a = []) : (as.filter p).flatMap f = as.flatMap f := by
  induction as with
  | nil => rfl
  | cons a rest ih =>
    obtain ⟨ha, hrest⟩ := List.forall_mem_cons.1 h
    rw [List.filter_cons, List.flatMap_cons, ← ih hrest]
    by_cases hp : p a
    · rw [if_pos hp, List.flatMap_cons]
    · rw [if_neg hp, ha hp, List.nil_append]

theorem itemDefects_flatMap (items : List Item) : items.flatMap itemDefects =
    (items.filter (·.declarations.isEmpty)).map fun item =>
      .missingLocation item.kind item.name := by
  induction items with
  | nil => rfl
  | cons item rest ih =>
    rw [List.flatMap_cons, ih, List.filter_cons, itemDefects]
    split <;> rfl

theorem exportDefects_eq_missing (page name : String) :
    exportDefects (context model config) page name = missing model page name := by
  rw [exportDefects, missing, context_named, context_kindsOf]
  by_cases hitems : model.items.any (·.name == name)
  · have hsome : (model.items.filter (·.name == name)).isEmpty = false := by
      simpa [List.isEmpty_eq_false_iff] using hitems
    rw [hsome, if_pos hitems, if_neg Bool.false_ne_true, Anchors.kindsAmong,
      flatMap_filter_of_nil]
    · refine List.flatMap_congr fun kind _ => ?_
      rw [itemDefects_flatMap, List.filter_filter, List.filter_filter]
      congr 1
      refine List.filter_congr fun item _ => ?_
      ac_rfl
    · intro kind _ hkind
      have hnone : (model.items.filter (·.name == name)).filter (·.kind == kind) = [] :=
        List.filter_eq_nil_iff.2 (by simpa using hkind)
      rw [hnone, List.flatMap_nil]
  · have hnone : (model.items.filter (·.name == name)).isEmpty = true := by simpa using hitems
    rw [hnone, if_neg hitems, if_pos rfl]

theorem pageDefects_eq_missingOn :
    config.pages.flatMap (pageDefects (context model config)) = missingOn model config.pages :=
  List.flatMap_congr fun page _ => List.flatMap_congr fun _ _ =>
    List.flatMap_congr fun name _ => exportDefects_eq_missing model config page.path name

theorem missing_eq_nil {page name : String} :
    missing model page name = [] ↔ ¬ Lacking model name := by
  rw [missing]
  by_cases hitems : model.items.any (·.name == name)
  · have hlisted : Lacking model name ↔
        ∃ item ∈ model.items, item.name = name ∧ item.declarations = [] :=
      or_iff_right (by simpa using hitems)
    simp only [if_pos hitems, hlisted, List.flatMap_eq_nil_iff, List.map_eq_nil_iff,
      List.filter_eq_nil_iff, Bool.and_eq_true, beq_iff_eq, List.isEmpty_iff]
    constructor
    · rintro hnone ⟨item, hitem, hname, hdeclarations⟩
      exact hnone item.kind item.kind.mem_all item hitem ⟨⟨hname, rfl⟩, hdeclarations⟩
    · rintro hnone kind - item hitem ⟨⟨hname, -⟩, hdeclarations⟩
      exact hnone ⟨item, hitem, hname, hdeclarations⟩
  · have hnone : ∀ item ∈ model.items, item.name ≠ name := by simpa using hitems
    rw [if_neg hitems]
    exact iff_of_false (List.cons_ne_nil _ _) (not_not_intro (.inl hnone))

theorem missingOn_eq_nil {pages : List PageEntry} : missingOn model pages = [] ↔
    ¬ ∃ page ∈ pages, ∃ name ∈ page.exports, Lacking model name := by
  simp only [missingOn, PageEntry.exports, List.flatMap_eq_nil_iff, missing_eq_nil,
    List.mem_flatMap]
  constructor
  · rintro hnone ⟨page, hpage, name, ⟨part, hpart, hname⟩, hlacking⟩
    exact hnone page hpage part hpart name hname hlacking
  · intro hnone page hpage part hpart name hname hlacking
    exact hnone ⟨page, hpage, name, ⟨part, hpart, hname⟩, hlacking⟩

theorem isMissing_of_mem {pages : List PageEntry} {error : RenderError}
    (h : error ∈ missingOn model pages) : IsMissing error := by
  simp only [missingOn, List.mem_flatMap] at h
  obtain ⟨page, -, part, -, name, -, h⟩ := h
  rw [missing] at h
  split at h
  · simp only [List.mem_flatMap, List.mem_map] at h
    obtain ⟨kind, -, item, -, rfl⟩ := h
    trivial
  · rw [List.mem_singleton.1 h]
    trivial

end Missing

section Remarks

/-- The remark for a name that no page lists. -/
def unlistedRemark (name : String) : Diagnostic :=
  ⟨.warning, "S001", s!"Export '{name}' is not listed on any page"⟩

theorem readQueue_remarks (ctx : Context) (queue : List (Token × Nat)) :
    ∀ d ∈ (readQueue ctx queue {}).remarks, d.code ≠ "S001" := by
  refine readQueue_induction (motive := fun r => ∀ d ∈ r.remarks, d.code ≠ "S001")
    (fun _ _ h => h) (fun _ _ _ _ _ h => h) (fun r error _ h => ?_) queue (by simp)
  refine List.forall_mem_append.2 ⟨h, List.forall_mem_singleton.2 ?_⟩
  cases error <;> simp [ResolveError.code]

theorem build_remarks (ctx : Context) (excerpt : Excerpt) :
    ∀ d ∈ (build ctx excerpt).2, d.code ≠ "S001" := by
  have hread := readQueue_remarks ctx (excerpt.tokens.map (·, maxLevels))
  rw [build, Reading.finish]
  split
  · exact hread
  · refine List.forall_mem_append.2 ⟨hread, ?_⟩
    rw [plainCode]
    split <;> simp

theorem pageRemarks_code (ctx : Context) (entry : PageEntry) :
    ∀ d ∈ pageRemarks ctx entry, d.code ≠ "S001" := by
  intro d hd
  simp only [pageRemarks, exportRemarks, List.mem_flatMap] at hd
  obtain ⟨part, -, name, -, kind, -, item, -, hd⟩ := hd
  rw [itemRemarks] at hd
  split at hd
  · cases hd
  · exact build_remarks ctx item.excerpt d hd

theorem not_contains_routes (config : Config) (name : String) :
    (!config.routes.contains name) = true ↔ ∀ page ∈ config.pages, name ∉ page.exports := by
  rw [Dict.contains, Config.get?_routes, Option.isSome_map, Bool.not_eq_true',
    Option.isSome_eq_false_iff, Option.isNone_iff_eq_none, List.find?_eq_none]
  simp only [List.contains_iff_mem]

end Remarks

/-- What is built has one page for each page of the configuration, in its order, and its remarks
begin with one for each name that no page lists, in the order of the names. -/
structure Complete (model : Model) (config : Config) (built : Built Node) : Prop where
  pages : List.Forall₂ (fun entry page => page.1 = entry.path ∧
    ∃ contents children, page.2 = .page ⟨entry.title, contents⟩ children) config.pages built.pages
  remarks : ∃ (names : List String) (rest : List Diagnostic),
    built.remarks = names.map unlistedRemark ++ rest ∧
    names.Pairwise (utf8Bytes · < utf8Bytes ·) ∧
    (∀ name, name ∈ names ↔ (∃ item ∈ model.items, item.name = name) ∧
      ∀ page ∈ config.pages, name ∉ page.exports) ∧
    ∀ remark ∈ rest, remark.code ≠ "S001"

theorem complete_of_ok {model : Model} {config : Config} {built : Built Node}
    (h : buildPages model config = .ok built) : Complete model config built := by
  rw [buildPages_eq] at h
  obtain ⟨-, rfl⟩ := resultOf_eq_ok.1 h
  refine ⟨?_, _, _, rfl, ?_, ?_, ?_⟩
  · rw [List.forall₂_map_right_iff]
    exact List.forall₂_same.2 fun entry _ => ⟨rfl, _, _, rfl⟩
  · exact ((Dict.pairwise_keys _).filter _).imp utf8Bytes_lt
  · intro name
    rw [List.mem_filter, Index.mem_names, not_contains_routes]
  · simp only [List.mem_flatMap]
    rintro d ⟨entry, -, hd⟩
    exact pageRemarks_code _ entry d hd

/-- Nothing is missing of what is listed if the site can be built. -/
theorem not_lacking_of_ok {model : Model} {config : Config} {built : Built Node}
    (h : buildPages model config = .ok built) :
    ∀ page ∈ config.pages, ∀ name ∈ page.exports, ¬ Lacking model name := by
  rw [buildPages_eq, pageDefects_eq_missingOn] at h
  have hnone := (List.append_eq_nil_iff.1 (resultOf_eq_ok.1 h).1).2
  exact fun page hpage name hname hlacking =>
    (missingOn_eq_nil model).1 hnone ⟨page, hpage, name, hname, hlacking⟩

/-- Building fails exactly if a kind is repeated under a name that may have it only once, with the
first such name and kind, or else if something is missing of an export that is listed, with what is
missing first; otherwise it gives all pages, and the remarks on the names that are not listed. -/
theorem buildPages_outcome (model : Model) (config : Config) :
    ((∃ name kind, buildPages model config = .error (.duplicateDeclaration name kind)) ↔
      ∃ name kind, Repeated model name kind) ∧
    (∀ name kind, buildPages model config = .error (.duplicateDeclaration name kind) ↔
      FirstRepeated model name kind) ∧
    ((∃ error, IsMissing error ∧ buildPages model config = .error error) ↔
      (¬ ∃ name kind, Repeated model name kind) ∧
        ∃ page ∈ config.pages, ∃ name ∈ page.exports, Lacking model name) ∧
    (∀ error, IsMissing error ∧ buildPages model config = .error error ↔
      (¬ ∃ name kind, Repeated model name kind) ∧
        (missingOn model config.pages).head? = some error) ∧
    ((∃ built, buildPages model config = .ok built ∧ Complete model config built) ↔
      (¬ ∃ name kind, Repeated model name kind) ∧
        ¬ ∃ page ∈ config.pages, ∃ name ∈ page.exports, Lacking model name) := by
  have hresult := buildPages_eq model config
  rw [pageDefects_eq_missingOn] at hresult
  have hfirst (name : String) (kind : Kind) :
      buildPages model config = .error (.duplicateDeclaration name kind) ↔
        FirstRepeated model name kind := by
    rw [hresult, resultOf_eq_error, List.head?_append, Option.or_eq_some_iff,
      duplicates_head?_eq_some]
    constructor
    · rintro (⟨_, _, heq, hrepeated⟩ | ⟨-, hhead⟩)
      · cases heq
        exact hrepeated
      · cases isMissing_of_mem model (List.mem_of_head? hhead)
    · exact fun h => .inl ⟨name, kind, rfl, h⟩
  have hmissing (error : RenderError) : IsMissing error ∧ buildPages model config = .error error ↔
      (¬ ∃ name kind, Repeated model name kind) ∧
        (missingOn model config.pages).head? = some error := by
    rw [hresult, resultOf_eq_error, List.head?_append, Option.or_eq_some_iff,
      duplicates_head?_eq_some, List.head?_eq_none_iff, duplicates_eq_nil]
    constructor
    · rintro ⟨hkind, ⟨_, _, rfl, -⟩ | h⟩
      · cases hkind
      · exact h
    · exact fun h => ⟨isMissing_of_mem model (List.mem_of_head? h.2), .inr h⟩
  have hlacking : (∃ error, (missingOn model config.pages).head? = some error) ↔
      ∃ page ∈ config.pages, ∃ name ∈ page.exports, Lacking model name := by
    rw [← Option.isSome_iff_exists, List.isSome_head?]
    exact not_iff_comm.1 (missingOn_eq_nil model).symm
  refine ⟨?_, hfirst, ?_, hmissing, ?_⟩
  · simp only [hfirst]
    exact ⟨fun ⟨name, kind, h⟩ => ⟨name, kind, h.isRepeated⟩, exists_firstRepeated⟩
  · simp only [hmissing, exists_and_left, hlacking]
  · rw [← duplicates_eq_nil, ← missingOn_eq_nil, ← List.append_eq_nil_iff]
    constructor
    · rintro ⟨built, hok, -⟩
      rw [hresult] at hok
      exact (resultOf_eq_ok.1 hok).1
    · intro hnone
      rw [hnone] at hresult
      exact ⟨_, hresult, complete_of_ok hresult⟩

end DocTree.Site
