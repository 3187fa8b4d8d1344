import DocTree.Proofs.OneLine
import Mathlib.Data.List.Chain

/-! Relative addresses of pages. Behind the directory of the page with the link an address leads to
the page that it was made for, whatever the two paths share. A page named like that directory is the
one that cannot be told from the page with the link. -/
namespace DocTree.Site
open Text

section Segments
variable {reversed steps names parts : List String} {segment : String}

/-- Segments in reverse with nothing to resolve: none is empty or a dot, and two dots only follow two
dots. -/
structure Resolved (reversed : List String) : Prop where
  kept : ∀ s ∈ reversed, s ≠ "" ∧ s ≠ "."
  leading : reversed.IsChain fun later earlier => later = ".." → earlier = ".."

theorem resolved_nil : Resolved [] := ⟨List.forall_mem_nil _, .nil⟩

theorem Resolved.behind (h : Resolved (names ++ reversed)) : Resolved reversed :=
  ⟨fun s hs => h.kept s (List.mem_append_right names hs), h.leading.right_of_append⟩

theorem pushSegment_name (h : segment ∉ ["", ".", ".."]) (reversed : List String) :
    pushSegment reversed segment = segment :: reversed := by
  simp only [List.mem_cons, List.not_mem_nil, or_false, not_or] at h
  unfold pushSegment
  rw [if_neg (not_or.2 ⟨h.1, h.2.1⟩)]
  cases reversed with
  | nil => rfl
  | cons last rest => exact if_neg fun hup => h.2.2 hup.1

theorem pushSegment_of_resolved (h : Resolved (segment :: reversed)) :
    pushSegment reversed segment = segment :: reversed := by
  have hkept := h.kept segment List.mem_cons_self
  unfold pushSegment
  rw [if_neg (not_or.2 hkept)]
  cases reversed with
  | nil => rfl
  | cons last rest => exact if_neg fun hup => hup.2 ((List.isChain_cons_cons.1 h.leading).1 hup.1)

theorem resolved_pushSegment (h : Resolved reversed) (segment : String) :
    Resolved (pushSegment reversed segment) := by
  unfold pushSegment
  split
  · exact h
  · next hkept =>
    rw [not_or] at hkept
    cases reversed with
    | nil => exact ⟨List.forall_mem_singleton.2 hkept, .singleton _⟩
    | cons last rest =>
      dsimp only
      split
      · have hrest : Resolved ([last] ++ rest) := h
        exact hrest.behind
      · next hstays =>
        refine ⟨List.forall_mem_cons.2 ⟨hkept, h.kept⟩, List.isChain_cons_cons.2 ⟨?_, h.leading⟩⟩
        exact fun hup => by_contra fun hlast => hstays ⟨hup, hlast⟩

theorem resolved_foldl (parts : List String) (h : Resolved reversed) :
    Resolved (parts.foldl pushSegment reversed) := by
  induction parts generalizing reversed with
  | nil => exact h
  | cons part parts ih => exact ih (resolved_pushSegment h part)

theorem resolved_segments (path : String) : Resolved (segments path).reverse := by
  rw [segments, List.reverse_reverse]
  exact resolved_foldl _ resolved_nil

/-- Segments with nothing to resolve are kept as they are. -/
theorem foldl_of_resolved (h : Resolved (parts.reverse ++ reversed)) :
    parts.foldl pushSegment reversed = parts.reverse ++ reversed := by
  induction parts generalizing reversed with
  | nil => rfl
  | cons part parts ih =>
    rw [List.reverse_cons, List.append_assoc, List.singleton_append] at h ⊢
    rw [List.foldl_cons, pushSegment_of_resolved h.behind, ih h]

/-- As many steps up as there are names lead back to where the names begin. -/
theorem foldl_up (h : ".." ∉ names) (reversed : List String) :
    (List.replicate names.length "..").foldl pushSegment (names ++ reversed) = reversed := by
  induction names with
  | nil => rfl
  | cons name names ih =>
    rw [List.mem_cons, not_or] at h
    have hback : pushSegment (name :: (names ++ reversed)) ".." = names ++ reversed := by
      unfold pushSegment
      rw [if_neg (by decide)]
      exact if_pos ⟨rfl, Ne.symm h.1⟩
    rw [List.length_cons, List.replicate_succ, List.foldl_cons, List.cons_append, hback, ih h.2]

theorem foldl_intercalate (h : ∀ part ∈ parts, '/' ∉ part.toList) (reversed : List String) :
    (splitAt '/' ("/".intercalate parts)).foldl pushSegment reversed =
      parts.foldl pushSegment reversed := by
  by_cases hne : parts = []
  · rw [hne]
    rfl
  · rw [splitAt_intercalate rfl hne h]

/-- Two paths fall apart behind what they share. -/
theorem exists_shared (as bs : List String) : ∃ shared,
    as = shared ++ (withoutShared as bs).1 ∧ bs = shared ++ (withoutShared as bs).2 := by
  fun_induction withoutShared as bs with
  | case1 as b bs ih =>
    obtain ⟨shared, has, hbs⟩ := ih
    exact ⟨b :: shared, by rw [List.cons_append, ← has], by rw [List.cons_append, ← hbs]⟩
  | case2 => exact ⟨[], rfl, rfl⟩
  | case3 => exact ⟨[], rfl, rfl⟩

/-- What leads from one place to another: a step up for each segment that the other does not share,
and the segments that it has instead. -/
def leadingTo (place target : List String) : List String :=
  List.replicate (withoutShared place target).1.length ".." ++ (withoutShared place target).2

theorem mem_leadingTo {place target : List String} (h : segment ∈ leadingTo place target) :
    segment = ".." ∨ segment ∈ target := by
  rcases List.mem_append.1 h with hup | hdown
  · exact .inl (List.eq_of_mem_replicate hup)
  · exact .inr (mem_of_mem_withoutShared hdown)

theorem leadingTo_eq_nil {place target : List String} :
    leadingTo place target = [] ↔ place = target := by
  constructor
  · intro h
    obtain ⟨hup, hdown⟩ := List.append_eq_nil_iff.1 h
    obtain ⟨shared, hplace, htarget⟩ := exists_shared place target
    rw [List.replicate_eq_nil_iff, List.length_eq_zero_iff] at hup
    rw [hup, List.append_nil] at hplace
    rw [hdown, List.append_nil] at htarget
    exact hplace.trans htarget.symm
  · rintro rfl
    have hsame : withoutShared place place = ([], []) := by
      induction place with
      | nil => rfl
      | cons a place ih => rw [withoutShared, if_pos rfl, ih]
    rw [leadingTo, hsame]
    rfl

/-- From a place without steps up they lead to where they should. -/
theorem foldl_leadingTo {place target : List String} (hplace : ".." ∉ place)
    (htarget : Resolved target.reverse) :
    (leadingTo place target).foldl pushSegment place.reverse = target.reverse := by
  obtain ⟨shared, hup, hdown⟩ := exists_shared place target
  generalize hparts : withoutShared place target = parts at hup hdown
  obtain ⟨up, down⟩ := parts
  dsimp only at hup hdown
  subst hup hdown
  have hback : (List.replicate up.length "..").foldl pushSegment (shared ++ up).reverse =
      shared.reverse := by
    have hnames : ".." ∉ up.reverse :=
      fun h => hplace (List.mem_append_right shared (List.mem_reverse.1 h))
    rw [List.reverse_append, ← List.length_reverse]
    exact foldl_up hnames shared.reverse
  rw [leadingTo, hparts, List.foldl_append, hback]
  rw [List.reverse_append] at htarget ⊢
  exact foldl_of_resolved htarget

end Segments

section Directory
variable {path : String}

/-- The directory of a page: its path up to the last slash, which belongs to it. -/
def directory (path : String) : String :=
  String.ofList (path.toList.reverse.dropWhile (· != '/')).reverse

theorem directory_eq_empty (h : '/' ∉ path.toList) : directory path = "" := by
  have hnone : path.toList.reverse.dropWhile (· != '/') = [] := by
    rw [List.dropWhile_eq_nil_iff]
    exact fun c hc => bne_iff_ne.2 fun heq => h (heq ▸ List.mem_reverse.1 hc)
  rw [directory, hnone]
  rfl

theorem directory_append {before last : String} (h : '/' ∉ last.toList) :
    directory (before ++ "/" ++ last) = before ++ "/" := by
  have hreverse : (before ++ "/" ++ last).toList.reverse =
      last.toList.reverse ++ '/' :: before.toList.reverse := by simp
  have hlast : ∀ c ∈ last.toList.reverse, c != '/' :=
    fun c hc => bne_iff_ne.2 fun heq => h (heq ▸ List.mem_reverse.1 hc)
  rw [directory, hreverse, List.dropWhile_append_of_pos hlast,
    List.dropWhile_cons_of_neg (by decide), ← String.toList_inj]
  simp

/-- A path without a slash, or one that is cut at its last one. -/
theorem slash_cases (path : String) : '/' ∉ path.toList ∨
    ∃ before last, path = before ++ "/" ++ last ∧ '/' ∉ last.toList := by
  by_cases hslash : '/' ∈ path.toList.reverse
  · obtain ⟨after, before, hreverse, hafter⟩ := List.eq_append_cons_of_mem hslash
    refine .inr ⟨.ofList before.reverse, .ofList after.reverse, ?_, by simpa using hafter⟩
    rw [← String.toList_inj, ← List.reverse_inj, hreverse]
    simp
  · exact .inl fun h => hslash (List.mem_reverse.2 h)

/-- The pieces of a path are those in front of its last one and that one, and in the directory
something else may stand in its place. -/
theorem exists_pieces (path : String) : ∃ before : List String,
    splitAt '/' path = before ++ [fileName path] ∧
      ∀ rest, splitAt '/' (directory path ++ rest) = before ++ splitAt '/' rest := by
  obtain hslash | ⟨before, last, rfl, hlast⟩ := slash_cases path
  · refine ⟨[], ?_, fun rest => ?_⟩
    · rw [fileName, splitAt_eq_singleton hslash]
      rfl
    · rw [directory_eq_empty hslash, String.empty_append, List.nil_append]
  · refine ⟨splitAt '/' before, ?_, fun rest => ?_⟩
    · rw [fileName, splitAt_append rfl, splitAt_eq_singleton hlast, List.getLastD_concat]
    · rw [directory_append hlast, splitAt_append rfl]

/-- Where a page has a name, its directory has all its segments but that one. -/
theorem segments_directory_append (h : fileName path ∉ ["", ".", ".."]) (rest : String) :
    segments (directory path ++ rest) =
      ((splitAt '/' rest).foldl pushSegment (segments path).dropLast.reverse).reverse := by
  obtain ⟨before, hpath, hbehind⟩ := exists_pieces path
  have hdirectory : (segments path).dropLast.reverse = before.foldl pushSegment [] := by
    rw [segments, hpath, List.foldl_append, List.foldl_cons, List.foldl_nil, pushSegment_name h,
      List.reverse_cons, List.dropLast_concat, List.reverse_reverse]
  rw [hdirectory, segments, hbehind, List.foldl_append]

end Directory

section Addresses
variable {fromPage toPage path destination : String} {fragment : Option String}

theorem hash_notMem_page (destination : String) : '#' ∉ (splitFragment destination).1.toList := by
  unfold splitFragment
  cases hcut : cutAt? '#' destination with
  | none => exact cutAt?_eq_none.1 hcut
  | some parts => exact (cutAt?_eq_some.1 hcut).2

/-- A path without a mark and a fragment behind it are found again. -/
theorem splitFragment_append (h : '#' ∉ path.toList) (fragment : Option String) :
    splitFragment (path ++ fragmentText fragment) = (path, fragment) := by
  cases fragment with
  | none =>
    have hcut : cutAt? '#' (path ++ "") = none := by simpa [cutAt?_eq_none] using h
    rw [fragmentText, splitFragment, hcut, String.append_empty]
  | some fragment =>
    have hcut : cutAt? '#' (path ++ ("#" ++ fragment)) = some (path, fragment) :=
      cutAt?_eq_some.2 ⟨by simp, h⟩
    rw [fragmentText, splitFragment, hcut]

/-- The address of another page. -/
theorem splitFragment_relativePath (hpath : (splitFragment toPage).1 ≠ "")
    (hother : segments (splitFragment toPage).1 ≠ segments fromPage) :
    splitFragment (relativePath fromPage toPage) =
      ("/".intercalate (leadingTo (segments fromPage).dropLast (segments (splitFragment toPage).1)),
        (splitFragment toPage).2) := by
  have hmark := hash_notMem_page toPage
  rw [relativePath]
  generalize splitFragment toPage = page at hpath hother hmark
  obtain ⟨target, fragment⟩ := page
  dsimp only at hpath hother hmark ⊢
  rw [if_neg (not_or.2 ⟨hpath, hother⟩), List.map_const']
  refine splitFragment_append (fun h => ?_) fragment
  obtain ⟨part, hpart, hhash⟩ := (mem_intercalate (by decide)).1 h
  obtain rfl | htarget := mem_leadingTo hpart
  · exact absurd hhash (by decide)
  · exact hmark (mem_of_mem_splitAt (mem_splitAt_of_mem_segments htarget) hhash)

theorem slash_notMem_leadingTo (place : List String) (path : String) :
    ∀ part ∈ leadingTo place (segments path), '/' ∉ part.toList := by
  intro part hpart
  obtain rfl | htarget := mem_leadingTo hpart
  · decide
  · exact sep_notMem_of_mem_splitAt (mem_splitAt_of_mem_segments htarget)

/-- Behind the directory of a page with a name and no steps out of the site, the address of another
page leads there, and with the fragment that is asked for. -/
theorem relativePath_arrives (hfrom : ".." ∉ segments fromPage)
    (hname : fileName fromPage ∉ ["", ".", ".."]) (hpath : (splitFragment toPage).1 ≠ "")
    (hother : segments (splitFragment toPage).1 ≠ segments fromPage) :
    segments (directory fromPage ++ (splitFragment (relativePath fromPage toPage)).1) =
        segments (splitFragment toPage).1 ∧
      (splitFragment (relativePath fromPage toPage)).2 = (splitFragment toPage).2 := by
  have hplace : ".." ∉ (segments fromPage).dropLast := fun h => hfrom (List.dropLast_subset _ h)
  rw [splitFragment_relativePath hpath hother]
  refine ⟨?_, rfl⟩
  rw [segments_directory_append hname, foldl_intercalate (slash_notMem_leadingTo _ _),
    foldl_leadingTo hplace (resolved_segments _), List.reverse_reverse]

theorem relativePath_arrives_leadingDots :
    ".." ∉ segments "/api//core/./index.md" ∧
      fileName "/api//core/./index.md" ∉ ["", ".", ".."] ∧
      relativePath "/api//core/./index.md" "../api/x.md#a#b" = "../../../api/x.md#a#b" ∧
      segments (directory "/api//core/./index.md" ++ "../../../api/x.md") =
        ["..", "api", "x.md"] := by
  obtain ⟨hfrom, hname, hpath, hother⟩ : ".." ∉ segments "/api//core/./index.md" ∧
      fileName "/api//core/./index.md" ∉ ["", ".", ".."] ∧
      (splitFragment "../api/x.md#a#b").1 ≠ "" ∧
      segments (splitFragment "../api/x.md#a#b").1 ≠ segments "/api//core/./index.md" := by
    decide
  obtain ⟨hrun, haddress, hpage⟩ :
      relativePath "/api//core/./index.md" "../api/x.md#a#b" = "../../../api/x.md#a#b" ∧
      (splitFragment "../../../api/x.md#a#b").1 = "../../../api/x.md" ∧
      segments (splitFragment "../api/x.md#a#b").1 = ["..", "api", "x.md"] := by
    decide
  obtain ⟨harrives, -⟩ := relativePath_arrives hfrom hname hpath hother
  rw [hrun, haddress, hpage] at harrives
  exact ⟨hfrom, hname, hrun, harrives⟩

/-- An address without a page: nothing, or a fragment alone. -/
def IsHere (address : String) : Prop := address = "" ∨ ∃ fragment, address = "#" ++ fragment

theorem isHere_iff {address : String} : IsHere address ↔ (splitFragment address).1 = "" := by
  constructor
  · rintro (rfl | ⟨fragment, rfl⟩)
    · rfl
    · have hsplit : splitFragment ("" ++ fragmentText (some fragment)) = ("", some fragment) :=
        splitFragment_append (by simp) (some fragment)
      rw [String.empty_append] at hsplit
      exact congrArg Prod.fst hsplit
  · intro h
    rw [splitFragment] at h
    cases hcut : cutAt? '#' address with
    | none =>
      rw [hcut] at h
      exact .inl h
    | some parts =>
      rw [hcut] at h
      obtain ⟨hlist, -⟩ := cutAt?_eq_some.1 hcut
      refine .inr ⟨parts.2, ?_⟩
      rw [← String.toList_inj, hlist, h]
      simp

theorem intercalate_eq_empty {parts : List String} (h : ∀ part ∈ parts, part ≠ "") :
    "/".intercalate parts = "" ↔ parts = [] := by
  refine ⟨fun hempty => ?_, by rintro rfl; rfl⟩
  cases parts with
  | nil => rfl
  | cons part rest =>
    cases rest with
    | nil => exact absurd (String.intercalate_singleton.symm.trans hempty) (h part List.mem_cons_self)
    | cons next rest =>
      rw [String.intercalate_cons_cons] at hempty
      simp at hempty

/-- The address of a page is that of the page with the link if they are the same page, there is a
fragment or that page has no name; and of all other pages, if it is named like the directory of the
page with the link. -/
theorem relativePath_isHere_iff (fromPage toPage : String) :
    IsHere (relativePath fromPage toPage) ↔
      if (splitFragment toPage).1 = "" ∨ segments (splitFragment toPage).1 = segments fromPage then
        (splitFragment toPage).2.isSome ∨ IsHere (fileName fromPage)
      else segments (splitFragment toPage).1 = (segments fromPage).dropLast := by
  split
  · next hsame =>
    rw [relativePath]
    generalize splitFragment toPage = page at hsame
    obtain ⟨target, fragment⟩ := page
    dsimp only at hsame ⊢
    rw [if_pos hsame]
    cases fragment with
    | none => simp
    | some fragment => exact iff_of_true (.inr ⟨fragment, rfl⟩) (.inl rfl)
  · next hother =>
    rw [not_or] at hother
    have hnames : ∀ part ∈ leadingTo (segments fromPage).dropLast
        (segments (splitFragment toPage).1), part ≠ "" := by
      intro part hpart
      obtain rfl | htarget := mem_leadingTo hpart
      · decide
      · exact ((resolved_segments _).kept part (List.mem_reverse.2 htarget)).1
    rw [isHere_iff, splitFragment_relativePath hother.1 hother.2, intercalate_eq_empty hnames,
      leadingTo_eq_nil, eq_comm]

/-- A link to another page whose address is that of a fragment of the page with the link. -/
theorem relativePath_isHere_directory :
    relativePath "api/core/index.md" "api/core#foo" = "#foo" ∧
      segments "api/core" ≠ segments "api/core/index.md" ∧
      fileName "api/core/index.md" = "index.md" := by
  decide

end Addresses

end DocTree.Site
