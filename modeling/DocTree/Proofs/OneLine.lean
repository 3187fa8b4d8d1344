import DocTree.Markdown.Page
import DocTree.Proofs.Cuts
import Mathlib.Data.List.Basic

/-! Texts that stay on one line, and the written forms that do. -/
namespace DocTree.Text

/-- The text holds no line break. -/
def OneLine (s : String) : Prop := '\n' ∉ s.toList

instance (s : String) : Decidable (OneLine s) := inferInstanceAs (Decidable ('\n' ∉ s.toList))

@[simp] theorem oneLine_append {s t : String} : OneLine (s ++ t) ↔ OneLine s ∧ OneLine t := by
  simp [OneLine]

theorem OneLine.between {before s after : String} (h : OneLine s) (hb : OneLine before)
    (ha : OneLine after) : OneLine (before ++ s ++ after) :=
  oneLine_append.2 ⟨oneLine_append.2 ⟨hb, h⟩, ha⟩

@[simp] theorem oneLine_ofList {cs : List Char} : OneLine (String.ofList cs) ↔ '\n' ∉ cs := by
  simp [OneLine]

@[simp] theorem oneLine_push {s : String} {c : Char} :
    OneLine (s.push c) ↔ OneLine s ∧ c ≠ '\n' := by
  simp [OneLine, eq_comm]

section Replace
variable {old c : Char} {new s : String}

/-- What replaces a character brings no other one but its own. -/
theorem notMem_replaceChar (hnew : c ∉ new.toList) (hs : c ∉ s.toList ∨ old = c) :
    c ∉ (replaceChar old new s).toList := by
  simp only [replaceChar, String.toList_ofList, List.mem_flatMap, not_exists, not_and]
  intro d hd hmem
  split at hmem
  · exact hnew hmem
  · next hne =>
    obtain rfl := List.mem_singleton.1 hmem
    rcases hs with hs | rfl
    · exact hs hd
    · exact hne rfl

theorem oneLine_replaceChar (hnew : OneLine new) (hs : OneLine s ∨ old = '\n') :
    OneLine (replaceChar old new s) := notMem_replaceChar hnew hs

theorem all_replaceChar {p : Char → Bool} (hs : s.toList.all p) (hnew : new.toList.all p) :
    (replaceChar old new s).toList.all p := by
  rw [replaceChar, String.toList_ofList, List.all_flatMap]
  refine List.all_eq_true.2 fun c hc => ?_
  split
  · exact hnew
  · rw [List.all_cons, List.all_nil, Bool.and_true, List.all_eq_true.1 hs c hc]

theorem count_replaceChar (hold : c ≠ old) (hnew : c ∉ new.toList) :
    (replaceChar old new s).toList.count c = s.toList.count c := by
  rw [replaceChar, String.toList_ofList]
  induction s.toList with
  | nil => rfl
  | cons d ds ih =>
    rw [List.flatMap_cons, List.count_append, ih, List.count_cons, Nat.add_comm]
    congr 1
    split
    · next hd => rw [List.count_eq_zero.2 hnew, hd, if_neg (by simpa using hold.symm)]
    · exact List.count_singleton

theorem mem_replaceChar (hold : c ≠ old) (hnew : c ∉ new.toList) :
    c ∈ (replaceChar old new s).toList ↔ c ∈ s.toList := by
  rw [← List.count_pos_iff, count_replaceChar hold hnew, List.count_pos_iff]

end Replace

/-- The pieces of a text are the text without what separates them. -/
theorem flatten_pieces (sep : Char → Bool) (cs : List Char) :
    (pieces sep cs).flatten = cs.filter (!sep ·) := by
  induction cs with
  | nil => rfl
  | cons c rest ih =>
    rw [pieces, List.filter_cons, ← ih]
    split
    · next hsep => rw [List.flatten_cons, List.nil_append, hsep, if_neg (by decide)]
    · next hsep =>
      obtain ⟨piece, more, hpieces⟩ := List.exists_cons_of_ne_nil (pieces_ne_nil sep rest)
      rw [hpieces, if_pos (by simpa using hsep), List.flatten_cons, List.flatten_cons,
        List.cons_append]

section Pieces
variable {sep : Char → Bool} {cs piece : List Char} {c : Char}

theorem mem_filter_of_mem_pieces (hp : piece ∈ pieces sep cs) (hc : c ∈ piece) :
    c ∈ cs.filter (!sep ·) :=
  flatten_pieces sep cs ▸ List.mem_flatten_of_mem hp hc

theorem mem_of_mem_pieces (hp : piece ∈ pieces sep cs) (hc : c ∈ piece) : c ∈ cs :=
  List.mem_of_mem_filter (mem_filter_of_mem_pieces hp hc)

theorem not_sep_of_mem_pieces (hp : piece ∈ pieces sep cs) (hc : c ∈ piece) : ¬ sep c := by
  simpa using List.of_mem_filter (mem_filter_of_mem_pieces hp hc)

end Pieces

theorem pieces_append_cons {sep : Char → Bool} {c : Char} (h : sep c) (before after : List Char) :
    pieces sep (before ++ c :: after) = pieces sep before ++ pieces sep after := by
  induction before with
  | nil => simp [pieces, h]
  | cons d before ih =>
    rw [List.cons_append, pieces, pieces, ih]
    split
    · rw [List.cons_append]
    · obtain ⟨piece, more, hpieces⟩ := List.exists_cons_of_ne_nil (pieces_ne_nil sep before)
      rw [hpieces, List.cons_append, List.cons_append]

theorem pieces_eq_singleton {sep : Char → Bool} {cs : List Char} (h : ∀ c ∈ cs, ¬ sep c) :
    pieces sep cs = [cs] := by
  induction cs with
  | nil => rfl
  | cons c rest ih =>
    obtain ⟨hc, hrest⟩ := List.forall_mem_cons.1 h
    rw [pieces, if_neg hc, ih hrest]

theorem pieces_line {line : List Char} (h : '\n' ∉ line) (rest : List Char) :
    pieces (· == '\n') (line ++ '\n' :: rest) = line :: pieces (· == '\n') rest := by
  have hfree : ∀ c ∈ line, ¬ (c == '\n') := fun c hc heq => h (eq_of_beq heq ▸ hc)
  rw [pieces_append_cons rfl, pieces_eq_singleton hfree, List.singleton_append]

section SplitAt
variable {sep : Char} {mark s piece : String} {parts : List String}

theorem mem_of_mem_splitAt (hp : piece ∈ splitAt sep s) {c : Char} (hc : c ∈ piece.toList) :
    c ∈ s.toList := by
  obtain ⟨cs, hcs, rfl⟩ := List.mem_map.1 hp
  rw [String.toList_ofList] at hc
  exact mem_of_mem_pieces hcs hc

theorem oneLine_of_mem_splitAt (hs : OneLine s) (hp : piece ∈ splitAt sep s) : OneLine piece :=
  fun hbreak => hs (mem_of_mem_splitAt hp hbreak)

theorem sep_notMem_of_mem_splitAt (hp : piece ∈ splitAt sep s) : sep ∉ piece.toList := by
  obtain ⟨cs, hcs, rfl⟩ := List.mem_map.1 hp
  rw [String.toList_ofList]
  exact fun hc => not_sep_of_mem_pieces hcs hc (beq_self_eq_true sep)

theorem splitAt_append (hmark : mark.toList = [sep]) (before after : String) :
    splitAt sep (before ++ mark ++ after) = splitAt sep before ++ splitAt sep after := by
  have hlist : (before ++ mark ++ after).toList = before.toList ++ sep :: after.toList := by
    simp [hmark]
  rw [splitAt, hlist, @pieces_append_cons (· == sep) sep (beq_self_eq_true sep), List.map_append]
  rfl

theorem splitAt_eq_singleton (h : sep ∉ s.toList) : splitAt sep s = [s] := by
  have hfree : ∀ c ∈ s.toList, ¬ (c == sep) := fun c hc heq => h (eq_of_beq heq ▸ hc)
  rw [splitAt, pieces_eq_singleton hfree, List.map_singleton, String.ofList_toList]

/-- Pieces that are joined by what separates them are found again. -/
theorem splitAt_intercalate (hmark : mark.toList = [sep]) (hne : parts ≠ [])
    (h : ∀ part ∈ parts, sep ∉ part.toList) : splitAt sep (mark.intercalate parts) = parts := by
  induction parts with
  | nil => exact absurd rfl hne
  | cons part rest ih =>
    obtain ⟨hpart, hrest⟩ := List.forall_mem_cons.1 h
    cases rest with
    | nil => rw [String.intercalate_singleton, splitAt_eq_singleton hpart]
    | cons next rest =>
      rw [String.intercalate_cons_cons, splitAt_append hmark, splitAt_eq_singleton hpart,
        ih (List.cons_ne_nil _ _) hrest, List.singleton_append]

end SplitAt

theorem mem_intercalate {sep : String} {parts : List String} {c : Char} (hsep : c ∉ sep.toList) :
    c ∈ (sep.intercalate parts).toList ↔ ∃ part ∈ parts, c ∈ part.toList := by
  induction parts with
  | nil => simp
  | cons part rest ih =>
    cases rest with
    | nil => simp
    | cons next rest =>
      rw [String.intercalate_cons_cons, String.toList_append, String.toList_append,
        List.mem_append, List.mem_append, or_iff_left hsep, ih]
      exact (List.exists_mem_cons_iff (c ∈ ·.toList) part _).symm

theorem oneLine_intercalate {sep : String} {parts : List String} (hsep : OneLine sep)
    (h : ∀ part ∈ parts, OneLine part) : OneLine (sep.intercalate parts) := by
  rw [OneLine, mem_intercalate hsep]
  rintro ⟨part, hpart, hbreak⟩
  exact h part hpart hbreak

/-- What holds of all characters of three texts holds of those of the whole. -/
theorem all_between {p : Char → Bool} {before s after : String} (h : s.toList.all p)
    (hb : before.toList.all p) (ha : after.toList.all p) : (before ++ s ++ after).toList.all p := by
  rw [String.toList_append, String.toList_append, List.all_append, List.all_append, hb, h, ha]
  rfl

/-- What holds of the digits holds of the characters of a number. -/
theorem all_repr {p : Char → Bool} (hp : ∀ c : Char, c.isDigit → p c) (n : Nat) :
    n.repr.toList.all p := by
  rw [Nat.repr_eq_ofList_toDigits, String.toList_ofList, List.all_eq_true]
  exact fun c hc => hp c (Nat.isDigit_of_mem_toDigits (by decide) (by decide) hc)

theorem oneLine_repr (n : Nat) : OneLine n.repr := by
  have hdigits : n.repr.toList.all Char.isDigit := all_repr (fun _ hc => hc) n
  intro hbreak
  exact absurd (List.all_eq_true.1 hdigits _ hbreak) (by decide)

end DocTree.Text

namespace DocTree.Site
open Text

/-- Every segment that is kept was one of the path. -/
theorem mem_splitAt_of_mem_segments {path segment : String} (h : segment ∈ segments path) :
    segment ∈ splitAt '/' path := by
  have hfold (parts reversed : List String) :
      ∀ p ∈ parts.foldl pushSegment reversed, p ∈ reversed ∨ p ∈ parts := by
    induction parts generalizing reversed with
    | nil => exact fun p hp => .inl hp
    | cons part parts ih =>
      intro p hp
      have hpushed := ih _ p hp
      unfold pushSegment at hpushed
      grind
  simpa using hfold _ [] segment (List.mem_reverse.1 h)

theorem oneLine_of_mem_segments {path segment : String} (h : OneLine path)
    (hs : segment ∈ segments path) : OneLine segment :=
  oneLine_of_mem_splitAt h (mem_splitAt_of_mem_segments hs)

theorem mem_of_mem_withoutShared {as bs : List String} {s : String}
    (h : s ∈ (withoutShared as bs).2) : s ∈ bs := by
  fun_induction withoutShared as bs with
  | case1 as b bs ih => exact List.mem_cons_of_mem _ (ih h)
  | case2 => exact h
  | case3 => exact h

theorem oneLine_splitFragment {destination : String} (h : OneLine destination) :
    OneLine (splitFragment destination).1 ∧
      OneLine (fragmentText (splitFragment destination).2) := by
  unfold splitFragment
  cases hcut : cutAt? '#' destination with
  | none => exact ⟨h, by simp [fragmentText, OneLine]⟩
  | some parts =>
    obtain ⟨hsplit, -⟩ := cutAt?_eq_some.1 hcut
    rw [OneLine, hsplit, List.mem_append, List.mem_cons, not_or, not_or] at h
    exact ⟨h.1, oneLine_append.2 ⟨by decide, h.2.2⟩⟩

theorem oneLine_fileName {path : String} (h : OneLine path) : OneLine (fileName path) := by
  rw [fileName, List.getLastD_eq_getLast?]
  cases hlast : (splitAt '/' path).getLast? with
  | none => exact h
  | some last => exact oneLine_of_mem_splitAt h (List.mem_of_getLast? hlast)

theorem oneLine_relativePath {fromPage toPage : String} (hfrom : OneLine fromPage)
    (hto : OneLine toPage) : OneLine (relativePath fromPage toPage) := by
  obtain ⟨htarget, hfragment⟩ := oneLine_splitFragment hto
  unfold relativePath
  cases hsplit : splitFragment toPage with
  | mk target fragment =>
    rw [hsplit] at htarget hfragment
    dsimp only
    split
    · cases fragment with
      | some fragment => exact hfragment
      | none => exact oneLine_fileName hfrom
    · cases hparts : withoutShared (segments fromPage).dropLast (segments target) with
      | mk up down =>
        refine oneLine_append.2 ⟨oneLine_intercalate (by decide) fun part hpart => ?_, hfragment⟩
        rcases List.mem_append.1 hpart with hup | hdown
        · obtain ⟨_, _, rfl⟩ := List.mem_map.1 hup
          decide
        · exact oneLine_of_mem_segments htarget (mem_of_mem_withoutShared (hparts ▸ hdown))

theorem mem_of_mem_dropDotSlashes {cs : List Char} {c : Char} (h : c ∈ dropDotSlashes cs) :
    c ∈ cs := by
  fun_induction dropDotSlashes cs with
  | case1 rest ih => exact List.mem_cons_of_mem _ (List.mem_cons_of_mem _ (ih h))
  | case2 => exact h

theorem oneLine_joinUrl {base path : String} (hbase : OneLine base) (hpath : OneLine path) :
    OneLine (joinUrl base path) := by
  simp only [joinUrl, oneLine_ofList, List.mem_append, List.mem_cons, not_or]
  refine ⟨fun h => hbase ?_, by decide, fun h => hpath ?_⟩
  · exact List.mem_reverse.1 ((List.dropWhile_sublist _).mem (List.mem_reverse.1 h))
  · exact mem_of_mem_dropDotSlashes ((List.dropWhile_sublist _).mem h)

end DocTree.Site

namespace DocTree.Markdown
open Text

/-- What an address is on a page holds no line break if none of what it is made of does. -/
theorem Options.oneLine_address {o : Options} (hpage : OneLine o.page)
    (hbase : ∀ base ∈ o.sourceBase, OneLine base) {destination : String}
    (h : OneLine destination) (target : LinkTarget) : OneLine (o.address target destination) := by
  unfold Options.address
  split
  · exact h
  · exact Site.oneLine_relativePath hpage h
  · next base heq => exact Site.oneLine_joinUrl (hbase base heq) h
  · exact h

theorem EscapeContext.oneLine_of_entity? {c : Char} {entity : String} (h : entity? c = some entity) :
    OneLine entity := by
  unfold entity? at h
  split at h <;> cases h <;> decide

theorem EscapeContext.lineBreak_free_escapeChar {ctx : EscapeContext} {c : Char}
    (h : c = '\n' → '\n' ∉ ctx.lineBreak) (blank : Bool) : '\n' ∉ ctx.escapeChar blank c := by
  unfold escapeChar
  split
  · next entity heq =>
    split at heq
    · cases heq
    · exact oneLine_of_entity? heq
  · split
    · decide
    split
    · next hc => exact h hc
    · next hc => split <;> simp [Ne.symm hc]

/-- Only a line break of a text can become one in what is written for it. -/
theorem EscapeContext.lineBreak_free_escapeFrom {ctx : EscapeContext} {cs : List Char}
    (h : '\n' ∈ cs → '\n' ∉ ctx.lineBreak) (blank : Bool) : '\n' ∉ ctx.escapeFrom blank cs := by
  induction cs generalizing blank with
  | nil => simp [escapeFrom]
  | cons c rest ih =>
    have hc (heq : c = '\n') : '\n' ∉ ctx.lineBreak := h (heq ▸ List.mem_cons_self)
    simp only [escapeFrom, List.mem_append, not_or]
    exact ⟨lineBreak_free_escapeChar hc blank, ih (fun hrest => h (List.mem_cons_of_mem _ hrest)) _⟩

theorem EscapeContext.oneLine_escape_of {ctx : EscapeContext} {s : String}
    (h : ¬ OneLine s → '\n' ∉ ctx.lineBreak) : OneLine (ctx.escape s) := by
  rw [escape, oneLine_ofList]
  exact lineBreak_free_escapeFrom (fun hs => h (not_not_intro hs)) _

theorem EscapeContext.oneLine_escape {ctx : EscapeContext} (h : '\n' ∉ ctx.lineBreak)
    (s : String) : OneLine (ctx.escape s) := oneLine_escape_of fun _ => h

/-- In a table no text ends a line. -/
theorem EscapeContext.oneLine_escape_table {ctx : EscapeContext} (h : ctx.table) (s : String) :
    OneLine (ctx.escape s) := by
  refine oneLine_escape ?_ s
  simp only [lineBreak, h, Bool.true_or, if_true]
  split
  · decide
  · split <;> decide

theorem oneLine_escapeDestination {destination : String} (h : OneLine destination)
    (inTable : Bool) : OneLine (escapeDestination destination inTable) := by
  have hbars : OneLine (if inTable then replaceChar '|' "%7C" destination else destination) := by
    split
    · exact oneLine_replaceChar (by decide) (.inl h)
    · exact h
  unfold escapeDestination
  generalize (if inTable then replaceChar '|' "%7C" destination else destination) = d at hbars ⊢
  dsimp only
  split
  · have hangles : OneLine (replaceChar '>' "%3E" (replaceChar '<' "%3C" d)) :=
      oneLine_replaceChar (by decide) (.inl (oneLine_replaceChar (by decide) (.inl hbars)))
    exact hangles.between (by decide) (by decide)
  · exact hbars

theorem oneLine_escapeTitle (title : String) (inTable : Bool) :
    OneLine (escapeTitle title inTable) := by
  simp only [escapeTitle, oneLine_ofList, List.mem_flatMap, not_exists, not_and]
  intro c _
  unfold titleChar
  split
  · decide
  · next hc =>
    split <;> simp [Ne.symm hc]

/-- Comments on a line that may not end have their line breaks replaced. -/
theorem oneLine_commentBody (s : String) : OneLine (commentBody s true) :=
  oneLine_replaceChar (by decide) (.inr rfl)

theorem closeSafe_free {cs : List Char} (h : '\n' ∉ cs) : '\n' ∉ closeSafe cs := by
  fun_induction closeSafe cs with
  | case1 rest ih => simp_all
  | case2 c rest _ ih => simp_all
  | case3 => exact h

theorem oneLine_commentBody_of_oneLine {s : String} (h : OneLine s) (singleLine : Bool) :
    OneLine (commentBody s singleLine) := by
  cases singleLine with
  | true => exact oneLine_commentBody s
  | false => exact oneLine_ofList.2 (closeSafe_free h)

theorem oneLine_ticks (n : Nat) : OneLine (ticks n) := by
  simp [ticks, List.mem_replicate]

theorem oneLine_tickPadding (code : String) : OneLine (tickPadding code) := by
  unfold tickPadding
  dsimp only
  split <;> decide

end DocTree.Markdown

namespace DocTree

theorem oneLine_of_isValidAnchor {id : String} (h : isValidAnchor id) : Text.OneLine id := by
  simp only [isValidAnchor, Bool.and_eq_true, List.all_eq_true] at h
  intro hc
  exact absurd (h.2 _ hc) (by decide)

end DocTree
