import DocTree.Preview.Target
import DocTree.Proofs.CodeText

/-! Destinations of links are read back. A destination that is not between angles ends at the first
parenthesis that it does not open itself. The writer only counts parentheses, so a destination with as
many of either kind in which one closes too early is cut there. -/
namespace DocTree.Markdown
open Text Preview Unicode

/-- Puts characters in front of what has been read. -/
def ahead (cs : List Char) : List Char × List Char → List Char × List Char
  | (read, rest) => (cs ++ read, rest)

/-- Reads a destination between angles from behind the first one: up to the second one, on one line
and without a third one. -/
def readAngled : List Char → Option (List Char × List Char)
  | [] => none
  | '>' :: rest => some ([], rest)
  | '\\' :: c :: rest =>
    if isAsciiPunctuation c then (readAngled rest).map (ahead ['\\', c])
    else (readAngled (c :: rest)).map (ahead ['\\'])
  | c :: rest =>
    if c = '\n' ∨ c = '\r' ∨ c = '<' then none else (readAngled rest).map (ahead [c])

/-- How many parentheses of a destination are open behind a character, unless the character ends it:
a space, a control character or a parenthesis that closes none. -/
def openBehind (depth : Nat) (c : Char) : Option Nat :=
  if c ≤ ' ' ∨ c = '\x7f' ∨ (c = ')' ∧ depth = 0) then none
  else if c = '(' then some (depth + 1)
  else if c = ')' then some (depth - 1)
  else some depth

/-- Reads a destination without angles where some of its parentheses are open, to any depth. In the
end none may be. -/
def readBare (depth : Nat) : List Char → Option (List Char × List Char)
  | [] => if depth = 0 then some ([], []) else none
  | '\\' :: c :: rest =>
    if isAsciiPunctuation c then (readBare depth rest).map (ahead ['\\', c])
    else (readBare depth (c :: rest)).map (ahead ['\\'])
  | c :: rest =>
    match openBehind depth c with
    | some depth => (readBare depth rest).map (ahead [c])
    | none => if depth = 0 then some ([], c :: rest) else none

/-- Reads the destination of a link from behind the parenthesis that opens it, and gives what stands
behind the destination. -/
def readDestination (cs : List Char) : Option (String × List Char) :=
  let read? :=
    match skipHtmlSpace cs with
    | '<' :: rest => readAngled rest
    | rest => readBare 0 rest
  read?.map fun read => (unescaped read.1, read.2)

section Reading
variable {depth : Nat} {cs rest : List Char}

/-- The text behind as many open parentheses closes none but these and its own. -/
def Closes (depth : Nat) (cs : List Char) : Prop :=
  ∀ before, before <+: cs → before.count ')' ≤ depth + before.count '('

theorem closes_nil (depth : Nat) : Closes depth [] := by
  intro before hbefore
  rw [List.prefix_nil.1 hbefore]
  exact Nat.zero_le _

theorem closes_cons {c : Char} : Closes depth (c :: cs) ↔
    ∀ before, before <+: cs → (c :: before).count ')' ≤ depth + (c :: before).count '(' := by
  refine ⟨fun h before hbefore => h _ ((List.prefix_cons_inj c).2 hbefore), fun h before hbefore => ?_⟩
  obtain rfl | ⟨before, rfl, hbehind⟩ := List.prefix_cons_iff.1 hbefore
  · exact Nat.zero_le _
  · exact h before hbehind

theorem closes_opening : Closes depth ('(' :: cs) ↔ Closes (depth + 1) cs := by
  rw [closes_cons]
  refine forall₂_congr fun before _ => ?_
  rw [List.count_cons_self, List.count_cons_of_ne (by decide)]
  omega

theorem closes_closing : Closes depth (')' :: cs) ↔ depth ≠ 0 ∧ Closes (depth - 1) cs := by
  have hcounts (before : List Char) :
      (')' :: before).count ')' ≤ depth + (')' :: before).count '(' ↔
        before.count ')' + 1 ≤ depth + before.count '(' := by
    rw [List.count_cons_self, List.count_cons_of_ne (by decide)]
  simp only [closes_cons, hcounts]
  constructor
  · intro h
    have hdepth : 0 + 1 ≤ depth + 0 := h [] List.nil_prefix
    refine ⟨by omega, fun before hbefore => ?_⟩
    have hbehind := h before hbefore
    omega
  · rintro ⟨hdepth, h⟩ before hbefore
    have hbehind := h before hbefore
    omega

theorem closes_other {c : Char} (hopening : c ≠ '(') (hclosing : c ≠ ')') :
    Closes depth (c :: cs) ↔ Closes depth cs := by
  rw [closes_cons]
  refine forall₂_congr fun before _ => ?_
  rw [List.count_cons_of_ne hopening, List.count_cons_of_ne hclosing]

theorem openBehind_opening (depth : Nat) : openBehind depth '(' = some (depth + 1) := by
  simp [openBehind]

theorem openBehind_closing (h : depth ≠ 0) : openBehind depth ')' = some (depth - 1) := by
  simp [openBehind, h]

theorem openBehind_other {c : Char} (hspace : ¬ c ≤ ' ') (hdelete : c ≠ '\x7f') (hopening : c ≠ '(')
    (hclosing : c ≠ ')') : openBehind depth c = some depth := by
  simp [openBehind, hspace, hdelete, hopening, hclosing]

theorem readBare_cons {c : Char} (h : c ≠ '\\') : readBare depth (c :: rest) =
    match openBehind depth c with
    | some depth => (readBare depth rest).map (ahead [c])
    | none => if depth = 0 then some ([], c :: rest) else none := by
  rw [readBare]
  rintro d ds heq -
  exact h heq

theorem map_ahead_eq_some {read? : Option (List Char × List Char)} {c : Char} :
    read?.map (ahead [c]) = some (c :: cs, rest) ↔ read? = some (cs, rest) := by
  cases read? with
  | none => simp
  | some read => simp [ahead, Prod.ext_iff]

/-- A text without spaces and escapes in front of a closing parenthesis is read as a whole exactly if
the parentheses that are open are closed in it, and none too early. -/
theorem readBare_eq_some_iff (h : ∀ c ∈ cs, ¬ c ≤ ' ' ∧ c ≠ '\\' ∧ c ≠ '\x7f') :
    readBare depth (cs ++ [')']) = some (cs, [')']) ↔
      Closes depth cs ∧ depth + cs.count '(' = cs.count ')' := by
  induction cs generalizing depth with
  | nil =>
    rw [List.nil_append, readBare_cons (by decide)]
    by_cases hdepth : depth = 0
    · rw [hdepth]
      exact iff_of_true rfl ⟨closes_nil 0, rfl⟩
    · rw [openBehind_closing hdepth]
      refine iff_of_false (fun hread => ?_) fun hclosed => hdepth hclosed.2
      obtain ⟨read, -, hread⟩ := Option.map_eq_some_iff.1 hread
      cases hread
  | cons c cs ih =>
    obtain ⟨⟨hspace, hbackslash, hdelete⟩, hcs⟩ := List.forall_mem_cons.1 h
    rw [List.cons_append, readBare_cons hbackslash]
    by_cases hopening : c = '('
    · subst hopening
      rw [openBehind_opening, map_ahead_eq_some, ih hcs, closes_opening, List.count_cons_self,
        List.count_cons_of_ne (by decide), Nat.add_right_comm, Nat.add_assoc]
    by_cases hclosing : c = ')'
    · subst hclosing
      rw [closes_closing, List.count_cons_self, List.count_cons_of_ne (by decide)]
      by_cases hdepth : depth = 0
      · subst hdepth
        refine iff_of_false (fun hread => ?_) fun hclosed => hclosed.1.1 rfl
        cases hread
      · rw [openBehind_closing hdepth, map_ahead_eq_some, ih hcs, and_assoc,
          and_iff_right hdepth]
        refine and_congr_right fun _ => ?_
        omega
    · rw [openBehind_other hspace hdelete hopening hclosing, map_ahead_eq_some, ih hcs,
        closes_other hopening hclosing, List.count_cons_of_ne hopening,
        List.count_cons_of_ne hclosing]

theorem eq_append_of_readBare {read : List Char} (h : readBare depth cs = some (read, rest)) :
    cs = read ++ rest := by
  have hahead {before cs : List Char} {read? : Option (List Char × List Char)} {read : List Char}
      (ih : ∀ read, read? = some (read, rest) → cs = read ++ rest)
      (hread : read?.map (ahead before) = some (read, rest)) : before ++ cs = read ++ rest := by
    obtain ⟨⟨behind, _⟩, hbehind, heq⟩ := Option.map_eq_some_iff.1 hread
    cases heq
    rw [ih behind hbehind, List.append_assoc]
  fun_induction readBare depth cs generalizing read with
  | case1 => cases h; rfl
  | case2 => cases h
  | case3 depth c cs _ ih => exact hahead (fun _ => ih) h
  | case4 depth c cs _ ih => exact hahead (fun _ => ih) h
  | case5 depth c cs _ depth' hopen ih => exact hahead (fun _ => ih) h
  | case6 => cases h; rfl
  | case7 => cases h

theorem readAngled_closed (h : ∀ c ∈ cs, c ∉ ['\\', '<', '>', '\n', '\r']) (rest : List Char) :
    readAngled (cs ++ '>' :: rest) = some (cs, rest) := by
  induction cs with
  | nil => rfl
  | cons c cs ih =>
    obtain ⟨hc, hcs⟩ := List.forall_mem_cons.1 h
    simp only [List.mem_cons, List.not_mem_nil, or_false, not_or] at hc
    obtain ⟨hbackslash, hopening, hclosing, hfeed, hreturn⟩ := hc
    have hplain : ¬ (c = '\n' ∨ c = '\r' ∨ c = '<') := by simp [hfeed, hreturn, hopening]
    rw [List.cons_append, readAngled, if_neg hplain, map_ahead_eq_some, ih hcs]
    · exact hclosing
    · rintro d ds heq -
      exact hbackslash heq

/-- Without backslashes and ampersands there is nothing to resolve. -/
theorem unescaped_eq_self (h : ∀ c ∈ cs, c ≠ '\\' ∧ c ≠ '&') : unescaped cs = .ofList cs := by
  have hsame (fuel : Nat) : unescape fuel cs = cs := by
    induction cs generalizing fuel with
    | nil => cases fuel <;> rfl
    | cons c cs ih =>
      obtain ⟨⟨hbackslash, hampersand⟩, hcs⟩ := List.forall_mem_cons.1 h
      cases fuel with
      | zero => rfl
      | succ fuel =>
        rw [unescape, ih hcs]
        · rintro d ds heq -
          exact hbackslash heq
        · exact hampersand
  rw [unescaped, hsame]

end Reading

section Writing
variable {destination : String} {cs : List Char}

/-- A character that is no control character and means nothing of its own in a destination. -/
def isPlainInside (c : Char) : Bool := ' ' ≤ c ∧ c ∉ ['\\', '&', '<', '>', '\x7f']

theorem isPlainInside_iff {c : Char} :
    isPlainInside c ↔ ' ' ≤ c ∧ c ∉ ['\\', '&', '<', '>', '\x7f'] := decide_eq_true_iff

/-- The writer puts a destination between angles. -/
def Angled (cs : List Char) : Prop := ' ' ∈ cs ∨ cs.count '(' ≠ cs.count ')'

instance (cs : List Char) : Decidable (Angled cs) := inferInstanceAs (Decidable (_ ∨ _))

theorem escapeDestination_eq (h : destination.toList.all isPlainInside) :
    escapeDestination destination false =
      if Angled destination.toList then "<" ++ destination ++ ">" else destination := by
  rw [List.all_eq_true] at h
  have hopening : '<' ∉ destination.toList := fun hc => absurd (h _ hc) (by decide)
  have hclosing : '>' ∉ destination.toList := fun hc => absurd (h _ hc) (by decide)
  have hneeds : (destination.toList.contains ' ' ||
      destination.toList.count '(' != destination.toList.count ')') = true ↔
        Angled destination.toList := by simp [Angled]
  rw [escapeDestination]
  simp only [Bool.false_eq_true, if_false, replaceChar_of_notMem hopening,
    replaceChar_of_notMem hclosing]
  by_cases hangled : Angled destination.toList
  · rw [if_pos hangled, if_pos (hneeds.2 hangled)]
  · rw [if_neg hangled, if_neg (hneeds.not.2 hangled)]

theorem unescaped_eq_of_plain (h : destination.toList.all isPlainInside) :
    unescaped destination.toList = destination := by
  rw [unescaped_eq_self, String.ofList_toList]
  intro c hc
  have hplain := (isPlainInside_iff.1 (List.all_eq_true.1 h c hc)).2
  simp only [List.mem_cons, not_or] at hplain
  exact ⟨hplain.1, hplain.2.1⟩

theorem readDestination_angled (h : destination.toList.all isPlainInside) :
    readDestination ("<" ++ destination ++ ">" ++ ")").toList = some (destination, [')']) := by
  have hlist : ("<" ++ destination ++ ">" ++ ")").toList =
      '<' :: (destination.toList ++ '>' :: [')']) := by simp
  have hread : readAngled (destination.toList ++ '>' :: [')']) = some (destination.toList, [')']) := by
    refine readAngled_closed (fun c hc hmem => ?_) [')']
    have hplain := List.all_eq_true.1 h c hc
    simp only [List.mem_cons, List.not_mem_nil, or_false] at hmem
    obtain rfl | rfl | rfl | rfl | rfl := hmem <;> exact absurd hplain (by decide)
  have hskip : skipHtmlSpace ('<' :: (destination.toList ++ '>' :: [')'])) = _ :=
    List.dropWhile_cons_of_neg (by decide)
  rw [readDestination, hlist, hskip]
  simp only [hread, Option.map_some, unescaped_eq_of_plain h]

/-- Where neither white space nor an angle comes first, a destination without angles is read. -/
theorem readDestination_cons {c : Char} (hspace : ¬ isHtmlSpace c) (hangle : c ≠ '<') :
    readDestination (c :: cs) =
      (readBare 0 (c :: cs)).map fun read => (unescaped read.1, read.2) := by
  have hskip : skipHtmlSpace (c :: cs) = c :: cs := List.dropWhile_cons_of_neg hspace
  rw [readDestination, hskip]
  split
  · next heq => exact absurd (List.cons.inj heq).1 hangle
  · rfl

theorem readDestination_bare (h : destination.toList.all isPlainInside)
    (hspace : ' ' ∉ destination.toList) :
    readDestination (destination ++ ")").toList = some (destination, [')']) ↔
      Closes 0 destination.toList ∧ destination.toList.count '(' = destination.toList.count ')' := by
  have hplain : ∀ c ∈ destination.toList, ¬ c ≤ ' ' ∧ c ≠ '\\' ∧ c ≠ '\x7f' := by
    intro c hc
    obtain ⟨hle, hmem⟩ := isPlainInside_iff.1 (List.all_eq_true.1 h c hc)
    simp only [List.mem_cons, List.not_mem_nil, or_false, not_or] at hmem
    refine ⟨fun hge => ?_, hmem.1, hmem.2.2.2.2⟩
    obtain rfl := Char.le_antisymm hle hge
    exact hspace hc
  have hread : readDestination (destination ++ ")").toList =
      (readBare 0 (destination.toList ++ [')'])).map fun read => (unescaped read.1, read.2) := by
    rw [String.toList_append]
    cases hcs : destination.toList with
    | nil => exact readDestination_cons (by decide) (by decide)
    | cons c cs =>
      have hc : c ∈ destination.toList := hcs ▸ List.mem_cons_self
      refine readDestination_cons (fun hblank => ?_) ?_
      · have hsolid := (hplain c hc).1
        simp only [isHtmlSpace, Bool.or_eq_true, beq_iff_eq] at hblank
        obtain (rfl | rfl) | rfl := hblank <;> exact hsolid (by decide)
      · rintro rfl
        exact absurd (List.all_eq_true.1 h _ hc) (by decide)
  rw [hread, ← Nat.zero_add (destination.toList.count '('), ← readBare_eq_some_iff hplain,
    Option.map_eq_some_iff]
  constructor
  · rintro ⟨⟨read, rest⟩, hbare, heq⟩
    obtain ⟨-, rfl⟩ := Prod.ext_iff.1 heq
    obtain rfl := List.append_cancel_right (eq_append_of_readBare hbare)
    exact hbare
  · exact fun hbare => ⟨_, hbare, by rw [unescaped_eq_of_plain h]⟩

end Writing

section Replacing
variable {old : Char} {new s : String}

theorem closes_behind {depth : Nat} {front cs : List Char} (hopening : '(' ∉ front)
    (hclosing : ')' ∉ front) : Closes depth (front ++ cs) ↔ Closes depth cs := by
  induction front with
  | nil => exact Iff.rfl
  | cons c front ih =>
    rw [List.mem_cons, not_or] at hopening hclosing
    rw [List.cons_append, closes_other (Ne.symm hopening.1) (Ne.symm hclosing.1),
      ih hopening.2 hclosing.2]

/-- Nothing but parentheses decides whether one closes too early. -/
theorem closes_replaceChar {depth : Nat} (hopening : '(' ≠ old ∧ '(' ∉ new.toList)
    (hclosing : ')' ≠ old ∧ ')' ∉ new.toList) :
    Closes depth (replaceChar old new s).toList ↔ Closes depth s.toList := by
  rw [replaceChar, String.toList_ofList]
  generalize s.toList = cs
  induction cs generalizing depth with
  | nil => exact Iff.rfl
  | cons c cs ih =>
    rw [List.flatMap_cons]
    by_cases hold : c = old
    · rw [if_pos hold, closes_behind hopening.2 hclosing.2, ih, hold,
        closes_other hopening.1.symm hclosing.1.symm]
    rw [if_neg hold, List.singleton_append]
    by_cases ho : c = '('
    · rw [ho, closes_opening, closes_opening, ih]
    by_cases hc : c = ')'
    · rw [hc, closes_closing, closes_closing, ih]
    · rw [closes_other ho hc, closes_other ho hc, ih]

end Replacing

section Destinations
variable {destination : String}

theorem escapeDestination_closed_iff (h : destination.toList.all isPlainInside) :
    readDestination (escapeDestination destination false ++ ")").toList =
        some (destination, [')']) ↔
      Angled destination.toList ∨ Closes 0 destination.toList := by
  rw [escapeDestination_eq h]
  by_cases hangled : Angled destination.toList
  · rw [if_pos hangled]
    exact iff_of_true (readDestination_angled h) (.inl hangled)
  · rw [if_neg hangled, or_iff_right hangled]
    rw [Angled, not_or, not_not] at hangled
    rw [readDestination_bare h hangled.1, and_iff_left hangled.2]

/-- A destination of plain characters is read back, in a table with its bars in percent encoding, if
and only if it has a space, or not as many opening as closing parentheses, or none of its parentheses
is closed before it is opened. -/
theorem escapeDestination_reads_back_iff (h : destination.toList.all isPlainInside)
    (inTable : Bool) :
    readDestination (escapeDestination destination inTable ++ ")").toList =
        some (if inTable then replaceChar '|' "%7C" destination else destination, [')']) ↔
      ' ' ∈ destination.toList ∨
        destination.toList.count '(' ≠ destination.toList.count ')' ∨
        ∀ before, before <+: destination.toList → before.count ')' ≤ before.count '(' := by
  have hcloses : Closes 0 destination.toList ↔
      ∀ before, before <+: destination.toList → before.count ')' ≤ before.count '(' := by
    simp only [Closes, Nat.zero_add]
  rw [← hcloses, ← or_assoc]
  cases inTable with
  | false => exact escapeDestination_closed_iff h
  | true =>
    have hbarless : (replaceChar '|' "%7C" destination).toList.all isPlainInside :=
      all_replaceChar h (by decide)
    have hangled : Angled (replaceChar '|' "%7C" destination).toList ↔
        Angled destination.toList := by
      rw [Angled, Angled, mem_replaceChar (by decide) (by decide),
        count_replaceChar (by decide) (by decide), count_replaceChar (by decide) (by decide)]
    have hread := escapeDestination_closed_iff hbarless
    rw [hangled, closes_replaceChar (by decide) (by decide)] at hread
    exact hread

theorem escapeDestination_reads_back_spaced :
    "a) (b|c".toList.all isPlainInside ∧
      escapeDestination "a) (b|c" true = "<a) (b%7Cc>" ∧
      readDestination "<a) (b%7Cc>)".toList = some ("a) (b%7Cc", [')']) := by
  have hplain : "a) (b|c".toList.all isPlainInside := by decide
  have hwritten : escapeDestination "a) (b|c" true = "<a) (b%7Cc>" := by decide
  have hread := (escapeDestination_reads_back_iff hplain true).2 (.inl (by decide))
  rw [hwritten] at hread
  exact ⟨hplain, hwritten, hread⟩

/-- There are as many opening as closing parentheses, and still the first one ends the destination. -/
theorem readDestination_cut :
    "a)b(c".toList.all isPlainInside ∧ escapeDestination "a)b(c" false = "a)b(c" ∧
      readDestination "a)b(c)".toList = some ("a", ")b(c)".toList) := by
  decide

end Destinations
end DocTree.Markdown
