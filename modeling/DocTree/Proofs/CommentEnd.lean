import DocTree.Preview.RawHtml
import DocTree.Proofs.CodeText

/-! Comments end where they are meant to. Of each closing mark in the text of a comment the angle is
written as an entity, and no other mark comes about: not from the dashes that are left, not where a
space stands for a line break and not where the marks of the comment are put around the text. -/
namespace DocTree.Text
variable {mark cs ds before after : List Char} {c : Char}

/-- A mark reaches no further than up to a character that it does not hold. -/
theorem prefix_across_iff (h : c ∉ mark) : mark <+: cs ++ c :: ds ↔ mark <+: cs := by
  induction cs generalizing mark with
  | nil =>
    cases mark with
    | nil => simp
    | cons d mark =>
      have hd : d ≠ c := fun heq => h (heq ▸ List.mem_cons_self)
      simp [List.cons_prefix_cons, hd]
  | cons d cs ih =>
    cases mark with
    | nil => simp
    | cons e mark =>
      rw [List.cons_append, List.cons_prefix_cons, List.cons_prefix_cons,
        ih fun hc => h (List.mem_cons_of_mem e hc)]

/-- A mark stands on one side of a character that it does not hold. -/
theorem infix_across_iff (h : c ∉ mark) :
    mark <:+: cs ++ c :: ds ↔ mark <:+: cs ∨ mark <:+: ds := by
  induction cs with
  | nil =>
    have hhead : mark <+: [] ++ c :: ds ↔ mark <+: [] := prefix_across_iff h
    rw [List.nil_append] at hhead ⊢
    rw [List.infix_cons_iff, hhead, List.prefix_nil, List.infix_nil]
  | cons d cs ih =>
    have hhead : mark <+: d :: cs ++ c :: ds ↔ mark <+: d :: cs := prefix_across_iff h
    rw [List.cons_append] at hhead ⊢
    rw [List.infix_cons_iff, hhead, ih, ← or_assoc, ← List.infix_cons_iff]

/-- A mark that is put behind the text is the first one in it. -/
def FirstBehind (mark cs : List Char) : Prop := ¬ mark <:+: (cs ++ mark).dropLast

instance (mark cs : List Char) : Decidable (FirstBehind mark cs) :=
  inferInstanceAs (Decidable (¬ _))

/-- What stands behind the mark does not matter. -/
theorem firstBehind_cons (hmark : mark ≠ []) (rest : List Char) :
    FirstBehind mark (c :: cs) ↔
      ¬ mark <+: c :: (cs ++ (mark ++ rest)) ∧ FirstBehind mark cs := by
  have hcut : (c :: cs ++ mark).dropLast = c :: (cs ++ mark).dropLast :=
    List.dropLast_cons_of_ne_nil (by simp [hmark])
  have hlength : mark.length ≤ (c :: (cs ++ mark).dropLast).length := by
    rw [← hcut]
    simp
  have hwhole : c :: (cs ++ mark).dropLast <+: c :: (cs ++ (mark ++ rest)) := by
    rw [← List.append_assoc, List.cons_prefix_cons]
    exact ⟨rfl, (List.dropLast_prefix _).trans (List.prefix_append _ rest)⟩
  have hhead : mark <+: c :: (cs ++ mark).dropLast ↔ mark <+: c :: (cs ++ (mark ++ rest)) :=
    ⟨fun h => h.trans hwhole, fun h => List.prefix_of_prefix_length_le h hwhole hlength⟩
  rw [FirstBehind, hcut, List.infix_cons_iff, hhead, not_or, FirstBehind]

theorem firstBehind_across_iff (hmark : mark ≠ []) (h : c ∉ mark) :
    FirstBehind mark (cs ++ c :: ds) ↔ ¬ mark <:+: cs ∧ FirstBehind mark ds := by
  have hcut : (cs ++ c :: ds ++ mark).dropLast = cs ++ c :: (ds ++ mark).dropLast := by
    rw [List.append_assoc, List.dropLast_append_of_ne_nil (by simp), List.cons_append,
      List.dropLast_cons_of_ne_nil (by simp [hmark])]
  rw [FirstBehind, hcut, infix_across_iff h, not_or, FirstBehind]

/-- A text with its first mark at the end has no other one. -/
theorem FirstBehind.eq_nil (h : FirstBehind mark cs) (hcs : cs ++ mark = before ++ mark ++ after) :
    after = [] := by
  by_contra hafter
  refine h ⟨before, after.dropLast, ?_⟩
  rw [hcs, List.dropLast_append_of_ne_nil hafter]

/-- A text and what it becomes when a mark is replaced from left to right; what stands between the
marks is kept. -/
inductive Replaced (mark new : List Char) : List Char → List Char → Prop
  | last {cs : List Char} (h : ¬ mark <:+: cs) : Replaced mark new cs cs
  | next {cs rest rest' : List Char} (h : FirstBehind mark cs)
    (hrest : Replaced mark new rest rest') :
    Replaced mark new (cs ++ (mark ++ rest)) (cs ++ (new ++ rest'))

/-- A character with which no mark begins is kept. -/
theorem Replaced.cons {new : List Char} (hc : ¬ mark <+: c :: cs) (h : Replaced mark new cs ds) :
    Replaced mark new (c :: cs) (c :: ds) := by
  cases h with
  | last h => exact .last fun hinfix => (List.infix_cons_iff.1 hinfix).elim hc h
  | next h hrest =>
    have hmark : mark ≠ [] := by
      rintro rfl
      exact hc List.nil_prefix
    exact .next ((firstBehind_cons hmark _).2 ⟨hc, h⟩) hrest

end DocTree.Text

namespace DocTree.Preview
open Text
variable {mark cs : List Char}

/-- The first mark is found, whatever stands behind it. -/
theorem behind?_append (hmark : mark ≠ []) (h : FirstBehind mark cs) (rest : List Char) :
    behind? mark (cs ++ (mark ++ rest)) = some rest := by
  induction cs with
  | nil =>
    obtain ⟨c, more, rfl⟩ := List.exists_cons_of_ne_nil hmark
    have hthere : (c :: more).isPrefixOf (c :: (more ++ rest)) :=
      List.isPrefixOf_iff_prefix.2 (List.prefix_append (c :: more) rest)
    show behind? (c :: more) (c :: (more ++ rest)) = some rest
    rw [behind?, if_pos hthere]
    exact congrArg some List.drop_left
  | cons c cs ih =>
    obtain ⟨hhead, hbehind⟩ := (firstBehind_cons hmark rest).1 h
    rw [← List.isPrefixOf_iff_prefix] at hhead
    rw [List.cons_append, behind?, if_neg hhead, ih hbehind]

end DocTree.Preview

namespace DocTree.Markdown
open Text Render Preview

/-- What closes a comment. -/
def closingMark : List Char := ['-', '-', '>']

/-- What is written for a closing mark inside a comment. -/
def escapedMark : List Char := "--&gt;".toList

theorem replaced_closeSafe (cs : List Char) :
    Replaced closingMark escapedMark cs (closeSafe cs) := by
  fun_induction closeSafe cs with
  | case1 rest ih => exact .next (show FirstBehind closingMark [] by decide) ih
  | case2 c rest hopen ih =>
    refine ih.cons fun h => ?_
    obtain ⟨more, hmore⟩ := h
    obtain ⟨hc, hrest⟩ := List.cons.inj hmore
    exact hopen more hc.symm hrest.symm
  | case3 => exact .last (by decide)

/-- The characters of an entity keep the dashes in front of it apart from the angles behind it. -/
theorem open_of_replaced {cs ds : List Char} (h : Replaced closingMark escapedMark cs ds) :
    ¬ closingMark <:+: ds := by
  induction h with
  | last h => exact h
  | @next cs rest rest' h _ ih =>
    have hsplit : cs ++ (escapedMark ++ rest') =
        (cs ++ closingMark).dropLast ++ '&' :: ("gt".toList ++ ';' :: rest') := by
      rw [List.dropLast_append_of_ne_nil (by decide), List.append_assoc]
      rfl
    rw [hsplit, infix_across_iff (by decide), infix_across_iff (by decide), not_or, not_or]
    exact ⟨h, by decide, ih⟩

/-- No closing mark holds a line break or a space, so a space for a line break makes none. -/
theorem commentBody_open (s : String) (singleLine : Bool) :
    ¬ closingMark <:+: (commentBody s singleLine).toList := by
  have hsafe : ¬ closingMark <:+: (String.ofList (closeSafe s.toList)).toList := by
    rw [String.toList_ofList]
    exact open_of_replaced (replaced_closeSafe s.toList)
  cases singleLine with
  | true =>
    rw [commentBody, if_pos rfl, toList_spaced]
    exact fun h => hsafe (infix_of_infix_swapped (by decide) h)
  | false => exact hsafe

/-- A comment from behind its opening mark and up to its closing mark. -/
def commentInside (s : String) (singleLine : Bool) : List Char :=
  ' ' :: ((commentBody s singleLine).toList ++ [' '])

/-- The spaces around the text of a comment keep its dashes and angles apart from those of the
marks. -/
theorem firstBehind_commentInside {before : List Char} (h : ¬ closingMark <:+: before) (s : String)
    (singleLine : Bool) : FirstBehind closingMark (before ++ commentInside s singleLine) := by
  rw [commentInside, firstBehind_across_iff (by decide) (by decide),
    firstBehind_across_iff (by decide) (by decide)]
  exact ⟨h, commentBody_open s singleLine, by decide⟩

/-- What is written for a comment. -/
def commentText (s : String) (singleLine : Bool) : String :=
  "<!-- " ++ commentBody s singleLine ++ " -->"

theorem toList_commentText (s : String) (singleLine : Bool) :
    (commentText s singleLine).toList =
      "<!--".toList ++ commentInside s singleLine ++ closingMark := by
  rw [commentText, String.toList_append, String.toList_append, commentInside]
  simp [closingMark]

/-- What closes a comment occurs at its end and nowhere else. -/
theorem eq_empty_of_commentText {s before after : String} {singleLine : Bool}
    (h : commentText s singleLine = before ++ "-->" ++ after) : after = "" := by
  have hlist : "<!--".toList ++ commentInside s singleLine ++ closingMark =
      before.toList ++ closingMark ++ after.toList := by
    rw [← toList_commentText, h, String.toList_append, String.toList_append]
    rfl
  have hfirst : FirstBehind closingMark ("<!--".toList ++ commentInside s singleLine) :=
    firstBehind_commentInside (by decide) s singleLine
  exact String.toList_eq_nil_iff.1 (hfirst.eq_nil hlist)

theorem oneLine_commentText (s : String) : OneLine (commentText s true) :=
  (oneLine_commentBody s).between (by decide) (by decide)

/-- A comment is read up to the mark at its end, whatever stands behind it. -/
theorem skipHtml_commentText (s : String) (singleLine : Bool) (rest : List Char) :
    skipHtml ((commentText s singleLine).toList.tail ++ rest) = some rest := by
  have hfirst : FirstBehind closingMark ([] ++ commentInside s singleLine) :=
    firstBehind_commentInside (by decide) s singleLine
  rw [toList_commentText]
  show behind? closingMark ([] ++ commentInside s singleLine ++ closingMark ++ rest) = some rest
  rw [List.append_assoc]
  exact behind?_append (by decide) hfirst rest

/-- A comment can be written everywhere. -/
theorem comment_apply (s : String) (out : Output) :
    comment s out = (.ok (), out.wrote (commentText s out.constrained)) := by
  have hbody : comment s out = (do
      write "<!-- "
      write (commentBody s out.constrained)
      write " -->" : Render Unit) out := rfl
  have hfits (h : out.constrained) : OneLine (commentBody s out.constrained) := by
    rw [h]
    exact oneLine_commentBody s
  have hinside : write (commentBody s out.constrained) (out.wrote "<!-- ") =
      (.ok (), (out.wrote "<!-- ").wrote (commentBody s out.constrained)) := write_of_fits hfits
  rw [hbody, bind_of_ok (write_of_fits fun _ => by decide), bind_of_ok hinside,
    write_of_fits fun _ => by decide, Output.wrote_wrote, Output.wrote_wrote, commentText,
    String.append_assoc]

section Node
variable (o : Options) (head : PageMetadata → Render Unit) {persist : Bool}

/-- A comment that is not left out is written between its marks wherever it stands. In its text the
angle of each closing mark is an entity, and where a line may not end a space stands for each line
break. What closes the comment occurs at the end of what is written and nowhere else, so a reader
finds it there, and no line ends in the comment where none may. -/
theorem comment_ends_once (s : String) (hkept : o.stripComments → persist) (out : Output) :
    ∃ body text, Replaced closingMark escapedMark s.toList body.toList ∧
      text = "<!-- " ++ (if out.constrained then replaceChar '\n' " " body else body) ++ " -->" ∧
      renderNode o head (.comment s persist) out = (.ok (), out.wrote text) ∧
      (∀ before after, text = before ++ "-->" ++ after → after = "") ∧
      (out.constrained → OneLine text) ∧
      ∀ rest, skipHtml (text.toList.tail ++ rest) = some rest := by
  refine ⟨.ofList (closeSafe s.toList), commentText s out.constrained, ?_, rfl, ?_, ?_, ?_, ?_⟩
  · rw [String.toList_ofList]
    exact replaced_closeSafe s.toList
  · have hwritten : (!persist && o.stripComments) = false := by
      cases h : o.stripComments with
      | true => simp [hkept h]
      | false => simp
    rw [renderNode, hwritten]
    exact comment_apply s out
  · intro before after htext
    exact eq_empty_of_commentText htext
  · intro h
    rw [h]
    exact oneLine_commentText s
  · exact skipHtml_commentText s out.constrained

/-- Dashes in front of a closing mark, two marks in a row and dashes at the end of the text. -/
theorem comment_ends_once_dashes :
    (({ stripComments := true } : Options).stripComments → true) ∧
      renderNode { stripComments := true } (fun _ => pure ()) (.comment "--->-->\n--" true)
          { modes := { table := true } } =
        (.ok (), ({ modes := { table := true } } : Output).wrote "<!-- ---&gt;--&gt; -- -->") ∧
      (∀ before after, "<!-- ---&gt;--&gt; -- -->" = before ++ "-->" ++ after → after = "") ∧
      skipHtml "!-- ---&gt;--&gt; -- -->-->".toList = some "-->".toList := by
  have hkept : ({ stripComments := true } : Options).stripComments → true := fun _ => rfl
  have hrun : renderNode { stripComments := true } (fun _ => pure ()) (.comment "--->-->\n--" true)
      { modes := { table := true } } =
        (.ok (), ({ modes := { table := true } } : Output).wrote "<!-- ---&gt;--&gt; -- -->") := by
    decide
  obtain ⟨_, text, -, -, hwrote, honce, -, hread⟩ := comment_ends_once { stripComments := true }
    (fun _ => pure ()) "--->-->\n--" hkept { modes := { table := true } }
  have hbuffer : (({} : Layout.Buffer).write text).text =
      (({} : Layout.Buffer).write "<!-- ---&gt;--&gt; -- -->").text :=
    congrArg (fun result => result.2.text) (hwrote.symm.trans hrun)
  obtain rfl : text = "<!-- ---&gt;--&gt; -- -->" := by
    simpa [Layout.Buffer.write_text] using hbuffer
  exact ⟨hkept, hrun, honce, hread _⟩

end Node
end DocTree.Markdown
