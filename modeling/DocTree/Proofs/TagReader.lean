import DocTree.Proofs.Markup

/-! Reading the tags of a text back. A tag reaches from a left angle bracket to the next right one. A
reader keeps a stack of the elements that are open: an opening tag puts one on it, a closing tag takes
the last one off if it has its name, and void tags leave it alone. -/
namespace DocTree.Html
open Text

/-- A tag as a reader takes it, with its name in lower case. -/
inductive Tag where
  | opens (name : String)
  | closes (name : String)
  | stands
  deriving DecidableEq

/-- A character of the name of a tag. -/
def isNameChar (c : Char) : Bool := c.isAlphanum || c == '-'

/-- The tag that begins with a name: an element is opened, unless it can have no content. -/
def Tag.start (name : String) : Tag :=
  if voidTags.contains (lowerAscii name) then .stands else .opens (lowerAscii name)

/-- The tag with the given text between its angle brackets. -/
def Tag.ofText : List Char → Tag
  | '/' :: cs => .closes (lowerAscii (.ofList (cs.takeWhile isNameChar)))
  | cs => .start (.ofList (cs.takeWhile isNameChar))

/-- The tags of a text. Inside a tag, what has been read of it is given in reverse. -/
def tagsFrom : Option (List Char) → List Char → List Tag
  | none, [] => []
  | none, c :: rest => if c = '<' then tagsFrom (some []) rest else tagsFrom none rest
  | some read, [] => [.ofText read.reverse]
  | some read, c :: rest =>
    if c = '>' then .ofText read.reverse :: tagsFrom none rest else tagsFrom (some (c :: read)) rest

/-- The elements that are open behind the tags, the innermost first, if each closing tag closes the
innermost one. -/
def matchTags : List String → List Tag → Option (List String)
  | stack, [] => some stack
  | stack, .opens name :: rest => matchTags (name :: stack) rest
  | stack, .stands :: rest => matchTags stack rest
  | [], .closes _ :: _ => none
  | name :: stack, .closes other :: rest => if other = name then matchTags stack rest else none

/-- Each opening tag is closed by a tag with its name, in the order of a stack, and nothing else is
closed. -/
def NestsTags (text : String) : Prop := matchTags [] (tagsFrom none text.toList) = some []

instance (text : String) : Decidable (NestsTags text) := decEq _ _

/-- The text is read as whole tags, whatever is written behind it. -/
def Reads (cs : List Char) (tags : List Tag) : Prop :=
  ∀ rest, tagsFrom none (cs ++ rest) = tags ++ tagsFrom none rest

section Reads
variable {cs ds attributes : List Char} {tags others : List Tag} {name : String}

theorem Reads.append (h : Reads cs tags) (hds : Reads ds others) :
    Reads (cs ++ ds) (tags ++ others) := by
  intro rest
  rw [List.append_assoc, h, hds, List.append_assoc]

theorem reads_text (h : '<' ∉ cs) : Reads cs [] := by
  intro rest
  induction cs with
  | nil => rfl
  | cons c cs ih =>
    rw [List.mem_cons, not_or] at h
    rw [List.cons_append, tagsFrom, if_neg (Ne.symm h.1), ih h.2]

theorem Reads.tagsFrom (h : Reads cs tags) : tagsFrom none cs = tags := by
  have hread := h []
  rwa [List.append_nil, Html.tagsFrom, List.append_nil] at hread

/-- What stands between angle brackets is one tag. -/
theorem reads_tag (h : '>' ∉ cs) : Reads ('<' :: cs ++ ['>']) [.ofText cs] := by
  have hinside (read : List Char) (rest : List Char) :
      Html.tagsFrom (some read) (cs ++ '>' :: rest) =
        .ofText (read.reverse ++ cs) :: Html.tagsFrom none rest := by
    induction cs generalizing read with
    | nil => simp [Html.tagsFrom]
    | cons c cs ih =>
      rw [List.mem_cons, not_or] at h
      rw [List.cons_append, Html.tagsFrom, if_neg (Ne.symm h.1), ih h.2]
      simp
  intro rest
  have hread := hinside [] rest
  simpa [Html.tagsFrom] using hread

theorem takeWhile_name (h : isTagName name)
    (hend : ∀ c ∈ attributes.head?, isNameChar c = false) :
    (name.toList ++ attributes).takeWhile isNameChar = name.toList := by
  have hname : ∀ c ∈ name.toList, isNameChar c = true := by
    rw [isTagName, Bool.and_eq_true, List.all_eq_true] at h
    exact h.2
  rw [List.takeWhile_append_of_pos hname]
  cases attributes with
  | nil => simp
  | cons c rest => simp [hend c rfl]

end Reads

/-- An opening tag, or a tag that stands alone. What stands behind its name ends neither the name at
once nor the tag. -/
def IsOpening (name : String) (cs : List Char) : Prop :=
  ∃ attributes, cs = '<' :: (name.toList ++ attributes) ++ ['>'] ∧ '>' ∉ attributes ∧
    ∀ c ∈ attributes.head?, isNameChar c = false

section Tags
variable {name : String} {cs : List Char}

theorem isOpening_bare (name : String) : IsOpening name s!"<{name}>".toList := by
  refine ⟨[], ?_, by simp, by simp⟩
  change ("<" ++ name ++ ">").toList = _
  simp

/-- A name begins with no slash and holds no angle bracket. -/
theorem exists_name_head (h : isTagName name) :
    (∃ c rest, name.toList = c :: rest ∧ c ≠ '/') ∧ '>' ∉ name.toList := by
  have hname : ∀ c ∈ name.toList, isNameChar c = true := by
    rw [isTagName, Bool.and_eq_true, List.all_eq_true] at h
    exact h.2
  have hne : name.toList ≠ [] := by
    rw [isTagName, Bool.and_eq_true, Bool.not_eq_true', String.isEmpty_eq_false_iff] at h
    exact fun hnil => h.1 (String.toList_inj.1 hnil)
  refine ⟨?_, fun hmem => absurd (hname _ hmem) (by decide)⟩
  obtain ⟨c, rest, hcons⟩ := List.exists_cons_of_ne_nil hne
  refine ⟨c, rest, hcons, ?_⟩
  rintro rfl
  exact absurd (hname '/' (hcons ▸ List.mem_cons_self)) (by decide)

theorem reads_opening (hname : isTagName name) (h : IsOpening name cs) :
    Reads cs [.start name] := by
  obtain ⟨attributes, rfl, hbracket, hend⟩ := h
  obtain ⟨⟨c, rest, hcons, hslash⟩, hnone⟩ := exists_name_head hname
  have htag : Tag.ofText (name.toList ++ attributes) = .start name := by
    have hwhole := takeWhile_name hname hend
    rw [hcons, List.cons_append] at hwhole ⊢
    rw [Tag.ofText, hwhole, ← hcons, String.ofList_toList]
    intro _ hcons
    exact hslash (List.cons.inj hcons).1
  rw [← htag]
  refine reads_tag fun hmem => ?_
  exact (List.mem_append.1 hmem).elim hnone hbracket

theorem reads_closing (hname : isTagName name) :
    Reads s!"</{name}>".toList [.closes (lowerAscii name)] := by
  have htext : s!"</{name}>".toList = '<' :: ('/' :: name.toList) ++ ['>'] := by
    change ("</" ++ name ++ ">").toList = _
    simp
  have htag : Tag.ofText ('/' :: name.toList) = .closes (lowerAscii name) := by
    have hwhole : (name.toList ++ []).takeWhile isNameChar = name.toList :=
      takeWhile_name hname (by simp)
    rw [List.append_nil] at hwhole
    rw [Tag.ofText, hwhole, String.ofList_toList]
  obtain ⟨-, hnone⟩ := exists_name_head hname
  rw [htext, ← htag]
  exact reads_tag (by simpa using hnone)

end Tags

theorem matchTags_append (stack : List String) (tags others : List Tag) :
    matchTags stack (tags ++ others) =
      (matchTags stack tags).bind fun mid => matchTags mid others := by
  induction tags generalizing stack with
  | nil => rfl
  | cons tag tags ih =>
    cases tag with
    | opens name => exact ih (name :: stack)
    | stands => exact ih stack
    | closes name =>
      cases stack with
      | nil => rfl
      | cons top stack =>
        rw [List.cons_append, matchTags, matchTags]
        split
        · exact ih stack
        · rfl

/-- The text is read as whole tags that leave the stack as it was, unless `splits` says that they do
not fit. It is told whether the innermost open element is code. -/
def Balanced (splits : Bool → Bool) (cs : List Char) : Prop :=
  ∃ tags, Reads cs tags ∧ ∀ stack, matchTags stack tags =
    if splits (stack.head? == some "code") then none else some stack

/-- The name of an element with content; `direct` says whether the element is code. -/
def IsElement (name : String) (direct : Bool) : Prop :=
  isTagName name ∧ voidTags.contains (lowerAscii name) = false ∧ (lowerAscii name == "code") = direct

instance (name : String) (direct : Bool) : Decidable (IsElement name direct) :=
  inferInstanceAs (Decidable (_ ∧ _ ∧ _))

/-- The name of an element without content. -/
def IsVoid (name : String) : Prop := isTagName name ∧ voidTags.contains (lowerAscii name)

instance (name : String) : Decidable (IsVoid name) := inferInstanceAs (Decidable (_ ∧ _))

/-- The elements that stand for blocks, links and emphasis. -/
theorem isElement_fallback : ∀ name ∈ ["a", "b", "i", "s", "blockquote", "details", "summary", "ol",
    "ul", "li", "table", "tr", "th", "td", "p"], IsElement name false := by
  decide +kernel

theorem isElement_code : IsElement "code" true := by decide +kernel

/-- The elements without content that stand for rules, images and the ends of lines. -/
theorem isVoid_fallback : ∀ name ∈ ["hr", "img", "br"], IsVoid name := by decide +kernel

theorem ofTag_eq_void_iff {tag : String} :
    TagClass.ofTag tag = .void ↔ voidTags.contains (lowerAscii tag) := by
  unfold TagClass.ofTag
  dsimp only
  split
  · next hvoid => exact iff_of_true rfl hvoid
  · next hvoid =>
    refine iff_of_false ?_ hvoid
    split <;> exact TagClass.noConfusion

section Balanced
variable {splits others : Bool → Bool} {cs ds opening : List Char} {name : String}

theorem Balanced.congr (h : Balanced splits cs) (heq : ∀ direct, splits direct = others direct) :
    Balanced others cs := by
  rwa [← funext heq]

theorem balanced_text (h : '<' ∉ cs) : Balanced (fun _ => false) cs :=
  ⟨[], reads_text h, fun _ => rfl⟩

theorem Balanced.append (h : Balanced splits cs) (hds : Balanced others ds) :
    Balanced (fun direct => splits direct || others direct) (cs ++ ds) := by
  obtain ⟨tags, hreads, htags⟩ := h
  obtain ⟨more, hmore, hothers⟩ := hds
  refine ⟨tags ++ more, hreads.append hmore, fun stack => ?_⟩
  rw [matchTags_append, htags]
  cases hsplits : splits (stack.head? == some "code") with
  | true => simp [hsplits]
  | false => simpa [hsplits] using hothers stack

theorem IsVoid.balanced (hname : IsVoid name) (h : IsOpening name cs) :
    Balanced (fun _ => false) cs := by
  refine ⟨_, reads_opening hname.1 h, fun stack => ?_⟩
  rw [Tag.start, if_pos hname.2]
  rfl

/-- Between the tags of an element it is the innermost one. -/
theorem Balanced.element {direct : Bool} (h : Balanced splits cs) (hname : IsElement name direct)
    (hopening : IsOpening name opening) :
    Balanced (fun _ => splits direct) (opening ++ (cs ++ s!"</{name}>".toList)) := by
  obtain ⟨hname, hvoid, rfl⟩ := hname
  obtain ⟨tags, hreads, htags⟩ := h
  refine ⟨_, (reads_opening hname hopening).append (hreads.append (reads_closing hname)),
    fun stack => ?_⟩
  rw [Tag.start, hvoid, if_neg Bool.false_ne_true, List.singleton_append, matchTags,
    matchTags_append, htags, List.head?_cons]
  have hhead : (some (lowerAscii name) == some "code") = (lowerAscii name == "code") := rfl
  rw [hhead]
  cases splits (lowerAscii name == "code") with
  | true => rfl
  | false => simp [matchTags]

/-- A line break in code that stands for several lines ends the code element and begins another. -/
theorem balanced_codeBreak : Balanced (fun direct => !direct) "</code><br><code>".toList := by
  obtain ⟨hcode, hnotVoid, hlower⟩ := isElement_code
  obtain ⟨hbreak, hvoid⟩ := isVoid_fallback "br" (by decide)
  have hreads := (reads_closing hcode).append <|
    (reads_opening hbreak (isOpening_bare "br")).append <|
      reads_opening hcode (isOpening_bare "code")
  rw [Tag.start, if_pos hvoid, Tag.start, hnotVoid, if_neg Bool.false_ne_true,
    eq_of_beq hlower] at hreads
  refine ⟨_, hreads, fun stack => ?_⟩
  cases stack with
  | nil => rfl
  | cons top stack =>
    by_cases htop : top = "code"
    · subst htop
      rfl
    · have hhead : ((top :: stack).head? == some "code") = false := by simp [htop]
      rw [hhead]
      simp [matchTags, Ne.symm htop]

end Balanced

/-- A text that keeps the stack nests its tags if and only if it fits where nothing is open. -/
theorem nestsTags_iff {text : String} {splits : Bool → Bool} (h : Balanced splits text.toList) :
    NestsTags text ↔ splits false = false := by
  obtain ⟨tags, hreads, htags⟩ := h
  rw [NestsTags, hreads.tagsFrom, htags]
  change (if splits false then none else some []) = some [] ↔ _
  cases splits false <;> simp

end DocTree.Html
