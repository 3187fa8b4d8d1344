import DocTree.Proofs.NormalForm

/-! Words and runs of emphasis, spelled with the delimiters of their styles. Delimiters of stars touch
each other without anything in between, so a spelling says what it is of only as long as styles are not
nested in themselves and stand beside each other with care. -/
namespace DocTree

/-- The styles around a run: those written with stars that have been begun since the last tildes, and
whether tildes stand right around it. -/
structure Around where
  italics : Bool := false
  bold : Bool := false
  strikethrough : Bool := false
  deriving DecidableEq

namespace Around

def holds (around : Around) : Emphasis → Bool
  | .italics => around.italics
  | .bold => around.bold
  | .strikethrough => around.strikethrough

/-- The styles around what stands in a run of a style. -/
def inside (around : Around) : Emphasis → Around
  | .italics => ⟨true, around.bold, false⟩
  | .bold => ⟨around.italics, true, false⟩
  | .strikethrough => ⟨false, false, true⟩

end Around

namespace Node

/-- A run of a style. -/
def hasStyle (style : Emphasis) : Node → Bool
  | emphasis other _ => other == style
  | _ => false

/-- Nothing but a run of bold text. -/
def isLoneBold : List Node → Bool
  | [emphasis .bold _] => true
  | _ => false

mutual

/-- What is written of words and runs of emphasis. -/
def spelling : Node → List Char
  | text s => s.toList
  | emphasis style children =>
    (Markdown.delimiter style).toList ++ (spellings children ++ (Markdown.delimiter style).toList)
  | _ => []

def spellings : List Node → List Char
  | [] => []
  | node :: rest => spelling node ++ spellings rest

end

/-- Words and runs of emphasis that their spelling tells apart: no run stands in one of its style, as
far as that is told by `around`, no runs of stars of one style stand side by side, and there are no
italics around nothing but bold text. -/
inductive Spelled : Around → List Node → Prop
  | nil {around} : Spelled around []
  | text {around s rest} : s.toList ≠ [] → (∀ c ∈ s.toList, c.isAlpha) →
    (∀ next ∈ rest.head?, ¬ next.isText) → Spelled around rest → Spelled around (.text s :: rest)
  | emphasis {around style children rest} : ¬ around.holds style → children ≠ [] →
    ¬ (style = .italics ∧ isLoneBold children) →
    (style ≠ .strikethrough → ∀ next ∈ rest.head?, ¬ next.hasStyle style) →
    Spelled (around.inside style) children → Spelled around rest →
    Spelled around (.emphasis style children :: rest)

/-- Just one star, and then something else or nothing. -/
def LoneStar (cs : List Char) : Prop := ∃ rest, cs = '*' :: rest ∧ rest.head? ≠ some '*'

/-- What may follow words and runs of emphasis: the end of the text, or a delimiter that ends one of the
runs around them. -/
inductive Ends (around : Around) : List Char → Prop
  | done : Ends around []
  | tildes {rest} : around.strikethrough → Ends around ('~' :: '~' :: rest)
  | star {rest} : around.italics → ¬ LoneStar rest → Ends around ('*' :: rest)
  | stars {rest} : around.bold → Ends around ('*' :: '*' :: rest)

section Spelled
variable {around : Around} {node : Node} {nodes others rest children : List Node}
  {x y cs : List Char} {style : Emphasis}

theorem spellings_emphasis (style : Emphasis) (children rest : List Node) (x : List Char) :
    spellings (.emphasis style children :: rest) ++ x =
      (Markdown.delimiter style).toList ++
        (spellings children ++ ((Markdown.delimiter style).toList ++ (spellings rest ++ x))) := by
  simp [spellings, spelling]

/-- What begins with a star is in italics or bold, and what begins with a tilde is struck through. -/
theorem Spelled.head (h : Spelled around (node :: rest)) (x : List Char) :
    ∃ c cs, spellings (node :: rest) ++ x = c :: cs ∧ (c.isAlpha ∧ node.isText ∨
      c = '*' ∧ (∃ children, node = .emphasis .italics children ∨ node = .emphasis .bold children) ∨
      c = '~' ∧ ∃ children, node = .emphasis .strikethrough children) := by
  cases h with
  | @text _ s _ hne hword =>
    obtain ⟨c, cs, hcons⟩ := List.exists_cons_of_ne_nil hne
    refine ⟨c, cs ++ spellings rest ++ x, by rw [spellings, spelling, hcons]; rfl, .inl ⟨?_, rfl⟩⟩
    exact hword c (hcons ▸ List.mem_cons_self)
  | @emphasis _ style children =>
    rw [spellings_emphasis]
    cases style with
    | italics => exact ⟨'*', _, rfl, .inr (.inl ⟨rfl, children, .inl rfl⟩)⟩
    | bold => exact ⟨'*', _, rfl, .inr (.inl ⟨rfl, children, .inr rfl⟩)⟩
    | strikethrough => exact ⟨'~', _, rfl, .inr (.inr ⟨rfl, children, rfl⟩)⟩

/-- Where a star begins nodes, they begin with italics or bold text that is not around them yet. -/
theorem Spelled.of_star (h : Spelled around nodes) (hne : nodes ≠ [])
    (hstar : spellings nodes ++ x = '*' :: cs) :
    ∃ children rest,
      nodes = .emphasis .italics children :: rest ∧ around.italics = false ∨
      nodes = .emphasis .bold children :: rest ∧ around.bold = false := by
  obtain ⟨node, rest, rfl⟩ := List.exists_cons_of_ne_nil hne
  obtain ⟨c, _, hcons, hcases⟩ := h.head x
  obtain rfl : c = '*' := (List.cons.inj (hcons.symm.trans hstar)).1
  obtain ⟨hletter, -⟩ | ⟨-, children, rfl | rfl⟩ | ⟨htilde, -⟩ := hcases
  · exact absurd hletter (by decide)
  · cases h with
    | emphasis hstyle => exact ⟨children, rest, .inl ⟨rfl, Bool.eq_false_iff.2 hstyle⟩⟩
  · cases h with
    | emphasis hstyle => exact ⟨children, rest, .inr ⟨rfl, Bool.eq_false_iff.2 hstyle⟩⟩
  · exact absurd htilde (by decide)

/-- Within both italics and bold text nothing begins with a star. -/
theorem Spelled.no_star (h : Spelled around nodes) (hne : nodes ≠ []) (hi : around.italics)
    (hb : around.bold) : spellings nodes ++ x ≠ '*' :: cs := by
  intro hstar
  obtain ⟨_, _, ⟨-, hfree⟩ | ⟨-, hfree⟩⟩ := h.of_star hne hstar
  · exact absurd hi (by rw [hfree]; decide)
  · exact absurd hb (by rw [hfree]; decide)

/-- Behind italics no other ones begin, so there is no lone star. -/
theorem Spelled.not_loneStar (h : Spelled around (.emphasis .italics children :: rest))
    (hx : Ends around x) : ¬ LoneStar (spellings rest ++ x) := by
  rintro ⟨tail, hstar, htail⟩
  cases h with
  | emphasis hstyle _ _ hnext _ hrest =>
    cases rest with
    | nil =>
      cases hx with
      | done => cases hstar
      | tildes => cases hstar
      | star hitalics => exact hstyle hitalics
      | stars hbold =>
        cases hstar
        exact htail rfl
    | cons next more =>
      obtain ⟨inner, _, ⟨heq, -⟩ | ⟨heq, -⟩⟩ := hrest.of_star (List.cons_ne_nil _ _) hstar
      · obtain ⟨rfl, -⟩ := List.cons.inj heq
        exact hnext (by decide) _ rfl rfl
      · rw [heq, spellings_emphasis] at hstar
        cases hstar
        exact htail rfl

/-- What follows the children of a run is its delimiter. -/
theorem Spelled.ends (h : Spelled around (.emphasis style children :: rest)) (hx : Ends around x) :
    Ends (around.inside style) ((Markdown.delimiter style).toList ++ (spellings rest ++ x)) := by
  cases style with
  | italics => exact .star rfl (h.not_loneStar hx)
  | bold => exact .stars rfl
  | strikethrough => exact .tildes rfl

/-- Where runs around end, nothing begins. -/
theorem Spelled.ne_ends (h : Spelled around (node :: rest)) (hx : Ends around x) :
    spellings (node :: rest) ++ y ≠ x := by
  rintro rfl
  obtain ⟨c, cs, hcons, hcases⟩ := h.head y
  rw [hcons] at hx
  obtain ⟨hletter, -⟩ | ⟨rfl, children, rfl | rfl⟩ | ⟨rfl, children, rfl⟩ := hcases
  · cases hx <;> exact absurd hletter (by decide)
  · cases h with
    | emphasis hstyle hne _ _ hchildren =>
      rw [spellings_emphasis] at hcons
      obtain ⟨-, hbehind⟩ := List.cons.inj hcons
      cases hx with
      | star hitalics => exact hstyle hitalics
      | stars hbold => exact hchildren.no_star hne rfl hbold hbehind
  · cases h with
    | emphasis hstyle hne _ _ hchildren =>
      rw [spellings_emphasis] at hcons
      obtain ⟨-, hbehind⟩ := List.cons.inj hcons
      cases hx with
      | star hitalics hlone =>
        refine hlone ⟨_, hbehind.symm, fun hstar => ?_⟩
        obtain ⟨tail, htail⟩ := List.head?_eq_some_iff.1 hstar
        exact hchildren.no_star hne hitalics rfl htail
      | stars hbold => exact hstyle hbold
  · cases h with
    | emphasis hstyle =>
      cases hx with
      | tildes htildes => exact hstyle htildes

/-- A text says what it spells, and where that ends. -/
def Unique (cs : List Char) : Prop :=
  ∀ (around : Around) (nodes others : List Node) (x y : List Char), Spelled around nodes →
    Spelled around others → Ends around x → Ends around y → spellings nodes ++ x = cs →
    spellings others ++ y = cs → nodes = others ∧ x = y

/-- Behind one run of stars within the other nothing begins with a star. -/
theorem Spelled.nil_of_star (h : Spelled around (.emphasis style children :: rest))
    (hitalics : style = .italics ∨ around.italics) (hbold : style = .bold ∨ around.bold)
    (hstar : spellings rest ++ x = '*' :: cs) : rest = [] := by
  cases h with
  | emphasis hstyle _ _ hnext _ hrest =>
    by_contra hne
    have hstars : style ≠ .strikethrough := by
      rintro rfl
      exact hrest.no_star hne (by simpa using hitalics) (by simpa using hbold) hstar
    obtain ⟨inner, more, ⟨rfl, hfree⟩ | ⟨rfl, hfree⟩⟩ := hrest.of_star hne hstar
    · rw [hfree] at hitalics
      obtain rfl := hitalics.resolve_right Bool.false_ne_true
      exact hnext hstars _ rfl rfl
    · rw [hfree] at hbold
      obtain rfl := hbold.resolve_right Bool.false_ne_true
      exact hnext hstars _ rfl rfl

/-- Italics and bold text that begin together: whichever ends first would have to be all that stands in
the other, and italics around nothing but bold text are left out. -/
theorem italics_ne_bold {inner : List Node} (hshort : ∀ ds : List Char, ds.length < cs.length → Unique ds)
    (hitalics : Spelled around (.emphasis .italics children :: rest))
    (hbold : Spelled around (.emphasis .bold inner :: others)) (hx : Ends around x)
    (hleft : spellings (.emphasis .italics children :: rest) ++ x = cs) :
    spellings (.emphasis .bold inner :: others) ++ y ≠ cs := by
  intro hright
  have hends := hitalics.ends hx
  cases hitalics with
  | emphasis _ hne hlone _ hchildren =>
  cases hbold with
  | emphasis _ hne' _ _ hinner =>
  rw [spellings_emphasis] at hleft hright
  obtain ⟨-, hbehind⟩ := List.cons.inj (hleft.trans hright.symm)
  -- The italics begin with bold text, and the bold text with italics.
  obtain ⟨first, more, ⟨-, hfree⟩ | ⟨rfl, -⟩⟩ := hchildren.of_star hne hbehind
  · cases hfree
  rw [spellings_emphasis] at hbehind
  obtain ⟨-, hbehind⟩ := List.cons.inj hbehind
  obtain ⟨second, last, ⟨rfl, -⟩ | ⟨-, hfree⟩⟩ := hinner.of_star hne' hbehind.symm
  · rw [spellings_emphasis] at hbehind
    obtain ⟨-, hbehind⟩ := List.cons.inj hbehind
    have hfirst := hchildren.ends hends
    have hsecond := hinner.ends (.stars rfl : Ends (around.inside .bold)
      ('*' :: '*' :: (spellings others ++ y)))
    have hlength : (spellings first ++ ('*' :: '*' ::
        (spellings more ++ ('*' :: (spellings rest ++ x))))).length < cs.length := by
      rw [← hleft, spellings_emphasis]
      simp [Markdown.delimiter]
      omega
    cases id hchildren with
    | emphasis _ _ _ _ hspelled =>
    cases id hinner with
    | emphasis _ _ _ _ hspelled' =>
    obtain ⟨-, htail⟩ := hshort _ hlength _ _ _ _ _ hspelled hspelled' hfirst hsecond rfl hbehind.symm
    obtain ⟨-, htail⟩ := List.cons.inj htail
    obtain rfl := hinner.nil_of_star (.inl rfl) (.inr rfl) htail.symm
    obtain ⟨-, htail⟩ := List.cons.inj htail
    obtain rfl := hchildren.nil_of_star (.inr rfl) (.inl rfl) htail
    exact hlone ⟨rfl, rfl⟩
  · cases hfree

/-- What follows a word begins with no letter. -/
theorem Spelled.behind_text {s : String} (h : Spelled around (.text s :: rest)) (hx : Ends around x) :
    ∀ c ∈ (spellings rest ++ x).head?, ¬ c.isAlpha := by
  cases h with
  | text _ _ hnext hrest =>
    cases rest with
    | nil => cases hx <;> simp [spellings]
    | cons next more =>
      obtain ⟨c, cs, hcons, hcases⟩ := hrest.head x
      rw [hcons]
      rintro _ ⟨⟩
      obtain ⟨-, htext⟩ | ⟨rfl, -⟩ | ⟨rfl, -⟩ := hcases
      · exact absurd htext (hnext _ rfl)
      · decide
      · decide

theorem Spelled.word {s : String} (h : Spelled around (.text s :: rest)) (hx : Ends around x)
    (hleft : spellings (.text s :: rest) ++ x = cs) :
    s.toList = cs.takeWhile Char.isAlpha ∧ spellings rest ++ x = cs.dropWhile Char.isAlpha := by
  have hbehind := h.behind_text hx
  cases h with
  | text _ hword =>
    subst hleft
    rw [spellings, spelling, List.append_assoc, List.takeWhile_append_of_pos hword,
      List.dropWhile_append_of_pos hword]
    generalize spellings rest ++ x = behind at hbehind
    cases behind with
    | nil => simp
    | cons c cs => simp [hbehind c rfl]

theorem unique_text {s t : String} (hshort : ∀ ds : List Char, ds.length < cs.length → Unique ds)
    (h : Spelled around (.text s :: rest)) (h' : Spelled around (.text t :: others))
    (hx : Ends around x) (hy : Ends around y) (hleft : spellings (.text s :: rest) ++ x = cs)
    (hright : spellings (.text t :: others) ++ y = cs) :
    .text s :: rest = Node.text t :: others ∧ x = y := by
  obtain ⟨hs, hrest⟩ := h.word hx hleft
  obtain ⟨ht, hothers⟩ := h'.word hy hright
  cases h with
  | text hne _ _ hspelled =>
  cases h' with
  | text _ _ _ hspelled' =>
  have hlength : (cs.dropWhile Char.isAlpha).length < cs.length := by
    have hsplit := congrArg List.length (List.takeWhile_append_dropWhile (p := Char.isAlpha) (l := cs))
    rw [List.length_append, ← hs] at hsplit
    have hpos := List.length_pos_of_ne_nil hne
    omega
  obtain ⟨rfl, rfl⟩ := hshort _ hlength _ _ _ _ _ hspelled hspelled' hx hy hrest hothers
  obtain rfl := String.toList_inj.1 (hs.trans ht.symm)
  exact ⟨rfl, rfl⟩

theorem unique_emphasis {inner : List Node} (hshort : ∀ ds : List Char, ds.length < cs.length → Unique ds)
    (h : Spelled around (.emphasis style children :: rest))
    (h' : Spelled around (.emphasis style inner :: others)) (hx : Ends around x) (hy : Ends around y)
    (hleft : spellings (.emphasis style children :: rest) ++ x = cs)
    (hright : spellings (.emphasis style inner :: others) ++ y = cs) :
    .emphasis style children :: rest = Node.emphasis style inner :: others ∧ x = y := by
  have hends := h.ends hx
  have hends' := h'.ends hy
  cases h with
  | emphasis _ _ _ _ hchildren hrest =>
  cases h' with
  | emphasis _ _ _ _ hinner hothers =>
  have hpos : 0 < (Markdown.delimiter style).toList.length := by
    cases style <;> decide
  rw [spellings_emphasis] at hleft hright
  have hbehind := List.append_cancel_left (hleft.trans hright.symm)
  have hlength := congrArg List.length hleft
  simp only [List.length_append] at hlength
  obtain ⟨rfl, htail⟩ := hshort _ (by simp only [List.length_append]; omega) _ _ _ _ _ hchildren
    hinner hends hends' rfl hbehind.symm
  obtain ⟨rfl, rfl⟩ := hshort _ (by simp only [List.length_append]; omega) _ _ _ _ _ hrest hothers
    hx hy rfl (List.append_cancel_left htail).symm
  exact ⟨rfl, rfl⟩

/-- Words and runs of emphasis are told apart by their spelling. -/
theorem unique (cs : List Char) : Unique cs := by
  induction hlength : cs.length using Nat.strong_induction_on generalizing cs with
  | _ n ih =>
  have hshort : ∀ ds : List Char, ds.length < cs.length → Unique ds :=
    fun ds hds => ih ds.length (hlength ▸ hds) ds rfl
  intro around nodes others x y hnodes hothers hx hy hleft hright
  cases nodes with
  | nil =>
    cases others with
    | nil => exact ⟨rfl, hleft.trans hright.symm⟩
    | cons other more => exact absurd (hright.trans hleft.symm) (hothers.ne_ends hx)
  | cons node rest =>
    cases others with
    | nil => exact absurd (hleft.trans hright.symm) (hnodes.ne_ends hy)
    | cons other more =>
      obtain ⟨c, _, hc, hcases⟩ := hnodes.head x
      obtain ⟨d, _, hd, hcases'⟩ := hothers.head y
      obtain rfl : c = d := (List.cons.inj (hc.symm.trans (hleft.trans (hright.symm.trans hd)))).1
      -- Both begin in the same way, since their first characters are the same.
      obtain ⟨hletter, htext⟩ | ⟨rfl, children, hstars⟩ | ⟨rfl, children, rfl⟩ := hcases
      · obtain ⟨-, htext'⟩ | ⟨rfl, -⟩ | ⟨rfl, -⟩ := hcases'
        · cases node <;> cases htext
          cases other <;> cases htext'
          exact unique_text hshort hnodes hothers hx hy hleft hright
        · exact absurd hletter (by decide)
        · exact absurd hletter (by decide)
      · obtain ⟨hletter, -⟩ | ⟨-, inner, hstars'⟩ | ⟨htilde, -⟩ := hcases'
        · exact absurd hletter (by decide)
        · obtain rfl | rfl := hstars <;> obtain rfl | rfl := hstars'
          · exact unique_emphasis hshort hnodes hothers hx hy hleft hright
          · exact absurd hright (italics_ne_bold hshort hnodes hothers hx hleft)
          · exact absurd hleft (italics_ne_bold hshort hothers hnodes hy hright)
          · exact unique_emphasis hshort hnodes hothers hx hy hleft hright
        · exact absurd htilde (by decide)
      · obtain ⟨hletter, -⟩ | ⟨hstar, -⟩ | ⟨-, inner, rfl⟩ := hcases'
        · exact absurd hletter (by decide)
        · exact absurd hstar (by decide)
        · exact unique_emphasis hshort hnodes hothers hx hy hleft hright

end Spelled
end Node
end DocTree
