import DocTree.Json.Reader
import DocTree.Json.Writer

/-! JSON text is read back as it was written: every document that a record is written as is the
document that its text holds. -/
namespace DocTree.Json

/-- A document that a record may be written as: its numbers are 32-bit counts. -/
inductive Legible : Json → Prop where
  | null : Legible .null
  | bool (value : Bool) : Legible (.bool value)
  | integer {n : Nat} (h : n < UInt32.size) : Legible (.integer n)
  | string (value : String) : Legible (.string value)
  | array {items : List Json} (h : ∀ item ∈ items, Legible item) : Legible (.array items)
  | object {members : List (String × Json)} (h : ∀ m ∈ members, Legible m.2) :
    Legible (.object members)

section Strings

theorem hexValue?_hexDigit (n : Nat) : hexValue? (hexDigit n) = some (n % 16) := by
  have hdigit : ∀ k < 16, hexValue? (Nat.digitChar k) = some k := by decide
  exact hdigit _ (Nat.mod_lt _ (by decide))

theorem hexNumber?_control {n : Nat} (h : n < 0x20) :
    hexNumber? ['0', '0', hexDigit (n / 16), hexDigit n] = some n := by
  have hzero : hexValue? '0' = some 0 := by decide
  have hhigh : n / 16 % 16 = n / 16 := Nat.mod_eq_of_lt (by omega)
  simp [hexNumber?, hzero, hexValue?_hexDigit, hhigh, Nat.div_add_mod]

theorem stringUnits_escapedChar (c : Char) {tail rest : List Char} {units : List Nat}
    (h : stringUnits tail = some (units, rest)) :
    stringUnits (escapedChar c ++ tail) = some (c.toNat :: units, rest) := by
  unfold escapedChar
  split
  case h_8 hquote hback _ _ _ _ _ =>
    split
    · next hcontrol => simp [stringUnits, hexNumber?_control hcontrol, h]
    · next hcontrol => rw [List.singleton_append, stringUnits] <;> simp_all
  all_goals simp [stringUnits, escapeCode?, h]

theorem stringUnits_escaped (cs rest : List Char) :
    stringUnits (cs.flatMap escapedChar ++ '"' :: rest) = some (cs.map Char.toNat, rest) := by
  induction cs with
  | nil => simp [stringUnits]
  | cons c cs ih =>
    rw [List.flatMap_cons, List.append_assoc]
    exact stringUnits_escapedChar c ih

/-- No character is one half of a surrogate pair. -/
theorem joinSurrogates_toNat (cs : List Char) : joinSurrogates (cs.map Char.toNat) = some cs := by
  have hwhole (c : Char) : ¬ (0xd800 ≤ c.toNat ∧ c.toNat < 0xe000) := by
    have hvalid : c.toNat.isValidChar := c.valid
    unfold Nat.isValidChar at hvalid
    omega
  induction cs with
  | nil => rfl
  | cons c cs ih =>
    have hc := hwhole c
    cases cs with
    | nil => simp [joinSurrogates, hc]
    | cons d cs =>
      have hhigh : ¬ (0xd800 ≤ c.toNat ∧ c.toNat < 0xdc00) := by omega
      have hlow : ¬ (0xdc00 ≤ c.toNat ∧ c.toNat < 0xe000) := by omega
      simp only [List.map_cons] at ih
      simp [joinSurrogates, hhigh, hlow, ih]

theorem readString_escaped (s : String) (rest : List Char) :
    readString (s.toList.flatMap escapedChar ++ '"' :: rest) = some (s, rest) := by
  simp [readString, stringUnits_escaped, joinSurrogates_toNat]

end Strings

/-- What stands behind a value in a text: nothing, or the mark that ends it. -/
def Ended (rest : List Char) : Prop := ∀ c ∈ rest.head?, c = ',' ∨ c = ']' ∨ c = '}'

section Numbers
variable {digits rest : List Char}

theorem takeWhile_isDigit (hdigits : ∀ c ∈ digits, c.isDigit) (hrest : Ended rest) :
    (digits ++ rest).takeWhile Char.isDigit = digits ∧
      (digits ++ rest).dropWhile Char.isDigit = rest := by
  rw [List.takeWhile_append_of_pos hdigits, List.dropWhile_append_of_pos hdigits]
  cases rest with
  | nil => simp
  | cons c rest => obtain rfl | rfl | rfl := hrest c rfl <;> simp [Char.isDigit]

theorem readFraction_ended (hrest : Ended rest) : readFraction rest = some (none, rest) := by
  cases rest with
  | nil => rfl
  | cons c rest => obtain rfl | rfl | rfl := hrest c rfl <;> rfl

theorem readExponent_ended (hrest : Ended rest) : readExponent rest = some (none, rest) := by
  cases rest with
  | nil => rfl
  | cons c rest => obtain rfl | rfl | rfl := hrest c rfl <;> rfl

/-- Up to 308 digits stand for a number that a double can hold. -/
theorem not_exceedsDouble (h : digits.length ≤ 308) : exceedsDouble digits 0 = false := by
  have hshort := (List.dropWhile_sublist (· == '0') (l := digits)).length_le
  have hsize : ((digits.dropWhile (· == '0')).length : Int) + 0 < 309 := by omega
  exact if_pos (Bool.or_eq_true_iff.2 (.inr (decide_eq_true hsize)))

theorem readNumber_digits (hdigits : ∀ c ∈ digits, c.isDigit) (hne : digits ≠ [])
    (hlead : ¬ (1 < digits.length ∧ digits.head? = some '0')) (hlength : digits.length ≤ 308)
    (hrest : Ended rest) :
    readNumber (digits ++ rest) = some (.integer (digitsValue digits), rest) := by
  obtain ⟨htake, hdrop⟩ := takeWhile_isDigit hdigits hrest
  unfold readNumber
  split
  next negative unsigned hsign =>
  split at hsign
  · next r hminus =>
    obtain ⟨d, ds, rfl⟩ := List.exists_cons_of_ne_nil hne
    obtain ⟨rfl, -⟩ := List.cons.inj hminus
    exact absurd (hdigits '-' List.mem_cons_self) (by decide)
  · obtain ⟨rfl, rfl⟩ := Prod.mk.inj hsign
    simp [htake, hdrop, hne, hlead, readFraction_ended hrest, readExponent_ended hrest,
      not_exceedsDouble hlength]

theorem head?_toDigits {n : Nat} (h : 0 < n) : (Nat.toDigits 10 n).head? ≠ some '0' := by
  induction n using Nat.strongRecOn with
  | ind n ih =>
    by_cases hone : n < 10
    · rw [Nat.toDigits_of_lt_base hone]
      simp
      omega
    · have hshort := ih (n / 10) (by omega) (by omega)
      rw [Nat.toDigits_of_base_le (by decide) (by omega), List.head?_append]
      cases hhead : (Nat.toDigits 10 (n / 10)).head? with
      | none => exact absurd (List.head?_eq_none_iff.1 hhead) Nat.toDigits_ne_nil
      | some d => simpa [hhead] using hshort

theorem readNumber_toDigits {n : Nat} (h : n < UInt32.size) (hrest : Ended rest) :
    readNumber (Nat.toDigits 10 n ++ rest) = some (.integer n, rest) := by
  have hlength : (Nat.toDigits 10 n).length ≤ 10 :=
    (Nat.length_toDigits_le_iff (by decide) (by decide)).2 (Nat.lt_trans h (by decide))
  have hlead : ¬ (1 < (Nat.toDigits 10 n).length ∧ (Nat.toDigits 10 n).head? = some '0') := by
    rintro ⟨hlong, hzero⟩
    refine head?_toDigits (Nat.pos_of_ne_zero fun hn => ?_) hzero
    simp [hn] at hlong
  have hvalue : digitsValue (Nat.toDigits 10 n) = n := Nat.ofDigitChars_ten_toDigits
  rw [readNumber_digits (fun c hc => Nat.isDigit_of_mem_toDigits (by decide) (by decide) hc)
    Nat.toDigits_ne_nil hlead (by omega) hrest, hvalue]

end Numbers

section Values

theorem skipSpace_cons {c : Char} (h : isSpace c = false) (cs : List Char) :
    skipSpace (c :: cs) = c :: cs := by
  simp [skipSpace, h]

theorem isSpace_of_isDigit {c : Char} (h : c.isDigit) : isSpace c = false := by
  refine Bool.eq_false_iff.2 fun hspace => ?_
  simp only [isSpace, Bool.or_eq_true, beq_iff_eq] at hspace
  obtain ((rfl | rfl) | rfl) | rfl := hspace <;> simp [Char.isDigit] at h

/-- What begins with a digit is a number. -/
theorem readValue_isDigit {c : Char} (h : c.isDigit) (fuel : Nat) (cs : List Char) :
    readValue (fuel + 1) (c :: cs) = readNumber (c :: cs) := by
  rw [readValue, skipSpace_cons (isSpace_of_isDigit h)]
  split
  case h_7 => rfl
  all_goals
    next heq =>
    obtain ⟨rfl, -⟩ := List.cons.inj heq
    exact absurd h (by decide)

theorem toList_integer (n : Nat) : (integer n).toText.toList = Nat.toDigits 10 n := by
  simp only [toText]
  exact Nat.toList_repr

theorem toList_itemsText (item : Json) (items : List Json) : (itemsText (item :: items)).toList =
    ',' :: (item.toText.toList ++ (itemsText items).toList) := by
  simp [itemsText]

theorem toList_membersText (key : String) (value : Json) (members : List (String × Json)) :
    (membersText ((key, value) :: members)).toList = ',' :: ((quotedText key).toList
      ++ ':' :: (value.toText.toList ++ (membersText members).toList)) := by
  simp [membersText]

theorem toList_array (item : Json) (items : List Json) : (array (item :: items)).toText.toList =
    '[' :: (item.toText.toList ++ (itemsText items).toList ++ [']']) := by
  simp [toText]

theorem toList_object (key : String) (value : Json) (members : List (String × Json)) :
    (object ((key, value) :: members)).toText.toList = '{' :: ((quotedText key).toList
      ++ ':' :: (value.toText.toList ++ (membersText members).toList ++ ['}'])) := by
  simp [toText]

/-- A text begins neither with white space nor with the end of an array. -/
theorem exists_toText_head {json : Json} (h : Legible json) :
    ∃ c cs, json.toText.toList = c :: cs ∧ isSpace c = false ∧ c ≠ ']' := by
  suffices hhead : ∃ c ∈ json.toText.toList.head?, isSpace c = false ∧ c ≠ ']' by
    obtain ⟨c, hc, hspace, hend⟩ := hhead
    obtain ⟨cs, hcs⟩ := List.head?_eq_some_iff.1 hc
    exact ⟨c, cs, hcs, hspace, hend⟩
  cases h with
  | null => exact ⟨'n', by simp [toText], rfl, by decide⟩
  | bool value =>
    cases value
    · exact ⟨'f', by simp [toText], rfl, by decide⟩
    · exact ⟨'t', by simp [toText], rfl, by decide⟩
  | @integer n =>
    obtain ⟨d, ds, hdigits⟩ := List.exists_cons_of_ne_nil (Nat.toDigits_ne_nil (n := n) (b := 10))
    have hd : d.isDigit := Nat.isDigit_of_mem_toDigits (by decide) (by decide)
      (hdigits ▸ List.mem_cons_self)
    refine ⟨d, by simp [toList_integer, hdigits], isSpace_of_isDigit hd, ?_⟩
    rintro rfl
    exact absurd hd (by decide)
  | string value => exact ⟨'"', by simp [toText, quotedText], rfl, by decide⟩
  | @array items h => cases items <;> exact ⟨'[', by simp [toText], rfl, by decide⟩
  | @object members h =>
    obtain _ | ⟨⟨key, value⟩, members⟩ := members <;>
      exact ⟨'{', by simp [toText], rfl, by decide⟩

section Steps
variable {fuel : Nat} {key : String} {value : Json} {items : List Json}
  {members : List (String × Json)} {cs more rest : List Char}

theorem readItems_last (h : readValue fuel cs = some (value, ']' :: rest)) :
    readItems (fuel + 1) cs = some ([value], rest) := by
  simp [readItems, h, skipSpace_cons (c := ']') rfl]

theorem readItems_next (h : readValue fuel cs = some (value, ',' :: more))
    (hmore : readItems fuel more = some (items, rest)) :
    readItems (fuel + 1) cs = some (value :: items, rest) := by
  simp [readItems, h, hmore, skipSpace_cons (c := ',') rfl]

theorem readMembers_last (h : readValue fuel cs = some (value, '}' :: rest)) :
    readMembers (fuel + 1) ((quotedText key).toList ++ ':' :: cs) =
      some ([(key, value)], rest) := by
  simp [readMembers, quotedText, readString_escaped, h, skipSpace_cons (c := '"') rfl,
    skipSpace_cons (c := ':') rfl, skipSpace_cons (c := '}') rfl]

theorem readMembers_next (h : readValue fuel cs = some (value, ',' :: more))
    (hmore : readMembers fuel more = some (members, rest)) :
    readMembers (fuel + 1) ((quotedText key).toList ++ ':' :: cs) =
      some ((key, value) :: members, rest) := by
  simp [readMembers, quotedText, readString_escaped, h, hmore, skipSpace_cons (c := '"') rfl,
    skipSpace_cons (c := ':') rfl, skipSpace_cons (c := ',') rfl]

theorem readValue_array {c : Char} (hspace : isSpace c = false) (hend : c ≠ ']')
    (h : readItems fuel (c :: cs) = some (items, rest)) :
    readValue (fuel + 1) ('[' :: c :: cs) = some (.array items, rest) := by
  rw [readValue, skipSpace_cons rfl]
  simp [skipSpace_cons hspace, hend, h]

theorem readValue_object
    (h : readMembers fuel ((quotedText key).toList ++ cs) = some (members, rest)) :
    readValue (fuel + 1) ('{' :: ((quotedText key).toList ++ cs)) =
      some (.object members, rest) := by
  simp only [quotedText, String.toList_ofList, List.cons_append, List.append_assoc,
    List.nil_append] at h ⊢
  simp [readValue, h, skipSpace_cons (c := '"') rfl, skipSpace_cons (c := '{') rfl]

end Steps

/-- With enough fuel a document is read back, whatever stands behind it. -/
def ReadsBack (json : Json) : Prop :=
  ∀ (fuel : Nat) (rest : List Char), 2 * json.toText.toList.length ≤ fuel → Ended rest →
    readValue fuel (json.toText.toList ++ rest) = some (json, rest)

theorem readItems_itemsText {item : Json} {items : List Json} (hitem : ReadsBack item)
    (hitems : ∀ i ∈ items, ReadsBack i) (fuel : Nat) (rest : List Char)
    (hfuel : 2 * (item.toText.toList.length + (itemsText items).toList.length) < fuel) :
    readItems fuel (item.toText.toList ++ (itemsText items).toList ++ ']' :: rest) =
      some (item :: items, rest) := by
  induction items generalizing item fuel with
  | nil =>
    obtain ⟨fuel, rfl⟩ := Nat.exists_eq_succ_of_ne_zero (Nat.ne_zero_of_lt hfuel)
    have hread := hitem fuel (']' :: rest) (by omega) (by simp [Ended])
    simpa [itemsText] using readItems_last hread
  | cons next items ih =>
    obtain ⟨hnext, hrest⟩ := List.forall_mem_cons.1 hitems
    rw [toList_itemsText, List.length_cons, List.length_append] at hfuel
    obtain ⟨fuel, rfl⟩ := Nat.exists_eq_succ_of_ne_zero (Nat.ne_zero_of_lt hfuel)
    have hread := hitem fuel
      (',' :: (next.toText.toList ++ (itemsText items).toList ++ ']' :: rest))
      (by omega) (by simp [Ended])
    have hmore := ih hnext hrest fuel (by omega)
    simpa [toList_itemsText] using readItems_next hread hmore

theorem readMembers_membersText {key : String} {value : Json} {members : List (String × Json)}
    (hvalue : ReadsBack value) (hmembers : ∀ m ∈ members, ReadsBack m.2) (fuel : Nat)
    (rest : List Char)
    (hfuel : 2 * (value.toText.toList.length + (membersText members).toList.length) < fuel) :
    readMembers fuel ((quotedText key).toList ++ ':' :: (value.toText.toList
        ++ ((membersText members).toList ++ '}' :: rest))) =
      some ((key, value) :: members, rest) := by
  induction members generalizing key value fuel with
  | nil =>
    obtain ⟨fuel, rfl⟩ := Nat.exists_eq_succ_of_ne_zero (Nat.ne_zero_of_lt hfuel)
    have hread := hvalue fuel ('}' :: rest) (by omega) (by simp [Ended])
    simpa [membersText] using readMembers_last hread
  | cons next members ih =>
    obtain ⟨name, next⟩ := next
    obtain ⟨hnext, hrest⟩ := List.forall_mem_cons.1 hmembers
    rw [toList_membersText, List.length_cons, List.length_append, List.length_cons,
      List.length_append] at hfuel
    obtain ⟨fuel, rfl⟩ := Nat.exists_eq_succ_of_ne_zero (Nat.ne_zero_of_lt hfuel)
    have hmore := @ih name next hnext hrest fuel (by omega)
    have hread := hvalue fuel (',' :: ((quotedText name).toList
      ++ ':' :: (next.toText.toList ++ ((membersText members).toList ++ '}' :: rest))))
      (by omega) (by simp [Ended])
    simpa [toList_membersText] using readMembers_next hread hmore

theorem ReadsBack.of_step {json : Json} (hjson : Legible json)
    (h : ∀ (fuel : Nat) (rest : List Char), 2 * json.toText.toList.length ≤ fuel + 1 →
      Ended rest → readValue (fuel + 1) (json.toText.toList ++ rest) = some (json, rest)) :
    ReadsBack json := by
  intro fuel rest hfuel hrest
  obtain ⟨c, cs, htext, -⟩ := exists_toText_head hjson
  have hlength := congrArg List.length htext
  simp only [List.length_cons] at hlength
  obtain ⟨fuel, rfl⟩ := Nat.exists_eq_succ_of_ne_zero (by omega : fuel ≠ 0)
  exact h fuel rest hfuel hrest

theorem readsBack {json : Json} (h : Legible json) : ReadsBack json := by
  induction h with
  | null =>
    refine .of_step .null fun fuel rest _ _ => ?_
    simp [readValue, toText, skipSpace_cons (c := 'n') rfl]
  | bool value =>
    refine .of_step (.bool value) fun fuel rest _ _ => ?_
    cases value
    · simp [readValue, toText, skipSpace_cons (c := 'f') rfl]
    · simp [readValue, toText, skipSpace_cons (c := 't') rfl]
  | @integer n h =>
    refine .of_step (.integer h) fun fuel rest _ hrest => ?_
    have hnumber := readNumber_toDigits h hrest
    rw [toList_integer]
    cases hdigits : Nat.toDigits 10 n with
    | nil => exact absurd hdigits Nat.toDigits_ne_nil
    | cons d ds =>
      have hd : d.isDigit := Nat.isDigit_of_mem_toDigits (by decide) (by decide)
        (hdigits ▸ List.mem_cons_self)
      rwa [List.cons_append, readValue_isDigit hd, ← List.cons_append, ← hdigits]
  | string value =>
    refine .of_step (.string value) fun fuel rest _ _ => ?_
    simp [readValue, toText, quotedText, skipSpace_cons (c := '"') rfl, readString_escaped]
  | @array items hitems ih =>
    refine .of_step (.array hitems) fun fuel rest hfuel _ => ?_
    cases items with
    | nil => simp [readValue, toText, skipSpace_cons (c := '[') rfl, skipSpace_cons (c := ']') rfl]
    | cons item items =>
      obtain ⟨hitem, hrest⟩ := List.forall_mem_cons.1 ih
      obtain ⟨c, cs, htext, hspace, hend⟩ := exists_toText_head (hitems item List.mem_cons_self)
      rw [toList_array, List.length_cons, List.length_append, List.length_append] at hfuel
      have hread := readItems_itemsText hitem hrest fuel rest (by omega)
      rw [htext] at hread
      simpa [toList_array, htext] using readValue_array hspace hend hread
  | @object members hmembers ih =>
    refine .of_step (.object hmembers) fun fuel rest hfuel _ => ?_
    cases members with
    | nil => simp [readValue, toText, skipSpace_cons (c := '{') rfl, skipSpace_cons (c := '}') rfl]
    | cons member members =>
      obtain ⟨key, value⟩ := member
      obtain ⟨hvalue, hrest⟩ := List.forall_mem_cons.1 ih
      rw [toList_object, List.length_cons, List.length_append, List.length_cons,
        List.length_append, List.length_append] at hfuel
      have hread := @readMembers_membersText key value members hvalue hrest fuel rest (by omega)
      simpa [toList_object] using readValue_object hread

end Values

/-- The text of a document is read as that document. -/
theorem ofText?_toText {json : Json} (h : Legible json) : ofText? json.toText = some json := by
  have hread := readsBack h (2 * json.toText.toList.length + 2) [] (by omega) (by simp [Ended])
  rw [List.append_nil] at hread
  simp only [ofText?, hread, Option.bind_eq_bind, Option.bind_some, skipSpace, List.dropWhile_nil,
    List.isEmpty_nil, if_true]

end DocTree.Json
