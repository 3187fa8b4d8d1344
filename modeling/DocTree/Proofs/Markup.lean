import DocTree.Proofs.TextJoins

/-! Text brings no markup with it. Every character of an escaped text stands in what is written for
one character of the text, and outside code only a line break is written with tags. So a text opens
no tag of its own, and a value between the quotes of an attribute ends neither them nor the tag. -/
namespace DocTree.Text

/-- Each element of two lists that are joined stands in one of them. -/
theorem split_append {α : Type} {cs ds before after : List α} {c : α}
    (h : cs ++ ds = before ++ c :: after) :
    (∃ tail, cs = before ++ c :: tail ∧ after = tail ++ ds) ∨
      ∃ more, before = cs ++ more ∧ ds = more ++ c :: after := by
  rw [List.append_eq_append_iff] at h
  rcases h with hlater | ⟨tail, hcs, htail⟩
  · exact .inr hlater
  · cases tail with
    | nil => exact .inr ⟨[], by simpa using hcs.symm, by simpa using htail.symm⟩
    | cons d tail =>
      obtain ⟨rfl, hafter⟩ := List.cons.inj htail
      exact .inl ⟨tail, hcs, hafter⟩

end DocTree.Text

namespace DocTree.Markdown
open Text Render

namespace EscapeContext
variable {ctx : EscapeContext} {blank : Bool} {cs before after : List Char} {c d : Char}

/-- Each character of an escaped text stands in what is written for a character of the text. -/
theorem exists_source (h : ctx.escapeFrom blank cs = before ++ c :: after) :
    ∃ front d back inner outer, cs = front ++ d :: back ∧
      ctx.escapeChar (front.foldl blankAfter blank) d = inner ++ c :: outer ∧
      before = ctx.escapeFrom blank front ++ inner ∧
      after = outer ++ ctx.escapeFrom (blankAfter (front.foldl blankAfter blank) d) back := by
  induction cs generalizing blank before with
  | nil => simp [escapeFrom] at h
  | cons first rest ih =>
    rw [escapeFrom] at h
    rcases split_append h with ⟨outer, hchar, hafter⟩ | ⟨more, hbefore, hrest⟩
    · exact ⟨[], first, rest, before, outer, rfl, hchar, rfl, hafter⟩
    · obtain ⟨front, d, back, inner, outer, hsplit, hchar, hmore, hafter⟩ := ih hrest
      refine ⟨first :: front, d, back, inner, outer, by rw [hsplit, List.cons_append], hchar, ?_,
        hafter⟩
      rw [hbefore, hmore, escapeFrom, List.append_assoc]

theorem escapeChar_break (blank : Bool) : ctx.escapeChar blank '\n' = ctx.lineBreak := by
  simp [escapeChar, entity?]

theorem escapeChar_entity (hcode : ctx.markdownCode = false) {entity : String}
    (h : entity? c = some entity) (blank : Bool) : ctx.escapeChar blank c = entity.toList := by
  simp [escapeChar, hcode, h]

/-- What has no entity and is no line break gets at most a backslash. -/
theorem escapeChar_other (h : entity? c = none) (hbreak : c ≠ '\n') (blank : Bool) :
    ctx.escapeChar blank c = ['\\', c] ∨ ctx.escapeChar blank c = [c] := by
  simp only [escapeChar, h, ite_self, hbreak, if_false]
  split
  · next hbar => exact .inl (by rw [hbar.1])
  · split
    · exact .inl rfl
    · exact .inr rfl

/-- The entities that texts are written with. -/
def entities : List String := ["&amp;", "&lt;", "&gt;", "&quot;"]

theorem mem_entities {entity : String} (h : entity? c = some entity) : entity ∈ entities := by
  unfold entity? at h
  split at h <;> cases h <;> decide

/-- A character without a meaning in HTML. -/
def isInert (c : Char) : Bool := c ∉ ['&', '"', '<', '>']

theorem isInert_iff : isInert c ↔ c ≠ '&' ∧ c ≠ '"' ∧ c ≠ '<' ∧ c ≠ '>' := by simp [isInert]

theorem isInert_of_entity? (h : entity? c = none) : isInert c := by
  rw [isInert_iff]
  refine ⟨?_, ?_, ?_, ?_⟩ <;> rintro rfl <;> cases h

/-- Outside code a character is written as an entity, or it is a line break, or it has no meaning in
HTML and gets at most a backslash. -/
theorem escapeChar_forms (hcode : ctx.markdownCode = false) (blank : Bool) (d : Char) :
    (∃ entity ∈ entities, ctx.escapeChar blank d = entity.toList) ∨
      (d = '\n' ∧ ctx.escapeChar blank d = ctx.lineBreak) ∨
      (isInert d ∧ ∀ c ∈ ctx.escapeChar blank d, c = '\\' ∨ c = d) := by
  cases hd : entity? d with
  | some entity => exact .inl ⟨entity, mem_entities hd, escapeChar_entity hcode hd blank⟩
  | none =>
    by_cases hbreak : d = '\n'
    · exact .inr (.inl ⟨hbreak, hbreak ▸ escapeChar_break blank⟩)
    · have hforms := ctx.escapeChar_other hd hbreak blank
      refine .inr (.inr ⟨isInert_of_entity? hd, fun c hc => ?_⟩)
      rcases hforms with hform | hform <;> simp_all

/-- The two ways in which a line break is written with tags. -/
def breakTags : List String := ["<br>", "</code><br><code>"]

/-- Outside attributes a line break is itself or tags. -/
theorem lineBreak_outside (hattr : ctx.htmlAttribute = false) :
    ctx.lineBreak = ['\n'] ∨ ctx.lineBreak = "<br>".toList ∨
      ctx.lineBreak = "</code><br><code>".toList := by
  simp only [lineBreak, hattr, Bool.false_eq_true, if_false]
  split
  · exact .inr (.inr rfl)
  · split
    · exact .inr (.inl rfl)
    · exact .inl rfl

theorem lineBreak_forms (ctx : EscapeContext) :
    ctx.lineBreak ∈ [['\n'], ['\\', 'n']] ∨ ∃ tags ∈ breakTags, ctx.lineBreak = tags.toList := by
  cases hattr : ctx.htmlAttribute with
  | true => simp [lineBreak, hattr]
  | false => rcases lineBreak_outside hattr with h | h | h <;> simp [h, breakTags]

/-- A quote, an angle bracket or an ampersand in what is written for a character: there is no quote,
angle brackets belong to a line break, and an ampersand begins an entity. -/
theorem escapeChar_markup (hcode : ctx.markdownCode = false) {inner outer : List Char}
    (h : ctx.escapeChar blank d = inner ++ c :: outer) :
    c ≠ '"' ∧
      (c = '<' ∨ c = '>' → d = '\n' ∧ ∃ tags ∈ breakTags, ctx.lineBreak = tags.toList) ∧
      (c = '&' → ∃ entity ∈ entities, c :: outer = entity.toList) := by
  have hmem : c ∈ ctx.escapeChar blank d := by simp [h]
  have hother (hc : isInert c) : c ≠ '"' ∧
      (c = '<' ∨ c = '>' → d = '\n' ∧ ∃ tags ∈ breakTags, ctx.lineBreak = tags.toList) ∧
      (c = '&' → ∃ entity ∈ entities, c :: outer = entity.toList) := by
    rw [isInert_iff] at hc
    tauto
  rcases escapeChar_forms hcode blank d with ⟨entity, hentity, hform⟩ | ⟨rfl, hform⟩ | ⟨hd, hform⟩
  · have hhead : ∀ entity ∈ entities, entity.toList.head? = some '&' ∧
        entity.toList.tail.all isInert := by decide
    obtain ⟨hamp, htail⟩ := hhead entity hentity
    rw [hform] at h
    cases inner with
    | nil =>
      rw [h] at hamp
      obtain rfl : c = '&' := by simpa using hamp
      exact ⟨by decide, by simp, fun _ => ⟨entity, hentity, h.symm⟩⟩
    | cons e inner =>
      rw [h] at htail
      exact hother (List.all_eq_true.1 htail c (by simp))
  · have hplain : ∀ form ∈ [['\n'], ['\\', 'n']], form.all isInert := by decide
    have htags : ∀ tags ∈ breakTags, tags.toList.all fun c => c ≠ '"' ∧ c ≠ '&' := by decide
    rw [hform] at hmem
    rcases ctx.lineBreak_forms with hbreak | ⟨tags, hmemTags, hbreak⟩
    · exact hother (List.all_eq_true.1 (hplain _ hbreak) c hmem)
    · obtain ⟨hquote, hamp⟩ : c ≠ '"' ∧ c ≠ '&' :=
        of_decide_eq_true (List.all_eq_true.1 (htags tags hmemTags) c (hbreak ▸ hmem))
      exact ⟨hquote, fun _ => ⟨rfl, tags, hmemTags, hbreak⟩, fun hc => absurd hc hamp⟩
  · rcases hform c hmem with rfl | rfl
    · exact hother (by decide)
    · exact hother hd

/-- The character behind `before` belongs to the tags that are written for a line break of the
text. -/
def InBreakTags (ctx : EscapeContext) (text : String) (before : List Char) (c : Char)
    (after : List Char) : Prop :=
  ∃ tags ∈ breakTags, ∃ front back inner outer, text.toList = front ++ '\n' :: back ∧
    ctx.lineBreak = tags.toList ∧ tags.toList = inner ++ c :: outer ∧
    before = ctx.escapeFrom ctx.lineIsBlank front ++ inner ∧
    after = outer ++ ctx.escapeFrom true back

/-- What an escaped text holds of the characters that have a meaning in HTML. -/
theorem escape_markup (hcode : ctx.markdownCode = false) {text : String}
    (h : (ctx.escape text).toList = before ++ c :: after) :
    c ≠ '"' ∧ (c = '<' ∨ c = '>' → ctx.InBreakTags text before c after) ∧
      (c = '&' → ∃ entity ∈ entities, entity.toList <+: c :: after) := by
  rw [escape, String.toList_ofList] at h
  obtain ⟨front, d, back, inner, outer, htext, hchar, hbefore, hafter⟩ := exists_source h
  obtain ⟨hquote, hangle, hamp⟩ := escapeChar_markup hcode hchar
  refine ⟨hquote, fun hc => ?_, fun hc => ?_⟩
  · obtain ⟨rfl, tags, htags, hbreak⟩ := hangle hc
    rw [escapeChar_break, hbreak] at hchar
    exact ⟨tags, htags, front, back, inner, outer, htext, hbreak, hchar, hbefore, hafter⟩
  · obtain ⟨entity, hentity, heq⟩ := hamp hc
    exact ⟨entity, hentity, _, by rw [hafter, ← List.cons_append, heq]⟩

end EscapeContext

/-- The text that is written for the value of an attribute. -/
def attributeText (out : Output) (value : String) : String :=
  EscapeContext.escape
    { out.escapeContext with htmlAttribute := true, htmlBlock := true, markdownCode := false } value

theorem oneLine_attributeText (out : Output) (value : String) : OneLine (attributeText out value) :=
  EscapeContext.oneLine_escape (by simp [EscapeContext.lineBreak]) value

/-- Whatever the modes are, a value is written as its text. -/
theorem attributeValue_apply (out : Output) (value : String) :
    attributeValue value out = write (attributeText out value) out := by
  have hline := oneLine_attributeText out value
  let inside : Output := { out with modes := out.modes.inAttribute }
  have hinside : writeEscaped value inside = (.ok (), inside.wrote (attributeText out value)) :=
    write_of_fits fun _ => hline
  rw [attributeValue_eq, hinside, write_of_fits fun _ => hline]
  rfl

/-- In an attribute no line break is written with tags, so there are no angle brackets at all. -/
theorem notMem_attributeText {out : Output} {value : String} {c : Char}
    (hc : c ∈ ['<', '>', '"', '\n']) : c ∉ (attributeText out value).toList := by
  intro hmem
  obtain ⟨before, after, hsplit⟩ := List.append_of_mem hmem
  obtain ⟨hquote, hangle, -⟩ := EscapeContext.escape_markup rfl hsplit
  have hnone : ¬ (c = '<' ∨ c = '>') := by
    intro hc
    obtain ⟨tags, htags, -, -, -, -, -, hbreak, -⟩ := hangle hc
    have hescape : ∀ tags ∈ EscapeContext.breakTags, tags.toList ≠ ['\\', 'n'] := by decide
    exact hescape tags htags hbreak.symm
  simp only [List.mem_cons, List.not_mem_nil, or_false] at hc
  rcases hc with hless | hmore | hquoted | rfl
  · exact hnone (.inl hless)
  · exact hnone (.inr hmore)
  · exact hquote hquoted
  · exact oneLine_attributeText out value hmem

/-- Outside code an escaped text has no quote, its angle brackets are those of the tags that stand
for its line breaks, and each ampersand begins one of four entities. Whatever the modes are, what is
written for the value of an attribute has no angle bracket, no quote and no line break. -/
theorem no_markup {ctx : EscapeContext} (hcode : ctx.markdownCode = false) (text value : String)
    (out : Output) :
    (∀ before c after, (ctx.escape text).toList = before ++ c :: after →
      c ≠ '"' ∧ (c = '<' ∨ c = '>' → ctx.InBreakTags text before c after) ∧
        (c = '&' → ∃ entity ∈ EscapeContext.entities, entity.toList <+: c :: after)) ∧
      attributeValue value out = write (attributeText out value) out ∧
      ∀ c ∈ ['<', '>', '"', '\n'], c ∉ (attributeText out value).toList := by
  refine ⟨?_, attributeValue_apply out value, fun c hc => notMem_attributeText hc⟩
  intro before c after hsplit
  exact EscapeContext.escape_markup hcode hsplit

/-- In a cell the only angle brackets of `<b>`, a line break and `"` are those of a `<br>`, and the
value `">` with a line break leaves the quotes of its attribute alone. -/
theorem no_markup_cell :
    (∀ before after, "&lt;b&gt;<br>&quot;".toList = before ++ '<' :: after →
      EscapeContext.InBreakTags { table := true } "<b>\n\"" before '<' after) ∧
      attributeValue "\">\n" { modes := { table := true } } =
        write "&quot;&gt;\\n" { modes := { table := true } } := by
  have htext : EscapeContext.escape { table := true } "<b>\n\"" = "&lt;b&gt;<br>&quot;" := by
    decide +kernel
  have hvalue : attributeText { modes := { table := true } } "\">\n" = "&quot;&gt;\\n" := by
    decide +kernel
  obtain ⟨hmarkup, hattribute, -⟩ := @no_markup { table := true } rfl "<b>\n\"" "\">\n"
    { modes := { table := true } }
  rw [hvalue] at hattribute
  refine ⟨fun before after hsplit => ?_, hattribute⟩
  rw [← htext] at hsplit
  exact (hmarkup before '<' after hsplit).2.1 (.inl rfl)

end DocTree.Markdown
