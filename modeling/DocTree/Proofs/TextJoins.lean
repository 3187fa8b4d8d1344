import DocTree.Proofs.Respect
import Mathlib.Data.List.TakeWhile

/-! Texts written one after the other. How a text is escaped depends on what stands before it in one
respect only: a number sign is escaped on a line that is blank up to it. Two texts are written as the
text that they make together if the second does not begin with a number sign, or if the first leaves
something on its last line. -/
namespace DocTree.Markdown
open Text Layout

/-- Behind spaces the text begins with a number sign. -/
def opensHeading : List Char → Bool
  | [] => false
  | c :: rest => if c = ' ' then opensHeading rest else c == '#'

/-- Something other than white space stands on the last line of the text. -/
def inksLastLine (cs : List Char) : Bool :=
  (cs.reverse.takeWhile (· != '\n')).any (!Unicode.isBlank ·)

/-- Whether the second text can go on the first: it does not begin with a number sign, or the first
leaves a line that is not blank in any sense. -/
def continues (s t : String) : Bool := !opensHeading t.toList || inksLastLine s.toList

section Texts
variable {cs ds : List Char} {s t u : String}

theorem opensHeading_of_free (h : '#' ∉ cs) : opensHeading cs = false := by
  induction cs with
  | nil => rfl
  | cons c rest ih =>
    rw [List.mem_cons, not_or] at h
    simp [opensHeading, ih h.2, Ne.symm h.1]

/-- A number sign behind spaces is one of the first part, unless that is nothing but spaces. -/
theorem opensHeading_append (h : opensHeading (cs ++ ds)) :
    opensHeading cs ∨ opensHeading ds ∧ ∀ c ∈ cs, c = ' ' := by
  induction cs with
  | nil => exact .inr ⟨h, List.forall_mem_nil _⟩
  | cons c rest ih =>
    rw [List.cons_append, opensHeading] at h
    rw [opensHeading]
    split at h
    · next hspace =>
      rw [if_pos hspace, List.forall_mem_cons]
      exact (ih h).imp_right fun hrest => ⟨hrest.1, hspace, hrest.2⟩
    · next hspace =>
      rw [if_neg hspace]
      exact .inl h

theorem inksLastLine_iff : inksLastLine cs ↔
    ∃ before c after, cs = before ++ c :: after ∧ Unicode.isBlank c = false ∧ '\n' ∉ after := by
  constructor
  · intro h
    obtain ⟨c, hc, hblank⟩ := List.any_eq_true.1 h
    obtain ⟨us, vs, hline⟩ := List.append_of_mem hc
    have hfree : '\n' ∉ us := fun hmem => by
      have hin : '\n' ∈ cs.reverse.takeWhile (· != '\n') := hline ▸ List.mem_append_left _ hmem
      simpa using List.mem_takeWhile_imp hin
    have hsplit := cs.reverse.takeWhile_append_dropWhile (p := (· != '\n'))
    rw [hline] at hsplit
    generalize cs.reverse.dropWhile (· != '\n') = rest at hsplit
    obtain rfl : (us ++ c :: vs ++ rest).reverse = cs := by rw [hsplit, List.reverse_reverse]
    exact ⟨(vs ++ rest).reverse, c, us.reverse, by simp, by simpa using hblank,
      by simpa using hfree⟩
  · rintro ⟨before, c, after, rfl, hblank, hfree⟩
    have hc : c ≠ '\n' := by rintro rfl; cases hblank
    have hafter : ∀ d ∈ after.reverse, (d != '\n') = true := fun d hd => by
      simpa using fun heq : d = '\n' => hfree (heq ▸ List.mem_reverse.1 hd)
    rw [inksLastLine, List.reverse_append, List.reverse_cons, List.append_assoc,
      List.takeWhile_append_of_pos hafter]
    simp [hc, hblank]

theorem inksLastLine_append (h : inksLastLine ds) : inksLastLine (cs ++ ds) := by
  obtain ⟨before, c, after, rfl, hc⟩ := inksLastLine_iff.1 h
  exact inksLastLine_iff.2 ⟨cs ++ before, c, after, by simp, hc⟩

theorem not_inksLastLine_of_spaces (h : ∀ c ∈ cs, c = ' ') : inksLastLine cs = false := by
  rw [Bool.eq_false_iff]
  intro hink
  obtain ⟨before, c, after, rfl, hblank, -⟩ := inksLastLine_iff.1 hink
  rw [h c (by simp)] at hblank
  cases hblank

theorem continues_iff : continues s t ↔ (opensHeading t.toList → inksLastLine s.toList) := by
  cases ht : opensHeading t.toList <;> simp [continues, ht]

theorem continues_of_free (h : '#' ∉ t.toList) : continues s t := by
  rw [continues, opensHeading_of_free h]
  rfl

theorem continues_append_left (h : continues t u) : continues (s ++ t) u := by
  rw [continues_iff, String.toList_append]
  exact fun hu => inksLastLine_append (continues_iff.1 h hu)

theorem continues_append_right (hs : continues u s) (ht : continues s t) : continues u (s ++ t) := by
  rw [continues_iff, String.toList_append]
  intro hopens
  obtain hopens | ⟨hopens, hspaces⟩ := opensHeading_append hopens
  · exact continues_iff.1 hs hopens
  · have hink := continues_iff.1 ht hopens
    rw [not_inksLastLine_of_spaces hspaces] at hink
    cases hink

end Texts

namespace EscapeContext
variable (ctx : EscapeContext)

/-- Only a number sign at the start is escaped behind a blank line and not elsewhere. -/
theorem escapeFrom_congr {cs : List Char} (h : opensHeading cs = false) (blank blank' : Bool) :
    ctx.escapeFrom blank cs = ctx.escapeFrom blank' cs := by
  induction cs generalizing blank blank' with
  | nil => rfl
  | cons c rest ih =>
    rw [opensHeading] at h
    have hsign : c ≠ '#' := by
      rintro rfl
      simp at h
    have hchar : ctx.escapeChar blank c = ctx.escapeChar blank' c := by
      simp only [escapeChar, hsign, false_and]
    rw [escapeFrom, escapeFrom, hchar]
    split at h
    · rw [ih h]
    · next hspace =>
      have hafter : blankAfter blank c = blankAfter blank' c := by
        simp only [blankAfter, beq_false_of_ne hspace, Bool.false_and]
      rw [hafter]

theorem escapeFrom_append (blank : Bool) (cs ds : List Char) : ctx.escapeFrom blank (cs ++ ds) =
    ctx.escapeFrom blank cs ++ ctx.escapeFrom (cs.foldl blankAfter blank) ds := by
  induction cs generalizing blank with
  | nil => rfl
  | cons c rest ih =>
    rw [List.cons_append, escapeFrom, escapeFrom, ih, List.append_assoc, List.foldl_cons]

theorem foldl_blankAfter_of_inked {cs : List Char} (h : inksLastLine cs) (blank : Bool) :
    cs.foldl blankAfter blank = false := by
  obtain ⟨before, c, after, rfl, hblank, hfree⟩ := inksLastLine_iff.1 h
  have hc : blankAfter (before.foldl blankAfter blank) c = false := by
    have hbreak : c ≠ '\n' := by rintro rfl; cases hblank
    have hspace : c ≠ ' ' := by rintro rfl; cases hblank
    simp [blankAfter, hbreak, hspace]
  have hafter (ds : List Char) (h : '\n' ∉ ds) : ds.foldl blankAfter false = false := by
    induction ds with
    | nil => rfl
    | cons d rest ih =>
      rw [List.mem_cons, not_or] at h
      have hd : blankAfter false d = false := by simp [blankAfter, Ne.symm h.1]
      rw [List.foldl_cons, hd, ih h.2]
  rw [List.foldl_append, List.foldl_cons, hc, hafter after hfree]

/-- What is written for a character that is no white space holds such a character and no line
break. -/
theorem exists_ink_escapeChar {c : Char} (hc : Unicode.isBlank c = false) (blank : Bool) :
    ∃ before d after, ctx.escapeChar blank c = before ++ d :: after ∧ Unicode.isBlank d = false ∧
      '\n' ∉ after := by
  have hbreak : c ≠ '\n' := by rintro rfl; cases hc
  unfold escapeChar
  split
  · next entity heq =>
    split at heq
    · cases heq
    · unfold entity? at heq
      split at heq <;> cases heq <;> exact ⟨[], '&', _, rfl, by decide, by decide⟩
  · split
    · exact ⟨[], '\\', ['|'], rfl, by decide, by decide⟩
    split
    · exact ⟨[], '\\', [c], rfl, by decide, by simpa using hbreak.symm⟩
    · exact ⟨[], c, [], rfl, hc, by simp⟩

theorem inksLastLine_escapeFrom {cs : List Char} (h : inksLastLine cs) (blank : Bool) :
    inksLastLine (ctx.escapeFrom blank cs) := by
  obtain ⟨before, c, after, rfl, hc, hfree⟩ := inksLastLine_iff.1 h
  obtain ⟨us, d, vs, hchar, hd, hvs⟩ :=
    ctx.exists_ink_escapeChar hc (before.foldl blankAfter blank)
  have hrest (line : Bool) : '\n' ∉ vs ++ ctx.escapeFrom line after := by
    rw [List.mem_append, not_or]
    exact ⟨hvs, lineBreak_free_escapeFrom (absurd · hfree) line⟩
  rw [escapeFrom_append, escapeFrom, hchar, List.append_assoc, List.cons_append]
  exact inksLastLine_append (inksLastLine_iff.2 ⟨us, d, _, rfl, hd, hrest _⟩)

/-- The modes decide how a text is escaped, and the line it begins on. -/
theorem escape_withLine (blank : Bool) (s : String) :
    ({ ctx with lineIsBlank := blank } : EscapeContext).escape s =
      String.ofList (ctx.escapeFrom blank s.toList) := by
  have hline (line : Bool) (cs : List Char) :
      EscapeContext.escapeFrom { ctx with lineIsBlank := blank } line cs =
        ctx.escapeFrom line cs := by
    induction cs generalizing line with
    | nil => rfl
    | cons c rest ih => exact congrArg (ctx.escapeChar line c ++ ·) (ih _)
  rw [escape, hline]

end EscapeContext

/-- Behind something that is no white space a line is not blank. -/
theorem not_lineIsBlank_write {s : String} (h : inksLastLine s.toList) (b : Buffer) :
    (b.write s).lineIsBlank = false := by
  obtain ⟨before, c, after, hs, hc, hfree⟩ := inksLastLine_iff.1 h
  have hspace : c ≠ ' ' := by rintro rfl; cases hc
  have hbreak : c ≠ '\n' := by rintro rfl; cases hc
  have hsplit : s = String.ofList before ++ String.ofList (c :: after) := by
    rw [← String.toList_inj, hs]
    simp
  rw [hsplit, Buffer.write_append]
  generalize b.write (String.ofList before) = start
  obtain ⟨content, hput, hmem⟩ : ∃ content, (start.put c).content = some content ∧
      c ∈ content.toList := by
    cases hstart : start.content with
    | none => exact ⟨_, by rw [Buffer.put_atStart hbreak hstart], by simp⟩
    | some content => exact ⟨_, by rw [Buffer.put_begun hbreak hstart], by simp⟩
  have hrest : OneLine (String.ofList after) := oneLine_ofList.2 hfree
  rw [Buffer.write_ofList_cons, Buffer.write_begun hput hrest, Buffer.lineIsBlank]
  exact List.all_eq_false.2 ⟨c, by simp [hmem], by simpa using hspace⟩

/-- Behind such a text the line is not blank, and no block is still empty. -/
theorem Output.not_lineIsBlank_wrote {s : String} (h : inksLastLine s.toList) (out : Output) :
    (out.wrote s).escapeContext.lineIsBlank = false := by
  obtain ⟨before, c, after, hs, hc, -⟩ := inksLastLine_iff.1 h
  have hfresh : (out.wrote s).fresh = false := by
    simp [wrote, hs, hc]
  rw [escapeContext, hfresh, Bool.false_or]
  exact not_lineIsBlank_write h out.buffer

/-- Where the second text can go on the first, they are escaped one after the other as the text that
they make together. -/
theorem Output.escape_append {s t : String} (h : continues s t) (out : Output) :
    out.escapeContext.escape (s ++ t) = out.escapeContext.escape s ++
      (out.wrote (out.escapeContext.escape s)).escapeContext.escape t := by
  have htail := out.escapeContext.escape_withLine
    (out.wrote (out.escapeContext.escape s)).escapeContext.lineIsBlank t
  change (out.wrote (out.escapeContext.escape s)).escapeContext.escape t = _ at htail
  rw [htail]
  generalize hmid : out.wrote (out.escapeContext.escape s) = mid
  generalize hctx : out.escapeContext = ctx at hmid ⊢
  have hline : ctx.escapeFrom (s.toList.foldl EscapeContext.blankAfter ctx.lineIsBlank) t.toList =
      ctx.escapeFrom mid.escapeContext.lineIsBlank t.toList := by
    by_cases hopens : opensHeading t.toList
    · have hink := continues_iff.1 h hopens
      have hescaped : inksLastLine (ctx.escape s).toList := by
        rw [EscapeContext.escape, String.toList_ofList]
        exact ctx.inksLastLine_escapeFrom hink _
      rw [EscapeContext.foldl_blankAfter_of_inked hink, ← hmid, out.not_lineIsBlank_wrote hescaped]
    · exact ctx.escapeFrom_congr (Bool.eq_false_iff.2 hopens) _ _
  rw [EscapeContext.escape, EscapeContext.escape, String.toList_append, ctx.escapeFrom_append,
    String.ofList_append, hline]

end DocTree.Markdown
