import DocTree.Proofs.Respect
import Mathlib.Data.List.Infix

/-! Text in Markdown code. Nothing of it is escaped, so what a reader finds in it are the runs of
ticks that the text has itself, none of them longer than the longest run. -/
namespace DocTree.Text
variable {c old new : Char} {cs ds rest : List Char}

/-- A text begins with a run of a character, which may be empty, and goes on with another one. -/
theorem exists_run (c : Char) (cs : List Char) :
    ∃ k rest, cs = List.replicate k c ++ rest ∧ rest.head? ≠ some c := by
  induction cs with
  | nil => exact ⟨0, [], rfl, by simp⟩
  | cons d cs ih =>
    by_cases hd : d = c
    · obtain ⟨k, rest, rfl, hrest⟩ := ih
      exact ⟨k + 1, rest, by rw [hd, List.replicate_succ, List.cons_append], hrest⟩
    · exact ⟨0, d :: cs, rfl, by simpa using hd⟩

theorem takeWhile_run (h : rest.head? ≠ some c) (k : Nat) :
    (List.replicate k c ++ rest).takeWhile (· == c) = List.replicate k c := by
  have hstop : rest.takeWhile (· == c) = [] := by
    cases rest with
    | nil => rfl
    | cons d rest =>
      have hd : d ≠ c := by simpa using h
      simp [hd]
  rw [List.takeWhile_append_of_pos, hstop, List.append_nil]
  intro d hd
  rw [List.eq_of_mem_replicate hd, beq_self_eq_true]

/-- The text with each occurrence of one character made another one. -/
def swapped (old new : Char) (cs : List Char) : List Char :=
  cs.map fun c => if c = old then new else c

theorem toList_replaceChar {t : String} (ht : t.toList = [new]) (s : String) :
    (replaceChar old t s).toList = swapped old new s.toList := by
  rw [replaceChar, String.toList_ofList, swapped, List.map_eq_flatMap, ht]
  congr 1
  funext c
  split <;> rfl

theorem toList_spaced (old : Char) (s : String) :
    (replaceChar old " " s).toList = swapped old ' ' s.toList := toList_replaceChar rfl s

theorem swapped_append (cs ds : List Char) :
    swapped old new (cs ++ ds) = swapped old new cs ++ swapped old new ds := List.map_append

theorem swapped_of_notMem (h : old ∉ cs) : swapped old new cs = cs := by
  refine (List.map_congr_left fun c hc => if_neg ?_).trans cs.map_id
  rintro rfl
  exact h hc

theorem swapped_self (c : Char) (cs : List Char) : swapped c c cs = cs := by
  refine (List.map_congr_left fun d _ => ?_).trans cs.map_id
  split
  · next h => exact h.symm
  · rfl

theorem replaceChar_self (c : Char) (s : String) : replaceChar c (.ofList [c]) s = s := by
  have hnew : (String.ofList [c]).toList = [c] := String.toList_ofList
  rw [← String.toList_inj, toList_replaceChar hnew, swapped_self]

theorem replaceChar_of_notMem {new s : String} (h : old ∉ s.toList) : replaceChar old new s = s := by
  rw [← String.toList_inj, replaceChar, String.toList_ofList]
  refine (List.flatMap_congr fun c hc => if_neg ?_).trans (List.flatMap_singleton' _)
  rintro rfl
  exact h hc

/-- Two characters that become one in the end need not be told apart. -/
theorem swapped_swapped (last : Char) (cs : List Char) :
    swapped new last (swapped old new cs) = swapped new last (swapped old last cs) := by
  rw [swapped, swapped, swapped, swapped, List.map_map, List.map_map]
  congr 1
  funext c
  by_cases hc : c = old
  · simp [hc]
  · simp [hc]

theorem notMem_swapped (hc : c ∉ cs) (hnew : c ≠ new) : c ∉ swapped old new cs := by
  simp only [swapped, List.mem_map, not_exists, not_and]
  intro d hd
  split
  · exact hnew.symm
  · rintro rfl
    exact hc hd

/-- A character that a mark does not hold brings none about. -/
theorem infix_of_infix_swapped {mark : List Char} (hnew : new ∉ mark)
    (h : mark <:+: swapped old new cs) : mark <:+: cs := by
  obtain ⟨ds, hds, rfl⟩ := List.infix_map_iff.1 h
  have hold : old ∉ ds := fun hmem => hnew (List.mem_map.2 ⟨old, hmem, if_pos rfl⟩)
  have hsame : swapped old new ds = ds := swapped_of_notMem hold
  rw [swapped] at hsame
  rwa [hsame]

/-- Where no line is ended by a line feed, each carriage return ends one. -/
theorem unifyBreaks_feedless (h : '\n' ∉ cs) : unifyBreaks cs = swapped '\r' '\n' cs := by
  fun_induction unifyBreaks cs with
  | case1 rest => simp at h
  | case2 rest _ ih => rw [ih (by simpa using h)]; rfl
  | case3 c rest _ hc ih =>
    have hother : c ≠ '\r' := fun hreturn => hc hreturn
    rw [ih fun hrest => h (List.mem_cons_of_mem c hrest), swapped, swapped, List.map_cons,
      if_neg hother]
  | case4 => rfl

end DocTree.Text

namespace DocTree.Markdown
open Text

section Runs
variable {needle : Char} {run longest n : Nat} {cs before rest : List Char}

theorem longestRunFrom_cons (c : Char) (cs : List Char) :
    longestRunFrom needle run longest (c :: cs) =
      if c = needle then longestRunFrom needle (run + 1) (max longest (run + 1)) cs
      else longestRunFrom needle 0 longest cs := rfl

theorem le_longestRunFrom (cs : List Char) : longest ≤ longestRunFrom needle run longest cs := by
  induction cs generalizing run longest with
  | nil => exact Nat.le_refl _
  | cons c cs ih =>
    rw [longestRunFrom_cons]
    split
    · exact (Nat.le_max_left _ _).trans ih
    · exact ih

theorem add_le_longestRunFrom (h : run ≤ longest) (n : Nat) :
    run + n ≤ longestRunFrom needle run longest (List.replicate n needle ++ rest) := by
  induction n generalizing run longest with
  | zero => exact h.trans (le_longestRunFrom _)
  | succ n ih =>
    rw [List.replicate_succ, List.cons_append, longestRunFrom_cons, if_pos rfl]
    have hnext := ih (Nat.le_max_right longest (run + 1))
    omega

/-- No run is longer than the longest one. -/
theorem le_longestRunFrom_of_occurs (h : run ≤ longest) (hrun : List.replicate n needle <:+: cs) :
    n ≤ longestRunFrom needle run longest cs := by
  obtain ⟨before, rest, rfl⟩ := hrun
  rw [List.append_assoc]
  induction before generalizing run longest with
  | nil => exact (Nat.le_add_left n run).trans (add_le_longestRunFrom h n)
  | cons c before ih =>
    rw [List.cons_append, longestRunFrom_cons]
    split
    · exact ih (Nat.le_max_right longest (run + 1))
    · exact ih (Nat.zero_le longest)

theorem longestRunFrom_behind {d : Char} (hd : d ≠ needle) (cs : List Char) :
    longestRunFrom needle run longest (cs ++ [d]) = longestRunFrom needle run longest cs := by
  induction cs generalizing run longest with
  | nil => exact if_neg hd
  | cons c cs ih => rw [List.cons_append, longestRunFrom_cons, longestRunFrom_cons, ih, ih]

/-- A run ends at every line break, in whatever way it is written. -/
theorem longestRunFrom_unifyBreaks (hfeed : '\n' ≠ needle) (hreturn : '\r' ≠ needle)
    (cs : List Char) :
    longestRunFrom needle run longest (unifyBreaks cs) = longestRunFrom needle run longest cs := by
  fun_induction unifyBreaks cs generalizing run longest with
  | case1 rest ih => simp only [longestRunFrom_cons, if_neg hfeed, if_neg hreturn, ih]
  | case2 rest _ ih => simp only [longestRunFrom_cons, if_neg hfeed, if_neg hreturn, ih]
  | case3 c rest _ _ ih => simp only [longestRunFrom_cons, ih]
  | case4 => rfl

end Runs

namespace EscapeContext
variable {ctx : EscapeContext}

/-- In Markdown code outside of tables only line breaks are written in a way of their own. -/
theorem escape_code (hcode : ctx.markdownCode) (htable : ctx.table = false) (text : String) :
    ctx.escape text = replaceChar '\n' (.ofList ctx.lineBreak) text := by
  have hchar (blank : Bool) (c : Char) :
      ctx.escapeChar blank c = if c = '\n' then ctx.lineBreak else [c] := by
    simp [escapeChar, isMarkdown, hcode, htable]
  have hfrom (blank : Bool) (cs : List Char) :
      ctx.escapeFrom blank cs = cs.flatMap fun c => if c = '\n' then ctx.lineBreak else [c] := by
    induction cs generalizing blank with
    | nil => rfl
    | cons c cs ih => rw [escapeFrom, hchar, ih, List.flatMap_cons]
  rw [escape, replaceChar, hfrom, String.toList_ofList]

end EscapeContext

namespace Render

/-- The text that is written in Markdown code is the same but for its line breaks. -/
theorem codeText_apply {out : Output} {text written : String} (htable : out.modes.table = false)
    (hwritten : replaceChar '\n' (.ofList out.escapeContext.lineBreak) text = written)
    (hfits : out.constrained → OneLine written) :
    withMode .markdownCode true (writeEscaped text) out = (.ok (), out.wrote written) := by
  have hescape : { out with modes := out.modes.set .markdownCode true }.escapeContext.escape text =
      written := by
    rw [EscapeContext.escape_code rfl htable, ← hwritten]
    rfl
  have hrun : writeEscaped text { out with modes := out.modes.set .markdownCode true } =
      (.ok (), { out with modes := out.modes.set .markdownCode true }.wrote written) := by
    rw [← hescape]
    exact write_of_fits fun hc => by rw [hescape]; exact hfits hc
  rw [(framed_writeEscaped text).withMode_apply, hrun]
  rfl

end Render
end DocTree.Markdown
