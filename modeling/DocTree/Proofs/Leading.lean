import DocTree.Proofs.Stand

/-! The abstract writer follows every tree: wherever a writer stands and nothing has been shown yet,
rendering a tree leads it to where the tree says. -/
namespace DocTree.Markdown
open Text Render Layout

namespace Lead
variable {lead : Lead} {c : Char} {ctx : EscapeContext}

theorem foldl_put_shown (cs : List Char) (line : Nat) (isRule : Bool) :
    cs.foldl put (shown line isRule) = shown line isRule := by
  induction cs with
  | nil => rfl
  | cons c rest ih => exact ih

theorem foldl_put_mark (hblank : ¬ Unicode.isBlank c) (hdash : c ≠ '-') (cs : List Char) :
    (c :: cs).foldl put lead = lead.mark := by
  obtain ⟨line, isRule, hmark⟩ := lead.mark_eq_shown
  rw [List.foldl_cons, put_eq_mark hblank hdash, hmark, foldl_put_shown]

/-- An entity or a backslash is shown just as the character itself would be. -/
theorem foldl_put_escapeChar (blank : Bool) :
    (ctx.escapeChar blank c).foldl put lead = lead.putEscaped ctx c := by
  have hshown (first : Char) (rest : List Char) (hfirst : ¬ Unicode.isBlank first ∧ first ≠ '-')
      (hc : ¬ Unicode.isBlank c ∧ c ≠ '-') :
      (first :: rest).foldl put lead = lead.putEscaped ctx c := by
    have hbreak : c ≠ '\n' := by
      rintro rfl
      exact hc.1 (by decide)
    rw [foldl_put_mark hfirst.1 hfirst.2, putEscaped, if_neg hbreak, put_eq_mark hc.1 hc.2]
  unfold EscapeContext.escapeChar
  split
  · next entity hentity =>
    split at hentity
    · cases hentity
    · unfold EscapeContext.entity? at hentity
      split at hentity <;> cases hentity <;> exact hshown '&' _ (by decide) (by decide)
  split
  · next hbar =>
    obtain ⟨rfl, -⟩ := hbar
    exact hshown '\\' _ (by decide) (by decide)
  split
  · next hbreak => rw [putEscaped, if_pos hbreak]
  · next hbreak =>
    split
    · next hmeaning =>
      obtain ⟨-, hmem | ⟨rfl, -⟩⟩ := hmeaning
      · refine hshown '\\' _ (by decide) ?_
        simp only [EscapeContext.markdownChars, List.mem_cons, List.not_mem_nil, or_false] at hmem
        rcases hmem with rfl | rfl | rfl | rfl | rfl | rfl | rfl | rfl <;> decide
      · exact hshown '\\' _ (by decide) (by decide)
    · rw [putEscaped, if_neg hbreak]
      rfl

theorem foldl_put_escapeFrom (blank : Bool) (cs : List Char) :
    (ctx.escapeFrom blank cs).foldl put lead = cs.foldl (putEscaped ctx) lead := by
  induction cs generalizing blank lead with
  | nil => rfl
  | cons c rest ih =>
    rw [EscapeContext.escapeFrom, List.foldl_append, foldl_put_escapeChar, ih, List.foldl_cons]

theorem constrained_blockModes {modes : Modes} (lead : Lead) :
    (lead.blockModes modes).constrained = modes.constrained := by
  unfold blockModes
  split <;> rfl

end Lead

namespace Render

/-- From the output the steps begin with something that is shown. -/
def Opens (steps : Render Unit) (out : Output) : Prop :=
  ∀ out', steps out = (.ok (), out') → ∃ c, ¬ Unicode.isBlank c ∧
    (c = '-' → out.buffer.atLineStart) ∧ (out.buffer.put c).Extends False out'.buffer

section Opens
variable {steps next : Render Unit} {out : Output} {s : String}

/-- A text is shown from its first character on, but for a dash behind a marker. -/
theorem opens_of_head {c : Char} {rest : List Char} (hs : s.toList = c :: rest)
    (hblank : ¬ Unicode.isBlank c) (hdash : c = '-' → out.buffer.atLineStart) :
    Opens (write s) out := by
  intro out' h
  obtain rfl : s = String.ofList (c :: rest) := by rw [← hs, String.ofList_toList]
  refine ⟨c, hblank, hdash, ?_⟩
  rw [write_ok h, Buffer.write_ofList_cons]
  exact (Buffer.extends_write _ _).mono False.elim

theorem opens_write (h : s.toList.head?.any fun c => !Unicode.isBlank c && c != '-') :
    Opens (write s) out := by
  cases hs : s.toList with
  | nil =>
    rw [hs] at h
    cases h
  | cons c rest =>
    have hc : Unicode.isBlank c = false ∧ c ≠ '-' := by simpa [hs] using h
    exact opens_of_head hs (by simp [hc.1]) fun heq => absurd heq hc.2

theorem Opens.then (h : Opens steps out) (hnext : Framed next) :
    Opens (do steps; next) out := by
  intro out' hrun
  obtain ⟨_, mid, hmid, hrest⟩ := bind_eq_ok hrun
  obtain ⟨c, hblank, hdash, hextends⟩ := h mid hmid
  exact ⟨c, hblank, hdash, hextends.trans ((hnext.of_eq hrest).buffer.mono False.elim)⟩

theorem Opens.withMode {mode : Mode} {value : Bool}
    (h : Opens steps { out with modes := out.modes.set mode value }) :
    Opens (withMode mode value steps) out := by
  intro out' hrun
  cases hsteps : steps { out with modes := out.modes.set mode value } with
  | mk result last =>
    simp only [Render.withMode, hsteps] at hrun
    obtain ⟨rfl, rfl⟩ := Prod.mk.inj hrun
    exact h last hsteps

theorem opens_look {α : Type} {view : Output → α} {next : α → Render Unit}
    (h : Opens (next (view out)) out) : Opens (look view >>= next) out := h

theorem opens_openTag (tag : String) (attributes : Dict String) (selfClosing : Bool) :
    Opens (openTag tag attributes selfClosing) out :=
  (opens_write (by decide)).then <| (framed_write _).then <|
    (framed_attributeList _).then <| framed_write _

theorem opens_comment (text : String) : Opens (comment text) out :=
  opens_look <| (opens_write (by decide)).then ((framed_write _).then (framed_write _))

theorem opens_image (src : String) (title alt : Option String) :
    Opens (image src title alt) out := by
  apply opens_look
  split
  · exact (opens_write (by decide)).then <| (framed_attributeValue _).then <|
      (framed_write _).then <| (framed_optionalAttribute _ _).then <|
        (framed_optionalAttribute _ _).then (framed_write _)
  refine (opens_write (by decide)).then ?_
  cases alt with
  | none => exact framed_linkTail _ _
  | some alt => exact (framed_writeEscaped _).then (framed_linkTail _ _)

theorem opens_notice : Opens notice out :=
  (opens_write (by decide)).then ((framed_pure ()).ifConstrained framed_ensureNewLine)

theorem opens_ticks {n : Nat} (hn : n ≠ 0) : Opens (write (ticks n)) out := by
  obtain ⟨n, rfl⟩ := Nat.exists_eq_succ_of_ne_zero hn
  have hs : (ticks (n + 1)).toList = '\x60' :: List.replicate n '\x60' := by
    rw [ticks, String.toList_ofList, List.replicate_succ]
  exact opens_of_head hs (by decide) fun hdash => absurd hdash (by decide)

/-- At the start of a line a marker is shown. -/
theorem opens_marker (style : ListStyle) (position : Nat) (hstart : out.buffer.atLineStart) :
    Opens (write (marker style position)) out := by
  obtain ⟨c, rest, hmarker, ⟨-, rfl⟩ | hdigit⟩ := exists_marker_head style position
  · exact opens_of_head hmarker (by decide) fun _ => hstart
  · exact opens_of_head hmarker (Unicode.not_isBlank_of_isDigit hdigit) fun _ => hstart

/-- At the start of a line there is none to be ended. -/
theorem opens_lineStart (h : Opens next out) (hstart : out.buffer.atLineStart) :
    Opens (do ensureNewLine; next) out := by
  intro out' hrun
  obtain ⟨_, start, hline, hrest⟩ := bind_eq_ok hrun
  obtain rfl := ensureNewLine_ok hline
  rw [out.closed_atStart hstart] at hrest
  exact h out' hrest

theorem opens_markedItems {item : Render Unit} {items : List (Render Unit)}
    (hitem : Framed item) (hitems : ∀ item ∈ items, Framed item) (style : ListStyle)
    (position : Nat) (hstart : out.buffer.atLineStart) :
    Opens (markedItems style position (item :: items)) out := by
  have hinner : Framed (withMode .listItem true do markFresh; item) :=
    (framed_markFresh.then hitem).withMode (by decide)
  have hmarked : Opens (markedItem style position item) out :=
    opens_lineStart ((opens_marker style position hstart).then
      (hinner.withIndent (oneLine_spaces _))) hstart
  rw [markedItems_cons]
  exact hmarked.then (framed_markedItems hitems style _)

end Opens

/-- Where a line may end the steps do what the abstract writer does. -/
structure Simulates (steps : Render Unit) (f : Modes → Lead → Lead) : Prop where
  framed : Framed steps
  settled : ∀ modes line isRule, f modes (.shown line isRule) = .shown line isRule
  follows : ∀ {g : Stand} {modes : Modes} {lead : Lead} {out out' : Output},
    lead.isShown = false → modes.constrained = false → g.Follows modes lead out →
      steps out = (.ok (), out') → g.Follows modes (f modes lead) out'

section Simulates
variable {g : Stand} {modes : Modes} {lead : Lead} {out out' : Output}
  {steps next body : Render Unit} {f f' : Modes → Lead → Lead}

theorem Simulates.run (h : Simulates steps f) (hline : modes.constrained = false)
    (hfollows : g.Follows modes lead out) (hrun : steps out = (.ok (), out')) :
    g.Follows modes (f modes lead) out' := by
  cases hshown : lead.isShown with
  | false => exact h.follows hshown hline hfollows hrun
  | true =>
    cases lead with
    | quiet | dashed => cases hshown
    | shown line isRule =>
      rw [h.settled]
      exact Stand.Shown.extends hfollows (h.framed.of_eq hrun).buffer

theorem simulates_done : Simulates (pure ()) fun _ lead => lead := by
  refine ⟨framed_pure (), fun _ _ _ => rfl, fun _ _ hfollows hrun => ?_⟩
  obtain ⟨-, rfl⟩ := Prod.mk.inj hrun
  exact hfollows

theorem Simulates.then (h : Simulates steps f) (hnext : Simulates next f') :
    Simulates (do steps; next) fun modes lead => f' modes (f modes lead) := by
  refine ⟨h.framed.then hnext.framed, fun modes line isRule => ?_,
    fun _ hline hfollows hrun => ?_⟩
  · rw [h.settled, hnext.settled]
  · obtain ⟨_, mid, hmid, hrest⟩ := bind_eq_ok hrun
    exact hnext.run hline (h.run hline hfollows hmid) hrest

theorem simulates_opens (hframed : Framed steps)
    (h : ∀ out : Output, out.constrained = false → Opens steps out) :
    Simulates steps fun _ lead => lead.mark := by
  refine ⟨hframed, fun _ _ _ => rfl, fun hopen hline hfollows hrun => ?_⟩
  obtain ⟨c, hblank, hdash, hextends⟩ := h _ (hfollows.unconstrained hopen hline) _ hrun
  exact hfollows.marked hblank hdash hextends

theorem Simulates.ifConstrained (hframed : Framed steps) (h : Simulates next f) :
    Simulates (do if ← constrained then steps else next) f := by
  refine ⟨hframed.ifConstrained h.framed, h.settled, fun hopen hline hfollows hrun => ?_⟩
  have hout := hfollows.unconstrained hopen hline
  rw [ifConstrained_apply, if_neg (by rw [hout]; decide)] at hrun
  exact h.follows hopen hline hfollows hrun

theorem simulates_write (s : String) :
    Simulates (write s) fun _ lead => s.toList.foldl Lead.put lead := by
  refine ⟨framed_write s, fun _ _ _ => Lead.foldl_put_shown .., fun hopen hline hfollows hrun => ?_⟩
  have hout := hfollows.unconstrained hopen hline
  rw [write_of_fits fun hc => by rw [hout] at hc; cases hc] at hrun
  obtain ⟨-, rfl⟩ := Prod.mk.inj hrun
  exact hfollows.wrote s

theorem simulates_writeEscaped (s : String) : Simulates (writeEscaped s) fun modes lead =>
    s.toList.foldl (.putEscaped ({ modes := modes } : Output).escapeContext) lead := by
  refine ⟨framed_writeEscaped s, fun modes line isRule => ?_,
    fun hopen hline hfollows hrun => ?_⟩
  · rw [← Lead.foldl_put_escapeFrom false, Lead.foldl_put_shown]
  · obtain ⟨rfl, -, -⟩ := hfollows.agrees hopen
    have hwritten := (simulates_write _).follows hopen hline hfollows hrun
    rw [EscapeContext.escape, String.toList_ofList, Lead.foldl_put_escapeFrom] at hwritten
    exact hwritten

theorem simulates_ensureNewLine : Simulates ensureNewLine fun _ lead => lead.closed := by
  refine ⟨framed_ensureNewLine, fun _ _ _ => rfl, fun _ _ hfollows hrun => ?_⟩
  obtain rfl := ensureNewLine_ok hrun
  exact hfollows.closed

theorem simulates_ensureSkippedLine : Simulates ensureSkippedLine fun _ lead => lead.skipped := by
  refine ⟨framed_ensureSkippedLine, fun _ _ _ => rfl, fun hopen hline hfollows hrun => ?_⟩
  have hout := hfollows.unconstrained hopen hline
  rw [ensureSkippedLine_apply hout] at hrun
  obtain ⟨-, rfl⟩ := Prod.mk.inj hrun
  exact hfollows.skipped

theorem Simulates.block (h : Simulates body f) :
    Simulates (paragraphBreak body) fun modes lead => f (lead.blockModes modes) lead.block := by
  refine ⟨h.framed.paragraphBreak, fun modes line isRule => h.settled _ line isRule,
    fun hopen hline hfollows hrun => ?_⟩
  obtain ⟨rfl, -, -⟩ := hfollows.agrees hopen
  obtain ⟨-, last, hlast, rfl⟩ := paragraphBreak_ok h.framed hrun
  have hinside := h.run ((Lead.constrained_blockModes _).trans hline) (hfollows.block hopen) hlast
  exact hinside.enter _

theorem Simulates.quote (h : Simulates body f) : Simulates (quote body) fun modes lead =>
    ((f (lead.blockModes modes) lead.block.inQuote).unquoted lead.isQuoted).closed := by
  refine ⟨h.framed.quote, fun modes line isRule => ?_, fun hopen hline hfollows hrun => ?_⟩
  · change ((f _ (.shown line isRule)).unquoted _).closed = _
    rw [h.settled]
    rfl
  obtain ⟨rfl, -, -⟩ := hfollows.agrees hopen
  obtain ⟨last, hlast, rfl⟩ := quote_ok (hfollows.unconstrained hopen hline) h.framed hrun
  have hinside := h.run ((Lead.constrained_blockModes _).trans hline)
    (hfollows.block hopen).inQuote hlast
  rename_i g lead out
  have hleft : g.Follows (lead.blockModes out.modes)
      ((f (lead.blockModes out.modes) lead.block.inQuote).unquoted lead.isQuoted)
      { last with buffer := last.buffer.popIndent } := by
    cases lead with
    | quiet place =>
      refine Stand.Quiet.unquoted hfollows hinside ?_
      rw [(h.framed.of_eq hlast).buffer.indents, Output.indents_inQuote, Output.indents_block]
    | dashed dashes =>
      change g.Follows _ (f _ (.shown 0 (2 ≤ dashes))) last at hinside
      change g.Follows _ ((f _ (.shown 0 (2 ≤ dashes))).unquoted _) _
      rw [h.settled] at hinside ⊢
      exact hinside
    | shown line isRule => cases hopen
  exact hleft.closed.enter _

theorem Simulates.list {items : List (Render Unit)} (h : ∀ item ∈ items, Framed item)
    (style : ListStyle) : Simulates (list style items) fun modes lead =>
      if items.isEmpty then lead.atList modes style else (lead.atList modes style).mark := by
  refine ⟨framed_list h style, fun modes line isRule => ?_, fun hopen hline hfollows hrun => ?_⟩
  · have hstart : Lead.atList modes style (.shown line isRule) = .shown line isRule := by
      unfold Lead.atList
      split <;> rfl
    split
    · exact hstart
    · rw [hstart]
      rfl
  obtain ⟨last, hlast, rfl⟩ := list_ok (hfollows.unconstrained hopen hline) h hrun
  rename_i g modes lead out
  obtain ⟨rfl, -, -⟩ := hfollows.agrees hopen
  have hstart := (hfollows.atList hopen style).enter (out.modes.set .htmlBlock false)
  let start : Output := { out.atList style with modes := out.modes.set .htmlBlock false }
  have hatStart : start.buffer.atLineStart = true := out.atLineStart_atList style
  have hinside : g.Follows (out.modes.set .htmlBlock false) (if items.isEmpty then
      lead.atList out.modes style else (lead.atList out.modes style).mark) last := by
    cases items with
    | nil =>
      obtain rfl := ensureNewLine_ok hlast
      rw [start.closed_atStart hatStart]
      exact hstart
    | cons item items =>
      obtain ⟨hitem, hitems⟩ := List.forall_mem_cons.1 h
      have hopens := (opens_markedItems hitem hitems style 0 hatStart).then framed_ensureNewLine
      obtain ⟨c, hblank, hdash, hextends⟩ := hopens last hlast
      exact hstart.marked hblank hdash hextends
  exact hinside.enter out.modes

theorem separateLists_apply (hline : out.constrained = false) (afterList isList : Bool) :
    separateLists afterList isList out = (if afterList && isList then
      do ensureSkippedLine; write listSeparator; ensureNewLine
    else pure () : Render Unit) out := by
  have hchoice : separateLists afterList isList out =
      (if afterList && isList && !out.constrained then
        do ensureSkippedLine; write listSeparator; ensureNewLine
      else pure () : Render Unit) out := rfl
  rw [hchoice, hline, Bool.not_false, Bool.and_true]

theorem simulates_separateLists (afterList isList : Bool) :
    Simulates (separateLists afterList isList) fun _ lead =>
      if afterList && isList then lead.skipped.mark else lead := by
  have hopens (out : Output) : Opens (do write listSeparator; ensureNewLine) out :=
    (opens_write (by decide)).then framed_ensureNewLine
  have hskip : Simulates (do ensureSkippedLine; write listSeparator; ensureNewLine) fun _ lead =>
      lead.skipped.mark :=
    simulates_ensureSkippedLine.then <|
      simulates_opens ((framed_write _).then framed_ensureNewLine) fun out _ => hopens out
  refine ⟨framed_separateLists _ _, fun _ _ _ => by split <;> rfl,
    fun hopen hline hfollows hrun => ?_⟩
  rw [separateLists_apply (hfollows.unconstrained hopen hline)] at hrun
  split at hrun
  · next hlists =>
    rw [if_pos hlists]
    exact hskip.follows hopen hline hfollows hrun
  · next hlists =>
    rw [if_neg hlists]
    exact simulates_done.follows hopen hline hfollows hrun

/-- Steps that begin with something that is shown. -/
theorem simulates_begin (hopens : ∀ out, Opens steps out) (hframed : Framed steps)
    (hnext : Framed next) : Simulates (do steps; next) fun _ lead => lead.mark :=
  simulates_opens (hframed.then hnext) fun out _ => (hopens out).then hnext

theorem simulates_fail (error : RenderError)
    (hsettled : ∀ modes line isRule, f modes (.shown line isRule) = .shown line isRule) :
    Simulates (fail error) f := ⟨framed_fail error, hsettled, fun _ _ _ hrun => by cases hrun⟩

theorem simulates_rule :
    Simulates rule fun _ lead => (((lead.block.put '-').put '-').put '-').closed :=
  .ifConstrained (framed_write _) ((simulates_write "---").then simulates_ensureNewLine).block

theorem simulates_codeBlock (language : Option String) (code : String) :
    Simulates (codeBlock language code) fun _ lead => lead.block.mark := by
  have hcode : Framed (writeEscaped code) := framed_writeEscaped code
  refine .ifConstrained ?_ (Simulates.block (simulates_begin (fun _ => opens_ticks ?_)
    (framed_write _) ?_))
  · exact (framed_write _).then <|
      ((hcode.withMode (by decide)).withMode (by decide)).then (framed_write _)
  · exact Nat.succ_ne_zero _
  · exact (framed_write _).then <| (framed_write _).then <| (hcode.withMode (by decide)).then <|
      framed_ensureNewLine.then <| (framed_write _).then framed_ensureNewLine

theorem simulates_linkedCode (h : Framed body) (language : String) :
    Simulates (linkedCode language body) fun _ lead => lead.block.mark := by
  refine .ifConstrained ?_ (Simulates.block (simulates_begin (fun _ => opens_write (by decide))
    (framed_write _) ?_))
  · exact (framed_write _).then <|
      ((h.withMode (by decide)).withMode (by decide)).then (framed_write _)
  · exact (framed_attributeValue _).then <| (framed_write _).then <|
      ((h.withMode (by decide)).withMode (by decide)).then <|
        (framed_write _).then framed_ensureNewLine

theorem simulates_collapsible {summary : Render Unit} (hsummary : Framed summary)
    (h : Framed body) : Simulates (collapsible summary body) fun _ lead => lead.block.mark := by
  refine .ifConstrained ?_ (Simulates.block (simulates_begin
    (fun _ => (opens_write (by decide)).then (framed_write _)) (framed_writeLine _) ?_))
  · exact (framed_write _).then <|
      ((hsummary.then ((framed_write _).then h)).withMode (by decide)).then (framed_write _)
  · exact (framed_write _).then <| (hsummary.inSingleLine.withMode (by decide)).then <|
      (framed_write _).then <| framed_ensureSkippedLine.then <| h.then <|
        framed_ensureSkippedLine.then <| (framed_write _).then framed_ensureNewLine

theorem simulates_heading (h : Framed body) (level : UInt8) (anchor : Option String) :
    Simulates (heading level anchor body) fun _ lead => lead.block.mark := by
  rw [heading_eq]
  split
  · exact simulates_fail _ fun _ _ _ => rfl
  next hnone =>
  obtain ⟨⟨hlevel, -⟩, -⟩ := headingError?_eq_none.1 hnone
  have hmark (out : Output) : Opens (write (headingMark level)) out := by
    have hpositive : 1 ≤ level.toNat := UInt8.le_iff_toNat_le.1 hlevel
    obtain ⟨n, hn⟩ := Nat.exists_eq_add_of_le' hpositive
    have hs : (headingMark level).toList = '#' :: List.replicate n '#' := by
      rw [headingMark, String.toList_ofList, hn, List.replicate_succ]
    exact opens_of_head hs (by decide) fun hdash => absurd hdash (by decide)
  refine .ifConstrained ?_ (Simulates.block (simulates_begin hmark (framed_write _) ?_))
  · exact (framed_write _).then <|
      (((framed_optionalAnchor _).then h).withMode (by decide)).then (framed_write _)
  · exact (framed_write _).then <| (framed_optionalAnchor _).then <|
      h.inSingleLine.then framed_ensureNewLine

theorem simulates_table {header : List (Render Unit)} {rows : List (List (Render Unit))}
    (hheader : ∀ cell ∈ header, Framed cell) (hrows : ∀ row ∈ rows, ∀ cell ∈ row, Framed cell) :
    Simulates (table header rows) fun _ lead => lead.skipped.mark := by
  rw [table_eq]
  split
  · exact simulates_fail _ fun _ _ _ => rfl
  have hbelow : Framed (do
      write "|"
      divider (columnCount header rows)
      write "\n"
      markdownRows (columnCount header rows) rows) :=
    (framed_write _).then <| (framed_divider _).then <|
      (framed_write _).then (framed_markdownRows hrows _)
  have hrow (out : Output) : Opens (markdownRow (columnCount header rows) header) out :=
    (opens_write (by decide)).then ((framed_markdownCells hheader _).then (framed_write _))
  refine .ifConstrained ?_ (simulates_ensureSkippedLine.then (simulates_opens
    (((framed_markdownRow hheader _).then hbelow).withMode nofun) fun out _ =>
      ((hrow _).then hbelow).withMode))
  exact (framed_write _).then <|
    (((framed_htmlRow hheader "th" _).then (framed_htmlRows hrows _)).withMode (by decide)).then
      (framed_write _)

/-- In code only what is inside is written. -/
theorem Simulates.unlessCode (h : Simulates body f) (hframed : Framed steps)
    (hcode : ∀ out : Output, out.modes.markdownCode → steps out = body out)
    (hopens : ∀ out : Output, out.modes.markdownCode = false → Opens steps out) :
    Simulates steps fun modes lead => if modes.markdownCode then f modes lead else lead.mark := by
  refine ⟨hframed, fun modes line isRule => ?_, fun hopen hline hfollows hrun => ?_⟩
  · split
    · exact h.settled modes line isRule
    · rfl
  obtain ⟨rfl, -, -⟩ := hfollows.agrees hopen
  split
  · next hmode => exact h.follows hopen hline hfollows (hcode _ hmode ▸ hrun)
  · next hmode =>
    obtain ⟨c, hblank, hdash, hextends⟩ := hopens _ (Bool.eq_false_iff.2 hmode) _ hrun
    exact hfollows.marked hblank hdash hextends

theorem Simulates.link (h : Simulates body f) (destination : String) (title : Option String) :
    Simulates (link destination title body) fun modes lead =>
      if modes.markdownCode then f modes lead else lead.mark := by
  have hrun (out : Output) : Markdown.link destination title body out =
      (if out.modes.markdownCode then body
      else do
        if ← usesHtml then
          write "<a href=\""
          attributeValue destination
          write "\""
          optionalAttribute "title" title
          write ">"
          body
          write "</a>"
        else
          write "["
          body
          linkTail destination title : Render Unit) out := rfl
  refine h.unlessCode (h.framed.link destination title) (fun out hcode => ?_) fun out hcode => ?_
  · rw [hrun, if_pos hcode]
  · rw [Opens, hrun, if_neg (by rw [hcode]; decide)]
    apply opens_look
    split
    · exact (opens_write (by decide)).then <| (framed_attributeValue _).then <|
        (framed_write _).then <| (framed_optionalAttribute _ _).then <|
          (framed_write _).then <| h.framed.then (framed_write _)
    · exact (opens_write (by decide)).then (h.framed.then (framed_linkTail _ _))

theorem Simulates.emphasis (h : Simulates body f) (style : Emphasis) (isEmpty : Bool) :
    Simulates (emphasis style isEmpty body) fun modes lead =>
      if isEmpty || modes.markdownCode then f modes lead else lead.mark := by
  cases isEmpty with
  | true =>
    refine ⟨h.framed.emphasis style true, h.settled, fun hopen hline hfollows hrun => ?_⟩
    exact h.follows hopen hline hfollows hrun
  | false =>
    have hrun (out : Output) : Markdown.emphasis style false body out =
        (if out.modes.markdownCode then body
        else do
          if ← usesHtml then
            write s!"<{emphasisTag style}>"
            body
            closeTag (emphasisTag style)
          else
            write (delimiter style)
            body
            write (delimiter style) : Render Unit) out := rfl
    refine h.unlessCode (h.framed.emphasis style false) (fun out hcode => ?_) fun out hcode => ?_
    · rw [hrun, if_pos hcode]
    · rw [Opens, hrun, if_neg (by rw [hcode]; decide)]
      apply opens_look
      split
      · exact (opens_write (by cases style <;> decide)).then (h.framed.then (framed_write _))
      · exact (opens_write (by cases style <;> decide)).then (h.framed.then (framed_write _))

theorem isEmpty_replaceChar (old c : Char) (s : String) :
    (replaceChar old (.singleton c) s).isEmpty = s.isEmpty := by
  rw [Bool.eq_iff_iff, String.isEmpty_iff, String.isEmpty_iff, ← String.toList_inj,
    ← String.toList_inj, replaceChar, String.toList_ofList]
  cases s.toList with
  | nil => simp
  | cons d rest => by_cases hd : d = old <;> simp [hd]

theorem simulates_codeSpan (content : String) : Simulates (codeSpan content) fun _ lead =>
    if content.isEmpty then lead else lead.mark := by
  have hempty : (replaceChar '\n' " " content).isEmpty = content.isEmpty :=
    isEmpty_replaceChar '\n' ' ' content
  unfold codeSpan
  dsimp only
  rw [hempty]
  split
  · exact simulates_done
  refine simulates_opens ((framed_look _).bind fun html => ?_) fun out _ => opens_look ?_
  · split
    · exact (framed_write _).then ((framed_writeEscaped _).then (framed_write _))
    · exact (framed_write _).then <| (framed_write _).then <|
        ((framed_writeEscaped _).withMode (by decide)).then <|
          (framed_write _).then (framed_write _)
  · split
    · exact (opens_write (by decide)).then ((framed_writeEscaped _).then (framed_write _))
    · exact (opens_ticks (Nat.succ_ne_zero _)).then <| (framed_write _).then <|
        ((framed_writeEscaped _).withMode (by decide)).then <|
          (framed_write _).then (framed_write _)

/-- What a block element writes behind its opening tag. -/
theorem framed_blockBody (h : Framed body) (tag : String) :
    Framed (do
      let start ← look fun out => out.text.length
      withMode .htmlBlock true body
      if ← look (brokenSince start) then ensureSkippedLine else pure ()
      closeTag tag
      ensureNewLine) := by
  refine (framed_look _).bind fun start => (h.withMode (by decide)).then <|
    (framed_look _).bind fun broken => ?_
  dsimp only
  split
  · exact framed_ensureSkippedLine.then ((framed_write _).then framed_ensureNewLine)
  · exact (framed_write _).then framed_ensureNewLine

theorem Simulates.element (h : Simulates body f) (tag : String) (attributes : Dict String) :
    Simulates (element tag attributes body) fun modes lead =>
      match Html.TagClass.ofTag tag with
      | .void | .inline => lead.mark
      | .block =>
        if attributes.isEmpty && Html.lowerAscii tag == "p" then
          f (lead.blockModes modes) lead.block
        else if modes.htmlBlock then lead.mark
        else lead.block.mark := by
  have hopen (selfClosing : Bool) (out : Output) : Opens (openTag tag attributes selfClosing) out :=
    opens_openTag tag attributes selfClosing
  have hframed (selfClosing : Bool) : Framed (openTag tag attributes selfClosing) :=
    framed_openTag tag attributes selfClosing
  have helement := h.framed.element tag attributes
  unfold Markdown.element at helement ⊢
  cases htag : Html.TagClass.ofTag tag with
  | void => exact simulates_opens (hframed true) fun out _ => hopen true out
  | inline =>
    exact simulates_begin (hopen false) (hframed false) (h.framed.then (framed_write _))
  | block =>
    have hbare := h.block
    have hinner : Simulates (do
        openTag tag attributes false
        withMode .htmlBlock true body
        closeTag tag) fun _ lead => lead.mark :=
      simulates_begin (hopen false) (hframed false)
        ((h.framed.withMode (by decide)).then (framed_write _))
    have houter : Simulates (blockElement tag attributes body) fun _ lead => lead.block.mark :=
      (simulates_begin (hopen false) (hframed false)
        (framed_blockBody h.framed tag)).block
    rw [htag] at helement
    refine ⟨helement, fun modes line isRule => ?_, fun hopen hline hfollows hrun => ?_⟩
    · dsimp only
      split
      · exact h.settled _ line isRule
      · split <;> rfl
    have hout := hfollows.unconstrained hopen hline
    obtain ⟨rfl, -, -⟩ := hfollows.agrees hopen
    dsimp only at hrun ⊢
    rw [bind_apply] at hrun
    simp only [constrained, look, hout, Bool.not_false, Bool.true_and, Bool.false_or] at hrun
    split at hrun
    · next hp =>
      rw [if_pos hp]
      exact hbare.follows hopen hline hfollows hrun
    next hp =>
    rw [if_neg hp]
    simp only [inMode, bind_apply, look, Modes.get] at hrun
    split at hrun
    · next hblock =>
      rw [if_pos hblock]
      exact hinner.follows hopen hline hfollows hrun
    · next hblock =>
      rw [if_neg hblock]
      exact houter.follows hopen hline hfollows hrun

end Simulates

section Tree
variable {o : Options}

theorem simulates_renderNodes {nodes : List Node}
    (h : ∀ n ∈ nodes, Simulates (render o n) fun modes lead => leadOf o modes n lead)
    (afterList : Bool) : Simulates (renderNodes o (pageHead o) afterList nodes) fun modes lead =>
      leadOver o modes afterList nodes lead := by
  induction nodes generalizing afterList with
  | nil => exact simulates_done
  | cons node rest ih =>
    obtain ⟨hnode, hrest⟩ := List.forall_mem_cons.1 h
    exact (simulates_separateLists _ _).then (hnode.then (ih hrest _))

/-- The abstract writer follows the rendering of every tree. -/
theorem simulates_render (node : Node) :
    Simulates (render o node) fun modes lead => leadOf o modes node lead := by
  have hnodes {children : List Node}
      (ih : ∀ n ∈ children, Simulates (render o n) fun modes lead => leadOf o modes n lead) :
      Simulates (render o (.group children)) fun modes lead =>
        leadOver o modes false children lead :=
    simulates_renderNodes ih false
  have hframed (children : List Node) : Framed (render o (.group children)) := framed_render _
  induction node with
  | text s => exact simulates_writeEscaped s
  | rule => exact simulates_rule
  | comment s persist =>
    rw [render, renderNode]
    simp only [leadOf]
    split
    · exact simulates_done
    · exact simulates_opens (framed_comment s) fun _ _ => opens_comment s
  | image src title alt =>
    exact simulates_opens (framed_image src title alt) fun _ _ => opens_image src title alt
  | code language s => exact simulates_codeBlock language s
  | notice => exact simulates_opens framed_notice fun _ _ => opens_notice
  | group children ih => exact hnodes ih
  | quote children ih => exact (hnodes ih).quote
  | element tag attributes children ih => exact (hnodes ih).element tag attributes
  | emphasis style children ih => exact (hnodes ih).emphasis style _
  | codeSpan children => exact simulates_codeSpan _
  | richCode language children ih =>
    rw [render, renderNode]
    split
    · exact simulates_linkedCode (hframed children) language
    · exact simulates_codeBlock _ _
  | link target destination title children ih => exact (hnodes ih).link _ title
  | paragraph children ih =>
    have hclass : Html.TagClass.ofTag "p" = .block := by decide +kernel
    have hbare : (Dict.isEmpty (∅ : Dict String) && Html.lowerAscii "p" == "p") = true := by
      decide +kernel
    have helement := (hnodes ih).element "p" ∅
    simp only [hclass, hbare, if_true] at helement
    exact helement
  | heading level anchor children ih => exact simulates_heading (hframed children) level anchor
  | list style items ih =>
    have hlist := Simulates.list (framed_renders (o := o) items) style
    rw [List.isEmpty_map] at hlist
    rw [render, renderNode, renderParts_eq_map]
    exact hlist
  | table header rows ihheader ihrows =>
    rw [render, renderNode, renderParts_eq_map, renderRows_eq_map]
    exact simulates_table (framed_renders header) (framed_rows rows)
  | collapsible summary children ihsummary ih =>
    exact simulates_collapsible (framed_render summary) (hframed children)
  | page metadata children ih =>
    have hhead (out : Output) : Opens (pageHead o metadata) out := by
      refine opens_notice.then (((framed_writeEscaped _).heading 1 none).then ?_)
      split
      · exact framed_pure ()
      · exact framed_renderNode (fun _ => framed_pure ()) _
    exact simulates_begin hhead (framed_pageHead metadata)
      ((hframed children).then framed_ensureNewLine)

end Tree

end Render

end DocTree.Markdown
