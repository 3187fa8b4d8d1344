import DocTree.Proofs.Leading

/-! Where the content of an item begins. A reader takes what is indented under a marker for the
content of the item only if it begins on the line of the marker or on the next one, and only if the
line of the marker is not a rule. What the item shows first decides both. -/
namespace DocTree.Markdown
open Text Render Layout

/-- A line without content begins behind a line break, and no indentation breaks a line. -/
structure Output.Tidy (out : Output) : Prop where
  lined : out.Lined
  oneLine : ∀ indent ∈ out.buffer.indents, OneLine indent

theorem tidy_start : ({} : Output).Tidy := ⟨fun _ => .inl rfl, by simp⟩

namespace Output.Tidy
variable {out : Output}

theorem wrote (h : out.Tidy) (s : String) : (out.wrote s).Tidy :=
  ⟨Buffer.Lined.write h.lined s, (out.buffer.extends_write s).indents ▸ h.oneLine⟩

theorem skipped (h : out.Tidy) : out.skipped.Tidy :=
  ⟨Buffer.Lined.ensureSkippedLine h.lined,
    out.buffer.extends_ensureSkippedLine.indents ▸ h.oneLine⟩

theorem pushIndent (h : out.Tidy) (indent : String) (hindent : OneLine indent) :
    { out with buffer := out.buffer.pushIndent indent }.Tidy :=
  ⟨h.lined, List.forall_mem_cons.2 ⟨hindent, h.oneLine⟩⟩

end Output.Tidy

instance : Maintained Output.Tidy where
  wrote s h := h.wrote s
  skipped h := h.skipped
  begun h := ⟨h.skipped.lined, h.skipped.oneLine⟩
  inItem style position h _ :=
    have hpushed := (h.wrote (marker style position)).pushIndent _ (oneLine_spaces _)
    ⟨hpushed.lined, hpushed.oneLine⟩
  inQuote h _ := by
    unfold Output.inQuote
    split
    · exact ⟨h.lined, List.forall_mem_cons.2 ⟨by decide, h.oneLine⟩⟩
    · have hpushed := (h.wrote "> ").pushIndent "> " (by decide)
      exact ⟨hpushed.lined, hpushed.oneLine⟩
  entered _ h := ⟨h.lined, h.oneLine⟩
  left hbefore h hindents :=
    ⟨h.lined, fun indent hmem => hbefore.oneLine indent (by rwa [← hindents])⟩

/-- The start of an item, where nothing has been shown yet. -/
def itemPlace (style : ListStyle) : Place where
  begun := true
  afterBlank := false
  fresh := true
  plain := style = .unordered

/-- How far a writer has come behind an item, from behind its marker. -/
def itemLead (o : Options) (modes : Modes) (style : ListStyle) (item : Node) : Lead :=
  (leadOf o ((modes.set .htmlBlock false).set .listItem true) item
    (.quiet (itemPlace style))).closed

section Items
variable {P : Output → Prop} {o : Options} {style : ListStyle} {before after items : List Node}
  {item : Node} {position : Nat} {out out' : Output}

/-- What a list begins with is kept as what it writes is. -/
theorem Maintained.atList [Maintained P] (h : P out) (style : ListStyle) : P (out.atList style) := by
  unfold Output.atList
  split
  · exact Maintained.closed h
  · exact Maintained.skipped h

theorem maintained_markedItem [Maintained P] (h : P out)
    (hrun : markedItem style position (render o item) out = (.ok (), out')) : P out' := by
  have hitem (mid : Output) (hmid : P mid) : Agrees P (render o item) (render o item) mid :=
    ⟨rfl, maintained_render o item hmid, (framed_render item mid).buffer.indents⟩
  have hkept := (agrees_markedItem h hitem style position).kept
  rwa [hrun] at hkept

/-- An item begins on a line of its own. -/
theorem markedItem_closes (hrun : markedItem style position (render o item) out = (.ok (), out')) :
    out.closed.Extends out' := by
  have hinner : Framed (withMode .listItem true do markFresh; render o item) :=
    (framed_markFresh.then (framed_render item)).withMode (by decide)
  obtain ⟨_, start, hline, hrest⟩ := bind_eq_ok hrun
  obtain rfl := ensureNewLine_ok hline
  exact ((framed_write _).then (hinner.withIndent (oneLine_spaces _))).of_eq hrest

/-- Behind items the line is ended, whatever comes next. -/
theorem markedItems_closes
    (h : (do markedItems style position (items.map (render o)); ensureNewLine) out =
      (.ok (), out')) : out.closed.Extends out' := by
  cases items with
  | nil => exact ensureNewLine_ok h ▸ .refl _
  | cons item rest =>
    rw [List.map_cons, markedItems_cons, bind_assoc] at h
    obtain ⟨_, mid, hmid, hrest⟩ := bind_eq_ok h
    have hframed := (framed_markedItems (framed_renders (o := o) rest) style (position + 1)).then
      framed_ensureNewLine
    exact (markedItem_closes hmid).trans (hframed.of_eq hrest)

/-- In a list that is written, each item has been run from behind its marker, and a line break stands
behind what it has written. -/
theorem markedItems_item [Maintained P] (hout : P out)
    (h : (do markedItems style position ((before ++ item :: after).map (render o)); ensureNewLine)
      out = (.ok (), out')) :
    ∃ mid last, P mid ∧ out.closed.buffer.Extends False mid.closed.buffer ∧
      (before = [] → mid = out) ∧
      render o item { mid.closed.inItem style (position + before.length) with
        modes := out.modes.set .listItem true } = (.ok (), last) ∧
      ∃ rest, out'.text.toList = last.closed.text.toList ++ rest := by
  induction before generalizing position out with
  | nil =>
    rw [List.nil_append, List.map_cons, markedItems_cons, bind_assoc] at h
    obtain ⟨_, mid, hmid, hrest⟩ := bind_eq_ok h
    obtain ⟨last, hlast, rfl⟩ := markedItem_ok (framed_render item) hmid
    obtain ⟨rest, htext, -⟩ := (markedItems_closes hrest).buffer.text
    refine ⟨out, last, hout, .refl _, fun _ => rfl, hlast, rest.toList, ?_⟩
    have hclosed : last.buffer.popIndent.ensureNewLine.text = last.buffer.ensureNewLine.text :=
      last.buffer.popIndent_ensureNewLine
    rw [Output.text, htext, String.toList_append]
    exact congrArg (·.toList ++ rest.toList) hclosed
  | cons first before ih =>
    rw [List.cons_append, List.map_cons, markedItems_cons, bind_assoc] at h
    obtain ⟨_, start, hstart, hrun⟩ := bind_eq_ok h
    have hcloses := markedItem_closes hstart
    obtain ⟨mid, last, hmid, hextends, -, hlast, hend⟩ := ih (maintained_markedItem hout hstart) hrun
    have hbetween : out.closed.buffer.Extends False mid.closed.buffer :=
      (hcloses.buffer.mono False.elim).trans
        (start.buffer.extends_ensureNewLine.trans hextends)
    rw [hcloses.modes] at hlast
    rw [List.length_cons, Nat.add_comm before.length, ← Nat.add_assoc]
    exact ⟨mid, last, hmid, hbetween, fun hnil => absurd hnil (List.cons_ne_nil _ _), hlast, hend⟩

/-- Behind the marker of an item, at the start of its content. -/
def itemStand (line : Output) (hline : line.Tidy) (style : ListStyle) (position : Nat) : Stand where
  front := line.text.toList ++ (line.buffer.indent ++ marker style position).toList
  marker := some (marker style position).toList
  indents := .ofList (List.replicate (marker style position).length ' ') :: line.buffer.indents
  margin := 0
  oneLine := List.forall_mem_cons.2 ⟨oneLine_spaces _, hline.oneLine⟩

theorem isRule_ordered (start : UInt32) (position : Nat) (cs : List Char) :
    ¬ IsRule ((marker (.ordered start) position).toList ++ cs) := by
  obtain ⟨c, rest, hmarker, ⟨hstyle, -⟩ | hdigit⟩ := exists_marker_head (.ordered start) position
  · cases hstyle
  rintro ⟨-, hall⟩
  have hc := hall c (by rw [hmarker]; exact List.mem_cons_self)
  obtain rfl | rfl := hc <;> cases hdigit

theorem text_inItem (hstart : out.buffer.atLineStart) : (out.inItem style position).text =
    out.text ++ (out.buffer.indent ++ marker style position) := by
  rw [← String.append_assoc]
  exact Buffer.text_write_atStart hstart (oneLine_marker style position)
    (marker_ne_nil style position)

theorem quiet_inItem (hline : out.Tidy) (hstart : out.buffer.atLineStart) (modes : Modes) :
    (itemStand out hline style position).Quiet modes (itemPlace style)
      { out.inItem style position with modes := modes } := by
  refine ⟨rfl, rfl, ?_, nofun, ⟨0, ?_, by simp [itemPlace]⟩, nofun, fun hplain => ?_, [], ?_,
    fun more => ?_, ?_⟩
  · exact out.buffer.begun_write (oneLine_marker style position) (marker_ne_nil style position)
  · exact congrArg _ (out.buffer.extends_write _).indents
  · obtain rfl : style = .unordered := of_decide_eq_true hplain
    have hdash : (marker .unordered position).toList = ['-', ' '] := by
      rw [marker]
      rfl
    exact ⟨rfl, rfl, congrArg some hdash⟩
  · rw [List.append_nil, itemStand, ← String.toList_append]
    exact congrArg String.toList (text_inItem hstart)
  · rw [List.nil_append, itemPlace, if_pos rfl, Stand.line?, itemStand]
  · split
    · simp
    · next hplain =>
      intro more
      cases style with
      | unordered => exact absurd rfl hplain
      | ordered start =>
        rw [List.nil_append, Stand.isRule, itemStand, Option.any_some]
        exact decide_eq_false (isRule_ordered start position _)

theorem indents_atList (out : Output) (style : ListStyle) :
    (out.atList style).buffer.indents = out.buffer.indents := by
  unfold Output.atList
  split
  · exact out.buffer.extends_ensureNewLine.indents
  · exact out.buffer.extends_ensureSkippedLine.indents

theorem width_itemStand (hline : out.Tidy) : (itemStand out hline style position).width =
    (out.buffer.indent ++ marker style position).length := by
  rw [Stand.width, Stand.indent, itemStand, List.reverse_cons, String.join_append,
    ← Buffer.indent_eq_join, String.length_append]
  simp [← String.length_toList]

/-- From behind its marker and the text `front`, the item of a list has written `written` to the end
of its last line. -/
def WritesItem (o : Options) (style : ListStyle) (position : Nat) (item : Node) (st out : Output)
    (front written : List Char) : Prop :=
  ∃ start last : Output,
    start.text.toList = front ++ (st.buffer.indent ++ marker style position).toList ∧
    render o item start = (.ok (), last) ∧
    last.closed.text.toList = start.text.toList ++ written ∧
    ∃ rest, out.text.toList = start.text.toList ++ written ++ rest

variable {tree : Node} {path : List (Node × Output)} {st : Output}

/-- The items of a list begin at the start of a line, where everything holds that is kept. -/
theorem exists_item [Maintained P] (hst : P st) (htidy : ∀ {mid : Output}, P mid → mid.Tidy)
    (hline : st.constrained = false)
    (hrun : render o (.list style (before ++ item :: after)) st = (.ok (), out)) :
    ∃ (line : Output) (written : List Char), P line ∧ line.buffer.atLineStart ∧
      (before = [] → line.text = (st.atList style).text) ∧
      WritesItem o style before.length item st out line.text.toList written ∧
      contentLine (st.buffer.indent ++ marker style before.length).length 0 0 written =
        (itemLead o st.modes style item).line? ∧
      (IsRule ((marker style before.length).toList ++ written.takeWhile (· ≠ '\n')) ↔
        (itemLead o st.modes style item).isRule) := by
  rw [render, renderNode, renderParts_eq_map] at hrun
  obtain ⟨behind, hbehind, rfl⟩ := list_ok hline (framed_renders _) hrun
  let first : Output := { st.atList style with modes := st.modes.set .htmlBlock false }
  have hfirst : P first := Maintained.entered _ (Maintained.atList hst style)
  obtain ⟨mid, last, hmid, hextends, honly, hlast, rest, hrest⟩ := markedItems_item hfirst hbehind
  rw [Nat.zero_add] at hlast
  let line : Output := mid.closed
  have hkept : P line := Maintained.closed hmid
  have hatStart : line.buffer.atLineStart = true := mid.buffer.atLineStart_ensureNewLine
  have hindent : line.buffer.indent = st.buffer.indent := by
    refine Buffer.indent_congr (hextends.indents.trans ?_)
    exact ((st.atList style).buffer.extends_ensureNewLine.indents).trans (indents_atList st style)
  let modes : Modes := (st.modes.set .htmlBlock false).set .listItem true
  have hinside : modes.constrained = false := hline
  have hquiet : (itemStand line (htidy hkept) style before.length).Follows modes
      (.quiet (itemPlace style)) { line.inItem style before.length with modes := modes } :=
    quiet_inItem (htidy hkept) hatStart modes
  have hfollows := ((simulates_render item).run hinside hquiet hlast).closed
  obtain ⟨written, htext, hread, hrule⟩ := hfollows.read (Lead.closed_ne_dashed _)
  have hmarked : line.text ++ (st.buffer.indent ++ marker style before.length) =
      (line.inItem style before.length).text := by rw [text_inItem hatStart, hindent]
  have hend : last.closed.text.toList =
      (line.inItem style before.length).text.toList ++ written := by
    rw [htext, text_inItem hatStart, String.toList_append]
    rfl
  refine ⟨line, written, hkept, hatStart, fun hnone => ?_, ⟨_, last, ?_, hlast, hend, rest, ?_⟩, ?_,
    ?_⟩
  · rw [show line = mid.closed from rfl, honly hnone,
      first.closed_atStart (st.atLineStart_atList style)]
    rfl
  · rw [← String.toList_append, hmarked]
    rfl
  · exact hrest.trans (congrArg (· ++ rest) hend)
  · rw [← hindent, ← width_itemStand (htidy hkept)]
    exact hread
  · rw [itemLead, ← hrule, Stand.isRule, itemStand, Option.any_some, decide_eq_true_iff]

theorem Output.Tidy.breaks (h : out.Tidy) (hstart : out.buffer.atLineStart) :
    out.text.toList = [] ∨ ∃ above, out.text.toList = above ++ ['\n'] := by
  obtain hempty | ⟨above, habove⟩ := h.lined (Buffer.atLineStart_iff.1 hstart)
  · exact .inl (String.toList_eq_nil_iff.2 hempty)
  · refine .inr ⟨above.toList, ?_⟩
    rw [Output.text, habove, String.toList_append]
    rfl

/-- An item is written behind its marker, on a line of its own. The line of its first content,
counted from that of the marker, and whether the latter is a rule, are what `itemLead` says. -/
theorem item_start (hpath : Path o (tree, {}) path (.list style (before ++ item :: after), st))
    (hline : st.constrained = false)
    (hrun : render o (.list style (before ++ item :: after)) st = (.ok (), out)) :
    ∃ front written, WritesItem o style before.length item st out front written ∧
      (front = [] ∨ ∃ above, front = above ++ ['\n']) ∧
      contentLine (st.buffer.indent ++ marker style before.length).length 0 0 written =
        (itemLead o st.modes style item).line? ∧
      (IsRule ((marker style before.length).toList ++ written.takeWhile (· ≠ '\n')) ↔
        (itemLead o st.modes style item).isRule) := by
  have htidy : st.Tidy := hpath.maintained (P := Output.Tidy) tidy_start
  obtain ⟨line, written, hkept, hstart, -, hwrites, hread, hrule⟩ :=
    exists_item htidy id hline hrun
  exact ⟨_, written, hwrites, hkept.breaks hstart, hread, hrule⟩

end Items

/-- Nothing, a space and a rule. -/
def ruledItem : Node := .group [.emphasis .bold [], .text " ", .rule]

/-- A list in a quote in a list. -/
def quotedList : Node :=
  .list (.ordered 3) [.text "a", .quote [.list .unordered [.text "b", ruledItem, .text "c"]]]

/-- The output behind the marker of the quote. -/
def atQuote : Output where
  buffer := { text := "\n3. a\n4. ", indents := ["   "], content := some "4. " }
  modes := { listItem := true }
  fresh := true

/-- The output behind the mark of the quote. -/
def atRuled : Output where
  buffer := { text := "\n3. a\n4. > ", indents := ["> ", "   "], content := some "4. > " }
  modes := { listItem := true }
  fresh := true

/-- The output behind the list in the quote. -/
def behindRuled : Output where
  buffer := {
    text := "\n3. a\n4. > \n   > - b\n   > -  ---\n   > - c\n", indents := ["> ", "   "] }
  modes := { listItem := true }

theorem item_start_ruled :
    ∃ path, Path {} (quotedList, {}) path
        (.list .unordered ([.text "b"] ++ ruledItem :: [.text "c"]), atRuled) ∧
      ∃ front written rest : List Char, behindRuled.text.toList =
          front ++ "   > - ".toList ++ written ++ rest ∧
        contentLine 7 0 0 written = some 0 ∧
        IsRule ("- ".toList ++ written.takeWhile (· ≠ '\n')) := by
  let inner : Node := .list .unordered ([.text "b"] ++ ruledItem :: [.text "c"])
  have hitem : Part {} quotedList (.quote [inner]) _ :=
    .item (.ordered 3) [.text "a"] (.quote [inner]) []
  have hinside : Part {} (.quote [inner]) inner _ := .quote [] inner []
  have hquote : LeadsTo {} (quotedList, {}) (.quote [inner], atQuote) :=
    ⟨_, hitem, (hitem.carries {}).runsAt_of_probe (by decide +kernel) (by decide +kernel)⟩
  have hlist : LeadsTo {} (.quote [inner], atQuote) (inner, atRuled) :=
    ⟨_, hinside, (hinside.carries atQuote).runsAt_of_probe (by decide +kernel) (by decide +kernel)⟩
  have hpath := Path.cons hquote (.cons hlist (.nil _))
  have hrun : render {} inner atRuled = (.ok (), behindRuled) := by decide +kernel
  obtain ⟨front, written, ⟨start, last, hstart, -, -, rest, hout⟩, -, hline, hrule⟩ :=
    item_start hpath rfl hrun
  have hlead : (itemLead {} atRuled.modes .unordered ruledItem).line? = some 0 ∧
      (itemLead {} atRuled.modes .unordered ruledItem).isRule = true := by decide +kernel
  refine ⟨_, hpath, front, written, rest, ?_, ?_, ?_⟩
  · rw [hout, hstart]
    rfl
  · exact hline.trans hlead.1
  · exact hrule.2 hlead.2

/-- A table begins two lines behind the marker, and a rule makes one of the line of the marker. -/
theorem renderRaw_lateStart :
    (renderRaw {} (.list .unordered [.table [.text "a"] []]) =
        .ok "\n- \n\n  | a |\n  | --- |\n" ∧
      contentLine 2 0 0 "\n\n  | a |\n  | --- |\n".toList = some 2) ∧
    renderRaw {} (.list .unordered [.rule]) = .ok "\n- ---\n" ∧ IsRule "- ---".toList :=
  ⟨⟨by decide +kernel, by decide +kernel⟩, by decide +kernel, by decide +kernel⟩

end DocTree.Markdown
