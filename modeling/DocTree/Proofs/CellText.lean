import DocTree.Proofs.Bars
import DocTree.Proofs.Frame

/-! What stands in a cell of a Markdown table. Every step adds a text without a line break, and a
count goes with it: how many times the text ends the cell, whatever is written behind it. -/
namespace DocTree.Markdown
open Text

/-- On a line that has begun, outside code and attributes; in a cell if `cell` holds. -/
structure Output.Inside (cell : Bool) (out : Output) : Prop where
  begun : out.buffer.atLineStart = false
  markdownCode : out.modes.markdownCode = false
  preformatted : out.modes.preformatted = false
  htmlAttribute : out.modes.htmlAttribute = false
  markdown : cell → out.modes.table ∧ out.modes.inlineMarkdown

/-- Writing on a line that has begun stays on it. -/
theorem Output.Inside.congr {cell : Bool} {out out' : Output} (hin : out.Inside cell)
    (hmodes : out'.modes = out.modes) (hbegun : out'.buffer.atLineStart = false) :
    out'.Inside cell := by
  refine ⟨hbegun, ?_, ?_, ?_, ?_⟩ <;> rw [hmodes]
  · exact hin.markdownCode
  · exact hin.preformatted
  · exact hin.htmlAttribute
  · exact hin.markdown

theorem Output.Inside.constrained {out : Output} (hin : out.Inside true) : out.constrained = true :=
  Output.constrained_of_table (hin.markdown rfl).1

namespace Render
variable {cell : Bool} {P Q R : List Char → Prop} {steps next : Render Unit} {m n : Nat}

/-- If the steps succeed on a line that has begun, they stay on it and what they add satisfies
`Q`. -/
def Adds (cell : Bool) (Q : List Char → Prop) (steps : Render Unit) : Prop :=
  ∀ out out' : Output, out.Inside cell → steps out = (.ok (), out') →
    out'.Inside cell ∧ ∃ added, out'.text = out.text ++ added ∧ OneLine added ∧ Q added.toList

theorem Adds.mono (h : Adds cell P steps) (hpq : ∀ cs, P cs → Q cs) : Adds cell Q steps := by
  intro out out' hin hok
  obtain ⟨hin', added, htext, hline, hp⟩ := h out out' hin hok
  exact ⟨hin', added, htext, hline, hpq _ hp⟩

theorem adds_pure (h : Q []) : Adds cell Q (pure ()) := by
  rintro out _ hin ⟨⟩
  exact ⟨hin, "", by simp, by decide, h⟩

theorem Adds.seq (h : Adds cell P steps) (hnext : Adds cell Q next)
    (hr : ∀ cs ds, P cs → Q ds → R (cs ++ ds)) : Adds cell R (do steps; next) := by
  intro out out' hin hok
  obtain ⟨_, mid, hmid, hout'⟩ := bind_eq_ok hok
  obtain ⟨hinmid, s, hs, hsline, hp⟩ := h out mid hin hmid
  obtain ⟨hin', t, ht, htline, hq⟩ := hnext mid out' hinmid hout'
  refine ⟨hin', s ++ t, by rw [ht, hs, String.append_assoc], oneLine_append.2 ⟨hsline, htline⟩, ?_⟩
  rw [String.toList_append]
  exact hr _ _ hp hq

theorem Adds.then (h : Adds cell (Delimits m) steps) (hnext : Adds cell (Delimits n) next) :
    Adds cell (Delimits (m + n)) (do steps; next) :=
  h.seq hnext fun _ _ => Delimits.append

/-- What a successful write does to a line that has begun. -/
theorem write_begun {s : String} {out out' : Output} (hout : out.buffer.atLineStart = false)
    (h : out.constrained ∨ OneLine s) (hok : write s out = (.ok (), out')) :
    out'.modes = out.modes ∧ out'.buffer.atLineStart = false ∧ out'.text = out.text ++ s ∧
      OneLine s := by
  obtain ⟨content, hcontent⟩ := Layout.Buffer.exists_content hout
  unfold write at hok
  split at hok
  · cases hok
  · next hfits =>
    have hs : OneLine s := h.elim (fun hc => by simpa [hc, OneLine] using hfits) id
    cases hok
    rw [Output.text, Layout.Buffer.write_begun hcontent hs]
    exact ⟨rfl, rfl, rfl, hs⟩

theorem adds_write {s : String} (h : cell ∨ OneLine s) : Adds cell (· = s.toList) (write s) := by
  intro out out' hin hok
  have hfits : out.constrained ∨ OneLine s :=
    h.imp_left fun hcell => Output.constrained_of_table (hin.markdown hcell).1
  obtain ⟨hmodes, hbegun, htext, hs⟩ := write_begun hin.begun hfits hok
  exact ⟨hin.congr hmodes hbegun, s, htext, hs, rfl⟩

theorem adds_plain {s : String} (h : s.toList.all isPlain) : Adds cell (Delimits 0) (write s) :=
  (adds_write (.inr (oneLine_of_plain h))).mono fun _ heq => heq ▸ delimits_plain h

/-- Escaped text in a cell, written under modes that are taken back. -/
theorem adds_escaped (s : String) (change : Modes → Modes)
    (htable : ∀ modes, (change modes).table = modes.table)
    (hsteps : ∀ out : Output, steps out =
      ((writeEscaped s { out with modes := change out.modes }).1,
        { (writeEscaped s { out with modes := change out.modes }).2 with modes := out.modes }))
    (hQ : ∀ out : Output, out.Inside true →
      Q ((Output.escapeContext { out with modes := change out.modes }).escape s).toList) :
    Adds true Q steps := by
  intro out out' hin hok
  let changed : Output := { out with modes := change out.modes }
  have hfits : changed.constrained :=
    Output.constrained_of_table ((htable out.modes).trans (hin.markdown rfl).1)
  rw [hsteps] at hok
  obtain ⟨hfirst, rfl⟩ := Prod.mk.inj hok
  have hwrite : writeEscaped s changed = (.ok (), (writeEscaped s changed).2) := Prod.ext hfirst rfl
  obtain ⟨_, hbegun, htext, hs⟩ := write_begun (by exact hin.begun) (.inl hfits) hwrite
  exact ⟨hin.congr rfl hbegun, _, htext, hs, hQ out hin⟩

theorem adds_writeEscaped (s : String) : Adds true (Delimits 0) (writeEscaped s) := by
  refine adds_escaped s id (fun _ => rfl) (fun out => ?_) fun out hin => ?_
  · exact Prod.ext rfl (congrArg (fun modes => { (writeEscaped s out).2 with modes := modes })
      (framed_writeEscaped s out).modes)
  · obtain ⟨htable, hmarkdown⟩ := hin.markdown rfl
    refine EscapeContext.delimits_escape htable ?_ s
    simp [EscapeContext.isMarkdown, Output.escapeContext, hmarkdown, hin.markdownCode,
      hin.preformatted, hin.htmlAttribute]

/-- Text that gets backslashes before bars but not before backslashes, between plain ones. -/
def Exposes (n : Nat) (cs : List Char) : Prop :=
  ∀ c rest, isPlain c → delimiters (cs ++ c :: rest) = n + delimiters rest

theorem Exposes.between {before inside after : List Char} (h : Exposes n inside)
    (hb : before.all isPlain) (ha : after.all isPlain) (hne : after ≠ []) :
    Delimits n (before ++ (inside ++ after)) := by
  obtain ⟨c, ds, rfl⟩ := List.exists_cons_of_ne_nil hne
  have hc : isPlain c := (List.all_eq_true.1 ha) c (List.mem_cons_self ..)
  have hbefore := delimits_plain hb
  have hafter := delimits_plain ha
  intro rest
  rw [List.append_assoc, hbefore, List.append_assoc, List.cons_append, h c _ hc, Nat.zero_add]
  have hrest := hafter rest
  rw [List.cons_append, delimiters, barsFrom_plain hc, Nat.zero_add] at hrest
  rw [delimiters, hrest]

theorem adds_codeText (code : String) :
    Adds true (Exposes (exposedBars code.toList))
      (withMode .markdownCode true (writeEscaped code)) := by
  refine adds_escaped code (·.set .markdownCode true) (fun _ => rfl)
    (fun out => (framed_writeEscaped code).withMode_apply _ _ out) fun out hin c rest hc => ?_
  exact EscapeContext.barsFrom_escape (hin.markdown rfl).1
    (by simp [EscapeContext.isMarkdown, Output.escapeContext, Modes.set]) code hc rest

theorem adds_attributeValue (value : String) :
    Adds true (Exposes (exposedBars value.toList)) (attributeValue value) := by
  refine adds_escaped value Modes.inAttribute (fun _ => rfl) (attributeValue_eq value)
    fun out hin c rest hc => ?_
  exact EscapeContext.barsFrom_escape (hin.markdown rfl).1
    (by simp [EscapeContext.isMarkdown, Output.escapeContext, Modes.inAttribute, Modes.set]) value hc
    rest

theorem Adds.append (h : Adds cell P steps) (hnext : Adds cell Q next) :
    Adds cell (fun cs => ∃ x y, P x ∧ Q y ∧ cs = x ++ y) (do steps; next) :=
  h.seq hnext fun x y hx hy => ⟨x, y, hx, hy, rfl⟩

/-- The bars that the attributes of a tag let through. -/
def attributeBars (attributes : List (String × String)) : Nat :=
  total (fun e => delimiters e.1.toList + exposedBars e.2.toList) attributes

/-- Attributes, with something plain behind them, whatever stands before them. -/
def Separates (n : Nat) (cs : List Char) : Prop :=
  ∀ odd c rest, isPlain c → barsFrom false odd (cs ++ c :: rest) = n + delimiters rest

theorem separates_nil : Separates 0 [] := fun _ _ rest hc => by
  rw [List.nil_append, barsFrom_plain hc, Nat.zero_add, delimiters]

theorem separates_attribute {name : String} {value more : List Char} (hvalue : Exposes m value)
    (hmore : Separates n more) :
    Separates (delimiters name.toList + m + n)
      (" ".toList ++ (name.toList ++ ("=\"".toList ++ (value ++ ("\"".toList ++ more))))) := by
  intro odd c rest hc
  have hrest : delimiters (value ++ '"' :: (more ++ c :: rest)) = m + (n + delimiters rest) := by
    rw [hvalue '"' _ (by decide)]
    exact congrArg _ (hmore false c rest hc)
  calc barsFrom false odd _
      = barsFrom false odd (' ' :: (name.toList ++ '=' :: '"' :: (value ++ '"' :: (more ++ c :: rest)))) := by
        simp
    _ = delimiters name.toList + barsFrom false false ('"' :: (value ++ '"' :: (more ++ c :: rest))) := by
        rw [barsFrom_plain (by decide), barsFrom_append_plain (by decide)]
        rfl
    _ = delimiters name.toList + (m + (n + delimiters rest)) := by
        rw [barsFrom_plain (by decide), ← hrest]
        rfl
    _ = delimiters name.toList + m + n + delimiters rest := by omega

theorem adds_attributeList (attributes : List (String × String)) :
    Adds true (Separates (attributeBars attributes)) (attributeList attributes) := by
  induction attributes with
  | nil => exact adds_pure separates_nil
  | cons e rest ih =>
    have hsteps := (adds_write (s := " ") (.inl rfl)).append <|
      (adds_write (s := e.1) (.inl rfl)).append <| (adds_write (s := "=\"") (.inl rfl)).append <|
      (adds_attributeValue e.2).append <| (adds_write (s := "\"") (.inl rfl)).append ih
    refine hsteps.mono ?_
    rintro _ ⟨_, _, rfl, ⟨_, _, rfl, ⟨_, _, rfl, ⟨value, _, hvalue, ⟨_, more, rfl, hmore, rfl⟩, rfl⟩,
      rfl⟩, rfl⟩, rfl⟩
    exact separates_attribute hvalue hmore

/-- An opening tag lets the bars of its names and of its values through. -/
theorem adds_openTag (tag : String) (attributes : Dict String) (selfClosing : Bool) :
    Adds true (Delimits (delimiters tag.toList + attributeBars attributes.entries))
      (openTag tag attributes selfClosing) := by
  have hsteps := (adds_write (s := "<") (.inl rfl)).append <|
    (adds_write (s := tag) (.inl rfl)).append <| (adds_attributeList attributes.entries).append <|
    adds_write (s := if selfClosing then "/>" else ">") (.inl rfl)
  refine hsteps.mono ?_
  rintro _ ⟨_, _, rfl, ⟨_, _, rfl, ⟨names, _, hnames, rfl, rfl⟩, rfl⟩, rfl⟩ rest
  have hclose : ∃ c close, (if selfClosing then "/>" else ">").toList = c :: close ∧ isPlain c ∧
      close.all isPlain := by
    cases selfClosing with
    | false => exact ⟨'>', [], rfl, by decide, rfl⟩
    | true => exact ⟨'/', ['>'], rfl, by decide, by decide⟩
  obtain ⟨c, close, heq, hc, hplain⟩ := hclose
  have hrest (odd : Bool) : barsFrom false odd (names ++ c :: (close ++ rest)) =
      attributeBars attributes.entries + delimiters rest := by
    rw [hnames odd c _ hc, delimits_plain hplain, Nat.zero_add]
  calc delimiters _ = delimiters ('<' :: (tag.toList ++ (names ++ c :: (close ++ rest)))) := by
        simp [heq]
    _ = delimiters tag.toList + (attributeBars attributes.entries + delimiters rest) := by
        rw [delimiters, barsFrom_plain (by decide), barsFrom_append hrest]
        rfl
    _ = _ := (Nat.add_assoc ..).symm

theorem adds_closeTag (tag : String) :
    Adds true (Delimits (delimiters tag.toList)) (closeTag tag) := by
  refine (adds_write (.inl rfl)).mono ?_
  rintro _ rfl
  rw [String.toList_append, String.toList_append]
  exact delimits_between _ _ _ (by decide) (by decide) (by decide)

variable {body : Render Unit}

/-- Steps in a cell that look at the output first. -/
theorem adds_look {α : Type} {view : Output → α} {next : α → Render Unit}
    (h : ∀ out : Output, out.Inside true → Adds true Q (next (view out))) :
    Adds true Q (look view >>= next) := fun out out' hin hok => h out hin out out' hin hok

theorem adds_fail (error : RenderError) : Adds cell Q (fail error) := by
  intro out out' _ hok
  cases hok

/-- Steps in a mode that makes no difference to a line. -/
theorem Adds.withMode (h : Adds true Q steps) {mode : Mode} {value : Bool}
    (hmode : mode ∈ [.htmlBlock, .singleLineCode]) :
    Adds true Q (withMode mode value steps) := by
  have hkeep (modes : Modes) (v : Bool) : (modes.set mode v).table = modes.table ∧
      (modes.set mode v).markdownCode = modes.markdownCode ∧
      (modes.set mode v).preformatted = modes.preformatted ∧
      (modes.set mode v).htmlAttribute = modes.htmlAttribute ∧
      (modes.set mode v).inlineMarkdown = modes.inlineMarkdown := by
    cases mode <;> simp_all [Modes.set]
  have hinside {out : Output} (hin : out.Inside true) (v : Bool) :
      Output.Inside true { out with modes := out.modes.set mode v } := by
    obtain ⟨ht, hc, hp, ha, hi⟩ := hkeep out.modes v
    exact ⟨hin.begun, hc ▸ hin.markdownCode, hp ▸ hin.preformatted, ha ▸ hin.htmlAttribute,
      fun hcell => ht ▸ hi ▸ hin.markdown hcell⟩
  intro out out' hin hok
  obtain ⟨hfirst, rfl⟩ := Prod.mk.inj hok
  obtain ⟨hin', hadded⟩ := h _ _ (hinside hin value) (Prod.ext hfirst rfl)
  exact ⟨hinside hin' _, hadded⟩

/-- In a cell every construct is written in its form for a single line. -/
theorem Adds.ifConstrained (h : Adds true Q steps) :
    Adds true Q (do if ← constrained then steps else next) := by
  refine adds_look fun out hin => ?_
  rwa [if_pos hin.constrained]

/-- In a cell links, emphasis and code spans are written as Markdown. -/
theorem Adds.unlessHtml (h : Adds true Q next) :
    Adds true Q (do if ← usesHtml then steps else next) := by
  refine adds_look fun out hin => ?_
  rwa [(hin.markdown rfl).1, Bool.not_true, Bool.and_false, if_neg Bool.false_ne_true]

theorem Adds.unlessCode (h : Adds true Q next) :
    Adds true Q (do if ← inMode .markdownCode then steps else next) := by
  refine adds_look fun out hin => ?_
  rwa [Modes.get, hin.markdownCode, if_neg Bool.false_ne_true]

theorem adds_linkTail (destination : String) (title : Option String) :
    Adds true (Delimits 0) (linkTail destination title) := by
  have hopen : Adds true (Delimits 0) (write "](") := adds_plain (by decide)
  refine hopen.then (n := 0) <| adds_look fun out hin => ?_
  have htable : out.modes.get .table = true := (hin.markdown rfl).1
  have hdestination : delimiters (escapeDestination destination true).toList = 0 :=
    delimiters_escapeDestination destination
  rw [htable]
  generalize escapeDestination destination true = d at hdestination ⊢
  have hd : Adds true (· = d.toList) (write d) := adds_write (.inl rfl)
  have hend : Adds true (· = [')']) (write ")") := adds_write (.inl rfl)
  cases title with
  | none =>
    refine (hd.append hend).mono ?_
    rintro _ ⟨_, _, rfl, rfl, rfl⟩
    -- A destination may end in a backslash, so it counts only with what is written behind it.
    have hclose : Delimits 0 [')'] := delimits_plain (by decide)
    have h := hclose.behind (by decide) d.toList
    rwa [hdestination] at h
  | some title =>
    have htitle : Adds true (· = (" \"" ++ escapeTitle title true ++ "\"").toList)
        (write s!" \"{escapeTitle title true}\"") := adds_write (.inl rfl)
    refine (hd.append (htitle.append hend)).mono ?_
    rintro _ ⟨_, _, rfl, ⟨_, _, rfl, rfl, rfl⟩, rfl⟩
    have hopen : Delimits 0 [' ', '"'] := delimits_plain (by decide)
    have hclose : Delimits 0 ['"', ')'] := delimits_plain (by decide)
    have h := (hopen.append ((delimits_escapeTitle title).append hclose)).behind (by decide) d.toList
    rw [hdestination] at h
    simpa using h

/-- Steps behind a plain text. -/
theorem Adds.behind (h : Adds cell (Delimits n) body) {before : String}
    (hb : before.toList.all isPlain) : Adds cell (Delimits n) (do write before; body) := by
  have hsteps := (adds_plain hb).then h
  rwa [Nat.zero_add] at hsteps

/-- Steps between two plain texts. -/
theorem Adds.between (h : Adds cell (Delimits n) body) {before after : String}
    (hb : before.toList.all isPlain) (ha : after.toList.all isPlain) :
    Adds cell (Delimits n) (do write before; body; write after) :=
  (h.then (adds_plain ha)).behind hb

theorem Adds.link (h : Adds true (Delimits n) body) (destination : String) (title : Option String) :
    Adds true (Delimits n) (link destination title body) := by
  have hlink : Adds true (Delimits n) (do write "["; body; linkTail destination title) :=
    (h.then (adds_linkTail destination title)).behind (by decide)
  exact Adds.unlessCode hlink.unlessHtml

theorem Adds.emphasis (h : Adds true (Delimits n) body) (style : Emphasis) (isEmpty : Bool) :
    Adds true (Delimits n) (emphasis style isEmpty body) := by
  have hmark : (delimiter style).toList.all isPlain := by
    cases style <;> decide
  refine adds_look fun out hin => ?_
  split
  · exact h
  · exact (h.between hmark hmark).unlessHtml

theorem plain_ticks (n : Nat) : (ticks n).toList.all isPlain := by
  rw [ticks, String.toList_ofList, List.all_replicate]
  split <;> decide

theorem plain_tickPadding (code : String) : (tickPadding code).toList.all isPlain := by
  unfold tickPadding
  dsimp only
  split <;> decide

/-- Between ticks a bar ends the cell if an odd number of backslashes stands before it. -/
theorem adds_codeSpan (content : String) :
    Adds true (Delimits (exposedBars content.toList)) (codeSpan content) := by
  have hbars : exposedBars (replaceChar '\n' " " content).toList = exposedBars content.toList :=
    barsFrom_breaksToSpaces content
  unfold codeSpan
  dsimp only
  -- Line breaks are replaced first, which leaves the bars as they are.
  generalize replaceChar '\n' " " content = code at hbars ⊢
  rw [← hbars]
  split
  · next hempty =>
    refine adds_pure ?_
    rw [String.isEmpty_iff.1 hempty]
    exact delimits_nil
  · refine Adds.unlessHtml ?_
    have hticks : Adds true (· = (ticks (tickCount code)).toList)
        (write (ticks (tickCount code))) := adds_write (.inl rfl)
    have hpad : Adds true (· = (tickPadding code).toList) (write (tickPadding code)) :=
      adds_write (.inl rfl)
    refine (hticks.append <| hpad.append <| (adds_codeText code).append <|
      hpad.append hticks).mono ?_
    intro cs hcs
    obtain ⟨_, _, hopen, ⟨_, _, hpad, ⟨inside, _, hinside, ⟨_, _, hpad', hclose, rfl⟩, rfl⟩, rfl⟩,
      rfl⟩ := hcs
    rw [hopen, hpad, hpad', hclose, ← List.append_assoc]
    refine hinside.between ?_ ?_ ?_
    · rw [List.all_append, plain_ticks, plain_tickPadding, Bool.and_self]
    · rw [List.all_append, plain_ticks, plain_tickPadding, Bool.and_self]
    · simp [ticks, tickCount]

theorem adds_image (src : String) (title alt : Option String) :
    Adds true (Delimits 0) (image src title alt) := by
  refine Adds.unlessHtml (Adds.behind ?_ (by decide))
  cases alt with
  | none => exact adds_linkTail src title
  | some alt => exact (adds_writeEscaped _).then (adds_linkTail src title)

theorem adds_comment (s : String) : Adds true (Delimits (delimiters s.toList)) (comment s) := by
  refine adds_look fun out hin => ?_
  have hbody : Adds true (· = (commentBody s true).toList) (write (commentBody s true)) :=
    adds_write (.inl rfl)
  rw [hin.constrained]
  refine ((adds_write (s := "<!-- ") (.inl rfl)).append <|
    hbody.append (adds_write (s := " -->") (.inl rfl))).mono ?_
  intro cs hcs
  obtain ⟨before, _, hbefore, ⟨inside, after, hinside, hafter, rfl⟩, rfl⟩ := hcs
  rw [hbefore, hinside, hafter, ← delimiters_commentBody, ← List.append_assoc]
  exact delimits_between _ _ _ (by decide) (by decide) (by decide)

theorem adds_notice : Adds true (Delimits 0) notice :=
  (adds_pure delimits_nil).ifConstrained.behind (by decide)

theorem adds_rule : Adds true (Delimits 0) rule := (adds_plain (by decide)).ifConstrained

theorem plain_repr (n : Nat) : n.repr.toList.all isPlain :=
  plain_of_all (all_repr (fun _ hc => hc) n) (by decide) (by decide) (by decide)

theorem plain_of_isValidAnchor {id : String} (h : isValidAnchor id) :
    id.toList.all isPlain := by
  simp only [isValidAnchor, Bool.and_eq_true] at h
  exact plain_of_all h.2 (by decide) (by decide) (by decide)

theorem adds_optionalAnchor {anchor : Option String} (h : ∀ id ∈ anchor, isValidAnchor id) :
    Adds true (Delimits 0) (optionalAnchor anchor) := by
  cases anchor with
  | none => exact adds_pure delimits_nil
  | some id =>
    have hid : id.toList.all isPlain := plain_of_isValidAnchor (h id rfl)
    exact adds_plain (all_between hid (by decide) (by decide))

/-- A heading in a cell. One that is not in order fails. -/
theorem Adds.heading (h : Adds true (Delimits n) body) (level : UInt8) (anchor : Option String) :
    Adds true (Delimits n) (heading level anchor body) := by
  rw [heading_eq]
  cases herror : headingError? level anchor with
  | some error => exact adds_fail error
  | none =>
    obtain ⟨-, hanchor⟩ := headingError?_eq_none.1 herror
    have hmark : (toString level).toList.all isPlain := plain_repr level.toNat
    have hbody := (adds_optionalAnchor hanchor).then h
    rw [Nat.zero_add] at hbody
    exact ((hbody.withMode (by decide)).between (all_between hmark (by decide) (by decide))
      (all_between hmark (by decide) (by decide))).ifConstrained

section Family
variable {α : Type} {f : α → Render Unit} {k : α → Nat} {items header : List α}
  {rows : List (List α)}

theorem adds_htmlItems (h : ∀ item ∈ items, Adds true (Delimits (k item)) (f item)) :
    Adds true (Delimits (total k items)) (htmlItems (items.map f)) := by
  induction items with
  | nil => exact adds_pure delimits_nil
  | cons item rest ih =>
    obtain ⟨hitem, hrest⟩ := List.forall_mem_cons.1 h
    rw [List.map_cons, total]
    exact (hitem.then ((ih hrest).behind (by decide))).behind (by decide)

theorem adds_list (h : ∀ item ∈ items, Adds true (Delimits (k item)) (f item))
    (style : ListStyle) : Adds true (Delimits (total k items)) (list style (items.map f)) := by
  have hclose : (listCloseTag style).toList.all isPlain := by
    cases style <;> rw [listCloseTag] <;> decide
  have hopen : (listOpenTag style).toList.all isPlain := by
    cases style with
    | unordered => decide
    | ordered start =>
      rw [listOpenTag]
      split
      · decide
      · exact all_between (plain_repr start.toNat) (by decide) (by decide)
  exact (((adds_htmlItems h).withMode (by decide)).between hopen hclose).ifConstrained

theorem adds_htmlCells (h : ∀ item ∈ items, Adds true (Delimits (k item)) (f item)) {tag : String}
    (htag : tag = "th" ∨ tag = "td") {columns : Nat} (hfit : items.length ≤ columns) :
    Adds true (Delimits (total k items)) (htmlCells tag columns (items.map f)) := by
  have hplain : tag.toList.all isPlain := by
    rcases htag with rfl | rfl <;> decide
  have hopen : s!"<{tag}>".toList.all isPlain := all_between hplain (by decide) (by decide)
  have hclose : s!"</{tag}>".toList.all isPlain := all_between hplain (by decide) (by decide)
  induction columns generalizing items with
  | zero =>
    rw [List.length_eq_zero_iff.1 (Nat.le_zero.1 hfit)]
    exact adds_pure delimits_nil
  | succ columns ih =>
    cases items with
    | nil => exact ((ih h (Nat.zero_le _)).behind hclose).behind hopen
    | cons item rest =>
      obtain ⟨hitem, hrest⟩ := List.forall_mem_cons.1 h
      have hafter := (ih hrest (Nat.le_of_succ_le_succ hfit)).behind hclose
      rw [List.map_cons, total]
      exact (hitem.then hafter).behind hopen

theorem adds_htmlRow (h : ∀ item ∈ items, Adds true (Delimits (k item)) (f item)) {tag : String}
    (htag : tag = "th" ∨ tag = "td") {columns : Nat} (hfit : items.length ≤ columns) :
    Adds true (Delimits (total k items)) (htmlRow tag columns (items.map f)) :=
  (adds_htmlCells h htag hfit).between (by decide) (by decide)

theorem adds_htmlRows (h : ∀ row ∈ rows, ∀ item ∈ row, Adds true (Delimits (k item)) (f item))
    {columns : Nat} (hfit : ∀ row ∈ rows, row.length ≤ columns) :
    Adds true (Delimits (total (total k) rows))
      (htmlRows columns (rows.map (·.map f))) := by
  induction rows with
  | nil => exact adds_pure delimits_nil
  | cons row rest ih =>
    obtain ⟨hrow, hrest⟩ := List.forall_mem_cons.1 h
    obtain ⟨hrowfit, hrestfit⟩ := List.forall_mem_cons.1 hfit
    rw [List.map_cons, total]
    exact (adds_htmlRow hrow (.inr rfl) hrowfit).then (ih hrest hrestfit)

theorem adds_table (hheader : ∀ item ∈ header, Adds true (Delimits (k item)) (f item))
    (hrows : ∀ row ∈ rows, ∀ item ∈ row, Adds true (Delimits (k item)) (f item)) :
    Adds true (Delimits (total k header + total (total k) rows))
      (table (header.map f) (rows.map (·.map f))) := by
  rw [table_eq, columnCount_map]
  split
  · exact adds_fail _
  · obtain ⟨hfit, hfits⟩ := length_le_columnCount header rows
    have hlines := (adds_htmlRow hheader (.inl rfl) hfit).then (adds_htmlRows hrows hfits)
    exact ((hlines.withMode (by decide)).between (by decide) (by decide)).ifConstrained

end Family

theorem Adds.quote (h : Adds true (Delimits n) body) : Adds true (Delimits n) (quote body) :=
  ((h.withMode (by decide)).between (by decide) (by decide)).ifConstrained

theorem adds_codeBlock (language : Option String) (code : String) :
    Adds true (Delimits 0) (codeBlock language code) :=
  ((((adds_writeEscaped code).withMode (by decide)).withMode (by decide)).between (by decide)
    (by decide)).ifConstrained

theorem Adds.linkedCode (h : Adds true (Delimits n) body) (language : String) :
    Adds true (Delimits n) (linkedCode language body) :=
  (((h.withMode (by decide)).withMode (by decide)).between (by decide) (by decide)).ifConstrained

theorem Adds.collapsible {summary : Render Unit} (hs : Adds true (Delimits m) summary)
    (h : Adds true (Delimits n) body) : Adds true (Delimits (m + n)) (collapsible summary body) :=
  (((hs.then (h.behind (by decide))).withMode (by decide)).between (by decide)
    (by decide)).ifConstrained

/-- The bars that the tags of an element let through around those of its children. -/
def elementBars (tag : String) (attributes : Dict String) (inside : Nat) : Nat :=
  delimiters tag.toList + attributeBars attributes.entries +
    if Html.TagClass.ofTag tag = .void then 0 else inside + delimiters tag.toList

theorem elementBars_paragraph (inside : Nat) : elementBars "p" ∅ inside = inside := by
  have hname : delimiters "p".toList = 0 := by decide
  have hclass : Html.TagClass.ofTag "p" ≠ .void := by decide +kernel
  rw [elementBars, if_neg hclass, hname, Nat.zero_add, Nat.add_zero]
  exact Nat.zero_add inside

theorem Adds.element (h : Adds true (Delimits n) body) (tag : String) (attributes : Dict String) :
    Adds true (Delimits (elementBars tag attributes n)) (element tag attributes body) := by
  have hopen := adds_openTag tag attributes
  have hclose := adds_closeTag tag
  unfold Markdown.element elementBars
  -- Only a block looks at the output, and in a cell it takes the form for a single line.
  cases Html.TagClass.ofTag tag with
  | void => exact hopen true
  | inline => exact (hopen false).then (h.then hclose)
  | block =>
    refine adds_look fun out hin => ?_
    simp only [hin.constrained, Bool.not_true, Bool.false_and, Bool.true_or, if_true]
    exact adds_look fun _ _ => (hopen false).then ((h.withMode (by decide)).then hclose)

theorem adds_separateLists (afterList isList : Bool) :
    Adds true (Delimits 0) (separateLists afterList isList) := by
  refine adds_look fun out hin => ?_
  rw [hin.constrained, Bool.not_true, Bool.and_false]
  exact adds_pure delimits_nil

/-- A page ends its last line, so it is never written in a cell. -/
theorem Framed.addsNothing {α : Type} {first : Render α} (h : Framed first)
    (hnext : Adds true (fun _ => False) next) :
    Adds true (fun _ => False) (do let _ ← first; next) := by
  intro out out' hin hok
  obtain ⟨a, mid, hmid, hout'⟩ := bind_eq_ok hok
  have hextends := h.of_eq hmid
  have hinmid : mid.Inside true :=
    hin.congr hextends.modes (hextends.buffer.begun hin.constrained hin.begun)
  obtain ⟨_, _, _, _, hfalse⟩ := hnext mid out' hinmid hout'
  exact hfalse.elim

theorem adds_ensureNewLine : Adds true (fun _ => False) ensureNewLine := by
  refine adds_look fun out hin => ?_
  rw [hin.begun, if_neg Bool.false_ne_true]
  intro out out' hin hok
  rw [write, hin.constrained, if_pos (by decide)] at hok
  cases hok

end Render
open Render

section Tree
variable (o : Options)

mutual

/-- The bars of a tree that end a cell when the tree is written into one: those of comments and
names, and those of code spans and attribute values that stand behind a backslash. -/
def strayBars : Node → Nat
  | .text _ | .rule | .image _ _ _ | .code _ _ | .notice => 0
  | .comment s persist => if !persist && o.stripComments then 0 else delimiters s.toList
  | .codeSpan children => exposedBars (Node.textsContent children).toList
  | .richCode _ children => if Node.anyContainsLink children then strayBarsOf children else 0
  | .element tag attributes children => elementBars tag attributes (strayBarsOf children)
  | .group children | .quote children | .emphasis _ children | .link _ _ _ children
  | .paragraph children | .heading _ _ children | .list _ children | .page _ children =>
    strayBarsOf children
  | .table header rows => strayBarsOf header + strayBarsOfRows rows
  | .collapsible summary children => strayBars summary + strayBarsOf children

def strayBarsOf : List Node → Nat
  | [] => 0
  | node :: rest => strayBars node + strayBarsOf rest

def strayBarsOfRows : List (List Node) → Nat
  | [] => 0
  | row :: rest => strayBarsOf row + strayBarsOfRows rest

end

theorem strayBarsOf_eq_total (nodes : List Node) :
    strayBarsOf o nodes = total (strayBars o) nodes := by
  induction nodes with
  | nil => rfl
  | cons node rest ih => rw [strayBarsOf, ih, total]

theorem strayBarsOfRows_eq_total (rows : List (List Node)) :
    strayBarsOfRows o rows = total (total (strayBars o)) rows := by
  induction rows with
  | nil => rfl
  | cons row rest ih => rw [strayBarsOfRows, ih, strayBarsOf_eq_total, total]

variable {o} {head : PageMetadata → Render Unit}

theorem adds_renderNodes {nodes : List Node}
    (h : ∀ n ∈ nodes, Adds true (Delimits (strayBars o n)) (renderNode o head n)) (afterList : Bool) :
    Adds true (Delimits (strayBarsOf o nodes)) (renderNodes o head afterList nodes) := by
  induction nodes generalizing afterList with
  | nil => exact adds_pure delimits_nil
  | cons node rest ih =>
    obtain ⟨hnode, hrest⟩ := List.forall_mem_cons.1 h
    have hsteps := (adds_separateLists afterList node.isList).then (hnode.then (ih hrest node.isList))
    rwa [Nat.zero_add] at hsteps

/-- A tree that is written in a cell ends it as many times as it has stray bars. -/
theorem adds_renderNode (hhead : ∀ metadata, Framed (head metadata)) (node : Node) :
    Adds true (Delimits (strayBars o node)) (renderNode o head node) := by
  induction node with
  | text s => exact adds_writeEscaped s
  | rule => exact adds_rule
  | comment s persist =>
    rw [renderNode, strayBars]
    split
    · exact adds_pure delimits_nil
    · exact adds_comment s
  | image src title alt => exact adds_image src title alt
  | code language s => exact adds_codeBlock language s
  | notice => exact adds_notice
  | group children ih => exact adds_renderNodes ih false
  | quote children ih => exact (adds_renderNodes ih false).quote
  | element tag attributes children ih => exact (adds_renderNodes ih false).element tag attributes
  | emphasis style children ih => exact (adds_renderNodes ih false).emphasis style _
  | codeSpan children => exact adds_codeSpan _
  | richCode language children ih =>
    rw [renderNode, strayBars]
    split
    · exact (adds_renderNodes ih false).linkedCode language
    · exact adds_codeBlock _ _
  | link target destination title children ih => exact (adds_renderNodes ih false).link _ title
  | paragraph children ih =>
    rw [renderNode, strayBars, ← elementBars_paragraph (strayBarsOf o children)]
    exact (adds_renderNodes ih false).element "p" ∅
  | heading level anchor children ih => exact (adds_renderNodes ih false).heading level anchor
  | list style items ih =>
    rw [renderNode, renderParts_eq_map, strayBars, strayBarsOf_eq_total]
    exact adds_list ih style
  | table header rows ihheader ihrows =>
    rw [renderNode, renderParts_eq_map, renderRows_eq_map, strayBars, strayBarsOf_eq_total,
      strayBarsOfRows_eq_total]
    exact adds_table ihheader ihrows
  | collapsible summary children ihsummary ih =>
    exact ihsummary.collapsible (adds_renderNodes ih false)
  | page metadata children =>
    have hchildren : Framed (renderNodes o head false children) :=
      framed_renderNodes (fun n _ => framed_renderNode hhead n) false
    exact ((hhead metadata).addsNothing (hchildren.addsNothing adds_ensureNewLine)).mono
      fun _ => False.elim

end Tree

end DocTree.Markdown
