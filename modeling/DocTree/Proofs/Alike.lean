import DocTree.Proofs.Body
import DocTree.Proofs.NormalForm
import DocTree.Proofs.TextJoins

/-! Trees that are written alike. What steps come to is the output behind them or the kind of
their error, and steps around a body come to the same if the body does. A tree and its normal form
are written alike as long as there are no lists in it, no number signs in its texts and no
emphasis of groups without content. -/
namespace DocTree

/-- The kinds of errors. -/
inductive RenderError.Variant where
  | newlineInSingleLine
  | paragraphBreakInSingleLine
  | emptyTable
  | invalidHeadingLevel
  | invalidAnchor
  | duplicateDeclaration
  | missingMetadata
  deriving DecidableEq

def RenderError.variant : RenderError → RenderError.Variant
  | newlineInSingleLine _ => .newlineInSingleLine
  | paragraphBreakInSingleLine => .paragraphBreakInSingleLine
  | emptyTable => .emptyTable
  | invalidHeadingLevel _ => .invalidHeadingLevel
  | invalidAnchor _ => .invalidAnchor
  | duplicateDeclaration _ _ => .duplicateDeclaration
  | missingExport _ _ | missingLocation _ _ => .missingMetadata

/-- Nodes that can be joined before they are written. Two lists side by side are kept apart, and a
number sign is escaped at the start of a line only. -/
def Node.joins : Node → Bool
  | list _ _ => false
  | text s => !s.toList.contains '#'
  | _ => true

/-- A tree of such nodes is written as its normal form is: none of them is a list, a text with a
number sign or emphasis of groups that come to nothing. -/
def Node.keepsForm : Node → Bool
  | list _ _ => false
  | text s => !s.toList.contains '#'
  | emphasis _ children => children.isEmpty || !(joined (normals children)).isEmpty
  | _ => true

theorem Node.joins_of_keepsForm {node : Node} (h : node.keepsForm) : node.joins := by
  cases node <;> first | exact h | rfl

namespace Markdown

namespace Render
variable {α β : Type} {body body' : Render Unit}

/-- What steps come to: a value and the output behind them, or the kind of their error. -/
def outcome (steps : Render α) (out : Output) : Except RenderError.Variant (α × Output) :=
  match steps out with
  | (.ok a, out) => .ok (a, out)
  | (.error e, _) => .error e.variant

theorem outcome_of_error {steps : Render α} {out : Output} {e : RenderError}
    (h : (steps out).1 = .error e) : steps.outcome out = .error e.variant := by
  unfold outcome
  cases hsteps : steps out with
  | mk result mid =>
    rw [hsteps] at h
    cases h
    rfl

theorem outcome_bind (steps : Render α) (next : α → Render β) (out : Output) :
    (steps >>= next).outcome out = steps.outcome out >>= fun p => (next p.1).outcome p.2 := by
  unfold outcome
  rw [bind_apply]
  cases steps out with
  | mk result mid => cases result <;> rfl

theorem bind_alike {steps steps' : Render α} {next next' : α → Render β}
    (h : steps.outcome = steps'.outcome) (hnext : ∀ a, (next a).outcome = (next' a).outcome) :
    (steps >>= next).outcome = (steps' >>= next').outcome := by
  funext out
  rw [outcome_bind, outcome_bind, h]
  exact congrArg (steps'.outcome out >>= ·) (funext fun p => congrFun (hnext p.1) p.2)

theorem then_alike {steps : Render Unit} {next next' : Render α}
    (h : next.outcome = next'.outcome) :
    (do steps; next).outcome = (do steps; next').outcome :=
  bind_alike rfl fun _ => h

/-- Steps around a body come to the same if the body does. -/
theorem alike_of_carries {steps : Render Unit → Render Unit}
    (hsteps : ∀ out, Carries steps out fun _ => True) (h : body.outcome = body'.outcome) :
    (steps body).outcome = (steps body').outcome := by
  funext out
  obtain hnever | ⟨s, hruns, -⟩ := hsteps out
  · rw [outcome, outcome, hnever body body']
  · have hsame := congrFun h s
    have hbody (first : Render Unit) : (steps first).outcome out =
        (steps (give (first s))).outcome out := by
      rw [outcome, outcome, hruns.1 first]
    rw [hbody body, hbody body']
    cases hfirst : body s with
    | mk result mid =>
      cases hsecond : body' s with
      | mk result' mid' =>
        rw [outcome, outcome, hfirst, hsecond] at hsame
        cases result with
        | error e =>
          cases result' with
          | error e' =>
            have hvariant : e.variant = e'.variant := Except.error.inj hsame
            rw [outcome_of_error (hruns.2 e mid), outcome_of_error (hruns.2 e' mid'), hvariant]
          | ok => cases hsame
        | ok =>
          cases result' with
          | error e' => cases hsame
          | ok =>
            cases hsame
            rfl

theorem outcome_write_break {s : String} {out : Output} (hc : out.constrained)
    (hs : '\n' ∈ s.toList) : (write s).outcome out = .error .newlineInSingleLine := by
  have hbreaks : (out.constrained && s.toList.contains '\n') = true := by
    rw [hc, Bool.true_and, List.contains_iff_mem]
    exact hs
  rw [outcome, write, if_pos hbreaks]
  rfl

theorem outcome_write_fits {s : String} {out : Output}
    (h : ¬ (out.constrained ∧ '\n' ∈ s.toList)) : (write s).outcome out =
      .ok ((), ⟨out.buffer.write s, out.modes, out.fresh && s.toList.all Unicode.isBlank⟩) := by
  have hfits : ¬ (out.constrained && s.toList.contains '\n') = true := by
    rwa [Bool.and_eq_true, List.contains_iff_mem]
  rw [outcome, write, if_neg hfits]

theorem outcome_write_append (s t : String) (out : Output) : (write (s ++ t)).outcome out =
    (write s).outcome out >>= fun p => (write t).outcome p.2 := by
  have hmem : '\n' ∈ (s ++ t).toList ↔ '\n' ∈ s.toList ∨ '\n' ∈ t.toList := by
    rw [String.toList_append, List.mem_append]
  by_cases hs : out.constrained ∧ '\n' ∈ s.toList
  · rw [outcome_write_break hs.1 (hmem.2 (.inl hs.2)), outcome_write_break hs.1 hs.2]
    rfl
  · rw [outcome_write_fits hs]
    change _ = (write t).outcome ⟨_, _, _⟩
    by_cases ht : out.constrained ∧ '\n' ∈ t.toList
    · rw [outcome_write_break ht.1 (hmem.2 (.inr ht.2)), outcome_write_break (by exact ht.1) ht.2]
    · have hboth : ¬ (out.constrained ∧ '\n' ∈ (s ++ t).toList) := by
        rw [hmem]
        tauto
      rw [outcome_write_fits hboth, outcome_write_fits (by exact ht), Layout.Buffer.write_append,
        String.toList_append, List.all_append, Bool.and_assoc]

theorem outcome_writeEscaped (s : String) (out : Output) :
    (writeEscaped s).outcome out = (write (out.escapeContext.escape s)).outcome out := by
  have happly : writeEscaped s out = write (out.escapeContext.escape s) out := by
    rw [writeEscaped, bind_apply]
    rfl
  rw [outcome, outcome, happly]

/-- Two texts are written one after the other as the text that they make together. -/
theorem writeEscaped_append_alike {s t : String} (h : continues s t) :
    (writeEscaped (s ++ t)).outcome = (do writeEscaped s; writeEscaped t).outcome := by
  funext out
  rw [outcome_bind, outcome_writeEscaped, outcome_writeEscaped, out.escape_append h,
    outcome_write_append]
  by_cases hs : out.constrained ∧ '\n' ∈ (out.escapeContext.escape s).toList
  · rw [outcome_write_break hs.1 hs.2]
    simp only [bind, Except.bind]
  · rw [outcome_write_fits hs]
    exact (outcome_writeEscaped t (out.wrote (out.escapeContext.escape s))).symm

section Constructs
variable (h : body.outcome = body'.outcome)
include h

theorem withMode_alike (mode : Mode) (value : Bool) :
    (withMode mode value body).outcome = (withMode mode value body').outcome :=
  alike_of_carries (fun _ => carries_withMode (carries_body trivial)) h

theorem withIndent_alike (indent : String) :
    (withIndent indent body).outcome = (withIndent indent body').outcome :=
  alike_of_carries (fun _ => carries_withIndent (carries_body trivial)) h

theorem inTable_alike : (inTable body).outcome = (inTable body').outcome :=
  alike_of_carries (fun _ => carries_inTable fun _ _ => trivial) h

theorem link_alike (destination : String) (title : Option String) :
    (link destination title body).outcome = (link destination title body').outcome :=
  alike_of_carries (fun _ => carries_link (fun _ _ => carries_body trivial) trivial _ _) h

theorem emphasis_alike (style : Emphasis) (isEmpty : Bool) :
    (emphasis style isEmpty body).outcome = (emphasis style isEmpty body').outcome :=
  alike_of_carries (fun _ => carries_emphasis (fun _ _ => carries_body trivial) trivial _ _) h

theorem heading_alike (level : UInt8) (anchor : Option String) :
    (heading level anchor body).outcome = (heading level anchor body').outcome :=
  alike_of_carries
    (fun _ => carries_heading (fun _ _ => trivial) (fun _ _ => carries_body trivial) _ _) h

theorem quote_alike : (quote body).outcome = (quote body').outcome :=
  alike_of_carries
    (fun _ => carries_quote (fun _ _ => trivial) (fun _ _ => carries_body trivial) trivial) h

theorem linkedCode_alike (language : String) :
    (linkedCode language body).outcome = (linkedCode language body').outcome :=
  alike_of_carries (fun _ => carries_linkedCode (fun _ _ => trivial)
    (fun _ _ => carries_body trivial) trivial _) h

theorem summary_alike (children : Render Unit) :
    (collapsible body children).outcome = (collapsible body' children).outcome := by
  have hcarries (out : Output) :
      Carries (fun summary => collapsible summary children) out fun _ => True :=
    carries_summary (fun _ _ => trivial) fun _ _ => carries_body trivial
  have halike := alike_of_carries hcarries h
  exact halike

theorem collapsible_alike {summary : Render Unit} (hs : Framed summary) :
    (collapsible summary body).outcome = (collapsible summary body').outcome :=
  alike_of_carries (fun _ => carries_collapsible (fun _ _ => trivial)
    (fun _ _ => carries_body trivial) hs trivial) h

theorem element_alike (tag : String) (attributes : Dict String) :
    (element tag attributes body).outcome = (element tag attributes body').outcome :=
  alike_of_carries (fun _ => carries_element (fun _ _ => trivial) (fun _ _ => carries_body trivial)
    (fun _ => trivial) (fun _ _ => trivial) fun _ _ => trivial) h

end Constructs

section Cells
variable {f g : α → Render Unit} {cells header : List α} {rows : List (List α)}

theorem forM_alike (h : ∀ a ∈ cells, (f a).outcome = (g a).outcome) :
    (forM cells f).outcome = (forM cells g).outcome := by
  induction cells with
  | nil => rfl
  | cons a rest ih =>
    obtain ⟨ha, hrest⟩ := List.forall_mem_cons.1 h
    rw [List.forM_cons, List.forM_cons]
    exact bind_alike ha fun _ => ih hrest

theorem markdownCells_alike (h : ∀ a ∈ cells, (f a).outcome = (g a).outcome) (columns : Nat) :
    (markdownCells columns (cells.map f)).outcome =
      (markdownCells columns (cells.map g)).outcome := by
  induction columns generalizing cells with
  | zero => rfl
  | succ columns ih =>
    cases cells with
    | nil => rfl
    | cons a rest =>
      obtain ⟨ha, hrest⟩ := List.forall_mem_cons.1 h
      exact then_alike (bind_alike (inTable_alike ha) fun _ => then_alike (ih hrest))

theorem markdownRow_alike (h : ∀ a ∈ cells, (f a).outcome = (g a).outcome) (columns : Nat) :
    (markdownRow columns (cells.map f)).outcome = (markdownRow columns (cells.map g)).outcome :=
  then_alike (bind_alike (markdownCells_alike h columns) fun _ => rfl)

theorem markdownRows_alike (h : ∀ row ∈ rows, ∀ a ∈ row, (f a).outcome = (g a).outcome)
    (columns : Nat) : (markdownRows columns (rows.map (·.map f))).outcome =
      (markdownRows columns (rows.map (·.map g))).outcome := by
  induction rows with
  | nil => rfl
  | cons row rest ih =>
    obtain ⟨hrow, hrest⟩ := List.forall_mem_cons.1 h
    exact bind_alike (markdownRow_alike hrow columns) fun _ => ih hrest

theorem htmlCells_alike (h : ∀ a ∈ cells, (f a).outcome = (g a).outcome) (tag : String)
    (columns : Nat) : (htmlCells tag columns (cells.map f)).outcome =
      (htmlCells tag columns (cells.map g)).outcome := by
  induction columns generalizing cells with
  | zero => rfl
  | succ columns ih =>
    cases cells with
    | nil => rfl
    | cons a rest =>
      obtain ⟨ha, hrest⟩ := List.forall_mem_cons.1 h
      exact then_alike (bind_alike ha fun _ => then_alike (ih hrest))

theorem htmlRow_alike (h : ∀ a ∈ cells, (f a).outcome = (g a).outcome) (tag : String)
    (columns : Nat) :
    (htmlRow tag columns (cells.map f)).outcome = (htmlRow tag columns (cells.map g)).outcome :=
  then_alike (bind_alike (htmlCells_alike h tag columns) fun _ => rfl)

theorem htmlRows_alike (h : ∀ row ∈ rows, ∀ a ∈ row, (f a).outcome = (g a).outcome)
    (columns : Nat) : (htmlRows columns (rows.map (·.map f))).outcome =
      (htmlRows columns (rows.map (·.map g))).outcome := by
  induction rows with
  | nil => rfl
  | cons row rest ih =>
    obtain ⟨hrow, hrest⟩ := List.forall_mem_cons.1 h
    exact bind_alike (htmlRow_alike hrow "td" columns) fun _ => ih hrest

/-- Tables are written alike if their cells are. -/
theorem table_alike (hheader : ∀ a ∈ header, (f a).outcome = (g a).outcome)
    (hrows : ∀ row ∈ rows, ∀ a ∈ row, (f a).outcome = (g a).outcome) :
    (table (header.map f) (rows.map (·.map f))).outcome =
      (table (header.map g) (rows.map (·.map g))).outcome := by
  rw [table_eq, table_eq, columnCount_map, columnCount_map]
  split
  · rfl
  · refine bind_alike rfl fun constrained => ?_
    split
    · refine then_alike (bind_alike (withMode_alike ?_ _ _) fun _ => rfl)
      exact bind_alike (htmlRow_alike hheader "th" _) fun _ => htmlRows_alike hrows _
    · refine then_alike (withMode_alike ?_ _ _)
      refine bind_alike (markdownRow_alike hheader _) fun _ => ?_
      exact then_alike (then_alike (then_alike (markdownRows_alike hrows _)))

theorem htmlItems_alike (h : ∀ a ∈ cells, (f a).outcome = (g a).outcome) :
    (htmlItems (cells.map f)).outcome = (htmlItems (cells.map g)).outcome := by
  induction cells with
  | nil => rfl
  | cons a rest ih =>
    obtain ⟨ha, hrest⟩ := List.forall_mem_cons.1 h
    exact then_alike (bind_alike ha fun _ => then_alike (ih hrest))

theorem markedItems_alike (h : ∀ a ∈ cells, (f a).outcome = (g a).outcome) (style : ListStyle)
    (position : Nat) : (markedItems style position (cells.map f)).outcome =
      (markedItems style position (cells.map g)).outcome := by
  induction cells generalizing position with
  | nil => rfl
  | cons a rest ih =>
    obtain ⟨ha, hrest⟩ := List.forall_mem_cons.1 h
    have hitem : (do markFresh; f a : Render Unit).outcome = (do markFresh; g a).outcome :=
      then_alike ha
    have hindented := withIndent_alike (withMode_alike hitem .listItem true)
      (String.ofList (List.replicate (marker style position).length ' '))
    exact then_alike (then_alike (bind_alike hindented fun _ => ih hrest _))

/-- Lists are written alike if their items are. -/
theorem list_alike (h : ∀ a ∈ cells, (f a).outcome = (g a).outcome) (style : ListStyle) :
    (list style (cells.map f)).outcome = (list style (cells.map g)).outcome := by
  have hitems : (withMode .htmlBlock false do
      markedItems style 0 (cells.map f)
      ensureNewLine).outcome = (withMode .htmlBlock false do
      markedItems style 0 (cells.map g)
      ensureNewLine).outcome :=
    withMode_alike (bind_alike (markedItems_alike h style 0) fun _ => rfl) .htmlBlock false
  refine bind_alike rfl fun constrained => ?_
  split
  · exact then_alike (bind_alike (withMode_alike (htmlItems_alike h) _ _) fun _ => rfl)
  · refine bind_alike rfl fun fresh => bind_alike rfl fun inItem => ?_
    dsimp only
    split
    · exact then_alike hitems
    · exact then_alike hitems

end Cells

end Render
open Render

section Tree
variable {o : Options} {head : PageMetadata → Render Unit}

theorem separateLists_apart {afterList isList : Bool} (h : (afterList && isList) = false) :
    separateLists afterList isList = pure () := by
  rw [separateLists]
  simp only [h, Bool.false_and, Bool.false_eq_true, if_false]
  rfl

theorem renderNodes_eq_forM {nodes : List Node} (h : ∀ n ∈ nodes, ¬ n.isList) (afterList : Bool) :
    renderNodes o head afterList nodes = forM nodes (renderNode o head) := by
  induction nodes generalizing afterList with
  | nil => rfl
  | cons node rest ih =>
    obtain ⟨hnode, hrest⟩ := List.forall_mem_cons.1 h
    have hapart : (afterList && node.isList) = false := by
      rw [Bool.eq_false_iff.2 hnode, Bool.and_false]
    rw [renderNodes, separateLists_apart hapart, pure_bind, ih hrest, List.forM_cons]

/-- A group is written part by part, as its parts are where it is opened. -/
theorem render_spliced {node : Node} (h : ∀ m ∈ Node.spliced node, m.joins) :
    renderNode o head node = forM (Node.spliced node) (renderNode o head) := by
  have hlist : ∀ m ∈ Node.spliced node, ¬ m.isList := fun m hm hlist => by
    cases m <;> cases hlist
    exact Bool.false_ne_true (h _ hm)
  by_cases hgroup : node.isGroup
  · cases node <;> cases hgroup
    rw [renderNode]
    exact renderNodes_eq_forM hlist false
  · rw [Node.spliced_eq_self hgroup, List.forM_cons, List.forM_nil]
    exact (bind_pure _).symm

theorem joins_text_append (s t : String) :
    (Node.text (s ++ t)).joins ↔ (Node.text s).joins ∧ (Node.text t).joins := by
  simp [Node.joins]

theorem forM_joined {nodes : List Node} (h : ∀ n ∈ nodes, ∀ m ∈ Node.spliced n, m.joins) :
    (forM (Node.joined nodes) (renderNode o head)).outcome =
      (forM nodes (renderNode o head)).outcome := by
  have hspliced : forM (nodes.flatMap Node.spliced) (renderNode o head) =
      forM nodes (renderNode o head) := by
    induction nodes with
    | nil => rfl
    | cons node rest ih =>
      obtain ⟨hnode, hrest⟩ := List.forall_mem_cons.1 h
      rw [List.flatMap_cons, List.forM_append, ih hrest, ← render_spliced hnode, List.forM_cons]
  -- Only texts without number signs are merged on the way, so this is carried along.
  have hmerged := Node.joined_induction (P := fun merged => (∀ m ∈ merged, m.joins) ∧
    (forM merged (renderNode o head)).outcome = (forM nodes (renderNode o head)).outcome)
    ⟨by simpa only [List.forall_mem_flatMap] using h, by rw [hspliced]⟩ ?_
  · exact hmerged.2
  · rintro before s t after ⟨hjoins, heq⟩
    simp only [List.forall_mem_append, List.forall_mem_cons] at hjoins ⊢
    obtain ⟨hbefore, hs, ht, hafter⟩ := hjoins
    refine ⟨⟨hbefore, (joins_text_append s t).2 ⟨hs, ht⟩, hafter⟩, ?_⟩
    have hcontinues : continues s t :=
      continues_of_free (by simpa [Node.joins] using ht)
    rw [← heq]
    simp only [List.forM_append, List.forM_cons, ← bind_assoc]
    refine bind_alike ?_ fun _ => rfl
    rw [bind_assoc]
    exact then_alike (writeEscaped_append_alike hcontinues)

/-- A node is written as its normal form is, and the form can be joined with its neighbours. -/
def Keeps (o : Options) (head : PageMetadata → Render Unit) (node : Node) : Prop :=
  (renderNode o head node.normal).outcome = (renderNode o head node).outcome ∧
    ∀ m ∈ Node.spliced node.normal, m.joins

theorem children_alike {children : List Node} (hlist : ∀ n ∈ children, ¬ n.isList)
    (h : ∀ n ∈ children, Keeps o head n) :
    (renderNodes o head false (Node.joined (Node.normals children))).outcome =
      (renderNodes o head false children).outcome := by
  have hjoins : ∀ n ∈ Node.normals children, ∀ m ∈ Node.spliced n, m.joins := by
    rw [Node.normals_eq_map, List.forall_mem_map]
    exact fun n hn => (h n hn).2
  have hmembers : ∀ n ∈ Node.joined (Node.normals children), ¬ n.isList := fun n hn hl => by
    have hj := (Node.forall_mem_joined joins_text_append).2 hjoins n hn
    cases n <;> cases hl
    exact Bool.false_ne_true hj
  calc (renderNodes o head false (Node.joined (Node.normals children))).outcome
      = (forM (Node.joined (Node.normals children)) (renderNode o head)).outcome := by
        rw [renderNodes_eq_forM hmembers]
    _ = (forM (Node.normals children) (renderNode o head)).outcome := forM_joined hjoins
    _ = (forM children fun n => renderNode o head n.normal).outcome := by
        rw [Node.normals_eq_map, List.forM_map]
    _ = (forM children (renderNode o head)).outcome := forM_alike fun n hn => (h n hn).1
    _ = (renderNodes o head false children).outcome := by rw [renderNodes_eq_forM hlist]

theorem render_unwrapped (node : Node) :
    renderNode o head (Node.unwrapped node) = renderNode o head node := by
  unfold Node.unwrapped
  split
  · next only =>
    rw [renderNode, renderNodes, separateLists_apart (Bool.false_and _), pure_bind, renderNodes]
    exact (bind_pure _).symm
  · rfl

theorem keeps_renderNode (hhead : ∀ metadata, Framed (head metadata)) {node : Node}
    (h : ∀ m ∈ node.nodes, m.keepsForm) : Keeps o head node := by
  have hself {n : Node} (hgroup : ¬ n.isGroup) (hjoins : n.joins) :
      ∀ m ∈ Node.spliced n, m.joins := by
    rw [Node.spliced_eq_self hgroup]
    exact List.forall_mem_singleton.2 hjoins
  have hchildren {children : List Node}
      (ih : ∀ n ∈ children, (∀ m ∈ n.nodes, m.keepsForm) → Keeps o head n)
      (hall : ∀ n ∈ children, ∀ m ∈ n.nodes, m.keepsForm) :
      (renderNodes o head false (Node.joined (Node.normals children))).outcome =
        (renderNodes o head false children).outcome := by
    refine children_alike (fun n hn hlist => ?_) fun n hn => ih n hn (hall n hn)
    have hn := hall n hn n (Node.mem_nodes_self n)
    cases n <;> cases hlist
    exact Bool.false_ne_true hn
  have hcell {n : Node} (hn : Keeps o head n) :
      (renderNode o head (Node.unwrapped n.normal)).outcome = (renderNode o head n).outcome := by
    rw [render_unwrapped, hn.1]
  induction node with
    simp only [Node.nodes, List.forall_mem_cons, List.forall_mem_append, Node.forall_mem_nodesOf,
      Node.forall_mem_nodesOfRows] at h
  | text s =>
    exact ⟨rfl, hself Bool.false_ne_true (Node.joins_of_keepsForm h.1)⟩
  | rule | comment | image | code | notice => exact ⟨rfl, hself Bool.false_ne_true rfl⟩
  | list style items => exact absurd h.1 Bool.false_ne_true
  | group children ih =>
    refine ⟨hchildren ih h.2, ?_⟩
    exact (Node.forall_mem_joined joins_text_append).2 (by
      rw [Node.normals_eq_map, List.forall_mem_map]
      exact fun n hn => (ih n hn (h.2 n hn)).2)
  | quote children ih => exact ⟨quote_alike (hchildren ih h.2), hself Bool.false_ne_true rfl⟩
  | element tag attributes children ih =>
    exact ⟨element_alike (hchildren ih h.2) tag attributes, hself Bool.false_ne_true rfl⟩
  | emphasis style children ih =>
    refine ⟨?_, hself Bool.false_ne_true rfl⟩
    have hempty : (Node.joined (Node.normals children)).isEmpty = children.isEmpty := by
      have hkept := h.1
      cases children with
      | nil => rfl
      | cons => simpa [Node.keepsForm] using hkept
    rw [Node.normal, renderNode, renderNode, hempty]
    exact emphasis_alike (hchildren ih h.2) style _
  | codeSpan children =>
    refine ⟨?_, hself Bool.false_ne_true rfl⟩
    have htext := Node.textContent_normal (.codeSpan children)
    rw [Node.normal, Node.textContent, Node.textContent] at htext
    rw [Node.normal, renderNode, renderNode, htext]
  | richCode language children ih =>
    refine ⟨?_, hself Bool.false_ne_true rfl⟩
    have htext := Node.textContent_normal (.richCode language children)
    have hlink := Node.containsLink_normal (.richCode language children)
    rw [Node.normal, Node.textContent, Node.textContent] at htext
    rw [Node.normal, Node.containsLink, Node.containsLink] at hlink
    rw [Node.normal, renderNode, renderNode, htext, hlink]
    split
    · exact linkedCode_alike (hchildren ih h.2) language
    · rfl
  | link target destination title children ih =>
    exact ⟨link_alike (hchildren ih h.2) _ title, hself Bool.false_ne_true rfl⟩
  | paragraph children ih =>
    exact ⟨element_alike (hchildren ih h.2) "p" ∅, hself Bool.false_ne_true rfl⟩
  | heading level anchor children ih =>
    exact ⟨heading_alike (hchildren ih h.2) level anchor, hself Bool.false_ne_true rfl⟩
  | table header rows ihheader ihrows =>
    refine ⟨?_, hself Bool.false_ne_true rfl⟩
    rw [Node.normal, renderNode, renderNode]
    simp only [renderParts_eq_map, renderRows_eq_map, Node.normals_eq_map, Node.normalRows_eq_map,
      List.map_map, Function.comp_def]
    exact table_alike (fun n hn => hcell (ihheader n hn (h.2.1 n hn)))
      fun row hrow n hn => hcell (ihrows row hrow n hn (h.2.2 row hrow n hn))
  | collapsible summary children ihsummary ih =>
    refine ⟨?_, hself Bool.false_ne_true rfl⟩
    rw [Node.normal, renderNode, renderNode]
    exact (collapsible_alike (hchildren ih h.2.2) (framed_renderNode hhead _)).trans
      (summary_alike (ihsummary h.2.1).1 _)
  | page metadata children ih =>
    exact ⟨then_alike (bind_alike (hchildren ih h.2) fun _ => rfl), hself Bool.false_ne_true rfl⟩

theorem mapError_toText (steps : Render Unit) : steps.toText.mapError RenderError.variant =
    (steps.outcome {}).map fun p => p.2.text := by
  unfold toText outcome
  cases steps {} with
  | mk result out => cases result <;> rfl

/-- A tree without lists, without number signs in its texts and without emphasis of groups that
come to nothing is written as its normal form is: both give the same Markdown, or both fail with
errors of one kind. -/
theorem renderRaw_normal_alike {node : Node} (h : ∀ m ∈ node.nodes, m.keepsForm) :
    (renderRaw o node.normal).mapError RenderError.variant =
      (renderRaw o node).mapError RenderError.variant := by
  have hkeeps : Keeps o (pageHead o) node := keeps_renderNode framed_pageHead h
  rw [renderRaw, renderRaw, mapError_toText, mapError_toText, render, render, hkeeps.1]

/-- Groups in a cell of a table, in a heading and in emphasis, with texts side by side. -/
def nestedGroups : Node :=
  .group [.group [.text "a ", .text "*b"], .text " c",
    .heading 2 none [.group [.text "d", .emphasis .bold [.group [.text "e"], .text "f"]]],
    .table [.group [.text "g|h"]] [[.group [.link .address "x" none [.text "i"], .text "j"]]]]

theorem renderRaw_normal_alike_nestedGroups :
    (∀ m ∈ nestedGroups.nodes, m.keepsForm) ∧
      (renderRaw {} nestedGroups.normal).mapError RenderError.variant =
        (renderRaw {} nestedGroups).mapError RenderError.variant := by
  have hkeeps : ∀ m ∈ nestedGroups.nodes, m.keepsForm := by decide
  exact ⟨hkeeps, renderRaw_normal_alike hkeeps⟩

end Tree
end Markdown
end DocTree
