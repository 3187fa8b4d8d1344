import DocTree.Node.Normal
import DocTree.Proofs.Tree
import Mathlib.Data.List.Chain

/-! The normal form of a tree. Texts that stand side by side and groups among siblings are what
the pass removes, so a second pass finds nothing to do; the text and the links of a tree are
those of its normal form. -/
namespace DocTree.Node
variable {nodes : List Node}

def isText : Node → Bool
  | text _ => true
  | _ => false

def isGroup : Node → Bool
  | group _ => true
  | _ => false

/-- Neighbours that are not merged. -/
def Apart (a b : Node) : Prop := ¬ (a.isText ∧ b.isText)

theorem spliced_eq_self {node : Node} (h : ¬ node.isGroup) : spliced node = [node] := by
  cases node <;> first | rfl | exact absurd rfl h

/-- A text continues the text before it, and any other node is put behind what is there. -/
theorem pushMerged_cases (reversed : List Node) (node : Node) :
    (∃ s t rest, node = text t ∧ reversed = text s :: rest ∧
      pushMerged reversed node = text (s ++ t) :: rest) ∨
    (pushMerged reversed node = node :: reversed ∧ ∀ last ∈ reversed.head?, Apart last node) := by
  unfold pushMerged
  split
  · next t s rest => exact .inl ⟨s, t, rest, rfl, rfl, rfl⟩
  · next hno =>
    refine .inr ⟨rfl, fun last hlast => ?_⟩
    rintro ⟨hl, hn⟩
    cases last <;> cases hl
    cases node <;> cases hn
    cases reversed with
    | nil => cases hlast
    | cons first rest =>
      cases hlast
      exact hno _ _ _ rfl rfl

/-- Two texts side by side become one. -/
inductive Merges : List Node → List Node → Prop
  | texts (before s t after) :
    Merges (before ++ text s :: text t :: after) (before ++ text (s ++ t) :: after)

theorem merges_foldl (siblings : List Node) :
    Relation.ReflTransGen Merges siblings (siblings.foldl pushMerged []).reverse := by
  have hfold (siblings reversed : List Node) : Relation.ReflTransGen Merges
      (reversed.reverse ++ siblings) (siblings.foldl pushMerged reversed).reverse := by
    induction siblings generalizing reversed with
    | nil => rw [List.append_nil, List.foldl_nil]
    | cons node rest ih =>
      rw [List.foldl_cons]
      obtain ⟨s, t, more, rfl, rfl, heq⟩ | ⟨heq, -⟩ := pushMerged_cases reversed node
      · have hstep := Merges.texts more.reverse s t rest
        have hrest := ih (text (s ++ t) :: more)
        rw [List.reverse_cons, List.append_assoc, List.singleton_append] at hrest
        rw [heq, List.reverse_cons, List.append_assoc, List.singleton_append]
        exact .head hstep hrest
      · have hrest := ih (node :: reversed)
        rw [List.reverse_cons, List.append_assoc, List.singleton_append] at hrest
        rwa [heq]
  exact hfold siblings []

theorem merges_joined (nodes : List Node) :
    Relation.ReflTransGen Merges (nodes.flatMap spliced) (joined nodes) :=
  merges_foldl (nodes.flatMap spliced)

/-- Joined siblings have what they have once groups are opened and what merging keeps. -/
theorem joined_induction {P : List Node → Prop} (hspliced : P (nodes.flatMap spliced))
    (hmerge : ∀ before s t after, P (before ++ text s :: text t :: after) →
      P (before ++ text (s ++ t) :: after)) : P (joined nodes) := by
  have hmerges := merges_joined nodes
  generalize joined nodes = merged at hmerges ⊢
  induction hmerges with
  | refl => exact hspliced
  | tail _ hstep ih =>
    obtain ⟨before, s, t, after⟩ := hstep
    exact hmerge before s t after ih

/-- Merging keeps a property that a text has if and only if its parts have it. -/
theorem forall_mem_joined {p : Node → Prop}
    (hmerge : ∀ s t, p (text (s ++ t)) ↔ p (text s) ∧ p (text t)) :
    (∀ n ∈ joined nodes, p n) ↔ ∀ n ∈ nodes, ∀ m ∈ spliced n, p m := by
  rw [← List.forall_mem_flatMap]
  refine joined_induction (P := fun merged => (∀ n ∈ merged, p n) ↔ _) Iff.rfl
    fun before s t after ih => ?_
  rw [← ih]
  simp only [List.forall_mem_append, List.forall_mem_cons, hmerge, and_assoc]

theorem textsContent_append (before after : List Node) :
    textsContent (before ++ after) = textsContent before ++ textsContent after := by
  induction before with
  | nil => rw [List.nil_append, textsContent, String.empty_append]
  | cons node rest ih => rw [List.cons_append, textsContent, textsContent, ih, String.append_assoc]

theorem textsContent_spliced (node : Node) : textsContent (spliced node) = node.textContent := by
  cases node <;> simp [spliced, textsContent, textContent]

/-- Opening groups and merging texts leaves the text of siblings as it is. -/
theorem textsContent_joined (nodes : List Node) :
    textsContent (joined nodes) = textsContent nodes := by
  have hspliced : textsContent (nodes.flatMap spliced) = textsContent nodes := by
    induction nodes with
    | nil => rfl
    | cons node rest ih =>
      rw [List.flatMap_cons, textsContent_append, textsContent_spliced, ih, textsContent]
  refine joined_induction (P := fun merged => textsContent merged = _) hspliced
    fun before s t after ih => ?_
  rw [← ih]
  simp only [textsContent_append, textsContent, textContent, String.append_assoc]

theorem textsContent_normals {children : List Node}
    (h : ∀ n ∈ children, n.normal.textContent = n.textContent) :
    textsContent (normals children) = textsContent children := by
  induction children with
  | nil => rfl
  | cons child rest ih =>
    obtain ⟨hchild, hrest⟩ := List.forall_mem_cons.1 h
    rw [normals, textsContent, textsContent, hchild, ih hrest]

theorem textContent_unwrapped (node : Node) : (unwrapped node).textContent = node.textContent := by
  unfold unwrapped
  split
  · rw [textContent, textsContent, textsContent, String.append_empty]
  · rfl

theorem textsContent_unwrapped (nodes : List Node) :
    textsContent (nodes.map unwrapped) = textsContent nodes := by
  induction nodes with
  | nil => rfl
  | cons node rest ih => rw [List.map_cons, textsContent, textsContent, textContent_unwrapped, ih]

/-- A tree and its normal form hold the same text. -/
theorem textContent_normal (node : Node) : node.normal.textContent = node.textContent := by
  induction node with
  | text | rule | comment | image | code | notice => rfl
  | group children ih | quote children ih | element tag attributes children ih
  | emphasis style children ih | codeSpan children ih | richCode language children ih
  | link target destination title children ih | paragraph children ih
  | heading level anchor children ih | page metadata children ih =>
    rw [normal, textContent, textContent, textsContent_joined, textsContent_normals ih]
  | list style items ih =>
    rw [normal, textContent, textContent, textsContent_unwrapped, textsContent_normals ih]
  | table header rows ihheader ihrows =>
    have hrows : rowsContent (normalRows rows) = rowsContent rows := by
      induction rows with
      | nil => rfl
      | cons row rest ih =>
        obtain ⟨hrow, hrest⟩ := List.forall_mem_cons.1 ihrows
        rw [normalRows, rowsContent, rowsContent, textsContent_unwrapped,
          textsContent_normals hrow, ih hrest]
    rw [normal, textContent, textContent, textsContent_unwrapped, textsContent_normals ihheader,
      hrows]
  | collapsible summary children ihsummary ih =>
    rw [normal, textContent, textContent, ihsummary, textsContent_joined, textsContent_normals ih]

theorem anyContainsLink_eq_false {nodes : List Node} :
    anyContainsLink nodes = false ↔ ∀ n ∈ nodes, n.containsLink = false := by
  induction nodes with
  | nil => simp [anyContainsLink]
  | cons node rest ih => rw [anyContainsLink, Bool.or_eq_false_iff, ih, List.forall_mem_cons]

theorem anyContainsLink_spliced (node : Node) :
    anyContainsLink (spliced node) = node.containsLink := by
  cases node <;> simp [spliced, anyContainsLink, containsLink]

theorem anyContainsLink_joined {children : List Node}
    (h : ∀ n ∈ children, n.normal.containsLink = n.containsLink) :
    anyContainsLink (joined (normals children)) = anyContainsLink children := by
  rw [Bool.eq_iff_iff, ← not_iff_not, Bool.not_eq_true, Bool.not_eq_true,
    anyContainsLink_eq_false, anyContainsLink_eq_false,
    forall_mem_joined fun _ _ => by simp [containsLink], normals_eq_map, List.forall_mem_map]
  refine forall₂_congr fun n hn => ?_
  rw [← anyContainsLink_eq_false, anyContainsLink_spliced, h n hn]

/-- A tree has a link if and only if its normal form has one. -/
theorem containsLink_normal (node : Node) : node.normal.containsLink = node.containsLink := by
  induction node with
  | text | rule | comment | image | code | notice | table | link => rfl
  | group children ih | quote children ih | element tag attributes children ih
  | emphasis style children ih | codeSpan children ih | richCode language children ih
  | paragraph children ih | heading level anchor children ih | page metadata children ih
  | collapsible summary children _ ih =>
    rw [normal, containsLink, containsLink, anyContainsLink_joined ih]
  | list style items ih =>
    have hunwrapped (n : Node) : (unwrapped n).containsLink = n.containsLink := by
      unfold unwrapped
      split
      · rw [containsLink, anyContainsLink, anyContainsLink, Bool.or_false]
      · rfl
    rw [normal, containsLink, containsLink, Bool.eq_iff_iff, ← not_iff_not, Bool.not_eq_true,
      Bool.not_eq_true, anyContainsLink_eq_false, anyContainsLink_eq_false, List.forall_mem_map,
      normals_eq_map, List.forall_mem_map]
    exact forall₂_congr fun n hn => by rw [hunwrapped, ih n hn]

theorem isChain_joined (nodes : List Node) : (joined nodes).IsChain Apart := by
  have hswap : (fun a b => Apart b a) = Apart := by
    funext a b
    exact congrArg Not (propext and_comm)
  have hfold (siblings reversed : List Node) (h : reversed.IsChain Apart) :
      (siblings.foldl pushMerged reversed).IsChain Apart := by
    induction siblings generalizing reversed with
    | nil => exact h
    | cons node rest ih =>
      refine ih _ ?_
      obtain ⟨s, t, rest, rfl, rfl, heq⟩ | ⟨heq, hapart⟩ := pushMerged_cases reversed node
      · rw [heq]
        cases rest with
        | nil => exact .singleton _
        | cons next rest =>
          rw [List.isChain_cons_cons] at h ⊢
          exact h
      · rw [heq, List.isChain_cons]
        refine ⟨fun last hlast => ?_, h⟩
        exact fun hboth => hapart last hlast hboth.symm
  rw [joined, List.isChain_reverse, hswap]
  exact hfold (nodes.flatMap spliced) [] .nil

theorem flatMap_spliced (hgroup : ∀ n ∈ nodes, ¬ n.isGroup) : nodes.flatMap spliced = nodes := by
  rw [List.flatMap_congr fun n hn => spliced_eq_self (hgroup n hn), List.flatMap_singleton']

/-- Siblings without groups and without texts side by side stay as they are. -/
theorem joined_eq_self (hgroup : ∀ n ∈ nodes, ¬ n.isGroup) (hchain : nodes.IsChain Apart) :
    joined nodes = nodes := by
  have hmerges := merges_joined nodes
  rw [flatMap_spliced hgroup] at hmerges
  obtain heq | ⟨_, hstep, -⟩ := hmerges.cases_head
  · exact heq.symm
  · obtain ⟨before, s, t, after⟩ := hstep
    rw [List.isChain_append_cons_cons] at hchain
    exact absurd ⟨rfl, rfl⟩ hchain.2.1

/-- A node that the pass leaves alone, and so do its parts if it is a group. -/
def Settled (node : Node) : Prop :=
  node.normal = node ∧ ∀ m ∈ spliced node, m.normal = m ∧ ¬ m.isGroup

theorem settled_of_normal {node : Node} (hgroup : ¬ node.isGroup) (h : node.normal = node) :
    Settled node := by
  refine ⟨h, fun m hm => ?_⟩
  rw [spliced_eq_self hgroup, List.mem_singleton] at hm
  exact hm ▸ ⟨h, hgroup⟩

/-- The children of a normal form: a second pass leaves them as they are. -/
theorem settled_joined {children : List Node} (h : ∀ n ∈ children, Settled n.normal) :
    (∀ m ∈ joined (normals children), m.normal = m ∧ ¬ m.isGroup) ∧
      joined (normals (joined (normals children))) = joined (normals children) := by
  have hmembers : ∀ m ∈ joined (normals children), m.normal = m ∧ ¬ m.isGroup := by
    rw [forall_mem_joined fun _ _ => by simp [normal, isGroup], normals_eq_map,
      List.forall_mem_map]
    exact fun n hn => (h n hn).2
  refine ⟨hmembers, ?_⟩
  have hsame : normals (joined (normals children)) = joined (normals children) := by
    rw [normals_eq_map]
    exact (List.map_congr_left fun m hm => (hmembers m hm).1).trans (List.map_id _)
  rw [hsame]
  exact joined_eq_self (fun m hm => (hmembers m hm).2) (isChain_joined _)

/-- A cell or an item of a normal form: the group around a single node is gone. -/
theorem settled_unwrapped {node : Node} (h : Settled node) :
    (unwrapped node).normal = unwrapped node ∧ unwrapped (unwrapped node) = unwrapped node := by
  by_cases hsingle : ∃ only, node = group [only]
  · obtain ⟨only, rfl⟩ := hsingle
    obtain ⟨hnormal, hgroup⟩ := h.2 only (List.mem_singleton_self only)
    refine ⟨hnormal, ?_⟩
    cases only <;> first | rfl | exact absurd rfl hgroup
  · have hkept : unwrapped node = node := by
      unfold unwrapped
      split
      · next only => exact absurd ⟨only, rfl⟩ hsingle
      · rfl
    rw [hkept, hkept]
    exact ⟨h.1, rfl⟩

theorem unwrapped_settled {items : List Node} (h : ∀ n ∈ items, Settled n.normal) :
    (normals ((normals items).map unwrapped)).map unwrapped = (normals items).map unwrapped := by
  simp only [normals_eq_map, List.map_map]
  refine List.map_congr_left fun n hn => ?_
  obtain ⟨hnormal, hunwrapped⟩ := settled_unwrapped (h n hn)
  simp only [Function.comp_apply, hnormal, hunwrapped]

theorem settled_normal (node : Node) : Settled node.normal := by
  induction node with
  | text | rule | comment | image | code | notice =>
    exact settled_of_normal Bool.false_ne_true rfl
  | group children ih =>
    obtain ⟨hmembers, hjoined⟩ := settled_joined ih
    exact ⟨by rw [normal, normal, hjoined], hmembers⟩
  | quote children ih | element tag attributes children ih | emphasis style children ih
  | codeSpan children ih | richCode language children ih
  | link target destination title children ih | paragraph children ih
  | heading level anchor children ih | page metadata children ih =>
    refine settled_of_normal Bool.false_ne_true ?_
    rw [normal, normal, (settled_joined ih).2]
  | list style items ih =>
    refine settled_of_normal Bool.false_ne_true ?_
    rw [normal, normal, unwrapped_settled ih]
  | table header rows ihheader ihrows =>
    refine settled_of_normal Bool.false_ne_true ?_
    have hrows : normalRows (normalRows rows) = normalRows rows := by
      induction rows with
      | nil => rfl
      | cons row rest ih =>
        obtain ⟨hrow, hrest⟩ := List.forall_mem_cons.1 ihrows
        rw [normalRows, normalRows, unwrapped_settled hrow, ih hrest]
    rw [normal, normal, unwrapped_settled ihheader, hrows]
  | collapsible summary children ihsummary ih =>
    refine settled_of_normal Bool.false_ne_true ?_
    rw [normal, normal, ihsummary.1, (settled_joined ih).2]

/-- The normal form of a normal form is that form itself. -/
theorem normal_normal (node : Node) : node.normal.normal = node.normal := (settled_normal node).1

end DocTree.Node
