import DocTree.Api.Anchors
import DocTree.Diagnostic
import DocTree.Node.Normal
import DocTree.Signature.Layout

/-! The signature of a declaration as a block of code. Tokens wait in a queue. One that refers
to an export becomes a link; one that refers to something that is not exported is replaced at
the head of the queue by the tokens of its signature, for a limited number of levels; any other
one is text. -/
namespace DocTree.Signature
open DocTree.Api

/-- The language of signatures. -/
def language : String := "typescript"

/-- How many levels of signatures may stand inside one another. -/
def maxLevels : Nat := 8

/-- What the tokens of a signature are read against: the declarations, the anchors, and the
page of each export. -/
structure Context where
  scope : Scope
  anchors : Anchors
  routes : Dict String

/-- What becomes of a token. -/
inductive Meaning where
  | text
  | link (destination : String)
  | expansion (tokens : List Token)
  | failure (error : ResolveError)
  deriving Inhabited

namespace Context

/-- The address of an item on the page that shows it. -/
def destination (ctx : Context) (item : Item) : Except ResolveError String :=
  match ctx.routes.get? item.name with
  | some page => .ok (page ++ "#" ++ ctx.anchors.anchor item.name item.kind)
  | none => .error (.unrouted item.name)

/-- What becomes of a token when the given number of levels is left. -/
def meaning (ctx : Context) (levels : Nat) (token : Token) : Meaning :=
  match ctx.scope.resolve token with
  | .ok .plain => .text
  | .ok (.exported item) =>
    match ctx.destination item with
    | .ok destination => .link destination
    | .error e => .failure e
  | .ok (.expansion tokens) =>
    if levels = 0 then .failure (.expansionLimit maxLevels) else .expansion tokens
  | .error e => .failure e

/-- The size of the largest signature that can take the place of a token. -/
def branching (ctx : Context) : Nat :=
  (ctx.scope.model.localDeclarations.entries.map fun e => e.2.tokens.length).foldr max 0

end Context

theorem length_le_foldr_max {α : Type} (size : α → Nat) {entries : List α} {e : α}
    (h : e ∈ entries) : size e ≤ (entries.map size).foldr max 0 := by
  induction entries with
  | nil => simp at h
  | cons head rest ih =>
    simp only [List.map_cons, List.foldr_cons]
    rcases List.mem_cons.1 h with rfl | h
    · omega
    · have := ih h
      omega

/-- Only a signature of the model takes the place of a token. -/
theorem resolve_expansion {scope : Scope} {token : Token} {tokens : List Token}
    (h : scope.resolve token = .ok (.expansion tokens)) :
    ∃ reference excerpt,
      scope.model.localDeclarations.get? reference = some excerpt ∧ excerpt.tokens = tokens := by
  have exported (r : String) : scope.findExported r ≠ .ok (.expansion tokens) := by
    unfold Scope.findExported
    dsimp only
    split <;> simp
  unfold Scope.resolve at h
  split at h
  · simp at h
  · next reference _ =>
    unfold Scope.resolveReference at h
    split at h
    · simp at h
    · split at h
      · simp at h
      · split at h
        · split at h
          · exact absurd h (exported _)
          · unfold Scope.findLocal at h
            split at h
            · next excerpt he => exact ⟨reference, excerpt, he, by simpa using h⟩
            · simp at h
        · exact absurd h (exported _)

theorem length_le_branching {ctx : Context} {levels : Nat} {token : Token} {tokens : List Token}
    (h : ctx.meaning levels token = .expansion tokens) :
    levels ≠ 0 ∧ tokens.length ≤ ctx.branching := by
  unfold Context.meaning at h
  split at h
  · simp at h
  · split at h <;> simp at h
  · next ts hr =>
    split at h
    · simp at h
    · next hl =>
      refine ⟨hl, ?_⟩
      obtain ⟨reference, excerpt, he, ht⟩ := resolve_expansion hr
      have hm := Dict.mem_entries_iff.2 he
      have := length_le_foldr_max (fun e : String × Excerpt => e.2.tokens.length) hm
      simp only [Meaning.expansion.injEq] at h
      subst h
      simpa [Context.branching, ht] using this
  · simp at h

/-- The number of steps that a token with the given number of levels left takes at most. -/
def tokenCost (branching : Nat) : Nat → Nat
  | 0 => 1
  | levels + 1 => 1 + branching * tokenCost branching levels

/-- The number of steps that a queue takes at most. -/
def queueCost (branching : Nat) : List (Token × Nat) → Nat
  | [] => 0
  | (_, levels) :: rest => tokenCost branching levels + queueCost branching rest

theorem tokenCost_pos (branching levels : Nat) : 0 < tokenCost branching levels := by
  cases levels with
  | zero => exact Nat.one_pos
  | succ n => exact Nat.add_pos_left Nat.one_pos _

theorem queueCost_rest (branching : Nat) (token : Token) (levels : Nat)
    (rest : List (Token × Nat)) :
    queueCost branching rest < queueCost branching ((token, levels) :: rest) := by
  have := tokenCost_pos branching levels
  simp only [queueCost]
  omega

theorem queueCost_append (branching : Nat) (q r : List (Token × Nat)) :
    queueCost branching (q ++ r) = queueCost branching q + queueCost branching r := by
  induction q with
  | nil => simp [queueCost]
  | cons head rest ih => simp only [List.cons_append, queueCost, ih]; omega

theorem queueCost_map (branching levels : Nat) (tokens : List Token) :
    queueCost branching (tokens.map (·, levels)) = tokens.length * tokenCost branching levels := by
  induction tokens with
  | nil => simp [queueCost]
  | cons head rest ih =>
    simp only [List.map_cons, queueCost, ih, List.length_cons, Nat.succ_mul]
    omega

theorem queueCost_expansion {ctx : Context} {levels : Nat} {token : Token} {tokens : List Token}
    (rest : List (Token × Nat)) (h : ctx.meaning levels token = .expansion tokens) :
    queueCost ctx.branching (tokens.map (·, levels - 1) ++ rest)
      < queueCost ctx.branching ((token, levels) :: rest) := by
  obtain ⟨hl, hb⟩ := length_le_branching h
  obtain ⟨n, rfl⟩ := Nat.exists_eq_succ_of_ne_zero hl
  rw [queueCost_append, queueCost_map]
  have := Nat.mul_le_mul_right (tokenCost ctx.branching n) hb
  simp only [queueCost, tokenCost, Nat.succ_eq_add_one, Nat.add_sub_cancel]
  omega

/-- What has been read of a signature: its parts in reverse, and the remarks on it. -/
structure Reading where
  reversed : List Node := []
  hasLinks : Bool := false
  remarks : List Diagnostic := []
  deriving Inhabited

namespace Reading

def addText (r : Reading) (text : String) : Reading :=
  { r with reversed := Node.pushMerged r.reversed (.text text) }

def addLink (r : Reading) (destination text : String) : Reading :=
  { r with
    reversed := .link .page destination none [.text text] :: r.reversed
    hasLinks := true }

def addFailure (r : Reading) (error : ResolveError) (text : String) : Reading :=
  { r.addText text with remarks := r.remarks ++ [⟨.warning, error.code, error.message⟩] }

end Reading

/-- Takes tokens from a queue until none is left. Each stands beside the number of levels that
its signature may still open. -/
def readQueue (ctx : Context) (queue : List (Token × Nat)) (r : Reading) : Reading :=
  match queue with
  | [] => r
  | (token, levels) :: rest =>
    match _h : ctx.meaning levels token with
    | .text => readQueue ctx rest (r.addText token.text)
    | .link destination => readQueue ctx rest (r.addLink destination token.text)
    | .failure error => readQueue ctx rest (r.addFailure error token.text)
    | .expansion tokens => readQueue ctx (tokens.map (·, levels - 1) ++ rest) r
termination_by queueCost ctx.branching queue
decreasing_by
  · exact queueCost_rest ctx.branching token levels rest
  · exact queueCost_rest ctx.branching token levels rest
  · exact queueCost_rest ctx.branching token levels rest
  · exact queueCost_expansion rest _h

/-- The code of a signature without links, and a remark if it cannot be laid out. -/
def plainCode (text : String) : String × List Diagnostic :=
  match layOut text with
  | .ok code => (code, [])
  | .error e =>
    let shown := String.ofList (Unicode.trimBlank text.toList)
    (text, [⟨.warning, "F001", s!"Unable to format signature '{shown}': {e.message}"⟩])

/-- The block of code for what has been read, and the remarks. -/
def Reading.finish (r : Reading) : Node × List Diagnostic :=
  let children := r.reversed.reverse
  if r.hasLinks then (.richCode language children, r.remarks)
  else
    let (code, remarks) := plainCode (Node.textsContent children)
    (.code (some language) code, r.remarks ++ remarks)

/-- The block of code for a signature, and the remarks on it. -/
def build (ctx : Context) (excerpt : Excerpt) : Node × List Diagnostic :=
  (readQueue ctx (excerpt.tokens.map (·, maxLevels)) {}).finish

end DocTree.Signature
