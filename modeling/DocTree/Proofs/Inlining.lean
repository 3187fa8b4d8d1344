import DocTree.Signature.Expansion

/-! What the queue of a signature comes to. Reading tokens from the queue, with the tokens of a
local declaration put in front of the rest, gives what a recursion over the declarations gives
that writes each of them in the place of its reference. -/
namespace DocTree.Signature
open DocTree.Api

/-- A token that comes to nothing: its own text, and a remark that says why. -/
def literal (token : Token) (error : ResolveError) : List Node × List Diagnostic :=
  ([.text token.text], [⟨.warning, error.code, error.message⟩])

/-- What tokens are written as at a depth of declarations inside one another, from left to right.
A local declaration is written in the place of a reference to it, one level deeper, down to the
eighth level. -/
def inlined (ctx : Context) (depth : Nat) : List Token → List Node × List Diagnostic
  | [] => ([], [])
  | token :: rest =>
    let first : List Node × List Diagnostic :=
      match ctx.scope.resolve token with
      | .ok .plain => ([.text token.text], [])
      | .ok (.exported item) =>
        match ctx.routes.get? item.name with
        | some page =>
          let destination := page ++ "#" ++ ctx.anchors.anchor item.name item.kind
          ([.link .page destination none [.text token.text]], [])
        | none => literal token (.unrouted item.name)
      | .ok (.expansion tokens) =>
        if depth < 8 then inlined ctx (depth + 1) tokens else literal token (.expansionLimit 8)
      | .error error => literal token error
    let more := inlined ctx depth rest
    (first.1 ++ more.1, first.2 ++ more.2)
termination_by tokens => (8 - depth, tokens.length)

/-- The nodes with neighbouring texts as one text. -/
def merged : List Node → List Node
  | .text s :: .text t :: rest => merged (.text (s ++ t) :: rest)
  | node :: rest => node :: merged rest
  | [] => []
termination_by nodes => nodes.length

def isLink : Node → Bool
  | .link _ _ _ _ => true
  | _ => false

/-- The node for a signature: code with links if there are any, and else code that is laid out
if it can be. -/
def blockOf (children : List Node) (remarks : List Diagnostic) : Node × List Diagnostic :=
  if children.any isLink then (.richCode "typescript" children, remarks)
  else
    let text := Node.textsContent children
    match layOut text with
    | .ok code => (.code (some "typescript") code, remarks)
    | .error error =>
      let shown := String.ofList (Unicode.trimBlank text.toList)
      (.code (some "typescript") text,
        remarks ++ [⟨.warning, "F001", s!"Unable to format signature '{shown}': {error.message}"⟩])

/-- What has been read with more parts and remarks behind it. -/
def Reading.add (r : Reading) (more : List Node × List Diagnostic) : Reading where
  reversed := more.1.foldl Node.pushMerged r.reversed
  hasLinks := r.hasLinks || more.1.any isLink
  remarks := r.remarks ++ more.2

theorem Reading.add_nil (r : Reading) : r.add ([], []) = r := by simp [add]

theorem Reading.add_append (r : Reading) (a b : List Node × List Diagnostic) :
    r.add (a.1 ++ b.1, a.2 ++ b.2) = (r.add a).add b := by
  simp [add, Bool.or_assoc]

theorem Reading.addText_eq (r : Reading) (text : String) :
    r.addText text = r.add ([.text text], []) := by
  simp [add, addText, isLink]

theorem Reading.addLink_eq (r : Reading) (destination text : String) :
    r.addLink destination text = r.add ([.link .page destination none [.text text]], []) := by
  simp [add, addLink, isLink, Node.pushMerged]

theorem Reading.addFailure_eq (r : Reading) (error : ResolveError) (token : Token) :
    r.addFailure error token.text = r.add (literal token error) := by
  simp [add, addFailure, addText, literal, isLink]

/-- One turn of the queue: the token at its head is written, or its declaration takes its place. -/
theorem readQueue_cons (ctx : Context) (token : Token) (levels : Nat)
    (rest : List (Token × Nat)) (r : Reading) :
    readQueue ctx ((token, levels) :: rest) r =
      match ctx.meaning levels token with
      | .text => readQueue ctx rest (r.addText token.text)
      | .link destination => readQueue ctx rest (r.addLink destination token.text)
      | .failure error => readQueue ctx rest (r.addFailure error token.text)
      | .expansion tokens => readQueue ctx (tokens.map (·, levels - 1) ++ rest) r := by
  rw [readQueue]
  split <;> simp [*]

/-- What every turn keeps of a reading holds of what the queue is read as. -/
theorem readQueue_induction {ctx : Context} {motive : Reading → Prop}
    (text : ∀ r s, motive r → motive (r.addText s))
    (link : ∀ r levels token destination, ctx.meaning levels token = .link destination →
      motive r → motive (r.addLink destination token.text))
    (failure : ∀ r error s, motive r → motive (r.addFailure error s))
    (queue : List (Token × Nat)) {r : Reading} (h : motive r) :
    motive (readQueue ctx queue r) := by
  induction queue, r using readQueue.induct ctx with
  | case1 r => rwa [readQueue]
  | case2 r token levels rest hmeaning ih =>
    rw [readQueue_cons, hmeaning]
    exact ih (text r token.text h)
  | case3 r token levels rest destination hmeaning ih =>
    rw [readQueue_cons, hmeaning]
    exact ih (link r levels token destination hmeaning h)
  | case4 r token levels rest error hmeaning ih =>
    rw [readQueue_cons, hmeaning]
    exact ih (failure r error token.text h)
  | case5 r token levels rest tokens hmeaning ih =>
    rw [readQueue_cons, hmeaning]
    exact ih h

/-- Reading a queue depends on what becomes of the tokens only. -/
theorem readQueue_congr {ctx other : Context}
    (h : ∀ levels token, other.meaning levels token = ctx.meaning levels token)
    (queue : List (Token × Nat)) (r : Reading) :
    readQueue other queue r = readQueue ctx queue r := by
  induction queue, r using readQueue.induct ctx with
  | case1 r => rw [readQueue, readQueue]
  | case2 r token levels rest hmeaning ih =>
    rw [readQueue_cons, readQueue_cons, h, hmeaning]
    exact ih
  | case3 r token levels rest destination hmeaning ih =>
    rw [readQueue_cons, readQueue_cons, h, hmeaning]
    exact ih
  | case4 r token levels rest error hmeaning ih =>
    rw [readQueue_cons, readQueue_cons, h, hmeaning]
    exact ih
  | case5 r token levels rest tokens hmeaning ih =>
    rw [readQueue_cons, readQueue_cons, h, hmeaning]
    exact ih

/-- Tokens at the head of the queue, at the depth that the levels left to them stand for, are read
as the recursion writes them. -/
theorem readQueue_append (ctx : Context) {depth : Nat} (hdepth : depth ≤ 8) (tokens : List Token)
    (rest : List (Token × Nat)) (r : Reading) :
    readQueue ctx (tokens.map (·, maxLevels - depth) ++ rest) r =
      readQueue ctx rest (r.add (inlined ctx depth tokens)) := by
  have hmax : maxLevels = 8 := rfl
  -- `ih` reads the tokens that follow at the same depth, `deeper` those of a declaration.
  induction depth, tokens using inlined.induct ctx generalizing rest r with
  | case1 depth => simp [inlined, Reading.add_nil]
  | case2 depth token siblings deeper ih =>
    rw [inlined, Reading.add_append, ← ih hdepth, List.map_cons, List.cons_append, readQueue_cons]
    cases hmeaning : ctx.scope.resolve token with
    | error error => simp [Context.meaning, hmeaning, Reading.addFailure_eq]
    | ok resolution =>
      cases resolution with
      | plain => simp [Context.meaning, hmeaning, Reading.addText_eq]
      | exported item =>
        cases hroute : ctx.routes.get? item.name with
        | none =>
          simp [Context.meaning, Context.destination, hmeaning, hroute, Reading.addFailure_eq]
        | some page =>
          simp [Context.meaning, Context.destination, hmeaning, hroute, Reading.addLink_eq]
      | expansion tokens =>
        by_cases hroom : depth < 8
        · have hlevels : maxLevels - depth ≠ 0 := by omega
          have hnext : maxLevels - depth - 1 = maxLevels - (depth + 1) := by omega
          simp only [Context.meaning, hmeaning, hlevels, hnext, hroom, if_false, if_true]
          exact deeper tokens hroom hroom _ r
        · have hlevels : maxLevels - depth = 0 := by omega
          simp only [Context.meaning, hmeaning, hlevels, hroom, if_false, if_true,
            Reading.addFailure_eq]
          rfl

/-- Putting nodes behind others one by one merges them. -/
theorem reverse_foldl_pushMerged (nodes : List Node) (last : Node) (reversed : List Node) :
    (nodes.foldl Node.pushMerged (last :: reversed)).reverse =
      reversed.reverse ++ merged (last :: nodes) := by
  induction nodes generalizing last reversed with
  | nil => simp [merged]
  | cons node rest ih =>
    rw [List.foldl_cons]
    cases last with
    | text s =>
      cases node with
      | text t => simp [Node.pushMerged, ih, merged]
      | _ => simp [Node.pushMerged, ih, merged]
    | _ => simp [Node.pushMerged, ih, merged]

theorem foldl_pushMerged (nodes : List Node) :
    (nodes.foldl Node.pushMerged []).reverse = merged nodes := by
  cases nodes with
  | nil => simp [merged]
  | cons node rest =>
    have hfirst : Node.pushMerged [] node = [node] := by cases node <;> rfl
    rw [List.foldl_cons, hfirst, reverse_foldl_pushMerged]
    rfl

theorem any_isLink_merged (nodes : List Node) : (merged nodes).any isLink = nodes.any isLink := by
  fun_induction merged nodes with
  | case1 s t rest ih => simpa [isLink] using ih
  | case2 node rest _ ih => simp [ih]
  | case3 => rfl

theorem finish_add (written : List Node × List Diagnostic) :
    (Reading.add {} written).finish = blockOf (merged written.1) written.2 := by
  have hchildren : (Reading.add {} written).reversed.reverse = merged written.1 :=
    foldl_pushMerged written.1
  have hlinks : (Reading.add {} written).hasLinks = (merged written.1).any isLink := by
    rw [any_isLink_merged]
    rfl
  have hremarks : (Reading.add {} written).remarks = written.2 := rfl
  unfold Reading.finish blockOf plainCode
  simp only [hchildren, hlinks, hremarks]
  split
  · rfl
  · cases layOut (Node.textsContent (merged written.1)) with
    | ok code => simp [language]
    | error error => rfl

/-- The node and the remarks for a signature are those of the recursion: its parts with the texts
merged, as code with links if it has any, and else laid out as far as it can be. -/
theorem build_inlined (ctx : Context) (excerpt : Excerpt) :
    build ctx excerpt =
      blockOf (merged (inlined ctx 0 excerpt.tokens).1) (inlined ctx 0 excerpt.tokens).2 := by
  have hqueue := readQueue_append ctx (Nat.zero_le 8) excerpt.tokens [] {}
  rw [List.append_nil, readQueue] at hqueue
  rw [build, ← finish_add, ← hqueue]
  rfl

end DocTree.Signature
