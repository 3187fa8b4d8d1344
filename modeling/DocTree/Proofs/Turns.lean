import DocTree.Proofs.Inlining
import Mathlib.Algebra.BigOperators.Ring.Finset

/-! How long the queue of a signature lasts. A token can put more tokens into the queue than it
takes from it, but the levels that are left to it bound what can come of it, also where
declarations refer to themselves or to each other. -/
namespace DocTree.Signature
open DocTree.Api

/-- How far a signature has been read: the tokens that wait, and what was made of the others. -/
structure Stage where
  queue : List (Token × Nat)
  reading : Reading

/-- One turn takes a token from the queue. There is none when the queue is empty. -/
def Stage.next (ctx : Context) : Stage → Option Stage
  | ⟨[], _⟩ => none
  | ⟨(token, levels) :: rest, r⟩ =>
    match ctx.meaning levels token with
    | .text => some ⟨rest, r.addText token.text⟩
    | .link destination => some ⟨rest, r.addLink destination token.text⟩
    | .failure error => some ⟨rest, r.addFailure error token.text⟩
    | .expansion tokens => some ⟨tokens.map (·, levels - 1) ++ rest, r⟩

/-- So many turns, one behind the other, lead from one stage to another. -/
inductive Turns (ctx : Context) : Nat → Stage → Stage → Prop where
  | none (stage : Stage) : Turns ctx 0 stage stage
  | next {stage following last : Stage} {n : Nat} (turn : stage.next ctx = some following)
      (more : Turns ctx n following last) : Turns ctx (n + 1) stage last

variable {ctx : Context}

/-- A turn uses up a part of the cost of the queue: a token has more levels left than the tokens
that take its place, and those are no more than the largest declaration has. -/
theorem queueCost_next {stage following : Stage} (h : stage.next ctx = some following) :
    queueCost ctx.branching following.queue < queueCost ctx.branching stage.queue := by
  obtain ⟨queue, r⟩ := stage
  cases queue with
  | nil => simp [Stage.next] at h
  | cons head rest =>
    obtain ⟨token, levels⟩ := head
    have hrest := queueCost_rest ctx.branching token levels rest
    cases hmeaning : ctx.meaning levels token with
    | expansion tokens =>
      simp only [Stage.next, hmeaning, Option.some.injEq] at h
      subst h
      exact queueCost_expansion rest hmeaning
    | _ =>
      simp only [Stage.next, hmeaning, Option.some.injEq] at h
      subst h
      exact hrest

/-- The turns of a run and the cost of the queue behind them are paid by the queue before them. -/
theorem Turns.add_queueCost_le {n : Nat} {stage last : Stage} (h : Turns ctx n stage last) :
    n + queueCost ctx.branching last.queue ≤ queueCost ctx.branching stage.queue := by
  induction h with
  | none => simp
  | next turn more ih =>
    have := queueCost_next turn
    omega

/-- A turn leaves what will have been read in the end. -/
theorem readQueue_next {stage following : Stage} (h : stage.next ctx = some following) :
    readQueue ctx stage.queue stage.reading = readQueue ctx following.queue following.reading := by
  obtain ⟨queue, r⟩ := stage
  cases queue with
  | nil => simp [Stage.next] at h
  | cons head rest =>
    obtain ⟨token, levels⟩ := head
    rw [readQueue_cons]
    cases hmeaning : ctx.meaning levels token <;>
      simp only [Stage.next, hmeaning, Option.some.injEq] at h <;> rw [← h]

/-- The queue is read turn by turn until it is empty. -/
theorem exists_turns (ctx : Context) (stage : Stage) :
    ∃ n, Turns ctx n stage ⟨[], readQueue ctx stage.queue stage.reading⟩ := by
  induction hcost : queueCost ctx.branching stage.queue using Nat.strong_induction_on
    generalizing stage with
  | _ cost ih =>
    cases hnext : stage.next ctx with
    | none =>
      obtain ⟨queue, r⟩ := stage
      cases queue with
      | nil =>
        rw [readQueue]
        exact ⟨0, .none _⟩
      | cons head rest =>
        simp only [Stage.next] at hnext
        split at hnext <;> simp at hnext
    | some following =>
      obtain ⟨n, more⟩ := ih _ (hcost ▸ queueCost_next hnext) following rfl
      rw [readQueue_next hnext]
      exact ⟨n + 1, .next hnext more⟩

/-- The cost of a token is that of a full tree of declarations as deep as its levels. -/
theorem tokenCost_eq_sum (branching levels : Nat) :
    tokenCost branching levels = ∑ i ∈ Finset.range (levels + 1), branching ^ i := by
  induction levels with
  | zero => simp [tokenCost]
  | succ n ih =>
    rw [tokenCost, ih, Finset.sum_range_succ' _ (n + 1), Finset.mul_sum, Nat.add_comm]
    simp [pow_succ, mul_comm]

/-- Reading the queue of a signature ends, whatever refers to what, and takes no more tokens from
the queue than all trees of declarations of eight levels have that its tokens can grow into. What
has been read then makes the block of code. -/
theorem build_turns (ctx : Context) (excerpt : Excerpt) :
    ∃ taken r, Turns ctx taken ⟨excerpt.tokens.map (·, maxLevels), {}⟩ ⟨[], r⟩ ∧
      taken ≤ excerpt.tokens.length * ∑ i ∈ Finset.range 9, ctx.branching ^ i ∧
      build ctx excerpt = r.finish := by
  obtain ⟨taken, run⟩ := exists_turns ctx ⟨excerpt.tokens.map (·, maxLevels), {}⟩
  have hcost := run.add_queueCost_le
  have hlevels : maxLevels = 8 := rfl
  rw [queueCost_map, tokenCost_eq_sum, hlevels] at hcost
  exact ⟨taken, _, run, Nat.le_trans (Nat.le_add_right _ _) hcost, rfl⟩

end DocTree.Signature
