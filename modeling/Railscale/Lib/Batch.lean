import Mathlib.Data.List.Induction
import Mathlib.Tactic.Lemma

/-!
# Batches

Chunks are pushed to a buffer one by one, and the buffer is emptied as soon as it has grown over a limit. `pending` is
what it holds behind the last chunk, and `pending_eq_nil_iff` says when that is nothing: when the chunks can be cut into
batches that grow over the limit with their last chunk.
-/

namespace Railscale.Batch

variable {α : Type} (limit : Nat)

/-- What is pending behind some chunks. -/
def pending : List α → List (List α) → List α
  | b, [] => b
  | b, c :: cs => if limit < (b ++ c).length then pending [] cs else pending (b ++ c) cs

/-- The chunks are batches that grow over the limit with their last chunk, and empty chunks behind them. -/
inductive Batched : List (List α) → Prop where
  | empty {cs} :
    (∀ c ∈ cs, c = []) →
    Batched cs
  | batch {cs c ds} :
    cs.flatten.length ≤ limit →
    limit < (cs.flatten ++ c).length →
    Batched ds →
    Batched (cs ++ c :: ds)

variable {limit}

/-- What is pending behind two runs of chunks, one behind the other. -/
lemma pending_append (b : List α) (cs ds : List (List α)) :
    pending limit b (cs ++ ds) = pending limit (pending limit b cs) ds := by
  induction cs generalizing b with
  | nil => rfl
  | cons c cs ih =>
    rw [List.cons_append, pending, pending]
    split
    · exact ih []
    · exact ih (b ++ c)

/-- Within the limit everything is pending. -/
lemma pending_within {b : List α} {cs : List (List α)} (within : (b ++ cs.flatten).length ≤ limit) :
    pending limit b cs = b ++ cs.flatten := by
  induction cs generalizing b with
  | nil => exact (List.append_nil b).symm
  | cons c cs ih =>
    rw [List.flatten_cons, ← List.append_assoc] at within ⊢
    have first : (b ++ c).length ≤ limit := by
      rw [List.length_append] at within
      exact Nat.le_of_add_right_le within
    rw [pending, if_neg (Nat.not_lt_of_le first)]
    exact ih within

/-- A batch leaves nothing behind. -/
lemma pending_batch {cs ds : List (List α)} {c : List α} (within : cs.flatten.length ≤ limit)
    (excess : limit < (cs.flatten ++ c).length) : pending limit [] (cs ++ c :: ds) = pending limit [] ds := by
  have first : pending limit [] cs = cs.flatten := pending_within within
  rw [pending_append, first, pending, if_pos excess]

/-- Chunks over the limit begin with a batch. -/
lemma exists_batch {cs : List (List α)} (excess : limit < cs.flatten.length) :
    ∃ cs1 c ds, cs = cs1 ++ c :: ds ∧ cs1.flatten.length ≤ limit ∧ limit < (cs1.flatten ++ c).length := by
  induction cs using List.reverseRecOn with
  | nil => exact absurd excess (Nat.not_lt_zero _)
  | append_singleton cs c ih =>
    by_cases first : limit < cs.flatten.length
    · obtain ⟨cs1, c1, ds, rfl, batch⟩ := ih first
      exact ⟨cs1, c1, ds ++ [c], List.append_assoc _ _ _, batch⟩
    · refine ⟨cs, c, [], rfl, Nat.le_of_not_lt first, ?_⟩
      rw [List.flatten_append, List.flatten_singleton] at excess
      exact excess

/-- Nothing is pending exactly when the chunks are batches. -/
theorem pending_eq_nil_iff (cs : List (List α)) : pending limit [] cs = [] ↔ Batched limit cs := by
  constructor
  · intro nothing
    generalize len : cs.length = n
    induction n using Nat.strongRecOn generalizing cs with
    | ind n ih =>
      by_cases excess : limit < cs.flatten.length
      · obtain ⟨cs1, c, ds, rfl, within, grown⟩ := exists_batch excess
        rw [pending_batch within grown] at nothing
        refine .batch within grown (ih ds.length ?_ ds nothing rfl)
        rw [← len, List.length_append, List.length_cons]
        exact Nat.lt_of_lt_of_le (Nat.lt_succ_self _) (Nat.le_add_left _ _)
      · rw [pending_within (Nat.le_of_not_lt excess)] at nothing
        exact .empty (List.flatten_eq_nil_iff.1 nothing)
  · intro batched
    induction batched with
    | @empty cs empty =>
      have flat : cs.flatten = [] := List.flatten_eq_nil_iff.2 empty
      rw [pending_within (by rw [flat]; exact Nat.zero_le _), flat]
      rfl
    | batch within grown _ ih => rw [pending_batch within grown, ih]

/-- Whether chunks are batched is decided by running over them. -/
instance (cs : List (List α)) [DecidableEq α] : Decidable (Batched limit cs) :=
  decidable_of_iff _ (pending_eq_nil_iff cs)

end Railscale.Batch
