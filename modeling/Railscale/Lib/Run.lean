import Mathlib.Data.List.Basic
import Mathlib.Tactic.Lemma

/-!
# Runs of a transition function

A machine is a partial transition function `step : σ → α → Option σ`: the action `α` carries what the
environment answers, and `none` says that the action is not possible in the state. A run is a list of
actions. `Run.invariant` is the induction every safety result goes through: what holds at the start
and is kept by each step holds in every state reached.

`always_iff_every` is for machines that keep a property as long as each of their steps meets a condition on
the state it is taken in: the property holds all along a run exactly when every step meets the condition.
-/

namespace Railscale

variable {σ α : Type}

/-- `Run step s as s'`: performing the actions `as` in order leads from `s` to `s'`. -/
inductive Run (step : σ → α → Option σ) : σ → List α → σ → Prop where
  | nil {s} :
    Run step s [] s
  | cons {s s1 s' a as} :
    step s a = some s1 →
    Run step s1 as s' →
    Run step s (a :: as) s'

/-- Performing the actions, as a function. -/
def exec (step : σ → α → Option σ) : σ → List α → Option σ
  | s, [] => some s
  | s, a :: as => (step s a).bind fun s1 => exec step s1 as

/-- What `exec` computes is a run. -/
lemma Run.of_exec {step : σ → α → Option σ} {s s' as} (h : exec step s as = some s') :
    Run step s as s' := by
  induction as generalizing s with
  | nil =>
    cases h
    exact .nil
  | cons a as ih =>
    obtain ⟨s1, st, h⟩ := Option.bind_eq_some_iff.1 h
    exact .cons st (ih h)

/-- Runs compose. -/
lemma Run.append {step : σ → α → Option σ} {s s1 s' as bs}
    (r1 : Run step s as s1) (r2 : Run step s1 bs s') : Run step s (as ++ bs) s' := by
  induction r1 with
  | nil => exact r2
  | cons st _ ih => exact .cons st (ih r2)

/-- A run is a function of its actions. -/
lemma Run.unique {step : σ → α → Option σ} {s s1 s2 as}
    (r1 : Run step s as s1) (r2 : Run step s as s2) : s1 = s2 := by
  induction r1 with
  | nil => cases r2; rfl
  | cons st _ ih =>
    cases r2 with
    | cons st' r2 =>
      rw [st] at st'
      cases st'
      exact ih r2

/-- An invariant of the steps is an invariant of the runs. -/
theorem Run.invariant {step : σ → α → Option σ} {P : σ → Prop}
    (keep : ∀ s a s', P s → step s a = some s' → P s')
    {s as s'} (r : Run step s as s') (init : P s) : P s' := by
  induction r with
  | nil => exact init
  | cons st _ ih => exact ih (keep _ _ _ init st)

/-- The same for an invariant that counts the actions of a kind. -/
theorem Run.invariant_count {step : σ → α → Option σ} {P : σ → Nat → Prop} {kind : α → Bool}
    (keep : ∀ s n a s', P s n → step s a = some s' → P s' (n + if kind a then 1 else 0)) {s s' as n}
    (run : Run step s as s') (start : P s n) : P s' (n + as.countP kind) := by
  induction run generalizing n with
  | nil => exact start
  | @cons s s1 s' a as st _ ih =>
    have later := ih (keep s n a s1 start st)
    rw [List.countP_cons, Nat.add_comm (as.countP kind), ← Nat.add_assoc]
    exact later

/-- Where every step lowers a potential, but for the actions of a kind, which may add to it, the potential and
the number of those actions bound the length of a run. -/
theorem Run.length_le {step : σ → α → Option σ} {potential : σ → Nat} {kind : α → Bool} {k : Nat}
    (pays : ∀ s a s', step s a = some s' → potential s' + 1 ≤ potential s + if kind a then k else 0)
    {s as s'} (r : Run step s as s') : as.length + potential s' ≤ potential s + k * as.countP kind := by
  induction r with
  | nil => exact Nat.le_of_eq (Nat.add_comm _ _)
  | @cons s s1 s' a as st _ ih =>
    have one := pays s a s1 st
    rw [List.length_cons, List.countP_cons]
    cases of : kind a with
    | false =>
      rw [of] at one
      simp only [Bool.false_eq_true, if_false, Nat.add_zero] at one ⊢
      omega
    | true =>
      rw [of] at one
      simp only [if_true, Nat.mul_add, Nat.mul_one] at one ⊢
      omega

/-- Where every step lowers a potential and every state that is not final has a step, a run leads on to a final
state. -/
theorem Run.exists_final {step : σ → α → Option σ} {I final : σ → Prop} {potential : σ → Nat}
    (keep : ∀ s a s', I s → step s a = some s' → I s')
    (pays : ∀ s a s', step s a = some s' → potential s' + 1 ≤ potential s)
    (goes : ∀ s, I s → final s ∨ ∃ a s', step s a = some s') {s} (inv : I s) :
    ∃ as s', Run step s as s' ∧ final s' := by
  obtain ⟨n, bound⟩ : ∃ n, potential s ≤ n := ⟨_, Nat.le_refl _⟩
  induction n generalizing s with
  | zero =>
    rcases goes s inv with stops | ⟨a, s1, st⟩
    · exact ⟨[], s, .nil, stops⟩
    · exact absurd (Nat.le_trans (pays s a s1 st) bound) (Nat.not_succ_le_zero _)
  | succ n ih =>
    rcases goes s inv with stops | ⟨a, s1, st⟩
    · exact ⟨[], s, .nil, stops⟩
    · have less := Nat.le_of_succ_le_succ (Nat.le_trans (pays s a s1 st) bound)
      obtain ⟨as, s', run, stops⟩ := ih (keep s a s1 inv st) less
      exact ⟨a :: as, s', .cons st run, stops⟩

/-- Where a step of a machine is at most one step of another, a run of the one is a run of the other. -/
theorem Run.simulates {τ β : Type} {step : σ → α → Option σ} {step' : τ → β → Option τ} {R : σ → τ → Prop}
    (sim : ∀ s t a s', R s t → step s a = some s' → R s' t ∨ ∃ b t', step' t b = some t' ∧ R s' t')
    {s as s'} (r : Run step s as s') {t} (rel : R s t) : ∃ bs t', Run step' t bs t' ∧ R s' t' := by
  induction r generalizing t with
  | nil => exact ⟨[], t, .nil, rel⟩
  | cons st _ ih =>
    rcases sim _ t _ _ rel st with rel | ⟨b, t1, st', rel⟩
    · exact ih rel
    · obtain ⟨bs, t', run, rel⟩ := ih rel
      exact ⟨b :: bs, t', .cons st' run, rel⟩

/-- Where each step of a machine is a run of another, a run of the one is a run of the other. -/
theorem Run.realizes {τ β : Type} {step : σ → α → Option σ} {step' : τ → β → Option τ} {R : σ → τ → Prop}
    (goes : ∀ s t b t', R s t → step' t b = some t' → ∃ as s', Run step s as s' ∧ R s' t')
    {t bs t'} (r : Run step' t bs t') {s} (rel : R s t) : ∃ as s', Run step s as s' ∧ R s' t' := by
  induction r generalizing s with
  | nil => exact ⟨[], s, .nil, rel⟩
  | cons st _ ih =>
    obtain ⟨as1, s1, run1, rel⟩ := goes s _ _ _ rel st
    obtain ⟨as2, s', run2, rel⟩ := ih rel
    exact ⟨as1 ++ as2, s', run1.append run2, rel⟩

/-- `P` holds in every state that the actions lead through. -/
def Always (step : σ → α → Option σ) (P : σ → Prop) : σ → List α → Prop
  | s, [] => P s
  | s, a :: as => P s ∧ ∀ s1, step s a = some s1 → Always step P s1 as

/-- `Q` holds of every step that the actions take. -/
def Every (step : σ → α → Option σ) (Q : σ → α → Prop) : σ → List α → Prop
  | _, [] => True
  | s, a :: as => ∀ s1, step s a = some s1 → Q s a ∧ Every step Q s1 as

/-- What always holds, holds at the start. -/
lemma Always.start {step : σ → α → Option σ} {P : σ → Prop} {s as} (h : Always step P s as) : P s := by
  cases as with
  | nil => exact h
  | cons a as => exact h.1

/-- Every step of a run meets a property if the first and those behind it do. -/
lemma Every.cons {step : σ → α → Option σ} {Q : σ → α → Prop} {s s1 a as} (st : step s a = some s1) (meets : Q s a)
    (rest : Every step Q s1 as) : Every step Q s (a :: as) := by
  intro s1' st'
  cases st.symm.trans st'
  exact ⟨meets, rest⟩

/-- Every step of two runs, one behind the other, meets a property if those of both do. -/
lemma Every.append {step : σ → α → Option σ} {Q : σ → α → Prop} {s s1 as bs} (r : Run step s as s1)
    (left : Every step Q s as) (right : Every step Q s1 bs) : Every step Q s (as ++ bs) := by
  induction r with
  | nil => exact right
  | cons st _ ih =>
    obtain ⟨meets, rest⟩ := left _ st
    exact .cons st meets (ih rest right)

/-- What always holds, holds at the end of a run. -/
lemma Always.run {step : σ → α → Option σ} {P : σ → Prop} {s as s'} (h : Always step P s as)
    (r : Run step s as s') : P s' := by
  induction r with
  | nil => exact h
  | cons st _ ih => exact ih (h.2 _ st)

/-- A property that a step keeps exactly when it meets a condition. `I` is what else the steps keep. -/
theorem always_iff_every {step : σ → α → Option σ} {I P : σ → Prop} {Q : σ → α → Prop}
    (keep : ∀ s a s', I s → P s → step s a = some s' → I s' ∧ (P s' ↔ Q s a))
    {s as} (inv : I s) (start : P s) : Always step P s as ↔ Every step Q s as := by
  induction as generalizing s with
  | nil => exact iff_of_true start trivial
  | cons a as ih =>
    constructor
    · intro always s1 st
      obtain ⟨inv', iff⟩ := keep s a s1 inv start st
      have start' := (always.2 s1 st).start
      exact ⟨iff.1 start', (ih inv' start').1 (always.2 s1 st)⟩
    · intro every
      refine ⟨start, fun s1 st => ?_⟩
      obtain ⟨inv', iff⟩ := keep s a s1 inv start st
      obtain ⟨meets, rest⟩ := every s1 st
      exact (ih inv' (iff.2 meets)).2 rest

/-- A property that the steps keep as long as they meet a condition. -/
theorem Every.always {step : σ → α → Option σ} {I P : σ → Prop} {Q : σ → α → Prop}
    (keep : ∀ s a s', I s → Q s a → step s a = some s' → I s') (holds : ∀ s, I s → P s) {s as}
    (every : Every step Q s as) (inv : I s) : Always step P s as := by
  induction as generalizing s with
  | nil => exact holds s inv
  | cons a as ih =>
    refine ⟨holds s inv, fun s1 st => ?_⟩
    obtain ⟨meets, rest⟩ := every s1 st
    exact ih rest (keep s a s1 inv meets st)

/-- A condition that only looks at the action, in the states of a machine that can take any action. -/
lemma every_iff_forall {step : σ → α → Option σ} {I : σ → Prop} {Q : σ → α → Prop} {q : α → Prop}
    (keep : ∀ s a, I s → ∃ s', step s a = some s' ∧ I s') (same : ∀ s a, I s → (Q s a ↔ q a)) {s as} (inv : I s) :
    Every step Q s as ↔ ∀ a ∈ as, q a := by
  induction as generalizing s with
  | nil => exact iff_of_true trivial nofun
  | cons a as ih =>
    obtain ⟨s', st, inv'⟩ := keep s a inv
    rw [List.forall_mem_cons, ← same s a inv, ← ih inv']
    constructor
    · intro every
      exact every s' st
    · intro both s1 st1
      cases st.symm.trans st1
      exact both

/-- The machine that takes a step only where `P` allows it. -/
def allowed (P : σ → α → Prop) [∀ s a, Decidable (P s a)] (step : σ → α → Option σ) (s : σ) (a : α) :
    Option σ :=
  if P s a then step s a else none

/-- A step is allowed if it is a step and its condition holds. -/
lemma allowed_eq_some {P : σ → α → Prop} [∀ s a, Decidable (P s a)] {step : σ → α → Option σ}
    {s s' : σ} {a : α} : allowed P step s a = some s' ↔ P s a ∧ step s a = some s' :=
  Option.ite_none_right_eq_some

end Railscale
