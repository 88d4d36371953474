import Railscale.Lib.Bytes
import Mathlib.Data.List.Induction

/-!
# Derivation sessions

Model of `train_track/src/atom/derive.rs`: a `DeriverSession` runs a deduplicated table of matchers
over the lines of a message and keeps, for each matcher, the first value it matched and a sticky bit
that says whether a later value differed. A formula looks its own matchers up in the table.

`DeriverSession.feedAll_eq` replaces the incremental table by an order-free reading of the lines: the
result of a matcher is the first of its `hits`, its conflict bit says whether the hits `clash`.
-/

namespace Railscale

/-- A matcher: the phase it listens to and what it takes from a line (Rust `MatchAtom`). -/
class MatchAtom (M : Type) (P : outParam Type) where
  phase : M → P
  tryMatch : M → Bytes → Option Bytes

/-- A formula: the matchers it needs and the effect of their results (Rust `DerivationFormula`). -/
structure DerivationFormula (M E : Type) where
  matchers : List M
  resolve : List (Option Bytes) → E

/-- The table of matchers with their first results and conflict bits (Rust `DeriverSession`). -/
structure DeriverSession (M : Type) where
  matchers : List M
  results : List (Option Bytes)
  conflicts : List Bool
  deriving DecidableEq

namespace DeriverSession

variable {M P E : Type} [MatchAtom M P] [DecidableEq M] [DecidableEq P]

/-- The matchers that are new to the set (Rust `filter(|m| seen.insert(m.clone()))`). -/
def dedup (seen : List M) : List M → List M
  | [] => []
  | m :: ms => if m ∈ seen then dedup seen ms else m :: dedup (m :: seen) ms

/-- A fresh session (Rust `DeriverSession::new`). -/
def new (matchers : List M) : DeriverSession M :=
  let deduped := dedup [] matchers
  { matchers := deduped
    results := List.replicate deduped.length none
    conflicts := List.replicate deduped.length false }

/-- One matcher of `feed`: an empty result is filled, a filled one is only compared. -/
def feedOne (phase : P) (data : Bytes) (m : M) (result : Option Bytes) (conflict : Bool) :
    Option Bytes × Bool :=
  if MatchAtom.phase m ≠ phase then (result, conflict)
  else
    match result with
    | none => (MatchAtom.tryMatch m data, conflict)
    | some existing =>
      match MatchAtom.tryMatch m data with
      | some newVal => (result, conflict || existing != newVal)
      | none => (result, conflict)

/-- The loop of `feed` over the parallel vectors. -/
def feedLoop (phase : P) (data : Bytes) :
    List M → List (Option Bytes) → List Bool → List (Option Bytes) × List Bool
  | m :: ms, r :: rs, c :: cs =>
    let one := feedOne phase data m r c
    let rest := feedLoop phase data ms rs cs
    (one.1 :: rest.1, one.2 :: rest.2)
  | _, rs, cs => (rs, cs)

/-- Feed one line (Rust `DeriverSession::feed`). -/
def feed (s : DeriverSession M) (phase : P) (data : Bytes) : DeriverSession M :=
  let fed := feedLoop phase data s.matchers s.results s.conflicts
  { s with results := fed.1, conflicts := fed.2 }

/-- The results of a formula's matchers (Rust `results_for`). -/
def resultsFor (s : DeriverSession M) (F : DerivationFormula M E) : List (Option Bytes) :=
  F.matchers.map fun m =>
    (s.matchers.findIdx? (· == m)).bind fun idx => s.results.getD idx none

/-- Whether one of a formula's matchers saw two values (Rust `has_conflicts_for`). -/
def hasConflictsFor (s : DeriverSession M) (F : DerivationFormula M E) : Bool :=
  F.matchers.any fun m =>
    (s.matchers.findIdx? (· == m)).any fun idx => s.conflicts.getD idx false

/-- Feed a list of lines with their phases. -/
def feedAll (s : DeriverSession M) (lines : List (P × Bytes)) : DeriverSession M :=
  lines.foldl (fun s l => s.feed l.1 l.2) s

/-! ## The order-free reading -/

/-- The values a matcher takes from the lines of its phase. -/
def hits (lines : List (P × Bytes)) (m : M) : List Bytes :=
  lines.filterMap fun l => if MatchAtom.phase m = l.1 then MatchAtom.tryMatch m l.2 else none

/-- Whether a list of values differs from its first. -/
def clash (vs : List Bytes) : Bool := vs.any fun v => vs.head? != some v

/-- A list of values does not clash when they are all the same. -/
lemma clash_eq_false {vs : List Bytes} :
    clash vs = false ↔ ∀ v ∈ vs, ∀ w ∈ vs, v = w := by
  cases vs with
  | nil => simp [clash]
  | cons a vs =>
    simp only [clash, List.head?_cons, List.any_eq_false, bne_iff_ne, ne_eq, Option.some.injEq,
      not_not]
    constructor
    · intro h v hv w hw
      rw [← h v hv, ← h w hw]
    · intro h v hv
      exact h a (by simp) v hv

omit [DecidableEq M] in
/-- A line adds what the matcher takes from it, if it is of its phase. -/
lemma hits_cons (ph : P) (data : Bytes) (ls : List (P × Bytes)) (m : M) :
    hits ((ph, data) :: ls) m =
      if MatchAtom.phase m = ph then (MatchAtom.tryMatch m data).toList ++ hits ls m
      else hits ls m := by
  rw [hits, List.filterMap_cons]
  by_cases e : MatchAtom.phase m = ph
  · subst e
    simp only [if_true]
    cases MatchAtom.tryMatch m data <;> rfl
  · simp only [e, if_false]
    rfl

omit [DecidableEq M] in
/-- A line that a matcher takes nothing from. -/
lemma hits_skip {l : P × Bytes} {m : M} (nothing : MatchAtom.phase m = l.1 → MatchAtom.tryMatch m l.2 = none)
    (ls : List (P × Bytes)) : hits (l :: ls) m = hits ls m := by
  obtain ⟨ph, data⟩ := l
  rw [hits_cons]
  split
  · rename_i here
    have nothing : MatchAtom.tryMatch m data = none := nothing here
    rw [nothing]
    rfl
  · rfl

omit [DecidableEq M] in
/-- Lines that a matcher takes nothing from may be left out. -/
lemma hits_filter {keep : P × Bytes → Bool} {m : M}
    (nothing : ∀ l, keep l = false → MatchAtom.phase m = l.1 → MatchAtom.tryMatch m l.2 = none)
    (ls : List (P × Bytes)) : hits (ls.filter keep) m = hits ls m := by
  induction ls with
  | nil => rfl
  | cons l ls ih =>
    cases kept : keep l with
    | true =>
      rw [List.filter_cons_of_pos kept, hits_cons, hits_cons, ih]
    | false =>
      rw [List.filter_cons_of_neg (ne_true_of_eq_false kept), hits_skip (nothing l kept)]
      exact ih

omit [DecidableEq M] in
/-- Lines split into the hits of their parts. -/
lemma hits_append (ls ks : List (P × Bytes)) (m : M) :
    hits (ls ++ ks) m = hits ls m ++ hits ks m := by
  simp [hits]

omit [DecidableEq M] in
/-- One more line is one more step of the matcher's own entry. -/
lemma feedOne_hits (ls : List (P × Bytes)) (phase : P) (data : Bytes) (m : M) :
    feedOne phase data m (hits ls m).head? (clash (hits ls m)) =
      ((hits (ls ++ [(phase, data)]) m).head?, clash (hits (ls ++ [(phase, data)]) m)) := by
  have one : hits [(phase, data)] m =
      if MatchAtom.phase m = phase then (MatchAtom.tryMatch m data).toList else [] := by
    by_cases e : MatchAtom.phase m = phase
    · cases h : MatchAtom.tryMatch m data <;> simp [hits, e, h]
    · simp [hits, e]
  rw [hits_append, one]
  by_cases e : MatchAtom.phase m = phase
  · simp only [feedOne, e, ne_eq, not_true_eq_false, if_false, if_true]
    cases hl : hits ls m with
    | nil => cases MatchAtom.tryMatch m data <;> simp [clash]
    | cons v vs =>
      cases MatchAtom.tryMatch m data with
      | none => simp
      | some w => simp [clash, bne]
  · simp [feedOne, e]

omit [DecidableEq M] in
/-- The loop over the vectors updates each entry on its own. -/
lemma feedLoop_map (phase : P) (data : Bytes) (r : M → Option Bytes) (c : M → Bool) (ms : List M) :
    feedLoop phase data ms (ms.map r) (ms.map c) =
      (ms.map fun m => (feedOne phase data m (r m) (c m)).1,
       ms.map fun m => (feedOne phase data m (r m) (c m)).2) := by
  induction ms with
  | nil => rfl
  | cons m ms ih => simp [feedLoop, ih]

/-- The table after any lines, without the table: each matcher has the first of its hits and knows
whether they clash. -/
theorem feedAll_eq (ms : List M) (ls : List (P × Bytes)) :
    (new ms).feedAll ls =
      { matchers := dedup [] ms
        results := (dedup [] ms).map fun m => (hits ls m).head?
        conflicts := (dedup [] ms).map fun m => clash (hits ls m) } := by
  induction ls using List.reverseRecOn with
  | nil =>
    simp [feedAll, new, hits, clash, List.map_const']
  | append_singleton ls l ih =>
    obtain ⟨phase, data⟩ := l
    have step : (new ms).feedAll (ls ++ [(phase, data)]) = ((new ms).feedAll ls).feed phase data := by
      simp [feedAll]
    rw [step, ih, feed]
    simp only [feedLoop_map, feedOne_hits]

omit [MatchAtom M P] [DecidableEq P] in
/-- Deduplication keeps the members that were not seen before. -/
lemma mem_dedup {seen ms : List M} {m : M} : m ∈ dedup seen ms ↔ m ∈ ms ∧ m ∉ seen := by
  induction ms generalizing seen with
  | nil => simp [dedup]
  | cons a ms ih =>
    by_cases ha : a ∈ seen
    · simp only [dedup, ha, if_true, ih, List.mem_cons]
      constructor
      · rintro ⟨h1, h2⟩; exact ⟨.inr h1, h2⟩
      · rintro ⟨rfl | h1, h2⟩
        · exact absurd ha h2
        · exact ⟨h1, h2⟩
    · simp only [dedup, ha, if_false, List.mem_cons, ih, not_or]
      constructor
      · rintro (rfl | ⟨h1, h2, h3⟩)
        · exact ⟨.inl rfl, ha⟩
        · exact ⟨.inr h1, h3⟩
      · rintro ⟨rfl | h1, h2⟩
        · exact .inl rfl
        · by_cases e : m = a
          · exact .inl e
          · exact .inr ⟨h1, e, h2⟩

/-- Looking an entry up by its matcher finds the matcher's own entry. -/
lemma getD_map_findIdx {β : Type} (f : M → β) (d : β) {ms : List M} {m : M} (h : m ∈ ms) :
    ∃ idx, ms.findIdx? (· == m) = some idx ∧ (ms.map f).getD idx d = f m := by
  induction ms with
  | nil => cases h
  | cons a ms ih =>
    by_cases e : a = m
    · subst e
      exact ⟨0, by simp [List.findIdx?_cons], by simp⟩
    · have h : m ∈ ms := by simpa [Ne.symm e] using h
      obtain ⟨idx, h1, h2⟩ := ih h
      exact ⟨idx + 1, by simp [List.findIdx?_cons, e, h1], by simpa using h2⟩

/-- A formula whose matchers are in the table reads the first hit of each. -/
lemma resultsFor_feedAll {ms : List M} {F : DerivationFormula M E} (sub : ∀ m ∈ F.matchers, m ∈ ms)
    (ls : List (P × Bytes)) :
    ((new ms).feedAll ls).resultsFor F = F.matchers.map fun m => (hits ls m).head? := by
  rw [feedAll_eq, resultsFor]
  apply List.map_congr_left
  intro m hm
  obtain ⟨idx, h1, h2⟩ := getD_map_findIdx (fun m => (hits ls m).head?) none
    (mem_dedup.2 ⟨sub m hm, List.not_mem_nil⟩ : m ∈ dedup [] ms)
  simp only [h1, Option.bind_some, h2]

/-- A formula whose matchers are in the table has a conflict when the hits of one of them clash. -/
lemma hasConflictsFor_feedAll {ms : List M} {F : DerivationFormula M E}
    (sub : ∀ m ∈ F.matchers, m ∈ ms) (ls : List (P × Bytes)) :
    ((new ms).feedAll ls).hasConflictsFor F = F.matchers.any fun m => clash (hits ls m) := by
  have entry : ∀ m ∈ F.matchers,
      (((dedup [] ms).findIdx? (· == m)).any fun idx =>
        ((dedup [] ms).map fun m => clash (hits ls m)).getD idx false) = clash (hits ls m) := by
    intro m hm
    obtain ⟨idx, h1, h2⟩ := getD_map_findIdx (fun m => clash (hits ls m)) false
      (mem_dedup.2 ⟨sub m hm, List.not_mem_nil⟩ : m ∈ dedup [] ms)
    simp only [h1, Option.any_some, h2]
  rw [feedAll_eq, hasConflictsFor, Bool.eq_iff_iff, List.any_eq_true, List.any_eq_true]
  constructor
  · rintro ⟨m, hm, h⟩
    exact ⟨m, hm, entry m hm ▸ h⟩
  · rintro ⟨m, hm, h⟩
    exact ⟨m, hm, (entry m hm).symm ▸ h⟩

/-- A session that is shared with other formulas answers a formula as a session of its own does: the other
matchers, their order and their repetitions do not show. -/
theorem shared_eq_own (F : DerivationFormula M E) {ms : List M} (sub : ∀ m ∈ F.matchers, m ∈ ms)
    (ls : List (P × Bytes)) :
    ((new ms).feedAll ls).resultsFor F = ((new F.matchers).feedAll ls).resultsFor F ∧
      ((new ms).feedAll ls).hasConflictsFor F = ((new F.matchers).feedAll ls).hasConflictsFor F := by
  have own : ∀ m ∈ F.matchers, m ∈ F.matchers := fun _ hm => hm
  constructor
  · rw [resultsFor_feedAll sub, resultsFor_feedAll own]
  · rw [hasConflictsFor_feedAll sub, hasConflictsFor_feedAll own]

end DeriverSession

end Railscale
