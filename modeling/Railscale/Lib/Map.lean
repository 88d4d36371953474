import Mathlib.Data.List.AList
import Mathlib.Algebra.GroupWithZero.Nat

/-!
# Maps with `retain`

A concurrent hash map is an `AList`: what a reader sees of it is `lookup`, and no two entries have the
same key. Mathlib has `insert` and `erase`; this adds `retain`, which rewrites every entry or drops it, and
`total`, which adds up a weight of the entries.
-/

namespace AList

variable {α β : Type} (f : β → Option β)

/-- What `retain` makes of an entry. -/
def retainEntry (e : Sigma fun _ : α => β) : Option (Sigma fun _ : α => β) :=
  (f e.2).map (⟨e.1, ·⟩)

/-- The keys that are retained are some of the keys, in order. -/
lemma keys_retain (l : List (Sigma fun _ : α => β)) :
    (l.filterMap (retainEntry f)).keys.Sublist l.keys := by
  induction l with
  | nil => exact .slnil
  | cons e l ih =>
    rw [List.keys_cons]
    cases h : f e.2 with
    | none =>
      rw [List.filterMap_cons_none (by rw [retainEntry, h]; rfl)]
      exact ih.cons _
    | some b =>
      rw [List.filterMap_cons_some (by rw [retainEntry, h]; rfl), List.keys_cons]
      exact ih.cons_cons _

/-- Rewrite every entry by `f`, and drop those that `f` drops. -/
def retain (m : AList fun _ : α => β) : AList fun _ : α => β :=
  ⟨m.entries.filterMap (retainEntry f), List.Nodup.sublist (keys_retain f m.entries) m.nodupKeys⟩

variable [DecidableEq α]

/-- What is under a key behind `retain` is what `f` leaves of it. -/
@[simp] lemma lookup_retain (k : α) (m : AList fun _ : α => β) :
    (m.retain f).lookup k = (m.lookup k).bind f := by
  obtain ⟨entries, nodup⟩ := m
  show (entries.filterMap (retainEntry f)).dlookup k = (entries.dlookup k).bind f
  induction entries with
  | nil => rfl
  | cons e l ih =>
    obtain ⟨k', b⟩ := e
    obtain ⟨fresh, nodup⟩ := List.nodupKeys_cons.1 nodup
    by_cases same : k' = k
    · subst same
      rw [List.dlookup_cons_eq]
      cases h : f b with
      | none =>
        have absent : k' ∉ (l.filterMap (retainEntry f)).keys :=
          fun hk => fresh ((keys_retain f l).subset hk)
        rw [List.filterMap_cons_none (by rw [retainEntry, h]; rfl), Option.bind_some, h]
        exact List.dlookup_eq_none.2 absent
      | some b' =>
        rw [List.filterMap_cons_some (by rw [retainEntry, h]; rfl), Option.bind_some, h]
        exact List.dlookup_cons_eq _ _ _
    · have skip : ∀ (b : β) l, List.dlookup k (⟨k', b⟩ :: l : List (Sigma fun _ : α => β)) =
          List.dlookup k l := fun b l => List.dlookup_cons_ne l ⟨k', b⟩ (Ne.symm same)
      rw [skip, ← ih nodup]
      cases h : f b with
      | none => rw [List.filterMap_cons_none (by rw [retainEntry, h]; rfl)]
      | some b' =>
        rw [List.filterMap_cons_some (by rw [retainEntry, h]; rfl)]
        exact skip _ _

/-! ## Adding up the entries -/

/-- The sum of a weight over the entries. -/
def total (w : β → Nat) (m : AList fun _ : α => β) : Nat := (m.entries.map fun e => w e.2).sum

omit [DecidableEq α] in
/-- `retain` does not add weight when its rewriting does not. -/
lemma total_retain_le {w : β → Nat} {f : β → Option β} (le : ∀ b b', f b = some b' → w b' ≤ w b)
    (m : AList fun _ : α => β) : total w (m.retain f) ≤ total w m := by
  show ((m.entries.filterMap (retainEntry f)).map fun e => w e.2).sum ≤ (m.entries.map fun e => w e.2).sum
  induction m.entries with
  | nil => exact Nat.le_refl _
  | cons e l ih =>
    rw [List.map_cons, List.sum_cons]
    cases h : f e.2 with
    | none =>
      rw [List.filterMap_cons_none (by rw [retainEntry, h]; rfl)]
      omega
    | some b =>
      rw [List.filterMap_cons_some (by rw [retainEntry, h]; rfl), List.map_cons, List.sum_cons]
      have := le e.2 b h
      dsimp only
      omega

/-- The weight of an entry that is erased. -/
lemma total_erase (w : β → Nat) (k : α) (m : AList fun _ : α => β) :
    total w (m.erase k) + ((m.lookup k).map w).getD 0 = total w m := by
  show ((m.entries.kerase k).map fun e => w e.2).sum + ((m.entries.dlookup k).map w).getD 0 =
    (m.entries.map fun e => w e.2).sum
  induction m.entries with
  | nil => rfl
  | cons e l ih =>
    obtain ⟨k', b⟩ := e
    rw [List.map_cons, List.sum_cons]
    by_cases same : k = k'
    · subst same
      have erased : List.kerase k (⟨k, b⟩ :: l : List (Sigma fun _ : α => β)) = l := List.kerase_cons_eq rfl
      rw [erased, List.dlookup_cons_eq]
      exact Nat.add_comm _ _
    · have kept : List.kerase k (⟨k', b⟩ :: l : List (Sigma fun _ : α => β)) = ⟨k', b⟩ :: l.kerase k :=
        List.kerase_cons_ne same
      rw [kept, List.dlookup_cons_ne l ⟨k', b⟩ same, List.map_cons, List.sum_cons]
      omega

/-- The total behind an insertion is the weight of the value and the total without the key. -/
lemma total_insert (w : β → Nat) (k : α) (b : β) (m : AList fun _ : α => β) :
    total w (m.insert k b) = w b + total w (m.erase k) := by
  rw [total, entries_insert, List.map_cons, List.sum_cons]
  rfl

end AList

namespace Railscale

/-! ## Adding up some of a list -/

/-- A sublist has no larger sum. -/
lemma sum_le_of_sublist {l m : List Nat} (sub : l.Sublist m) : l.sum ≤ m.sum := by
  induction sub with
  | slnil => exact Nat.le_refl _
  | cons n _ ih =>
    rw [List.sum_cons]
    exact Nat.le_trans ih (Nat.le_add_left _ n)
  | cons_cons n _ ih =>
    rw [List.sum_cons, List.sum_cons]
    exact Nat.add_le_add_left ih n

/-- The members of a list without repetition weigh no more than a list with all of them. -/
lemma sum_map_le {α : Type} (w : α → Nat) {l m : List α} (nodup : l.Nodup) (within : l ⊆ m) :
    (l.map w).sum ≤ (m.map w).sum := by
  obtain ⟨l', perm, sub⟩ := List.subperm_of_subset nodup within
  rw [← (perm.map w).sum_nat]
  exact sum_le_of_sublist (sub.map w)

/-! ## One place of a list -/

/-- A list around one of its places. -/
lemma exists_split_of_getElem? {α : Type} {l : List α} {n : Nat} {a : α} (here : l[n]? = some a) :
    ∃ l1 l2, l = l1 ++ a :: l2 ∧ ∀ b, l.set n b = l1 ++ b :: l2 := by
  induction l generalizing n with
  | nil => cases here
  | cons b l ih =>
    cases n with
    | zero =>
      cases here
      exact ⟨[], l, rfl, fun _ => rfl⟩
    | succ n =>
      obtain ⟨l1, l2, rfl, set⟩ := ih here
      exact ⟨b :: l1, l2, rfl, fun c => congrArg (b :: ·) (set c)⟩

/-- A flat map that is empty but at one place. -/
lemma flatMap_eq_of_single {α β : Type} {f : α → List β} {l : List α} {i : α} (nodup : l.Nodup) (mem : i ∈ l)
    (others : ∀ j ∈ l, j ≠ i → f j = []) : l.flatMap f = f i := by
  obtain ⟨l1, l2, rfl⟩ := List.append_of_mem mem
  have fresh := (List.nodup_middle.1 nodup).notMem
  have none : ∀ {l' : List α}, (∀ j ∈ l', j ∈ l1 ++ l2) → l'.flatMap f = [] := by
    intro l' within
    refine List.flatMap_eq_nil_iff.2 fun j mem' => ?_
    have mem' := within j mem'
    refine others j ?_ fun same => fresh (same ▸ mem')
    rcases List.mem_append.1 mem' with left | right
    · exact List.mem_append_left _ left
    · exact List.mem_append_right _ (List.mem_cons_of_mem _ right)
  rw [List.flatMap_append, List.flatMap_cons, none fun _ => List.mem_append_left _,
    none fun _ => List.mem_append_right _, List.append_nil, List.nil_append]

end Railscale
