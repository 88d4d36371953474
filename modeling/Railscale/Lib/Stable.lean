import Mathlib.Data.List.Destutter
import Mathlib.Order.Lattice

/-!
# Stable sorting

A list that is sorted by a key, and that has kept its order inside every key, is one list only (`eq_of_sorted`). A
stable sort makes it, so sorting a part first makes no difference (`sortBy_append_sortBy`), and it is the keys in order
with what each of them has (`eq_flatMap_having`).
-/

namespace Railscale.Stable

variable {α κ : Type} [LinearOrder κ] {key : α → κ}

/-- Sort by a key, stably. -/
def sortBy (key : α → κ) (l : List α) : List α := l.mergeSort fun a b => decide (key a ≤ key b)

/-- The elements with a key. -/
def having (key : α → κ) (k : κ) (l : List α) : List α := l.filter fun a => decide (key a = k)

/-- Sorted by the key. -/
def SortedBy (key : α → κ) (l : List α) : Prop := l.Pairwise fun a b => key a ≤ key b

/-- Those with a key in two lists, one behind the other. -/
lemma having_append (k : κ) (l m : List α) : having key k (l ++ m) = having key k l ++ having key k m :=
  List.filter_append l m

/-- An element with the key is the first of them. -/
lemma having_cons {k : κ} {a : α} (here : key a = k) (l : List α) : having key k (a :: l) = a :: having key k l :=
  List.filter_cons_of_pos (decide_eq_true here)

/-- An element with the key is in the list and has the key. -/
lemma key_of_mem_having {k : κ} {l : List α} {a : α} (mem : a ∈ having key k l) : a ∈ l ∧ key a = k := by
  obtain ⟨inside, same⟩ := List.mem_filter.1 mem
  exact ⟨inside, of_decide_eq_true same⟩

/-- Sorting permutes the list. -/
lemma sortBy_perm (l : List α) : (sortBy key l).Perm l := List.mergeSort_perm l _

/-- A sorted list is sorted. -/
lemma sortedBy_sortBy (l : List α) : SortedBy key (sortBy key l) := by
  have sorted : (sortBy key l).Pairwise fun a b => decide (key a ≤ key b) = true := List.pairwise_mergeSort
    (fun a b c => by simp only [decide_eq_true_eq]; exact le_trans)
    (fun a b => by simp only [Bool.or_eq_true, decide_eq_true_eq]; exact le_total _ _) l
  exact sorted.imp of_decide_eq_true

/-- The order inside a key is kept. -/
lemma having_sortBy (k : κ) (l : List α) : having key k (sortBy key l) = having key k l := by
  have flat : (having key k l).Pairwise fun a b => decide (key a ≤ key b) = true := by
    refine List.pairwise_of_forall_mem_list fun a ha b hb => ?_
    rw [(key_of_mem_having ha).2, (key_of_mem_having hb).2]
    exact decide_eq_true (le_refl k)
  have sub : (having key k l).Sublist (sortBy key l) :=
    List.sublist_mergeSort (fun a b c => by simp only [decide_eq_true_eq]; exact le_trans)
      (fun a b => by simp only [Bool.or_eq_true, decide_eq_true_eq]; exact le_total _ _) flat List.filter_sublist
  have inside : (having key k l).Sublist (having key k (sortBy key l)) := by
    have kept := sub.filter fun a => decide (key a = k)
    rw [having, List.filter_filter] at kept
    simp only [Bool.and_self] at kept
    exact kept
  have len : (having key k (sortBy key l)).length = (having key k l).length := ((sortBy_perm l).filter _).length_eq
  exact (inside.eq_of_length len.symm).symm

/-- What is sorted by a key, and the order inside each key, is the list. -/
theorem eq_of_sorted {l m : List α} (sl : SortedBy key l) (sm : SortedBy key m)
    (same : ∀ k, having key k l = having key k m) : l = m := by
  induction l generalizing m with
  | nil =>
    cases m with
    | nil => rfl
    | cons b m =>
      have none := same (key b)
      rw [having_cons rfl] at none
      cases none
  | cons a l ih =>
    cases m with
    | nil =>
      have none := same (key a)
      rw [having_cons rfl] at none
      cases none
    | cons b m =>
      obtain ⟨al, tl⟩ := List.pairwise_cons.1 sl
      obtain ⟨bm, tm⟩ := List.pairwise_cons.1 sm
      -- each of the two heads is somewhere in the other list
      have ha : a ∈ b :: m := by
        have mem : a ∈ having key (key a) (a :: l) := List.mem_filter.2 ⟨List.mem_cons_self, decide_eq_true rfl⟩
        rw [same] at mem
        exact (key_of_mem_having mem).1
      have hb : b ∈ a :: l := by
        have mem : b ∈ having key (key b) (b :: m) := List.mem_filter.2 ⟨List.mem_cons_self, decide_eq_true rfl⟩
        rw [← same] at mem
        exact (key_of_mem_having mem).1
      have le : key b ≤ key a := by
        rcases List.mem_cons.1 ha with rfl | ha
        · exact le_refl _
        · exact bm a ha
      have ge : key a ≤ key b := by
        rcases List.mem_cons.1 hb with rfl | hb
        · exact le_refl _
        · exact al b hb
      have keys : key a = key b := le_antisymm ge le
      have heads := same (key a)
      rw [having_cons rfl, having_cons keys.symm] at heads
      obtain ⟨rfl, -⟩ := List.cons.inj heads
      have rest : ∀ k, having key k l = having key k m := by
        intro k
        have all := same k
        rw [having, having, List.filter_cons, List.filter_cons] at all
        split at all
        · exact (List.cons.inj all).2
        · exact all
      have tails : l = m := ih tl tm rest
      rw [tails]

/-- Sorting a part first makes no difference. -/
theorem sortBy_append_sortBy (l m : List α) : sortBy key (sortBy key l ++ m) = sortBy key (l ++ m) := by
  refine eq_of_sorted (sortedBy_sortBy _) (sortedBy_sortBy _) fun k => ?_
  rw [having_sortBy, having_sortBy, having_append, having_append, having_sortBy]

/-! ## The keys in order -/

/-- The keys of a sorted list, each of them once. -/
def keys (key : α → κ) (l : List α) : List κ := (l.map key).destutter (· ≠ ·)

/-- The keys of a sorted list are its keys without duplicates. -/
lemma keys_eq_dedup {l : List α} (sorted : SortedBy key l) : keys key l = (l.map key).dedup :=
  (List.pairwise_map.2 sorted : (l.map key).Pairwise (· ≤ ·)).destutter_eq_dedup

/-- The keys are in order, each of them once. -/
lemma keys_sorted {l : List α} (sorted : SortedBy key l) : (keys key l).Pairwise (· < ·) := by
  rw [keys_eq_dedup sorted]
  have le : (l.map key).dedup.Pairwise (· ≤ ·) := (List.pairwise_map.2 sorted).sublist (List.dedup_sublist _)
  have ne : (l.map key).dedup.Pairwise (· ≠ ·) := List.nodup_dedup _
  exact (le.and ne).imp fun both => lt_of_le_of_ne both.1 both.2

/-- The keys are those of the elements. -/
lemma mem_keys {l : List α} (sorted : SortedBy key l) {k : κ} : k ∈ keys key l ↔ ∃ a ∈ l, key a = k := by
  rw [keys_eq_dedup sorted, List.mem_dedup, List.mem_map]

/-- Elements grouped by increasing keys are sorted. -/
lemma sortedBy_flatMap {ks : List κ} (sorted : ks.Pairwise (· < ·)) (l : List α) :
    SortedBy key (ks.flatMap fun k => having key k l) := by
  induction ks with
  | nil => exact .nil
  | cons k ks ih =>
    obtain ⟨less, sorted⟩ := List.pairwise_cons.1 sorted
    rw [List.flatMap_cons]
    refine List.pairwise_append.2 ⟨?_, ih sorted, fun a ha b hb => ?_⟩
    · refine List.pairwise_of_forall_mem_list fun a ha b hb => ?_
      rw [(key_of_mem_having ha).2, (key_of_mem_having hb).2]
    · obtain ⟨k', mem, hb⟩ := List.mem_flatMap.1 hb
      rw [(key_of_mem_having ha).2, (key_of_mem_having hb).2]
      exact le_of_lt (less k' mem)

/-- Of the elements with one key, all or none have another. -/
lemma having_having (k k' : κ) (l : List α) :
    having key k (having key k' l) = if k' = k then having key k l else [] := by
  rw [having, having, List.filter_filter]
  split
  · rename_i same
    simp only [same, Bool.and_self]
    rfl
  · rename_i other
    refine List.filter_eq_nil_iff.2 fun a _ both => ?_
    simp only [Bool.and_eq_true, decide_eq_true_eq] at both
    exact other (both.2.symm.trans both.1)

/-- Of the elements grouped by keys, those with one key are its group. -/
lemma having_flatMap {ks : List κ} (sorted : ks.Pairwise (· < ·)) (k : κ) (l : List α) :
    having key k (ks.flatMap fun k => having key k l) = if k ∈ ks then having key k l else [] := by
  induction ks with
  | nil => rfl
  | cons k' ks ih =>
    obtain ⟨less, sorted⟩ := List.pairwise_cons.1 sorted
    rw [List.flatMap_cons, having_append, ih sorted, having_having]
    by_cases here : k' = k
    · subst here
      have once : k' ∉ ks := fun mem => lt_irrefl _ (less k' mem)
      rw [if_pos rfl, if_neg once, if_pos List.mem_cons_self, List.append_nil]
    · rw [if_neg here, List.nil_append]
      simp only [List.mem_cons, Ne.symm here, false_or]

/-- A sorted list is the keys in order, with what each of them has. -/
theorem eq_flatMap_having {l : List α} (sorted : SortedBy key l) :
    l = (keys key l).flatMap fun k => having key k l := by
  refine eq_of_sorted sorted (sortedBy_flatMap (keys_sorted sorted) l) fun k => ?_
  rw [having_flatMap (keys_sorted sorted)]
  split
  · rfl
  · rename_i none
    refine List.filter_eq_nil_iff.2 fun a mem here => none ?_
    exact (mem_keys sorted).2 ⟨a, mem, of_decide_eq_true here⟩

end Railscale.Stable
