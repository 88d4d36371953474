import Railscale.Core.IdleCount

/-!
# The reaper

Two pools that get the same calls, where one of them is reaped now and then. The queues of the reaped pool are
those of the other without some of their oldest connections, and these are past `idle_timeout` (`Reaped`). No
`acquire` returns them; and a `release` that finds the longer queue full evicts one of them, so that the reaped
pool does not keep what the other one loses. `answers_reaped` says that the calls cannot tell the two apart.
-/

namespace Railscale

/-- A run of the reaper. -/
def Call.isReap {D : Type} : Call D → Bool
  | .reapExpired => true
  | _ => false

namespace Stabling

variable {D : Type}

/-- What the calls of `acquire` return, in order. -/
def answers : Stabling D → List (Nat × Call D) → List (Option D)
  | _, [] => []
  | s, (now, .acquire key) :: as => (s.acquire key now).1 :: answers (s.acquire key now).2 as
  | s, (now, .release key dest) :: as => answers (s.release key dest now) as
  | s, (now, .reapExpired) :: as => answers (s.reapExpired now) as

/-! ## The queues of a pool -/

/-- A queue has its latest connection in front, and is within the bound that `release` keeps. -/
structure Ordered (s : Stabling D) (now : Nat) : Prop where
  sorted : ∀ k, (s.queue k).Pairwise fun conn conn' => conn'.stabledAt ≤ conn.stabledAt
  past : ∀ k, ∀ conn ∈ s.queue k, conn.stabledAt ≤ now
  bound : ∀ k, (s.queue k).length ≤ max 1 s.config.maxIdlePerHost

/-- `reaped` is `s` without some connections that are past `idle_timeout`. -/
structure Reaped (now : Nat) (s reaped : Stabling D) : Prop where
  config : reaped.config = s.config
  queue : ∀ k, ∃ old, s.queue k = reaped.queue k ++ old ∧ ∀ conn ∈ old, s.fresh now conn = false

/-- What has expired stays so. -/
lemma fresh_later {s : Stabling D} {now later : Nat} {conn : StabledConnection D} (le : now ≤ later)
    (stale : s.fresh now conn = false) : s.fresh later conn = false := by
  rw [fresh_eq_false] at stale ⊢
  omega

/-- Only the configuration says what is fresh. -/
lemma fresh_congr {s s' : Stabling D} (same : s'.config = s.config) (now : Nat) : s'.fresh now = s.fresh now := by
  funext conn
  rw [fresh, fresh, same]

/-- In a queue with the latest connection in front, those past `idle_timeout` are at the end. -/
lemma filter_fresh_append (s : Stabling D) (now : Nat) {q : List (StabledConnection D)}
    (sorted : q.Pairwise fun conn conn' => conn'.stabledAt ≤ conn.stabledAt) :
    ∃ old, q = q.filter (s.fresh now) ++ old ∧ ∀ conn ∈ old, s.fresh now conn = false := by
  induction q with
  | nil => exact ⟨[], rfl, nofun⟩
  | cons conn q ih =>
    obtain ⟨later, sorted⟩ := List.pairwise_cons.1 sorted
    cases isFresh : s.fresh now conn with
    | true =>
      obtain ⟨old, whole, stale⟩ := ih sorted
      refine ⟨old, ?_, stale⟩
      rw [List.filter_cons_of_pos isFresh, List.cons_append, ← whole]
    | false =>
      -- what is behind an old connection is older still
      have stale : ∀ conn' ∈ conn :: q, s.fresh now conn' = false := by
        intro conn' mem
        rcases List.mem_cons.1 mem with rfl | mem
        · exact isFresh
        · have older := later conn' mem
          rw [fresh_eq_false] at isFresh ⊢
          omega
      refine ⟨conn :: q, ?_, stale⟩
      rw [List.filter_eq_nil_iff.2 fun conn' mem => ne_true_of_eq_false (stale conn' mem)]
      rfl

/-- The loop of `acquire` does not get to what it would drop at the end of a queue. -/
lemma popLoop_append {fresh : StabledConnection D → Bool} {old : List (StabledConnection D)}
    (stale : ∀ conn ∈ old, fresh conn = false) (q : List (StabledConnection D)) :
    (popLoop fresh (q ++ old)).1 = (popLoop fresh q).1 ∧
      ∃ old', (popLoop fresh (q ++ old)).2 = (popLoop fresh q).2 ++ old' ∧ old' ⊆ old := by
  induction q with
  | nil =>
    rcases popLoop_cases fresh old with ⟨loop, -⟩ | ⟨front, conn, rest, rfl, -, isFresh, -⟩
    · refine ⟨by rw [List.nil_append, loop]; rfl, [], ?_, List.nil_subset _⟩
      rw [List.nil_append, loop]
      rfl
    · have isStale := stale conn (List.mem_append_right _ List.mem_cons_self)
      exact nomatch isStale.symm.trans isFresh
  | cons conn q ih =>
    rw [List.cons_append, popLoop, popLoop]
    split
    · exact ⟨rfl, old, rfl, List.Subset.refl _⟩
    · exact ih

/-! ## One call -/

section calls

variable {s reaped : Stabling D} {now later : Nat}

/-- A new pool is ordered. -/
lemma Ordered.new (config : StablingConfig) : Ordered (new config : Stabling D) 0 where
  sorted k := by
    rw [queue_new]
    exact .nil
  past k conn mem := by
    rw [queue_new] at mem
    cases mem
  bound k := by
    rw [queue_new]
    exact Nat.zero_le _

/-- Queues that have only become shorter. -/
lemma Ordered.shrink (ord : Ordered s now) (le : now ≤ later) {s' : Stabling D} (same : s'.config = s.config)
    (sub : ∀ k, (s'.queue k).Sublist (s.queue k)) : Ordered s' later where
  sorted k := (ord.sorted k).sublist (sub k)
  past k conn mem := Nat.le_trans (ord.past k conn ((sub k).subset mem)) le
  bound k := by
    rw [same]
    exact Nat.le_trans (sub k).length_le (ord.bound k)

/-- A call of `acquire` keeps the order. -/
lemma Ordered.acquire (ord : Ordered s now) (le : now ≤ later) (key : Bytes) :
    Ordered (s.acquire key later).2 later := by
  refine ord.shrink le (config_acquire s key later) fun k => ?_
  cases enabled : s.config.enabled with
  | false => rw [acquire_disabled enabled]
  | true =>
    rw [(acquire_spec enabled key later).2]
    split
    · rename_i same
      subst same
      rcases popLoop_cases (s.fresh later) (s.queue k) with ⟨loop, -⟩ | ⟨old, conn, rest, whole, loop, -⟩
      · rw [loop]
        exact List.nil_sublist _
      · rw [loop, whole]
        exact (List.sublist_cons_self conn rest).trans (List.sublist_append_right old _)
    · exact List.Sublist.refl _

/-- A release puts the latest connection in front. -/
lemma Ordered.release (ord : Ordered s now) (le : now ≤ later) (key : Bytes) (dest : D) :
    Ordered (s.release key dest later) later := by
  cases enabled : s.config.enabled with
  | false =>
    rw [release_disabled enabled]
    exact ord.shrink le rfl fun _ => List.Sublist.refl _
  | true =>
    have sub := kept_sublist s key
    refine ⟨fun k => ?_, fun k => ?_, fun k => ?_⟩
    · rw [queue_release enabled]
      split
      · refine List.pairwise_cons.2 ⟨fun conn mem => ?_, (ord.sorted key).sublist sub⟩
        exact Nat.le_trans (ord.past key conn (sub.subset mem)) le
      · exact ord.sorted k
    · rw [queue_release enabled]
      split
      · refine List.forall_mem_cons.2 ⟨Nat.le_refl _, fun conn mem => ?_⟩
        exact Nat.le_trans (ord.past key conn (sub.subset mem)) le
      · exact fun conn mem => Nat.le_trans (ord.past k conn mem) le
    · rw [queue_release enabled, config_release]
      split
      · have bound := ord.bound key
        rw [List.length_cons, length_kept]
        split
        · omega
        · omega
      · exact ord.bound k

/-- Nothing needs to have been reaped. -/
lemma Reaped.refl (s : Stabling D) (now : Nat) : Reaped now s s where
  config := rfl
  queue _ := ⟨[], (List.append_nil _).symm, nofun⟩

/-- What the reaper drops is past `idle_timeout`. -/
lemma Reaped.reapExpired (r : Reaped now s reaped) (ord : Ordered s now) (le : now ≤ later) :
    Reaped later s (reaped.reapExpired later) where
  config := r.config
  queue k := by
    obtain ⟨old, whole, stale⟩ := r.queue k
    have sorted := ord.sorted k
    rw [whole] at sorted
    obtain ⟨old', whole', stale'⟩ :=
      filter_fresh_append s later (sorted.sublist (List.sublist_append_left _ _))
    rw [queue_reapExpired, fresh_congr r.config]
    refine ⟨old' ++ old, ?_, fun conn mem => ?_⟩
    · rw [← List.append_assoc, ← whole']
      exact whole
    · rcases List.mem_append.1 mem with mem | mem
      · exact stale' conn mem
      · exact fresh_later le (stale conn mem)

/-- `acquire` returns the same from both pools. -/
lemma Reaped.acquire (r : Reaped now s reaped) (le : now ≤ later) (key : Bytes) :
    (reaped.acquire key later).1 = (s.acquire key later).1 ∧
      Reaped later (s.acquire key later).2 (reaped.acquire key later).2 := by
  have config : (reaped.acquire key later).2.config = (s.acquire key later).2.config := by
    rw [config_acquire, config_acquire, r.config]
  have later_fresh := fresh_congr (config_acquire s key later) later
  cases enabled : s.config.enabled with
  | false =>
    have enabled' : reaped.config.enabled = false := by rw [r.config, enabled]
    rw [acquire_disabled enabled, acquire_disabled enabled']
    refine ⟨rfl, r.config, fun k => ?_⟩
    obtain ⟨old, whole, stale⟩ := r.queue k
    exact ⟨old, whole, fun conn mem => fresh_later le (stale conn mem)⟩
  | true =>
    have enabled' : reaped.config.enabled = true := by rw [r.config, enabled]
    obtain ⟨dest, queues⟩ := acquire_spec enabled key later
    obtain ⟨dest', queues'⟩ := acquire_spec enabled' key later
    rw [fresh_congr r.config] at dest' queues'
    obtain ⟨old, whole, stale⟩ := r.queue key
    have stale := fun conn mem => fresh_later le (stale conn mem)
    obtain ⟨same, old', rest, sub⟩ := popLoop_append stale (reaped.queue key)
    rw [← whole] at same rest
    refine ⟨by rw [dest, dest', same], config, fun k => ?_⟩
    rw [queues, queues', later_fresh]
    split
    · exact ⟨old', rest, fun conn mem => stale conn (sub mem)⟩
    · obtain ⟨old, whole, stale⟩ := r.queue k
      exact ⟨old, whole, fun conn mem => fresh_later le (stale conn mem)⟩

/-- What a release keeps: when the two queues differ, the longer one loses an old connection or has room, and
the shorter one has room. -/
lemma Reaped.kept (r : Reaped now s reaped) (ord : Ordered s now) (key : Bytes) :
    ∃ old, s.kept key = reaped.kept key ++ old ∧ ∀ conn ∈ old, s.fresh now conn = false := by
  obtain ⟨old, whole, stale⟩ := r.queue key
  by_cases same : old = []
  · rw [same, List.append_nil] at whole
    refine ⟨[], ?_, nofun⟩
    rw [Stabling.kept, Stabling.kept, r.config, whole, List.append_nil]
  · have keeps : reaped.kept key = reaped.queue key := by
      have bound := ord.bound key
      have pos := List.length_pos_iff.2 same
      rw [whole, List.length_append] at bound
      rw [Stabling.kept, r.config]
      split
      -- a queue without room is full with `max_idle_per_host` zero, and then it is empty
      · have empty : reaped.queue key = [] := List.eq_nil_of_length_eq_zero (by omega)
        rw [empty]
        rfl
      · rfl
    rw [keeps, Stabling.kept, whole]
    split
    · refine ⟨old.dropLast, List.dropLast_append_of_ne_nil same, fun conn mem => ?_⟩
      exact stale conn (List.dropLast_subset _ mem)
    · exact ⟨old, rfl, stale⟩

/-- A release is the same in both pools, up to what has expired. -/
lemma Reaped.release (r : Reaped now s reaped) (ord : Ordered s now) (le : now ≤ later) (key : Bytes) (dest : D) :
    Reaped later (s.release key dest later) (reaped.release key dest later) where
  config := by rw [config_release, config_release, r.config]
  queue k := by
    rw [fresh_congr (config_release s key dest later)]
    cases enabled : s.config.enabled with
    | false =>
      have enabled' : reaped.config.enabled = false := by rw [r.config, enabled]
      rw [release_disabled enabled, release_disabled enabled']
      obtain ⟨old, whole, stale⟩ := r.queue k
      exact ⟨old, whole, fun conn mem => fresh_later le (stale conn mem)⟩
    | true =>
      have enabled' : reaped.config.enabled = true := by rw [r.config, enabled]
      rw [queue_release enabled, queue_release enabled']
      split
      · obtain ⟨old, whole, stale⟩ := r.kept ord key
        refine ⟨old, ?_, fun conn mem => fresh_later le (stale conn mem)⟩
        rw [whole]
        rfl
      · obtain ⟨old, whole, stale⟩ := r.queue k
        exact ⟨old, whole, fun conn mem => fresh_later le (stale conn mem)⟩

end calls

/-! ## Whole runs -/

/-- The answers are those of the run without its reaps. -/
lemma answers_eq {s reaped : Stabling D} {now : Nat} (r : Reaped now s reaped) (ord : Ordered s now)
    {as : List (Nat × Call D)} (times : (now :: as.map Prod.fst).Pairwise (· ≤ ·)) :
    reaped.answers as = s.answers (as.filter fun a => !a.2.isReap) := by
  induction as generalizing s reaped now with
  | nil => rfl
  | cons a as ih =>
    obtain ⟨later, call⟩ := a
    obtain ⟨first, times⟩ := List.pairwise_cons.1 times
    have le : now ≤ later := first later List.mem_cons_self
    cases call with
    | acquire key =>
      obtain ⟨same, r'⟩ := r.acquire le key
      show _ :: _ = _ :: _
      rw [same, ih r' (ord.acquire le key) times]
    | release key dest => exact ih (r.release ord le key dest) (ord.release le key dest) times
    | reapExpired =>
      have ord' : Ordered s later := ord.shrink le rfl fun _ => List.Sublist.refl _
      exact ih (r.reapExpired ord le) ord' times

/-- Runs of the reaper among some calls of `release` and `acquire` do not change what the calls of `acquire`
return. -/
theorem answers_reaped {config : StablingConfig} {calls as : List (Nat × Call D)}
    (times : (as.map Prod.fst).Pairwise (· ≤ ·)) (inserted : as.filter (fun a => !a.2.isReap) = calls) :
    (new config : Stabling D).answers as = (new config : Stabling D).answers calls := by
  rw [← inserted]
  exact answers_eq (.refl _ 0) (.new config) (List.pairwise_cons.2 ⟨fun _ _ => Nat.zero_le _, times⟩)

/-- A full queue whose oldest connection is reaped before the next release. -/
theorem answers_reaped_full :
    let calls : List (Nat × Call Nat) :=
      [(0, .release [107] 0), (5, .release [107] 1), (12, .release [107] 2), (13, .acquire [107]), (14, .acquire [107]),
        (14, .acquire [107])]
    let as := (calls.take 2) ++ (11, .reapExpired) :: calls.drop 2
    let s : Stabling Nat := new { maxIdlePerHost := 2, idleTimeout := 10 }
    s.answers as = s.answers calls ∧ s.answers as = [some 2, some 1, none] := by
  refine ⟨answers_reaped ?_ rfl, rfl⟩
  decide

end Stabling

end Railscale
