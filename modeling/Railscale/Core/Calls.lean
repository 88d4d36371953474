import Railscale.Core.Yard

/-!
# Calls to the pool

`acquire`, `release` and `reap_expired` one after another, with nothing between the two accesses of an
`acquire`. The key that it removes is then still empty, so nothing is lost, and `acquire` gives the latest
connection that the books have for its key (`acquire_latest`).
-/

namespace Railscale

/-- The calls to the pool. -/
inductive Call (D : Type) where
  | acquire (key : Bytes)
  | release (key : Bytes) (dest : D)
  | reapExpired

namespace Yard

variable {D : Type}

/-- `acquire` from its beginning to its end. -/
def acquire (y : Yard D) (key : Bytes) (now : Nat) : Yard D :=
  let (dest, pool) := y.pool.acquire key now
  { y with pool := pool, clock := now, returned := y.book key dest }

/-- One call, at a time that is not before the last one. -/
def call (y : Yard D) (a : Nat × Call D) : Option (Yard D) :=
  if a.1 < y.clock then none
  else
    match a.2 with
    | .acquire key => some (y.acquire key a.1)
    | .release key dest => some (y.release key dest a.1)
    | .reapExpired => some (y.reapExpired a.1)

/-! ## The two accesses of a call -/

section calls

variable {y : Yard D} {now : Nat}

/-- `acquire` is its two accesses with nothing between them. -/
lemma acquire_eq (y : Yard D) (key : Bytes) (now : Nat) :
    y.acquire key now =
      if (y.pool.pop key now).1.emptied then (y.pop key now).remove key now else y.pop key now := by
  have whole : y.acquire key now = { y with
      pool := if (y.pool.pop key now).1.emptied then (y.pool.pop key now).2.remove key else (y.pool.pop key now).2
      clock := now
      returned := y.book key (y.pool.pop key now).1.dest } := rfl
  rw [whole, pop_eq]
  cases emptied : (y.pool.pop key now).1.emptied with
  | true =>
    simp only [if_true, remove, List.erase_cons_head]
  | false => rfl

/-- A whole call of `acquire` keeps the invariant and the accounting. -/
lemma acquire_keeps (inv : Inv y) (acc : Accounted y) (le : y.clock ≤ now) (key : Bytes) :
    Inv (y.acquire key now) ∧ Accounted (y.acquire key now) := by
  obtain ⟨inv', acc'⟩ := pop_keeps inv acc le key
  rw [acquire_eq]
  split
  · rename_i emptied
    refine ⟨inv'.remove key, (remove_accounted inv' acc' (Nat.le_refl _) key).2 ?_⟩
    intro conn mem
    -- nothing has come between, so the removed queue is the one that the loop has emptied
    have empty : (y.pop key now).pool.queue key = [] := Stabling.queue_emptied emptied
    rw [empty] at mem
    cases mem
  · exact ⟨inv', acc'⟩

/-- Calls keep the books right and lose nothing. -/
lemma call_keeps (inv : Inv y) (acc : Accounted y) {a : Nat × Call D} {y' : Yard D} (st : y.call a = some y') :
    Inv y' ∧ Accounted y' := by
  rw [call] at st
  split at st
  · cases st
  · rename_i le
    have le := Nat.le_of_not_lt le
    obtain ⟨now, call⟩ := a
    cases call with
    | acquire key =>
      cases st
      exact acquire_keeps inv acc le key
    | release key dest =>
      cases st
      exact release_keeps inv acc le key dest
    | reapExpired =>
      cases st
      exact reapExpired_keeps inv acc le

/-- The configuration stays. -/
lemma call_config {a : Nat × Call D} {y' : Yard D} (st : y.call a = some y') : y'.pool.config = y.pool.config := by
  rw [call] at st
  split at st
  · cases st
  · obtain ⟨now, call⟩ := a
    cases call with
    | acquire key =>
      cases st
      exact Stabling.config_acquire y.pool key now
    | release key dest =>
      cases st
      rw [release]
      split
      · exact Stabling.config_release y.pool key _ now
      · rfl
    | reapExpired =>
      cases st
      rfl

/-- A connection that may still be returned for the key: released under it, not returned, not evicted and
younger than `idle_timeout`. -/
structure Live (y : Yard D) (key : Bytes) (now : Nat) (r : Release D) : Prop where
  booked : r ∈ y.released
  key : r.key = key
  notReturned : r.number ∉ y.out
  notEvicted : r.number ∉ y.evicted
  young : now - r.stabledAt < y.pool.config.idleTimeout

/-- What is live is stored. -/
lemma Live.stored {key : Bytes} {r : Release D} (live : y.Live key now r) (acc : Accounted y) (le : y.clock ≤ now) :
    r.conn ∈ y.pool.queue key := by
  have young := live.young
  rcases acc r live.booked with stored | returned | gone | expired
  · rw [← live.key]
    exact stored
  · exact absurd returned live.notReturned
  · exact absurd gone live.notEvicted
  · omega

/-- `acquire` gives the latest live connection, if there is one. -/
lemma acquire_dest (inv : Inv y) (acc : Accounted y) (enabled : y.pool.config.enabled = true)
    (le : y.clock ≤ now) (key : Bytes) :
    ((y.pool.acquire key now).1 = none ∧ ∀ r, ¬ y.Live key now r) ∨
      ∃ r, (y.pool.acquire key now).1 = some (r.number, r.dest) ∧ y.Live key now r ∧
        ∀ r', y.Live key now r' → r'.number ≤ r.number := by
  have dest : (y.pool.acquire key now).1 = _ := (Stabling.pop_spec enabled key now).1
  rcases Stabling.popLoop_cases (y.pool.fresh now) (y.pool.queue key) with
    ⟨loop, stale⟩ | ⟨old, conn, rest, whole, loop, fresh, stale⟩
  · refine .inl ⟨by rw [dest, loop], fun r live => ?_⟩
    have expired := Stabling.fresh_eq_false.1 (stale _ (live.stored acc le))
    exact absurd live.young (Nat.not_lt.2 expired)
  · have mem : conn ∈ y.pool.queue key := by
      rw [whole]
      exact List.mem_append_right _ List.mem_cons_self
    have sorted := inv.sorted key
    rw [whole, List.pairwise_append, List.pairwise_cons] at sorted
    obtain ⟨r, booked, key', rfl, notOut, notEvicted⟩ := inv.stored key conn mem
    refine .inr ⟨r, by rw [dest, loop]; rfl, ⟨booked, key', notOut, notEvicted, of_decide_eq_true fresh⟩, ?_⟩
    intro r' live
    -- a live connection in front would be fresh, and those behind have lower numbers
    have stored := live.stored acc le
    rw [whole] at stored
    rcases List.mem_append.1 stored with stored | stored
    · have expired := Stabling.fresh_eq_false.1 (stale _ stored)
      exact absurd live.young (Nat.not_lt.2 expired)
    · rcases List.mem_cons.1 stored with same | stored
      · exact Nat.le_of_eq (congrArg (·.dest.1) same)
      · exact Nat.le_of_lt (sorted.2.1.1 _ stored)

end calls

/-- After any calls with an enabled pool, `acquire` returns the connection with the highest number among those
released under the key that were not returned, not evicted and are younger than `idle_timeout`, and `None`
exactly when there are none; and what was returned was returned once, for the key it was released under. -/
theorem acquire_latest {config : StablingConfig} (enabled : config.enabled = true) {as : List (Nat × Call D)}
    {y : Yard D} (run : Run call (new config) as y) (key : Bytes) {now : Nat} (le : y.clock ≤ now) :
    (∀ n d, (y.pool.acquire key now).1 = some (n, d) ↔
      ∃ r, y.Live key now r ∧ r.number = n ∧ r.dest = d ∧ ∀ r', y.Live key now r' → r'.number ≤ n) ∧
    ((y.pool.acquire key now).1 = none ↔ ∀ r, ¬ y.Live key now r) ∧
    (y.returned.map Prod.fst).Nodup ∧
    ∀ n k, (n, k) ∈ y.returned → ∃ r ∈ y.released, r.number = n ∧ r.key = k := by
  obtain ⟨inv, acc, same⟩ : Inv y ∧ Accounted y ∧ y.pool.config = config := by
    refine run.invariant (P := fun y => Inv y ∧ Accounted y ∧ y.pool.config = config) ?_ ⟨Inv.new config, nofun, rfl⟩
    rintro s a s' ⟨inv, acc, same⟩ st
    obtain ⟨inv', acc'⟩ := call_keeps inv acc st
    exact ⟨inv', acc', (call_config st).trans same⟩
  rw [← same] at enabled
  refine ⟨?_, ?_, inv.once, inv.given⟩
  · intro n d
    rcases acquire_dest inv acc enabled le key with ⟨nothing, noLive⟩ | ⟨r, dest, live, latest⟩
    · rw [nothing]
      refine iff_of_false nofun ?_
      rintro ⟨r, live, -⟩
      exact noLive r live
    · rw [dest]
      constructor
      · intro e
        cases e
        exact ⟨r, live, rfl, rfl, latest⟩
      · rintro ⟨r', live', rfl, rfl, latest'⟩
        have same : r = r' :=
          inv.unique live.booked live'.booked (Nat.le_antisymm (latest' r live) (latest r' live'))
        rw [same]
  · rcases acquire_dest inv acc enabled le key with ⟨nothing, noLive⟩ | ⟨r, dest, live, -⟩
    · exact iff_of_true nothing noLive
    · refine iff_of_false ?_ fun noLive => noLive r live
      rw [dest]
      nofun

/-- Two releases and a return: the first connection is next. -/
theorem acquire_latest_second :
    ∃ y : Yard Unit, Run call (new {}) [(0, .release [107] ()), (1, .release [107] ()), (2, .acquire [107])] y ∧
      y.returned = [(1, [107])] ∧ ((y.pool.acquire [107] 3).1 = none ↔ ∀ r, ¬ y.Live [107] 3 r) ∧
      (y.pool.acquire [107] 3).1 = some (0, ()) := by
  obtain ⟨y, run, returned, dest, clock⟩ : ∃ y : Yard Unit,
      Run call (new {}) [(0, .release [107] ()), (1, .release [107] ()), (2, .acquire [107])] y ∧
        y.returned = [(1, [107])] ∧ (y.pool.acquire [107] 3).1 = some (0, ()) ∧ y.clock = 2 :=
    ⟨_, .of_exec rfl, rfl, rfl, rfl⟩
  have le : y.clock ≤ 3 := by
    rw [clock]
    decide
  exact ⟨y, run, returned, (acquire_latest rfl run [107] le).2.1, dest⟩

end Yard

end Railscale
